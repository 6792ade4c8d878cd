import FabAccess.Console.Properties.Replica

/-!
# 途切れない publish

書きかけの producer がいない間に始まり、ほかの誰も動かない `publish` は、届いた client の写しを今の値に
そろえる。

* `solo_updatedOnly` — 表の全体を読み終える
* `publish_synchronises` — 届いた client の写しは、表のどの object についても今の値である
-/

namespace FabAccess.Console

open Infra Infra.System

variable {F V : Type} [DecidableEq F] {all : List F} {board board' board'' : Board F V}

/-- `is_dirty` を下ろすほかは、何も変えない。 -/
structure Kept (board board' : Board F V) : Prop where
  watchers : board'.watchers = board.watchers
  data : board'.data = board.data
  fields : ∀ object, (board'.objects object).fields = (board.objects object).fields
  clean : ∀ object, (board.objects object).isDirty = false →
    (board'.objects object).isDirty = false

omit [DecidableEq F] in
theorem Kept.refl (board : Board F V) : Kept board board :=
  ⟨rfl, rfl, fun _ => rfl, fun _ h => h⟩

omit [DecidableEq F] in
theorem Kept.trans (h : Kept board board') (h' : Kept board' board'') : Kept board board'' where
  watchers := h'.watchers.trans h.watchers
  data := h'.data.trans h.data
  fields object := (h'.fields object).trans (h.fields object)
  clean object hclean := h'.clean object (h.clean object hclean)

omit [DecidableEq F] in
theorem kept_takeUnsent (board : Board F V) (object : Nat) :
    Kept board (board.setObject object { board.objects object with isDirty := false }) where
  watchers := rfl
  data := rfl
  fields object' := by
    by_cases h : object' = object
    · subst h
      rw [Board.setObject_self]
    · rw [Board.setObject_of_ne h]
  clean object' hclean := by
    by_cases h : object' = object
    · subst h
      rw [Board.setObject_self]
    · rw [Board.setObject_of_ne h]
      exact hclean

/-! ## 読み終えるまで -/

theorem solo_left (all : List F) {id object : Nat} (hobject : board.data.lookup id = some object)
    (todo : List Nat) (left : List F) (staged : View F V) :
    ∃ staged', (console all).Solo .go (board, .reading .updatedOnly todo id left staged)
      (board, .reading .updatedOnly todo id [] staged') := by
  induction left generalizing staged with
  | nil => exact ⟨staged, Solo.refl _⟩
  | cons f left ih =>
    obtain ⟨staged', hrest⟩ := ih fun id' f' =>
      if id' = id ∧ f' = f then some ((board.objects object).fields f) else staged id' f'
    refine ⟨staged', Solo.cons ?_ hrest⟩
    show Board.next all board (.reading .updatedOnly todo id (f :: left) staged) .go = _
    simp only [Board.next, hobject]

/-- `id` の object を読み終えると、`is_dirty` は下りている。 -/
theorem solo_object (all : List F) {id object : Nat} (hobject : board.data.lookup id = some object)
    (todo : List Nat) (id₀ : Nat) (staged : View F V) :
    ∃ board' staged', (console all).Solo .go
        (board, .reading .updatedOnly (id :: todo) id₀ [] staged)
        (board', .reading .updatedOnly todo id [] staged') ∧
      Kept board board' ∧ (board'.objects object).isDirty = false := by
  by_cases hdirty : (board.objects object).isDirty = true
  · have hkept := kept_takeUnsent board object
    have hobject' : (board.setObject object { board.objects object with
        isDirty := false }).data.lookup id = some object := hobject
    obtain ⟨staged', hleft⟩ := solo_left all hobject' todo all staged
    refine ⟨_, staged', Solo.cons ?_ hleft, hkept, by rw [Board.setObject_self]⟩
    show Board.next all board (.reading .updatedOnly (id :: todo) id₀ [] staged) .go = _
    simp only [Board.next, Board.visit, hobject, if_pos hdirty]
  · refine ⟨board, staged, Solo.cons ?_ (Solo.refl _), Kept.refl board, by simpa using hdirty⟩
    show Board.next all board (.reading .updatedOnly (id :: todo) id₀ [] staged) .go = _
    simp only [Board.next, Board.visit, hobject, if_neg hdirty]

/-- 表を辿り終えると、辿った id の下の object の `is_dirty` は、みな下りている。 -/
theorem solo_updatedOnly (all : List F) (todo : List Nat) (htodo : ∀ id ∈ todo, id ∈ board.data)
    (id₀ : Nat)
    (staged : View F V) :
    ∃ board' id' staged', (console all).Solo .go
        (board, .reading .updatedOnly todo id₀ [] staged)
        (board', .reading .updatedOnly [] id' [] staged') ∧
      Kept board board' ∧ ∀ id ∈ todo, ∀ object, board.data.lookup id = some object →
        (board'.objects object).isDirty = false := by
  induction todo generalizing board id₀ staged with
  | nil =>
    refine ⟨board, id₀, staged, Solo.refl _, Kept.refl board, fun id hid => ?_⟩
    cases hid
  | cons id todo ih =>
    obtain ⟨object, hobject⟩ := Finmap.mem_iff.mp (htodo id (List.mem_cons_self ..))
    obtain ⟨board₁, staged₁, hvisit, hkept₁, hclean₁⟩ := solo_object all hobject todo id₀ staged
    obtain ⟨board₂, id', staged₂, hrest, hkept₂, hclean₂⟩ := ih
      (fun id'' hid => hkept₁.data ▸ htodo id'' (List.mem_cons_of_mem _ hid)) id staged₁
    refine ⟨board₂, id', staged₂, hvisit.trans hrest, hkept₁.trans hkept₂, ?_⟩
    intro id'' hid object' hobject'
    rcases List.mem_cons.mp hid with rfl | hid
    · rw [hobject] at hobject'
      cases hobject'
      exact hkept₂.clean object hclean₁
    · exact hclean₂ id'' hid object' (hkept₁.data ▸ hobject')

/-! ## publish の全体 -/

/--
**書きかけの producer がいなければ、`publish` は途切れずに終わり、届いた client の写しは、表のどの
object についても今の値になる。**
-/
theorem publish_synchronises {fields : F → V} {c : Config (Board F V) (Party F V)}
    {ms : List (Move (Producing F V) (Pick V))}
    (hrun : (console all).run (consoleStart fields) ms = some c) {n : Nat}
    (hidle : c.threads[n]? = some .idle)
    (hquiet : ∀ object left written, .producer object left written ∈ c.threads → written = [])
    {order : List Nat} (hnodup : order.Nodup) (horder : order.toFinset = c.shared.data.keys)
    (hwatchers : c.shared.watchers ≠ []) (watch : Nat) (delivers : Nat → Bool) :
    ∃ k e, (console all).run c (.exec n (.start .updatedOnly order) ::
        (List.replicate k (.exec n .go) ++ [.exec n (.send watch delivers)])) = some e ∧
      e.shared.watchers.map Prod.fst = (c.shared.watchers.map Prod.fst).filter delivers ∧
      ∀ w ∈ e.shared.watchers, ∀ id object, c.shared.data.lookup id = some object →
        ∀ f ∈ all, w.2 id f = some ((c.shared.objects object).fields f) := by
  have hlt := (List.getElem?_eq_some_iff.mp hidle).1
  have hstart : (console all).step c (.exec n (.start .updatedOnly order)) =
      some ⟨c.shared, c.threads.set n (.reading .updatedOnly order 0 [] fun _ _ => none)⟩ :=
    step_exec_of_next hidle (if_pos ⟨hnodup, horder, fun _ => hwatchers⟩)
  have htodo : ∀ id ∈ order, id ∈ c.shared.data := by
    intro id hid
    rw [← Finmap.mem_keys, ← horder]
    exact List.mem_toFinset.mpr hid
  obtain ⟨board', id', staged', hsolo, hkept, hclean⟩ :=
    solo_updatedOnly all order htodo 0 fun _ _ => none
  obtain ⟨k, hgo⟩ := Solo.run
    (c := ⟨c.shared, c.threads.set n (.reading .updatedOnly order 0 [] fun _ _ => none)⟩)
    (List.getElem?_set_self hlt) hsolo
  dsimp only at hgo
  rw [List.set_set] at hgo
  have hsend : (console all).step
      ⟨board', c.threads.set n (.reading .updatedOnly [] id' [] staged')⟩
      (.exec n (.send watch delivers)) =
      some ⟨board'.deliver .updatedOnly staged' watch delivers, c.threads.set n .idle⟩ := by
    rw [step_exec_of_next (List.getElem?_set_self hlt) rfl, List.set_set]
  -- 送り終えたところ
  have hpublish : (console all).run c (.exec n (.start .updatedOnly order) ::
      (List.replicate k (.exec n .go) ++ [.exec n (.send watch delivers)])) =
      some ⟨board'.deliver .updatedOnly staged' watch delivers, c.threads.set n .idle⟩ := by
    rw [run_cons_of_step hstart, run_append hgo, run_cons_of_step hsend]
    rfl
  refine ⟨k, _, hpublish, ?_, ?_⟩
  · simp only [Board.deliver, List.map_map, hkept.watchers, List.filter_map]
    rfl
  · intro w hw id object hobject f hf
    have hreach := (run_append hrun _).trans hpublish
    have hdata : (board'.deliver .updatedOnly staged' watch delivers).data = c.shared.data :=
      hkept.data
    have hobjects : (board'.deliver .updatedOnly staged' watch delivers).objects = board'.objects :=
      rfl
    have hin : .idle ∈ c.threads.set n .idle :=
      List.mem_of_getElem? (List.getElem?_set_self hlt)
    rcases client_view_current hreach hin hw (hdata ▸ hobject) hf with hv | hdirty | hflight
    · rw [hv, hobjects, hkept.fields]
    · have hid : id ∈ order := by
        rw [← List.mem_toFinset, horder]
        exact Finmap.mem_keys.mpr (Finmap.mem_of_lookup_eq_some hobject)
      rw [hobjects, hclean id hid object hobject] at hdirty
      cases hdirty
    · obtain ⟨left, written, hmem, hfw⟩ := hflight
      rcases List.mem_or_eq_of_mem_set hmem with hmem | heq
      · rw [hquiet _ _ _ hmem] at hfw
        cases hfw
      · cases heq

theorem publish_synchronises_afterPoll :
    ∃ c, (console [false, true]).run (consoleStart fun _ => 0)
        (publishThenPoll ++ [.exec 1 .go]) = some c ∧
      ∃ k e, (console [false, true]).run c (.exec 0 (.start .updatedOnly [1]) ::
          (List.replicate k (.exec 0 .go) ++ [.exec 0 (.send 0 fun _ => true)])) = some e ∧
        e.shared.watchers.map Prod.fst = (c.shared.watchers.map Prod.fst).filter (fun _ => true) ∧
        ∀ w ∈ e.shared.watchers, ∀ id object, c.shared.data.lookup id = some object →
          ∀ f ∈ [false, true], w.2 id f = some ((c.shared.objects object).fields f) := by
  refine ⟨_, rfl, ?_⟩
  refine publish_synchronises
    (show (console _).run (consoleStart fun _ => 0) (publishThenPoll ++ [.exec 1 .go]) = _ from rfl)
    (show _ = some Party.idle from rfl) ?_ (List.nodup_singleton 1) rfl (List.cons_ne_nil _ _) 0
    fun _ => true
  intro object left written hmem
  rcases List.mem_cons.mp hmem with heq | hmem
  · cases heq
  · rcases List.mem_cons.mp hmem with heq | hmem
    · cases heq
    · cases hmem

end FabAccess.Console
