import FabAccess.Console.Replica

/-!
# client の写しは遅れるだけである

* `Board.next_turn` — 一歩でできること
* `turn_settled` — 一歩は `Replicated` を保つ
* `client_view_current` — どの割り込みの実行でも、client の写しと違う値は、次の `publish` で送られる
-/

namespace FabAccess.Console

open Infra Infra.System

variable {F V : Type}

/-! ## 一歩でできること -/

inductive BoardTurn [DecidableEq F] (all : List F) (board : Board F V) :
    Party F V → Board F V → Party F V → Prop where
  | write {object : Nat} {f : F} (left written : List F) (value : V) :
    BoardTurn all board (.producer object (f :: left) written)
      (board.setObject object { board.objects object with
        fields := Function.update (board.objects object).fields f value })
      (.producer object left (f :: written))
  | makeDirty (object : Nat) (written : List F) :
    BoardTurn all board (.producer object [] written)
      (board.setObject object { board.objects object with isDirty := true }) .finished
  | insert {id object : Nat} (h : object < board.made ∧ object ∉ board.inserted) :
    BoardTurn all board .idle
      { board with
        inserted := insert object board.inserted
        data := board.data.insert id object } .idle
  | start (scope : Include) {order : List Nat} (h : order.toFinset = board.data.keys) :
    BoardTurn all board .idle board (.reading scope order 0 [] fun _ _ => none)
  | read {scope : Include} {todo : List Nat} {id object : Nat} {f : F} {left : List F}
    {staged : View F V} (h : board.data.lookup id = some object) :
    BoardTurn all board (.reading scope todo id (f :: left) staged) board
      (.reading scope todo id left fun id' f' =>
        if id' = id ∧ f' = f then some ((board.objects object).fields f) else staged id' f')
  | visitAll {todo : List Nat} {id id₀ object : Nat} {staged : View F V}
    (h : board.data.lookup id = some object) :
    BoardTurn all board (.reading .all (id :: todo) id₀ [] staged) board
      (.reading .all todo id all staged)
  | takeUnsent {todo : List Nat} {id id₀ object : Nat} {staged : View F V}
    (h : board.data.lookup id = some object) :
    BoardTurn all board (.reading .updatedOnly (id :: todo) id₀ [] staged)
      (board.setObject object { board.objects object with isDirty := false })
      (.reading .updatedOnly todo id all staged)
  | skip {todo : List Nat} {id id₀ : Nat} {staged : View F V} :
    BoardTurn all board (.reading .updatedOnly (id :: todo) id₀ [] staged) board
      (.reading .updatedOnly todo id [] staged)
  | send (scope : Include) (id : Nat) (staged : View F V) (watch : Nat) (delivers : Nat → Bool) :
    BoardTurn all board (.reading scope [] id [] staged)
      (board.deliver scope staged watch delivers) .idle

/-- 一歩は、`BoardTurn` のどれかである。 -/
theorem Board.next_turn [DecidableEq F] {all : List F} {board board' : Board F V}
    {party party' : Party F V} {pick : Pick V}
    (h : board.next all party pick = some (board', party')) :
    BoardTurn all board party board' party' := by
  unfold Board.next at h
  split at h
  · cases h
    exact .write ..
  · cases h
    exact .makeDirty ..
  · split at h
    · next hnew =>
      cases h
      exact .insert hnew
    · cases h
  · split at h
    · next horder =>
      cases h
      exact .start _ horder.2.1
    · cases h
  · split at h
    · cases h
    · next hobject =>
      cases h
      exact .read hobject
  · unfold Board.visit at h
    split at h
    · cases h
    · next hobject =>
      split at h
      · cases h
        exact .visitAll hobject
      · dsimp only at h
        split at h
        · cases h
          exact .takeUnsent hobject
        · cases h
          exact .skip
  · cases h
    exact .send ..
  · cases h

/-! ## 不変条件 -/

/-- `object` の `f` を書いて、まだ `is_dirty` を立てていない producer がいる。 -/
def InFlight (parties : List (Party F V)) (object : Nat) (f : F) : Prop :=
  ∃ left written, .producer object left written ∈ parties ∧ f ∈ written

/-- 写しの値 `v` は今の値であるか、そうでないことが後で分かる。 -/
def Current (board : Board F V) (parties : List (Party F V)) (id : Nat) (f : F) (v : Option V) :
    Prop :=
  ∀ object, board.data.lookup id = some object →
    v = some ((board.objects object).fields f) ∨ (board.objects object).isDirty = true ∨
      InFlight parties object f

/-- `Aggregator` の位置から分かること。読みかけの field は、これから今の値を読む。 -/
def Party.Told (all : List F) (board : Board F V) (parties : List (Party F V)) :
    Party F V → Prop
  | .idle => ∀ w ∈ board.watchers, ∀ id, ∀ f ∈ all, Current board parties id f (w.2 id f)
  | .reading .updatedOnly _ id left staged => ∀ w ∈ board.watchers, ∀ id', ∀ f ∈ all,
      Current board parties id' f (w.2.apply staged id' f) ∨ (id' = id ∧ f ∈ left)
  | .reading .all todo id left staged =>
      (∀ w ∈ board.watchers, ∀ id', ∀ f ∈ all, Current board parties id' f (w.2 id' f)) ∧
        ∀ id', ∀ f ∈ all, Current board parties id' f (staged id' f) ∨ (id' = id ∧ f ∈ left) ∨
          id' ∈ todo
  | _ => True

/-- `Aggregator` である。 -/
def Party.aggregates : Party F V → Bool
  | .idle | .reading _ _ _ _ _ => true
  | _ => false

/-- 表に入った object は、一つの id の下にある。 -/
structure Board.Linked (board : Board F V) : Prop where
  fresh : ∀ object < board.made, object ∉ board.inserted → (board.objects object).isDirty = true
  made : ∀ object ∈ board.inserted, object < board.made
  stored : ∀ id object, board.data.lookup id = some object → object ∈ board.inserted
  single : ∀ id id' object, board.data.lookup id = some object →
    board.data.lookup id' = some object → id = id'

structure Replicated (all : List F) (board : Board F V) (parties : List (Party F V)) : Prop where
  linked : board.Linked
  one : parties.countP Party.aggregates ≤ 1
  told : ∀ p ∈ parties, p.Told all board parties

variable {all : List F} {board board' : Board F V} {parties parties' rest : List (Party F V)}

/-- 印を付ける前の producer がいることは、その producer が進む間は変わらない。 -/
theorem InFlight.mono {object : Nat} {f : F} (h : InFlight parties object f)
    (hsub : ∀ left written, .producer object left written ∈ parties →
      ∃ left' written', .producer object left' written' ∈ parties' ∧ written ⊆ written') :
    InFlight parties' object f := by
  obtain ⟨left, written, hmem, hf⟩ := h
  obtain ⟨left', written', hmem', hw⟩ := hsub left written hmem
  exact ⟨left', written', hmem', hw hf⟩

/-- client の写しを変えない歩みは、今の値との関係が保たれれば `Told` を保つ。 -/
theorem Party.Told.mono {p : Party F V} (h : p.Told all board parties)
    (hwatchers : board'.watchers = board.watchers)
    (hcurrent : ∀ id f v, Current board parties id f v → Current board' parties' id f v) :
    p.Told all board' parties' := by
  cases p with
  | producer object left written => trivial
  | finished => trivial
  | idle =>
    intro w hw id f hf
    rw [hwatchers] at hw
    exact hcurrent _ _ _ (h w hw id f hf)
  | reading scope todo id left staged =>
    cases scope with
    | updatedOnly =>
      intro w hw id' f hf
      rw [hwatchers] at hw
      exact (h w hw id' f hf).imp_left (hcurrent _ _ _)
    | all =>
      refine ⟨fun w hw id' f hf => ?_, fun id' f hf => (h.2 id' f hf).imp_left (hcurrent _ _ _)⟩
      rw [hwatchers] at hw
      exact hcurrent _ _ _ (h.1 w hw id' f hf)

/-- 不変条件は、進行中の producer の並び順によらない。 -/
theorem replicated_symm : Symm (Replicated (F := F) (V := V) all) := by
  intro board parties parties' hperm h
  refine ⟨h.linked, hperm.countP_eq _ ▸ h.one, fun p hp => ?_⟩
  refine (h.told p (hperm.mem_iff.mpr hp)).mono rfl fun id f v hv object hobject => ?_
  refine (hv object hobject).imp_right (Or.imp_right fun hin => ?_)
  exact hin.mono fun left written hmem => ⟨left, written, hperm.mem_iff.mp hmem, fun _ h => h⟩

/-! ## producer の歩み -/

/-- 動いた producer のほかは、`is_dirty` を立てる前のまま残る。 -/
theorem InFlight.of_cons {p p' : Party F V} {object : Nat} {f : F}
    (h : InFlight (p :: rest) object f)
    (hp : ∀ left written, p = .producer object left written → f ∈ written →
      ∃ left' written', p' = .producer object left' written' ∧ f ∈ written') :
    InFlight (p' :: rest) object f := by
  obtain ⟨left, written, hmem, hf⟩ := h
  rcases List.mem_cons.mp hmem with heq | hmem
  · obtain ⟨left', written', heq', hf'⟩ := hp left written heq.symm hf
    exact ⟨left', written', List.mem_cons.mpr (Or.inl heq'.symm), hf'⟩
  · exact ⟨left, written, List.mem_cons_of_mem _ hmem, hf⟩

/-- 書いた field は、`is_dirty` を立てるまで書きかけである。 -/
theorem Current.write [DecidableEq F] {object id : Nat} {f g : F} {left written : List F} {value : V}
    {v : Option V} (h : Current board (.producer object (f :: left) written :: rest) id g v) :
    Current (board.setObject object { board.objects object with
        fields := Function.update (board.objects object).fields f value })
      (.producer object left (f :: written) :: rest) id g v := by
  intro object' hobject
  by_cases hwritten : object' = object ∧ g = f
  · obtain ⟨rfl, rfl⟩ := hwritten
    exact Or.inr (Or.inr ⟨left, g :: written, List.mem_cons_self .., List.mem_cons_self ..⟩)
  · rcases h object' hobject with hv | hdirty | hflight
    · refine Or.inl (hv.trans ?_)
      by_cases hobj : object' = object
      · subst hobj
        have hne : g ≠ f := fun heq => hwritten ⟨rfl, heq⟩
        simp [hne]
      · rw [Board.setObject_of_ne hobj]
    · refine Or.inr (Or.inl ?_)
      by_cases hobj : object' = object
      · subst hobj
        simpa using hdirty
      · rw [Board.setObject_of_ne hobj]
        exact hdirty
    · refine Or.inr (Or.inr (hflight.of_cons fun left' written' heq hg => ?_))
      cases heq
      exact ⟨left, f :: written, rfl, List.mem_cons_of_mem _ hg⟩

/-- 印を付ければ、次の `publish` が送ることになる。 -/
theorem Current.makeDirty {object id : Nat} {g : F} {written : List F} {v : Option V}
    (h : Current board (.producer object [] written :: rest) id g v) :
    Current (board.setObject object { board.objects object with isDirty := true })
      (.finished :: rest) id g v := by
  intro object' hobject
  by_cases hobj : object' = object
  · subst hobj
    exact Or.inr (Or.inl (by simp))
  · rw [Board.setObject_of_ne hobj]
    refine (h object' hobject).imp_right (Or.imp_right fun hflight => ?_)
    exact hflight.of_cons fun left' written' heq _ => by
      cases heq
      exact absurd rfl hobj

/-! ## `Aggregator` の歩み -/

/-- 書きかけの field は、`Aggregator` が進んでも変わらない。 -/
theorem Current.aggregator {p p' : Party F V} {id : Nat} {f : F} {v : Option V}
    (hp : p.aggregates = true) (h : Current board (p :: rest) id f v) :
    Current board (p' :: rest) id f v := by
  intro object hobject
  refine (h object hobject).imp_right (Or.imp_right fun hflight => ?_)
  refine hflight.of_cons fun left written heq _ => ?_
  subst heq
  cases hp

/-- 値の変わらない client には、何も足さない。 -/
@[simp] theorem View.apply_nothing (view : View F V) : view.apply (fun _ _ => none) = view := by
  funext id f
  simp [View.apply]

/-- 表に入っていない object の `is_dirty` を下ろさなければよい。 -/
theorem Board.Linked.setObject {object : Nat} {stats : StatsObject F V} (h : board.Linked)
    (hstats : object ∉ board.inserted → (board.objects object).isDirty = true →
      stats.isDirty = true) : (board.setObject object stats).Linked where
  fresh object' hmade hnew := by
    by_cases hobj : object' = object
    · subst hobj
      rw [Board.setObject_self]
      exact hstats hnew (h.fresh object' hmade hnew)
    · rw [Board.setObject_of_ne hobj]
      exact h.fresh object' hmade hnew
  made := h.made
  stored := h.stored
  single := h.single

/-- 新しい object を入れても、表と object の対応は崩れない。 -/
theorem Board.Linked.insert {id object : Nat} (h : board.Linked)
    (hnew : object < board.made ∧ object ∉ board.inserted) :
    Board.Linked { board with
      inserted := insert object board.inserted
      data := board.data.insert id object } where
  fresh object' hmade hnot := h.fresh object' hmade fun hin => hnot (Finset.mem_insert_of_mem hin)
  made object' hin := by
    rcases Finset.mem_insert.mp hin with rfl | hin
    · exact hnew.1
    · exact h.made object' hin
  stored id' object' hobject := by
    by_cases hid : id' = id
    · subst hid
      rw [Finmap.lookup_insert] at hobject
      cases hobject
      exact Finset.mem_insert_self ..
    · rw [Finmap.lookup_insert_of_ne _ hid] at hobject
      exact Finset.mem_insert_of_mem (h.stored id' object' hobject)
  single id₁ id₂ object' h₁ h₂ := by
    -- 入れたばかりの object は、ほかの id の下には無い
    have hother : ∀ id', id' ≠ id → board.data.lookup id' ≠ some object := by
      intro id' _ hobject
      exact hnew.2 (h.stored id' object hobject)
    by_cases hid₁ : id₁ = id
    · subst hid₁
      rw [Finmap.lookup_insert] at h₁
      cases h₁
      by_cases hid₂ : id₂ = id₁
      · exact hid₂.symm
      · rw [Finmap.lookup_insert_of_ne _ hid₂] at h₂
        exact absurd h₂ (hother id₂ hid₂)
    · rw [Finmap.lookup_insert_of_ne _ hid₁] at h₁
      by_cases hid₂ : id₂ = id
      · subst hid₂
        rw [Finmap.lookup_insert] at h₂
        cases h₂
        exact absurd h₁ (hother id₁ hid₁)
      · rw [Finmap.lookup_insert_of_ne _ hid₂] at h₂
        exact h.single id₁ id₂ object' h₁ h₂

/-- 新しく表に入った object の `is_dirty` は立っている。 -/
theorem Current.insert {id id' object : Nat} {f : F} {v : Option V} (hlinked : board.Linked)
    (hnew : object < board.made ∧ object ∉ board.inserted)
    (h : Current board parties id' f v) :
    Current { board with
      inserted := insert object board.inserted
      data := board.data.insert id object } parties id' f v := by
  intro object' hobject
  dsimp only at hobject
  by_cases hid : id' = id
  · subst hid
    rw [Finmap.lookup_insert] at hobject
    cases hobject
    exact Or.inr (Or.inl (hlinked.fresh object hnew.1 hnew.2))
  · rw [Finmap.lookup_insert_of_ne _ hid] at hobject
    exact h object' hobject

/-- `is_dirty` を下ろした object は、`id` の下にしか無い。 -/
theorem Current.takeUnsent {id id' object : Nat} {f : F} {v : Option V} (hlinked : board.Linked)
    (hobject : board.data.lookup id = some object) (hid : id' ≠ id)
    (h : Current board parties id' f v) :
    Current (board.setObject object { board.objects object with isDirty := false }) parties
      id' f v := by
  intro object' hobject'
  rw [Board.setObject_data] at hobject'
  have hobj : object' ≠ object := by
    rintro rfl
    exact hid (hlinked.single _ _ _ hobject' hobject)
  rw [Board.setObject_of_ne hobj]
  exact h object' hobject'

/-- 読んだ値は、今の値である。 -/
theorem Current.read {id object : Nat} {f : F} (hobject : board.data.lookup id = some object) :
    Current board parties id f (some ((board.objects object).fields f)) := by
  intro object' hobject'
  rw [hobject] at hobject'
  cases hobject'
  exact Or.inl rfl

/-- 動く `Aggregator` は一つなので、ほかに分かることは無い。 -/
theorem Party.told_of_passive {p : Party F V} (hp : p.aggregates = false) :
    p.Told all board parties := by
  cases p with
  | producer object left written => trivial
  | finished => trivial
  | idle => cases hp
  | reading scope todo id left staged => cases hp

section Turn

variable [DecidableEq F] {p p' : Party F V}

/-- aggregator は一つのままである。 -/
theorem BoardTurn.aggregates (h : BoardTurn all board p board' p') :
    p'.aggregates = p.aggregates := by
  cases h <;> rfl

/-- 一歩は、表と object の対応を保つ。 -/
theorem BoardTurn.linked (h : BoardTurn all board p board' p') (hlinked : board.Linked) :
    board'.Linked := by
  cases h with
  | write left written value => exact hlinked.setObject fun _ hdirty => hdirty
  | makeDirty object written => exact hlinked.setObject fun _ _ => rfl
  | insert hnew => exact hlinked.insert hnew
  | start scope horder => exact hlinked
  | read hobject => exact hlinked
  | visitAll hobject => exact hlinked
  | takeUnsent hobject =>
    exact hlinked.setObject fun hnew _ => absurd (hlinked.stored _ _ hobject) hnew
  | skip => exact hlinked
  | send scope id staged watch delivers =>
    unfold Board.deliver
    split
    · split
      · exact ⟨hlinked.fresh, hlinked.made, hlinked.stored, hlinked.single⟩
      · exact hlinked
    · exact ⟨hlinked.fresh, hlinked.made, hlinked.stored, hlinked.single⟩

omit [DecidableEq F] in
/-- 読み始めの aggregator についても、client の写しの勘定は合っている。 -/
theorem told_start (scope : Include) {order : List Nat} (horder : order.toFinset = board.data.keys)
    (htold : Party.Told all board (.idle :: rest) .idle)
    (hp' : p' = .reading scope order 0 [] fun _ _ => none) : p'.Told all board (p' :: rest) := by
  subst hp'
  cases scope with
  | updatedOnly =>
    intro w hw id f hf
    rw [View.apply_nothing]
    exact Or.inl ((htold w hw id f hf).aggregator rfl)
  | all =>
    refine ⟨fun w hw id f hf => (htold w hw id f hf).aggregator rfl, fun id f hf => ?_⟩
    by_cases hid : id ∈ order
    · exact Or.inr (Or.inr hid)
    · refine Or.inl fun object hobject => absurd ?_ hid
      rw [← List.mem_toFinset, horder]
      exact Finmap.mem_keys.mpr (Finmap.mem_of_lookup_eq_some hobject)

/-- 読んだ field は今の値になり、ほかの field については何も変わらない。 -/
theorem told_read (scope : Include) {todo : List Nat} {id object : Nat} {f : F} {left : List F}
    {staged : View F V} (hobject : board.data.lookup id = some object)
    (hp : p = .reading scope todo id (f :: left) staged) (htold : p.Told all board (p :: rest))
    (hp' : p' = .reading scope todo id left fun id' f' =>
      if id' = id ∧ f' = f then some ((board.objects object).fields f) else staged id' f') :
    p'.Told all board (p' :: rest) := by
  subst hp hp'
  cases scope with
  | updatedOnly =>
    intro w hw id' g hg
    by_cases hread : id' = id ∧ g = f
    · obtain ⟨rfl, rfl⟩ := hread
      refine Or.inl ?_
      simp only [View.apply, and_self, if_true, Option.some_or]
      exact .read hobject
    · simp only [View.apply, if_neg hread]
      rcases htold w hw id' g hg with hcur | ⟨rfl, hmem⟩
      · exact Or.inl (hcur.aggregator rfl)
      · refine Or.inr ⟨rfl, (List.mem_cons.mp hmem).resolve_left ?_⟩
        exact fun heq => hread ⟨rfl, heq⟩
  | all =>
    refine ⟨fun w hw id' g hg => (htold.1 w hw id' g hg).aggregator rfl, fun id' g hg => ?_⟩
    by_cases hread : id' = id ∧ g = f
    · obtain ⟨rfl, rfl⟩ := hread
      refine Or.inl ?_
      simp only [and_self, if_true]
      exact .read hobject
    · simp only [if_neg hread]
      rcases htold.2 id' g hg with hcur | ⟨rfl, hmem⟩ | htodo
      · exact Or.inl (hcur.aggregator rfl)
      · refine Or.inr (Or.inl ⟨rfl, (List.mem_cons.mp hmem).resolve_left ?_⟩)
        exact fun heq => hread ⟨rfl, heq⟩
      · exact Or.inr (Or.inr htodo)

omit [DecidableEq F] in
/-- 届いた写しは送られたものになり、届かなかった client は外れる。 -/
theorem told_send (scope : Include) {id : Nat} {staged : View F V} (watch : Nat)
    (delivers : Nat → Bool) (hp : p = .reading scope [] id [] staged)
    (htold : p.Told all board (p :: rest)) :
    Party.Told all (board.deliver scope staged watch delivers) (.idle :: rest) .idle := by
  subst hp
  cases scope with
  | updatedOnly =>
    intro w hw id' f hf
    obtain ⟨w₀, hw₀, rfl⟩ := List.mem_map.mp hw
    rcases htold w₀ (List.mem_filter.mp hw₀).1 id' f hf with hcur | ⟨_, hmem⟩
    · exact fun object hobject => hcur.aggregator rfl object hobject
    · cases hmem
  | all =>
    have hold : ∀ w ∈ board.watchers, ∀ id', ∀ f ∈ all,
        Current board (.idle :: rest) id' f (w.2 id' f) :=
      fun w hw id' f hf => (htold.1 w hw id' f hf).aggregator rfl
    rw [Board.deliver]
    split
    · intro w hw id' f hf
      rcases List.mem_append.mp hw with hw | hw
      · exact fun object hobject => hold w hw id' f hf object hobject
      · rw [List.mem_singleton] at hw
        subst hw
        rcases htold.2 id' f hf with hcur | ⟨_, hmem⟩ | htodo
        · exact fun object hobject => hcur.aggregator rfl object hobject
        · cases hmem
        · cases htodo
    · exact hold

/-- aggregator の一歩は、読んだ値が新しいことを保つ。 -/
theorem BoardTurn.told_self (h : BoardTurn all board p board' p') (hlinked : board.Linked)
    (hp : p.aggregates = true) (htold : p.Told all board (p :: rest)) :
    p'.Told all board' (p' :: rest) := by
  cases h with
  | write left written value => cases hp
  | makeDirty object written => cases hp
  | insert hnew =>
    intro w hw id f hf
    exact (htold w hw id f hf).insert hlinked hnew
  | start scope horder => exact told_start scope horder htold rfl
  | @read scope todo id object f left staged hobject => exact told_read scope hobject rfl htold rfl
  | @visitAll todo id id₀ object staged hobject =>
    refine ⟨fun w hw id' f hf => (htold.1 w hw id' f hf).aggregator rfl, fun id' f hf => ?_⟩
    rcases htold.2 id' f hf with hcur | ⟨_, hmem⟩ | htodo
    · exact Or.inl (hcur.aggregator rfl)
    · cases hmem
    · rcases List.mem_cons.mp htodo with rfl | htodo
      · exact Or.inr (Or.inl ⟨rfl, hf⟩)
      · exact Or.inr (Or.inr htodo)
  | @takeUnsent todo id id₀ object staged hobject =>
    intro w hw id' f hf
    by_cases hid : id' = id
    · exact Or.inr ⟨hid, hf⟩
    · rcases htold w hw id' f hf with hcur | ⟨_, hmem⟩
      · exact Or.inl ((hcur.aggregator rfl).takeUnsent hlinked hobject hid)
      · cases hmem
  | skip =>
    intro w hw id' f hf
    rcases htold w hw id' f hf with hcur | ⟨_, hmem⟩
    · exact Or.inl (hcur.aggregator rfl)
    · cases hmem
  | send scope id staged watch delivers => exact told_send scope watch delivers rfl htold

/-- **一歩は、client の写しと今の値との関係を保つ。** -/
theorem turn_settled {pick : Pick V}
    (hnext : (console all).next board p pick = some (board', p'))
    (h : Replicated all board (p :: rest)) : Replicated all board' (p' :: rest) := by
  have hturn := Board.next_turn hnext
  have hone : (p' :: rest).countP Party.aggregates ≤ 1 := by
    have hone := h.one
    rw [List.countP_cons] at hone ⊢
    rwa [hturn.aggregates]
  refine ⟨hturn.linked h.linked, hone, ?_⟩
  by_cases hp : p.aggregates = true
  · intro q hq
    rcases List.mem_cons.mp hq with rfl | hq
    · exact hturn.told_self h.linked hp (h.told p (List.mem_cons_self ..))
    · -- 動く `Aggregator` はほかに無い
      refine Party.told_of_passive ?_
      have hone := h.one
      rw [List.countP_cons, if_pos hp] at hone
      have hzero : rest.countP Party.aggregates = 0 := by omega
      have hnot := List.countP_eq_zero.mp hzero q hq
      simpa using hnot
  · have hpassive : p'.aggregates = false := by
      rw [hturn.aggregates]
      simpa using hp
    intro q hq
    rcases List.mem_cons.mp hq with rfl | hq
    · exact Party.told_of_passive hpassive
    · have htold := h.told q (List.mem_cons_of_mem _ hq)
      cases hturn with
      | write left written value => exact htold.mono rfl fun id f v hv => hv.write
      | makeDirty object written => exact htold.mono rfl fun id f v hv => hv.makeDirty
      | _ => exact absurd rfl hp

end Turn

/-! ## 実行の全体 -/

/-- 作ったばかりの object は、まだ表に無い。 -/
theorem Current.new {id : Nat} {f : F} {v : Option V} (hlinked : board.Linked) (fields : F → V)
    (h : Current board parties id f v) :
    Current { board.setObject board.made ⟨fields, true⟩ with made := board.made + 1 } parties
      id f v := by
  intro object hobject
  have hlookup : board.data.lookup id = some object := hobject
  have hmade := hlinked.made object (hlinked.stored id object hlookup)
  have hobj : object ≠ board.made := by omega
  show v = some (((board.setObject board.made ⟨fields, true⟩).objects object).fields f) ∨
    ((board.setObject board.made ⟨fields, true⟩).objects object).isDirty = true ∨ _
  rw [Board.setObject_of_ne hobj]
  exact h object hlookup

/-- object を作っても、表と object の対応は崩れない。 -/
theorem Board.Linked.new (h : board.Linked) (fields : F → V) :
    Board.Linked { board.setObject board.made ⟨fields, true⟩ with made := board.made + 1 } := by
  have hset : (board.setObject board.made ⟨fields, true⟩).Linked := h.setObject fun _ _ => rfl
  refine ⟨fun object hlt hnot => ?_, fun object hin => ?_, h.stored, h.single⟩
  · rcases Nat.lt_succ_iff_lt_or_eq.mp hlt with hlt | rfl
    · exact hset.fresh object hlt hnot
    · show ((board.setObject board.made ⟨fields, true⟩).objects board.made).isDirty = true
      rw [Board.setObject_self]
  · exact Nat.lt_succ_of_lt (h.made object hin)

/-- producer が始まっても、不変条件は保たれる。 -/
theorem produce_settled {made : Producing F V} {ts : List (Party F V)}
    (hspawn : board.produce made = some (board', ts)) (h : Replicated all board parties) :
    Replicated all board' (ts ++ parties) := by
  unfold Board.produce at hspawn
  split at hspawn
  · cases hspawn
    refine ⟨h.linked.new _, h.one, fun p hp => ?_⟩
    exact (h.told p hp).mono rfl fun id f v hv => hv.new h.linked _
  · next object fields =>
    split at hspawn
    · cases hspawn
      refine ⟨h.linked, ?_, fun p hp => ?_⟩
      · rw [List.singleton_append, List.countP_cons]
        exact h.one
      · rcases List.mem_cons.mp hp with rfl | hp
        · trivial
        · refine (h.told p hp).mono rfl fun id f v hv object hobject => ?_
          refine (hv object hobject).imp_right (Or.imp_right fun hflight => ?_)
          exact hflight.mono fun left written hmem =>
            ⟨left, written, List.mem_cons_of_mem _ hmem, fun _ h => h⟩
    · cases hspawn

/-- 初めは、client も object も無い。 -/
theorem replicated_start (all : List F) (fields : F → V) :
    Replicated all (consoleStart fields).shared (consoleStart fields).threads where
  linked := {
    fresh := fun object hlt => absurd hlt (Nat.not_lt_zero object)
    made := fun object hin => absurd hin (Finset.notMem_empty object)
    stored := fun id object hobject => by
      rw [show (consoleStart fields).shared.data = ∅ from rfl, Finmap.lookup_empty] at hobject
      cases hobject
    single := fun id id' object hobject => by
      rw [show (consoleStart fields).shared.data = ∅ from rfl, Finmap.lookup_empty] at hobject
      cases hobject }
  one := Nat.le_refl 1
  told p hp := by
    rw [show (consoleStart fields).threads = [.idle] from rfl, List.mem_singleton] at hp
    subst hp
    intro w hw
    cases hw

/-- どの割り込みでも、client の持つ写しについての不変条件は成り立つ。 -/
theorem replicated_of_run [DecidableEq F] {fields : F → V} {c : Config (Board F V) (Party F V)}
    {ms : List (Move (Producing F V) (Pick V))}
    (hrun : (console all).run (consoleStart fields) ms = some c) :
    Replicated all c.shared c.threads := by
  have hall : (console all).Obeys (fun _ _ => True) (consoleStart fields) ms :=
    obeys_of_forall (fun _ _ _ => trivial) _
  exact run_invariant_of_obeys replicated_symm
    (fun _ _ _ _ _ hspawn _ h => produce_settled hspawn h)
    (fun _ _ _ _ _ _ _ _ _ hnext _ h => turn_settled hnext h) hrun hall (replicated_start all fields)

/--
**どの割り込みの実行でも、`Aggregator` が待っている間、client の写しの値は、今の値であるか、次の
`publish` が送るか、書いた producer がまだ `is_dirty` を立てていないかである。**
-/
theorem client_view_current [DecidableEq F] {fields : F → V} {c : Config (Board F V) (Party F V)}
    {ms : List (Move (Producing F V) (Pick V))}
    (hrun : (console all).run (consoleStart fields) ms = some c) (hidle : .idle ∈ c.threads)
    {w : Nat × View F V} (hw : w ∈ c.shared.watchers) {id object : Nat}
    (hobject : c.shared.data.lookup id = some object) {f : F} (hf : f ∈ all) :
    w.2 id f = some ((c.shared.objects object).fields f) ∨
      (c.shared.objects object).isDirty = true ∨
      ∃ left written, .producer object left written ∈ c.threads ∧ f ∈ written :=
  (replicated_of_run hrun).told _ hidle w hw id f hf object hobject

/-- client が加わって `publish` が済んだ後に、poll が始まりかけている。 -/
def publishThenPoll : List (Move (Producing Bool Nat) (Pick Nat)) :=
  [.spawn (.new fun _ => 0), .exec 0 (.insert 1 0),
    .exec 0 (.start .all [1]), .exec 0 .go, .exec 0 .go, .exec 0 .go, .exec 0 (.send 7 fun _ => true),
    .exec 0 (.start .updatedOnly [1]), .exec 0 .go, .exec 0 .go, .exec 0 .go,
    .exec 0 (.send 0 fun _ => true), .spawn (.update 0 [true]), .exec 1 (.write 5)]

theorem client_view_current_publishThenPoll :
    ∃ c, (console [false, true]).run (consoleStart fun _ => 0) publishThenPoll = some c ∧
      ∃ w ∈ c.shared.watchers, w.2 1 true = some ((c.shared.objects 0).fields true) ∨
        (c.shared.objects 0).isDirty = true ∨
        ∃ left written, .producer 0 left written ∈ c.threads ∧ true ∈ written := by
  refine ⟨_, rfl, _, List.mem_cons_self .., ?_⟩
  exact client_view_current
    (show (console _).run (consoleStart fun _ => 0) publishThenPoll = _ from rfl)
    (List.mem_cons_self ..) (List.mem_cons_self ..) (show Finmap.lookup 1 _ = some 0 from rfl)
    (show true ∈ [false, true] by decide)

end FabAccess.Console
