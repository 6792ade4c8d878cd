import FabAccess.Infra.Interleave

/-!
# 系の射影

一つの系を、その状態と手続きの一部だけを通して眺める。見えるところで何も起きない歩みは飛ばす。

* `Projects` — どの一歩も、見えるところでは相手の系の一歩か、何も変えない歩みである
* `Projects.run` — そのとき、あらゆる割り込みの実行は相手の系の実行に写る
-/

namespace FabAccess.Infra

variable {α β : Type*} {g : α → Option β}

/-! ## `filterMap` と一つの要素 -/

/-- 見える要素の位置。 -/
theorem getElem?_filterMap_take {l : List α} {n : Nat} {a : α} {b : β} (h : l[n]? = some a)
    (hb : g a = some b) : (l.filterMap g)[((l.take n).filterMap g).length]? = some b := by
  induction l generalizing n with
  | nil => simp at h
  | cons a' l ih =>
    cases n with
    | zero =>
      rw [List.getElem?_cons_zero, Option.some.injEq] at h
      subst h
      rw [List.filterMap_cons_some hb]
      rfl
    | succ n =>
      rw [List.getElem?_cons_succ] at h
      rw [List.take_succ_cons]
      cases hg : g a' with
      | none =>
        rw [List.filterMap_cons_none hg, List.filterMap_cons_none hg]
        exact ih h
      | some b' =>
        rw [List.filterMap_cons_some hg, List.filterMap_cons_some hg, List.length_cons,
          List.getElem?_cons_succ]
        exact ih h

theorem filterMap_set_some {l : List α} {n : Nat} {a a' : α} {b b' : β} (h : l[n]? = some a)
    (hb : g a = some b) (hb' : g a' = some b') :
    (l.set n a').filterMap g = (l.filterMap g).set ((l.take n).filterMap g).length b' := by
  induction l generalizing n with
  | nil => simp at h
  | cons a₀ l ih =>
    cases n with
    | zero =>
      rw [List.getElem?_cons_zero, Option.some.injEq] at h
      subst h
      rw [List.set_cons_zero, List.filterMap_cons_some hb, List.filterMap_cons_some hb']
      rfl
    | succ n =>
      rw [List.getElem?_cons_succ] at h
      rw [List.set_cons_succ, List.take_succ_cons]
      cases hg : g a₀ with
      | none =>
        rw [List.filterMap_cons_none hg, List.filterMap_cons_none hg, List.filterMap_cons_none hg]
        exact ih h
      | some b₀ =>
        rw [List.filterMap_cons_some hg, List.filterMap_cons_some hg, List.filterMap_cons_some hg,
          List.length_cons, List.set_cons_succ, ih h]

/-- 見え方の変わらない置き換えは、見えない。 -/
theorem filterMap_set_same {l : List α} {n : Nat} {a a' : α} (h : l[n]? = some a)
    (hg : g a' = g a) : (l.set n a').filterMap g = l.filterMap g := by
  induction l generalizing n with
  | nil => rfl
  | cons a₀ l ih =>
    cases n with
    | zero =>
      rw [List.getElem?_cons_zero, Option.some.injEq] at h
      subst h
      rw [List.set_cons_zero, List.filterMap_cons, List.filterMap_cons, hg]
    | succ n =>
      rw [List.getElem?_cons_succ] at h
      rw [List.set_cons_succ, List.filterMap_cons, List.filterMap_cons, ih h]

/-! ## 実行 -/

namespace System

variable {σ τ ι κ σ' τ' ι' κ' : Type*}

/--
`S` の一歩は、`f` と `g` を通して見れば、`S'` の一歩か、何も起きない歩みである。
`S'` で始まる手続きは `ok` を満たす。
-/
structure Projects (S : System σ τ ι κ) (S' : System σ' τ' ι' κ') (f : σ → σ')
    (g : τ → Option τ') (ok : ι' → Prop) : Prop where
  spawn : ∀ {sh i sh' ts}, S.spawn sh i = some (sh', ts) →
    (f sh' = f sh ∧ ts.filterMap g = []) ∨
      ∃ i', ok i' ∧ S'.spawn (f sh) i' = some (f sh', ts.filterMap g)
  next : ∀ {sh t k sh' t'}, S.next sh t k = some (sh', t') →
    (f sh' = f sh ∧ g t' = g t) ∨
      ∃ u u' k', g t = some u ∧ g t' = some u' ∧ S'.next (f sh) u k' = some (f sh', u')

/-- 見えるところ。 -/
def view (f : σ → σ') (g : τ → Option τ') (c : Config σ τ) : Config σ' τ' :=
  ⟨f c.shared, c.threads.filterMap g⟩

variable {S : System σ τ ι κ} {S' : System σ' τ' ι' κ'} {f : σ → σ'} {g : τ → Option τ'}
  {ok : ι' → Prop}

/-- 一歩は、見えるところでは高々一歩である。 -/
theorem Projects.step (h : S.Projects S' f g ok) {c c' : Config σ τ} {m : Move ι κ}
    (hs : S.step c m = some c') :
    view f g c' = view f g c ∨ ∃ m', (∀ i', m' = .spawn i' → ok i') ∧
      S'.step (view f g c) m' = some (view f g c') := by
  cases m with
  | spawn i =>
    obtain ⟨sh, ts, hsp, rfl⟩ := step_spawn hs
    rcases h.spawn hsp with ⟨hf, hts⟩ | ⟨i', hi', hsp'⟩
    · left
      simp only [view, List.filterMap_append, hf, hts, List.append_nil]
    · right
      refine ⟨.spawn i', fun _ heq => by cases heq; exact hi', ?_⟩
      simp only [System.step, view, hsp', List.filterMap_append]
  | exec n k =>
    obtain ⟨t, sh, t', _, hget, hn, rfl, _, _⟩ := step_exec hs
    rcases h.next hn with ⟨hf, hg⟩ | ⟨u, u', k', hu, hu', hn'⟩
    · left
      simp only [view, filterMap_set_same hget hg, hf]
    · right
      refine ⟨.exec ((c.threads.take n).filterMap g).length k', by simp, ?_⟩
      simp only [System.step, view, getElem?_filterMap_take hget hu, hn',
        filterMap_set_some hget hu hu']

/-- **見えるところだけを残せば、あらゆる割り込みの実行は相手の系の実行である。** -/
theorem Projects.run (h : S.Projects S' f g ok) {c d : Config σ τ} {ms : List (Move ι κ)}
    (hrun : S.run c ms = some d) : ∃ ms', (∀ i', .spawn i' ∈ ms' → ok i') ∧
      S'.run (view f g c) ms' = some (view f g d) := by
  induction ms generalizing c with
  | nil =>
    cases hrun
    exact ⟨[], by simp, rfl⟩
  | cons m ms ih =>
    obtain ⟨e, he, hrest⟩ := run_cons hrun
    obtain ⟨ms', hok, hrun'⟩ := ih hrest
    rcases h.step he with hview | ⟨m', hm', hstep⟩
    · exact ⟨ms', hok, hview ▸ hrun'⟩
    · refine ⟨m' :: ms', fun i' hi' => ?_, ?_⟩
      · rcases List.mem_cons.mp hi' with heq | hi'
        · exact hm' i' heq.symm
        · exact hok i' hi'
      · rw [System.run, hstep]
        exact hrun'

end System

end FabAccess.Infra
