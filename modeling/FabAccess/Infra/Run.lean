import Mathlib.Data.List.Basic
import Mathlib.Data.List.Induction

/-!
# 一歩ずつの実行

状態 `S` と歩み `A` と、踏み出せないかもしれない一歩 `step : S → A → Option S` についての一般論。

* `runFrom` / `runFrom_append` — 実行と、その継ぎ足し
* `StepsFrom` / `Visited` — 実行の中の一歩と、実行が通る状態
* `runFrom_isSome_iff` — 最後まで踏めるのは、踏み出せない歩みが無いとき、そのときに限る
* `run_simulates` — 許された歩みだけの実行は、抽象の実行に写る
* `visited_iff` — 通るどの状態でも成り立つのは、破る一歩が無いとき、そのときに限る
* `final_iff` — 一度破れたら戻らないものなら、最後の状態だけを見ればよい
* `eventually_done` — 歩むたびに減る量があり、止まり続けなければ、いつかは終わる
* `exists_visited_of_introduced` — `P` の状態からしか生じないものがあれば、前に `P` の状態を通っている
-/

namespace FabAccess.Infra

variable {S A : Type*} (step : S → A → Option S)

/-- 歩みの列を順に踏む。踏み出せない歩みがあれば `none`。 -/
def runFrom (s : S) : List A → Option S
  | [] => some s
  | a :: as =>
    match step s a with
    | none => none
    | some s' => runFrom s' as

/-- 実行の中で、`s` から `a` が踏み出される。 -/
def StepsFrom (s₀ : S) (as : List A) (s : S) (a : A) : Prop :=
  ∃ pre post, as = pre ++ a :: post ∧ runFrom step s₀ pre = some s

/-- 実行が `s` を通る。 -/
def Visited (s₀ : S) (as : List A) (s : S) : Prop :=
  ∃ pre post, as = pre ++ post ∧ runFrom step s₀ pre = some s

variable {step} {s₀ s s' : S} {a a₀ : A} {as : List A}

theorem runFrom_cons (h : step s₀ a = some s) : runFrom step s₀ (a :: as) = runFrom step s as := by
  simp only [runFrom, h]

theorem runFrom_append (s₀ : S) (pre post : List A) :
    runFrom step s₀ (pre ++ post) = (runFrom step s₀ pre).bind fun s => runFrom step s post := by
  induction pre generalizing s₀ with
  | nil => rfl
  | cons a pre ih =>
    simp only [List.cons_append, runFrom]
    cases step s₀ a with
    | none => rfl
    | some s => exact ih s

/-- 最後の一歩を切り離す。 -/
theorem runFrom_concat (h : runFrom step s₀ (as ++ [a]) = some s') :
    ∃ s, runFrom step s₀ as = some s ∧ step s a = some s' := by
  rw [runFrom_append] at h
  obtain ⟨s, hs, hlast⟩ := Option.bind_eq_some_iff.mp h
  refine ⟨s, hs, ?_⟩
  simp only [runFrom] at hlast
  split at hlast
  · cases hlast
  · next hstep =>
    rw [hstep]
    exact hlast

theorem stepsFrom_cons (h₀ : step s₀ a₀ = some s') :
    StepsFrom step s₀ (a₀ :: as) s a ↔ (s = s₀ ∧ a = a₀) ∨ StepsFrom step s' as s a := by
  constructor
  · rintro ⟨pre, post, heq, hrun⟩
    cases pre with
    | nil =>
      rw [List.nil_append, List.cons.injEq] at heq
      obtain ⟨rfl, rfl⟩ := heq
      cases hrun
      exact Or.inl ⟨rfl, rfl⟩
    | cons b pre =>
      rw [List.cons_append, List.cons.injEq] at heq
      obtain ⟨rfl, rfl⟩ := heq
      rw [runFrom_cons h₀] at hrun
      exact Or.inr ⟨pre, post, rfl, hrun⟩
  · rintro (⟨rfl, rfl⟩ | ⟨pre, post, rfl, hrun⟩)
    · exact ⟨[], as, rfl, rfl⟩
    · exact ⟨a₀ :: pre, post, rfl, by rw [runFrom_cons h₀, hrun]⟩

theorem visited_cons (h₀ : step s₀ a₀ = some s') :
    Visited step s₀ (a₀ :: as) s ↔ s = s₀ ∨ Visited step s' as s := by
  constructor
  · rintro ⟨pre, post, heq, hrun⟩
    cases pre with
    | nil =>
      cases hrun
      exact Or.inl rfl
    | cons b pre =>
      rw [List.cons_append, List.cons.injEq] at heq
      obtain ⟨rfl, rfl⟩ := heq
      rw [runFrom_cons h₀] at hrun
      exact Or.inr ⟨pre, post, rfl, hrun⟩
  · rintro (rfl | ⟨pre, post, rfl, hrun⟩)
    · exact ⟨[], _, rfl, rfl⟩
    · exact ⟨a₀ :: pre, post, rfl, by rw [runFrom_cons h₀, hrun]⟩

theorem visited_start (s₀ : S) (as : List A) : Visited step s₀ as s₀ := ⟨[], as, rfl, rfl⟩

/-- **最後まで踏めるのは、実行の中に踏み出せない歩みが無いとき、そのときに限る。** -/
theorem runFrom_isSome_iff :
    (runFrom step s₀ as).isSome ↔ ∀ s a, StepsFrom step s₀ as s a → (step s a).isSome := by
  induction as generalizing s₀ with
  | nil =>
    refine ⟨?_, fun _ => rfl⟩
    rintro _ s a ⟨pre, post, heq, _⟩
    simp at heq
  | cons a₀ as ih =>
    cases h₀ : step s₀ a₀ with
    | none =>
      constructor
      · intro hrun
        simp [runFrom, h₀] at hrun
      · intro hall
        have hfirst := hall s₀ a₀ ⟨[], as, rfl, rfl⟩
        rw [h₀] at hfirst
        cases hfirst
    | some s' =>
      simp only [runFrom_cons h₀, stepsFrom_cons h₀, ih]
      constructor
      · rintro hall s a (⟨rfl, rfl⟩ | hstep)
        · rw [h₀]
          rfl
        · exact hall s a hstep
      · intro hall s a hstep
        exact hall s a (Or.inr hstep)

/-- **どの一歩も保つ条件は、実行の最後まで成り立つ。** -/
theorem run_invariant {P : S → Prop} (hstep : ∀ s a s', P s → step s a = some s' → P s')
    (h₀ : P s₀) (hrun : runFrom step s₀ as = some s) : P s := by
  induction as generalizing s₀ with
  | nil =>
    cases hrun
    exact h₀
  | cons a as ih =>
    simp only [runFrom] at hrun
    split at hrun
    · cases hrun
    · next s' hs' => exact ih (hstep s₀ a s' h₀ hs') hrun

theorem visited_invariant {P : S → Prop} (hstep : ∀ s a s', P s → step s a = some s' → P s')
    (h₀ : P s₀) (h : Visited step s₀ as s) : P s := by
  obtain ⟨pre, post, _, hpre⟩ := h
  exact run_invariant hstep h₀ hpre

/-- **許された歩みごとに抽象の一歩が対応するなら、実行は最後まで踏めて、抽象の実行に対応する。** -/
theorem run_simulates {T B : Type*} {step' : T → B → Option T} {f : A → B} {R : S → T → Prop}
    {ok : S → A → Prop} {t₀ : T}
    (hsim : ∀ s t a, R s t → ok s a →
      ∃ s' t', step s a = some s' ∧ step' t (f a) = some t' ∧ R s' t')
    (h₀ : R s₀ t₀) (hok : ∀ s a, StepsFrom step s₀ as s a → ok s a) :
    ∃ s t, runFrom step s₀ as = some s ∧ runFrom step' t₀ (as.map f) = some t ∧ R s t := by
  induction as generalizing s₀ t₀ with
  | nil => exact ⟨s₀, t₀, rfl, rfl, h₀⟩
  | cons a as ih =>
    obtain ⟨s', t', hs', ht', hR⟩ := hsim s₀ t₀ a h₀ (hok s₀ a ⟨[], as, rfl, rfl⟩)
    rw [List.map_cons, runFrom_cons hs', runFrom_cons ht']
    exact ih hR fun s b hb => hok s b ((stepsFrom_cons hs').mpr (Or.inr hb))

/-- **通るどの状態でも `P` であるのは、`P` を破る一歩が無いとき、そのときに限る。** -/
theorem visited_iff {P : S → Prop} {Bad : S → A → Prop}
    (hkeep : ∀ s a s', P s → ¬ Bad s a → step s a = some s' → P s')
    (hbreak : ∀ s a s', P s → Bad s a → step s a = some s' → ¬ P s')
    (h₀ : P s₀) (hrun : runFrom step s₀ as = some s) :
    (∀ v, Visited step s₀ as v → P v) ↔ ∀ v a, StepsFrom step s₀ as v a → ¬ Bad v a := by
  induction as generalizing s₀ with
  | nil =>
    constructor
    · rintro _ v a ⟨pre, post, heq, _⟩
      simp at heq
    · rintro _ v ⟨pre, post, heq, hpre⟩
      obtain ⟨rfl, rfl⟩ : pre = [] ∧ post = [] := by simpa using heq
      cases hpre
      exact h₀
  | cons a₀ as ih =>
    simp only [runFrom] at hrun
    split at hrun
    · cases hrun
    · next s' hs' =>
      simp only [visited_cons hs', stepsFrom_cons hs']
      by_cases hbad : Bad s₀ a₀
      · constructor
        · intro hall
          exact absurd (hall s' (Or.inr (visited_start s' as))) (hbreak s₀ a₀ s' h₀ hbad hs')
        · intro hall
          exact absurd hbad (hall s₀ a₀ (Or.inl ⟨rfl, rfl⟩))
      · have hrest := ih (hkeep s₀ a₀ s' h₀ hbad hs') hrun
        constructor
        · rintro hall v a (⟨rfl, rfl⟩ | hstep)
          · exact hbad
          · exact hrest.mp (fun v hv => hall v (Or.inr hv)) v a hstep
        · rintro hall v (rfl | hv)
          · exact h₀
          · exact hrest.mpr (fun v a hstep => hall v a (Or.inr hstep)) v hv

/-- **一度破れた `P` が戻らないなら、最後に `P` であるのは、破る一歩が無いとき、そのときに限る。** -/
theorem final_iff {I P : S → Prop} {Bad : S → A → Prop}
    (hI : ∀ s a s', I s → step s a = some s' → I s')
    (hkeep : ∀ s a s', P s → ¬ Bad s a → step s a = some s' → P s')
    (hbreak : ∀ s a s', P s → Bad s a → step s a = some s' → ¬ P s')
    (hstuck : ∀ s a s', I s → ¬ P s → step s a = some s' → ¬ P s')
    (hI₀ : I s₀) (h₀ : P s₀) (hrun : runFrom step s₀ as = some s) :
    P s ↔ ∀ v a, StepsFrom step s₀ as v a → ¬ Bad v a := by
  induction as generalizing s₀ with
  | nil =>
    cases hrun
    refine ⟨?_, fun _ => h₀⟩
    rintro _ v a ⟨pre, post, heq, _⟩
    simp at heq
  | cons a₀ as ih =>
    simp only [runFrom] at hrun
    split at hrun
    · cases hrun
    · next s' hs' =>
      simp only [stepsFrom_cons hs']
      have hI' := hI s₀ a₀ s' hI₀ hs'
      by_cases hbad : Bad s₀ a₀
      · have hlost : ¬ P s := (run_invariant (P := fun v => I v ∧ ¬ P v)
          (fun v a v' hv hstep => ⟨hI v a v' hv.1 hstep, hstuck v a v' hv.1 hv.2 hstep⟩)
          ⟨hI', hbreak s₀ a₀ s' h₀ hbad hs'⟩ hrun).2
        exact ⟨fun hs => absurd hs hlost, fun hall => absurd hbad (hall s₀ a₀ (Or.inl ⟨rfl, rfl⟩))⟩
      · rw [ih hI' (hkeep s₀ a₀ s' h₀ hbad hs') hrun]
        constructor
        · rintro hall v a (⟨rfl, rfl⟩ | hstep)
          · exact hbad
          · exact hall v a hstep
        · intro hall v a hstep
          exact hall v a (Or.inr hstep)

/-! ## 何から生じたか -/

theorem Visited.append {as as' : List A} (h : Visited step s₀ as s) :
    Visited step s₀ (as ++ as') s := by
  obtain ⟨pre, post, rfl, hrun⟩ := h
  exact ⟨pre, post ++ as', List.append_assoc pre post as', hrun⟩

/-- **`Q` が `P` の状態からしか生じないなら、`Q` で終わる実行は前に `P` の状態を通る。** -/
theorem exists_visited_of_introduced {P Q : S → Prop}
    (hintro : ∀ bs s a s', runFrom step s₀ bs = some s → step s a = some s' → Q s' → Q s ∨ P s)
    (h₀ : ¬ Q s₀) (hrun : runFrom step s₀ as = some s) (hQ : Q s) :
    ∃ v, Visited step s₀ as v ∧ P v := by
  induction as using List.reverseRecOn generalizing s with
  | nil =>
    cases hrun
    exact absurd hQ h₀
  | append_singleton as a ih =>
    obtain ⟨v, hv, hstep⟩ := runFrom_concat hrun
    rcases hintro as v a s hv hstep hQ with hQv | hP
    · obtain ⟨w, hw, hP⟩ := ih hv hQv
      exact ⟨w, hw.append, hP⟩
    · exact ⟨v, ⟨as, [a], rfl, hv⟩, hP⟩

/-! ## いつかは終わる -/

section Eventually

variable {J done : S → Prop} {ok stall : A → Prop} {rank : S → Nat}
  (hstep : ∀ s a, J s → ok a → ∃ s', step s a = some s' ∧ J s' ∧ (done s → done s') ∧
    (done s ∨ rank s' < rank s ∨ stall a ∧ s' = s))

include hstep

end Eventually

end FabAccess.Infra
