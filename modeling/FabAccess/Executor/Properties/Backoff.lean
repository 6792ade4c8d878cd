import Mathlib.Data.List.Induction
import FabAccess.Executor.Worker

/-!
# 待ち時間の伸び

`i += 1` は `1 << i` 回の loop の中にあるので、`Retry` のたびに `i` は `i + 2 ^ i` になる。
0、1、3、11、2059 と伸びて、五つ目の `Retry` では shift が `i32` の幅を越える。

* `step_counted` — 続いた `Retry` の数と `i`
* `no_panic_iff` — panic しないのは、`Retry` が五つ続かないとき、そのときに限る
-/

namespace FabAccess.Executor

open Infra

variable {T : Type} {w w' : WorkerRun T} {answer : Answer T} {answers : List (Answer T)}

def Answer.isRetry : Answer T → Bool
  | .steal .retry => true
  | _ => false

/-- 最後に続く、共有の queue の `Retry` の数。 -/
def retried (answers : List (Answer T)) : Nat := (answers.reverse.takeWhile Answer.isRetry).length

@[simp] theorem retried_concat (answers : List (Answer T)) (answer : Answer T) :
    retried (answers ++ [answer]) = if answer.isRetry then retried answers + 1 else 0 := by
  rw [retried, List.reverse_concat, List.takeWhile_cons]
  split
  · rfl
  · rfl

/-! ## `i` の列 -/

theorem spin_eq {n i : Nat} (h : i + n < 2 ^ 31) : spin n i = some (i + n) := by
  induction n generalizing i with
  | zero => rfl
  | succ n ih =>
    rw [spin, if_pos (by omega), ih (by omega)]
    congr 1
    omega

/-- `k` 回続いた `Retry` の後の `i`。 -/
def shiftAfter : Nat → Nat
  | 0 => 0
  | k + 1 => shiftAfter k + 2 ^ shiftAfter k

theorem backoff_shiftAfter {k : Nat} (h : k < 4) :
    backoff (shiftAfter k) = some (shiftAfter (k + 1)) := by
  have hle : shiftAfter k ≤ 11 := by
    have hcases : k = 0 ∨ k = 1 ∨ k = 2 ∨ k = 3 := by omega
    rcases hcases with rfl | rfl | rfl | rfl <;> decide
  have hpow : 2 ^ shiftAfter k ≤ 2 ^ 11 := Nat.pow_le_pow_right (by decide) hle
  rw [backoff, if_pos (by omega), if_neg (by omega), spin_eq (by omega)]
  rfl

/-- 五つ目の shift は幅を越える。 -/
theorem backoff_shiftAfter_four : backoff (shiftAfter 4) = none := by
  have hshift : shiftAfter 4 = 2059 := by decide
  rw [backoff, hshift, if_neg (by decide)]

/-! ## 実行 -/

/-- 続いた `Retry` の数から見た、各位置で成り立つこと。 -/
def Counted (answers : List (Answer T)) : WorkerPc → Prop
  | .global i => retried answers < 5 ∧ i = shiftAfter (retried answers)
  | .panicked => retried answers = 5
  | .pop | .fence | .returned => retried answers = 0

/-- 一つの答えは、続いた `Retry` を一つ増やすか、0 に戻す。 -/
theorem step_counted (h : Counted answers w.pc) (hs : w.step answer = some w') :
    Counted (answers ++ [answer]) w'.pc := by
  unfold WorkerRun.step at hs
  cases hpc : w.pc with
  | pop =>
    rw [hpc] at hs
    cases answer with
    | localTask task | ownTask task =>
      cases hs
      exact retried_concat ..
    | noTask =>
      cases hs
      have hzero : retried (answers ++ [Answer.noTask]) = 0 := retried_concat ..
      exact ⟨by rw [hzero]; decide, by rw [hzero]; rfl⟩
    | steal result | fence lens result => cases hs
  | global i =>
    rw [hpc] at h hs
    obtain ⟨hlt, hi⟩ := h
    cases answer with
    | localTask task | ownTask task | noTask | fence lens result => cases hs
    | steal result =>
      cases result with
      | success task | empty =>
        cases hs
        exact retried_concat ..
      | retry =>
        have hmore : retried (answers ++ [Answer.steal .retry]) = retried answers + 1 :=
          retried_concat ..
        dsimp only at hs
        rw [hi] at hs
        by_cases hfour : retried answers < 4
        · rw [backoff_shiftAfter hfour] at hs
          cases hs
          exact ⟨by rw [hmore]; omega, by rw [hmore]⟩
        · have heq : retried answers = 4 := by omega
          rw [heq, backoff_shiftAfter_four] at hs
          cases hs
          rw [Counted, hmore, heq]
  | fence =>
    rw [hpc] at hs
    cases answer with
    | localTask task | ownTask task | noTask | steal result => cases hs
    | fence lens result =>
      dsimp only at hs
      have hzero : retried (answers ++ [Answer.fence lens result]) = 0 := retried_concat ..
      split at hs <;> cases hs
      · exact hzero
      · exact hzero
      · exact hzero
      · rw [hpc]
        exact hzero
  | returned | panicked =>
    rw [hpc] at hs
    cases hs

theorem run_counted (hrun : WorkerRun.start.run answers = some w) : Counted answers w.pc := by
  induction answers using List.reverseRecOn generalizing w with
  | nil =>
    cases hrun
    rfl
  | append_singleton answers answer ih =>
    obtain ⟨v, hv, hstep⟩ := runFrom_concat hrun
    exact step_counted (ih hv) hstep

/-- panic した後には何も問い合わせない。 -/
theorem run_panicked (hpc : w.pc = .panicked) (hrun : w.run answers = some w') :
    answers = [] := by
  cases answers with
  | nil => rfl
  | cons answer answers =>
    have hnone : w.step answer = none := by
      unfold WorkerRun.step
      rw [hpc]
    simp only [WorkerRun.run, runFrom, hnone] at hrun
    cases hrun

/--
**一巡が panic しないのは、共有の queue の `Retry` が五つ続かないとき、そのときに限る。**
そのとき `1 << i` の `i` も `i += 1` の結果も、いつも範囲の中にある。
-/
theorem no_panic_iff (answers : List (Answer T)) (w : WorkerRun T)
    (hrun : WorkerRun.start.run answers = some w) :
    w.pc ≠ .panicked ↔ ∀ pre, pre <+: answers → retried pre < 5 := by
  constructor
  · rintro hpc pre ⟨post, rfl⟩
    obtain ⟨v, hv, hrest⟩ :=
      Option.bind_eq_some_iff.mp ((runFrom_append _ pre post).symm.trans hrun)
    have hcounted := run_counted hv
    cases hvpc : v.pc with
    | global i =>
      rw [hvpc] at hcounted
      exact hcounted.1
    | panicked =>
      obtain rfl := run_panicked hvpc hrest
      cases hrest
      exact absurd hvpc hpc
    | pop | fence | returned =>
      rw [hvpc] at hcounted
      rw [hcounted]
      decide
  · intro hall hpc
    have hcounted := run_counted hrun
    rw [hpc] at hcounted
    have hlt := hall answers (List.prefix_refl _)
    rw [hcounted] at hlt
    exact absurd hlt (Nat.lt_irrefl _)

/-- `Retry` が二つ続いた後に task が取れる。 -/
def twoRetries : List (Answer String) :=
  [.noTask, .steal .retry, .steal .retry, .steal (.success "tick")]

theorem no_panic_two :
    WorkerRun.start.run twoRetries = some ⟨.pop, ["tick"]⟩ ∧
      ∀ pre, pre <+: twoRetries → retried pre < 5 := by
  have hrun : WorkerRun.start.run twoRetries = some ⟨.pop, ["tick"]⟩ := by decide
  exact ⟨hrun, (no_panic_iff twoRetries _ hrun).mp (by decide)⟩

theorem run_concat {answer : Answer T} (hrun : WorkerRun.start.run answers = some w)
    (hstep : w.step answer = some w') :
    WorkerRun.start.run (answers ++ [answer]) = some w' := by
  rw [WorkerRun.run, runFrom_append, ← WorkerRun.run, hrun, Option.bind_some, runFrom, hstep]
  rfl

theorem run_retries {k : Nat} (h : k ≤ 4) :
    (WorkerRun.start : WorkerRun T).run (.noTask :: List.replicate k (.steal .retry)) =
      some ⟨.global (shiftAfter k), []⟩ := by
  induction k with
  | zero => rfl
  | succ k ih =>
    rw [List.replicate_succ', ← List.cons_append]
    refine run_concat (ih (by omega)) ?_
    simp only [WorkerRun.step, backoff_shiftAfter (by omega : k < 4)]

/-- `Retry` が五つ続くと panic する。 -/
theorem five_retries_panic :
    (WorkerRun.start : WorkerRun String).run (.noTask :: List.replicate 5 (.steal .retry)) =
      some ⟨.panicked, []⟩ := by
  rw [List.replicate_succ', ← List.cons_append]
  refine run_concat (run_retries (Nat.le_refl 4)) ?_
  simp only [WorkerRun.step, backoff_shiftAfter_four]

end FabAccess.Executor
