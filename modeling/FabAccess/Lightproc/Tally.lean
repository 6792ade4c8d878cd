import FabAccess.Lightproc.Proc

/-!
# 進行中の操作が持っているもの

残っている仕事ごとに、それが何をいくつ持っているかを数える。
一歩の前後で、動いた仕事の持ち物だけが変わるので、不変条件は共有状態と持ち物の和についての
算術の式になる。

* `refs` — 数えられている参照
* `procs` — `LightProc` そのもの。`tick` が手放すまでを含む
* `running` — RUNNING を立てている `tick`
* `duty` — future を捨てる義務
* `outputs` — まだ取り出されていない output
-/

namespace FabAccess.Lightproc

open Infra

structure Tally where
  refs : Nat := 0
  procs : Nat := 0
  running : Nat := 0
  duty : Nat := 0
  outputs : Nat := 0
  /-- Ready を受け取り、まだ output を書いていない `tick` -/
  writing : Nat := 0
  /-- 完了の compare-exchange を待つ `tick` -/
  completing : Nat := 0
  destroys : Nat := 0
  /-- handle の drop -/
  drops : Nat := 0
  /-- handle の poll -/
  polls : Nat := 0
  /-- 進行中の future の poll -/
  polling : Nat := 0
  procLoans : Nat := 0
  wakerLoans : Nat := 0
  tickLoans : Nat := 0
  handleLoans : Nat := 0
  /-- まだ出ていない span と、`LightProc` を queue に入れてまだ戻っていない schedule 関数 -/
  exits : Nat := 0
  deriving DecidableEq, Repr

namespace Tally

instance : Zero Tally := ⟨{}⟩

instance : Add Tally where
  add a b :=
    { refs := a.refs + b.refs, procs := a.procs + b.procs, running := a.running + b.running,
      duty := a.duty + b.duty, outputs := a.outputs + b.outputs,
      writing := a.writing + b.writing, completing := a.completing + b.completing,
      destroys := a.destroys + b.destroys, drops := a.drops + b.drops, polls := a.polls + b.polls,
      polling := a.polling + b.polling,
      procLoans := a.procLoans + b.procLoans, wakerLoans := a.wakerLoans + b.wakerLoans,
      tickLoans := a.tickLoans + b.tickLoans, handleLoans := a.handleLoans + b.handleLoans,
      exits := a.exits + b.exits }

theorem zero_def : (0 : Tally) = {} := rfl

theorem add_def (a b : Tally) : a + b =
    { refs := a.refs + b.refs, procs := a.procs + b.procs, running := a.running + b.running,
      duty := a.duty + b.duty, outputs := a.outputs + b.outputs,
      writing := a.writing + b.writing, completing := a.completing + b.completing,
      destroys := a.destroys + b.destroys, drops := a.drops + b.drops, polls := a.polls + b.polls,
      polling := a.polling + b.polling,
      procLoans := a.procLoans + b.procLoans, wakerLoans := a.wakerLoans + b.wakerLoans,
      tickLoans := a.tickLoans + b.tickLoans, handleLoans := a.handleLoans + b.handleLoans,
      exits := a.exits + b.exits } := rfl

instance : AddCommMonoid Tally where
  add_assoc a b c := by simp only [add_def, Nat.add_assoc]
  zero_add a := by simp only [add_def, zero_def, Nat.zero_add]
  add_zero a := by simp only [add_def, zero_def, Nat.add_zero]
  add_comm a b := by
    simp only [add_def, mk.injEq]
    simp only [Nat.add_comm, and_self]
  nsmul := nsmulRec

end Tally

variable {R W : Type}

def Loan.tally : Loan → Tally
  | .proc => { procLoans := 1 }
  | .waker => { wakerLoans := 1 }
  | .tick => { tickLoans := 1 }
  | .handle => { handleLoans := 1 }

def Loop.tally : Loop W → Tally
  | .tick => { refs := 1, procs := 1, duty := 1 }
  | .ready => { refs := 1, procs := 1, running := 1, outputs := 1, completing := 1 }
  | .pending | .guard => { refs := 1, procs := 1, running := 1, duty := 1 }
  | .wake => { refs := 1 }
  | .wakeByRef via => via.tally
  | .cancel .call => { procLoans := 1 }
  | .cancel .drop => { refs := 1, procs := 1, duty := 1 }
  | .poll _ => { polls := 1 }
  | .handleCancel => { handleLoans := 1 }
  | .handleDropFirst | .handleDrop => { drops := 1 }

def Notifier.tally : Notifier → Tally
  | .call => { procLoans := 1 }
  | .handle => { handleLoans := 1 }
  | .last | .tick => 0

def Use.tally : Use W → Tally
  | .register _ => { polls := 1 }
  | .notify n => n.tally
  | .notifyUnless _ .closed => { polls := 1 }
  | .notifyUnless _ .take => { polls := 1, outputs := 1 }

def Act.tally : Act R W → Tally
  | .load l | .attempt l _ => l.tally
  | .polling _ => { refs := 1, procs := 1, running := 1, duty := 1, polling := 1 }
  | .readyDrop _ _ => { refs := 1, procs := 1, running := 1, duty := 1, writing := 1 }
  | .writeOutput _ _ => { refs := 1, procs := 1, running := 1, writing := 1 }
  | .takeOutput => { outputs := 1 }
  | .unschedule => 0
  | .dropFuture => { duty := 1 }
  | .decrement => { refs := 1 }
  | .destroy => { destroys := 1 }
  | .exitSpan => { exits := 1 }
  | .push => { refs := 1, procs := 1, duty := 1 }
  | .endSchedule => { exits := 1 }
  | .lock u | .replace u | .unlock u _ => u.tally
  | .wakeAwaiter _ _ => 0
  | .clone via => via.tally
  | .endLoan l => l.tally
  | .reload _ => { polls := 1 }
  | .pollTake _ => { polls := 1, outputs := 1 }
  | .pollDone _ _ => { polls := 1 }

/-! ## 積まれる仕事の持ち物 -/

/-- 借りている参照のほかには何も持たない。 -/
theorem Loan.tally_eq (l : Loan) : ∃ p w t h, l.tally =
    { procLoans := p, wakerLoans := w, tickLoans := t, handleLoans := h } := by
  cases l <;> exact ⟨_, _, _, _, rfl⟩

@[simp] theorem again_tally (l : Loop W) : l.again.tally = l.tally := by
  cases l <;> rfl

@[simp] theorem total_notifyIf_last (b : Bool) :
    total Act.tally (notifyIf b .last : List (Act R W)) = 0 := by
  cases b <;> rfl

@[simp] theorem total_notifyIf_tick (b : Bool) :
    total Act.tally (notifyIf b .tick : List (Act R W)) = 0 := by
  cases b <;> rfl

@[simp] theorem total_afterCancel_call :
    total Act.tally (Loop.afterCancel .call : List (Act R W)) = { procLoans := 1 } := rfl

@[simp] theorem total_afterCancel_drop :
    total Act.tally (Loop.afterCancel .drop : List (Act R W)) = { refs := 1, duty := 1 } := rfl

/-- `cancel` が閉じた後も、借りている参照はまだ返していない。 -/
@[simp] theorem total_cancelCall (b : Bool) :
    total Act.tally (if b then [.lock (.notify .call)] else [.endLoan .proc] : List (Act R W)) =
      { procLoans := 1 } := by
  cases b <;> rfl

@[simp] theorem total_pollClose (b : Bool) (w : W) :
    total Act.tally
      (if b then [.lock (.notifyUnless w .take)] else [.pollTake w] : List (Act R W)) =
      { polls := 1, outputs := 1 } := by
  cases b <;> rfl

@[simp] theorem total_finish [DecidableEq W] (u : Use W) (old : Option W) :
    total Act.tally (u.finish old : List (Act R W)) = u.tally := by
  cases u with
  | register w => rfl
  | notify n => cases old <;> cases n <;> rfl
  | notifyUnless w e =>
    simp only [Use.finish, total_append]
    split
    · cases e <;> rfl
    · cases old <;> cases e <;> rfl

/-- 持ち物の和が正なら、それを持つ仕事がある。 -/
theorem exists_of_total_pos (f : Tally → Nat) (h0 : f 0 = 0) (hadd : ∀ S T, f (S + T) = f S + f T)
    {l : List (Act R W)} (h : 0 < f (total Act.tally l)) : ∃ a ∈ l, 0 < f a.tally := by
  induction l with
  | nil =>
    rw [total_nil, h0] at h
    omega
  | cons a l ih =>
    rw [total_cons, hadd] at h
    by_cases ha : 0 < f a.tally
    · exact ⟨a, by simp, ha⟩
    · obtain ⟨b, hb, hpos⟩ := ih (by omega)
      exact ⟨b, by simp [hb], hpos⟩

theorem total_eq_zero (f : Tally → Nat) (h0 : f 0 = 0) (hadd : ∀ S T, f (S + T) = f S + f T)
    {l : List (Act R W)} (h : ∀ a ∈ l, f a.tally = 0) : f (total Act.tally l) = 0 := by
  by_contra hne
  obtain ⟨a, ha, hpos⟩ := exists_of_total_pos f h0 hadd (Nat.pos_of_ne_zero hne)
  have hzero := h a ha
  omega

/-- 一つの仕事の持ち物は、和を超えない。 -/
theorem le_total_of_mem (f : Tally → Nat) (hadd : ∀ S T, f (S + T) = f S + f T) {a : Act R W}
    {l : List (Act R W)} (h : a ∈ l) : f a.tally ≤ f (total Act.tally l) := by
  induction l with
  | nil => simp at h
  | cons b l ih =>
    rw [total_cons, hadd]
    rcases List.mem_cons.mp h with rfl | h
    · omega
    · have := ih h
      omega

end FabAccess.Lightproc
