import FabAccess.Infra.Run

/-!
# 先に入れたものを先に出す列

後ろに列を加え、先頭から何個かを捨てる操作の列について。

* `queueStep` — 操作の一回。無いものは捨てられない
* `pushed`・`dropped` — 加えたものすべてと、捨てた数
* `queue_run_eq` — 残っているのは、加えたものすべてから、捨てた数だけ先頭を除いたものである
-/

namespace FabAccess.Infra

variable {α : Type*}

inductive QueueOp (α : Type*) where
  | push (l : List α)
  | drop (n : Nat)

/-- 操作の一回。無いものを捨てようとすれば `none`。 -/
def queueStep (q : List α) : QueueOp α → Option (List α)
  | .push l => some (q ++ l)
  | .drop n => if n ≤ q.length then some (q.drop n) else none

/-- 加えたものすべて。 -/
def pushed : List (QueueOp α) → List α
  | [] => []
  | .push l :: ops => l ++ pushed ops
  | .drop _ :: ops => pushed ops

/-- 捨てた数。 -/
def dropped : List (QueueOp α) → Nat
  | [] => 0
  | .push _ :: ops => dropped ops
  | .drop n :: ops => n + dropped ops

/-- **残っているのは、加えたものすべてから、捨てた数だけ先頭を除いたものである。** -/
theorem queue_run_eq {q₀ q : List α} {ops : List (QueueOp α)}
    (h : runFrom queueStep q₀ ops = some q) : q = (q₀ ++ pushed ops).drop (dropped ops) := by
  induction ops generalizing q₀ with
  | nil =>
    cases h
    simp [pushed, dropped]
  | cons op ops ih =>
    cases op with
    | push l =>
      rw [runFrom_cons (s := q₀ ++ l) rfl] at h
      rw [ih h, pushed, dropped, List.append_assoc]
    | drop n =>
      by_cases hle : n ≤ q₀.length
      · rw [runFrom_cons (s := q₀.drop n) (if_pos hle)] at h
        rw [ih h, pushed, dropped, ← List.drop_drop, List.drop_append_of_le_length hle]
      · simp [runFrom, queueStep, hle] at h

end FabAccess.Infra
