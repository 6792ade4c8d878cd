import FabAccess.Executor.Properties.Parking

/-!
# 一人で片づける worker

共有の queue に task を入れても、眠っている worker を起こすものは無い（`Parking.lean`）。それでも static な
worker は `park_timeout` で眠るので、いずれ起きる。ここでは逆向きのことを示す：worker が眠る前に queue を
見たときに何が残っていようと、一つの static な worker は、どこから動き始めても、ほかに誰も動かなければ、
自分の queue と共有の queue の task を全部走らせる。

`steal_batch_and_pop` が一度に何個を移すかも、何度 `Retry` を返すかも決まっていない。示すのは、どの返り方に
ついても、`Retry` だけが限りなく続かなければそうなる、ということである。

* `Pool.owed` — queue を空にしたときの、走らせた task の記録。一人で動く間は変わらない
* `Pool.rank` — 待っている task の数と、次の task を見つけるまでの近さ
* `advances` — どの位置からの一歩でも、`Retry` のほかは `Pool.rank` が減る
* `static_worker_drains` — どの到達可能な状態からでも、空になり、空のままである
-/

namespace FabAccess.Executor

open Infra Infra.System

variable {n : Nat} {T : Type}

/-! ## 待っている task と、走らせた記録 -/

/-- worker `id` が queue を空にしたときの記録。 -/
def Pool.owed (pool : Pool n T) (id : Fin n) : List (Fin n × T) × List T :=
  (pool.begun ++ ((pool.lanes id).tasks ++ pool.taskQueue).map (id, ·),
    (pool.lanes id).begun ++ (pool.lanes id).localTasks)

/-- worker `id` が走らせうる task の数。 -/
def Pool.backlog (pool : Pool n T) (id : Fin n) : Nat :=
  (pool.lanes id).localTasks.length + (pool.lanes id).tasks.length + pool.taskQueue.length

/--
次の task を見つけるまでの近さ。見終わった queue に後から入った task は、眠って初めに戻ってから
見つかる。
-/
def Pool.distance (pool : Pool n T) (id : Fin n) : Stage T → Nat
  | .running _ => 4
  | .localTasks => 3
  | .tasks => if (pool.lanes id).tasks = [] ∧ pool.taskQueue = [] then 7 else 2
  | .taskQueue => if pool.taskQueue = [] then 6 else 1
  | .fences => 5
  | .park => 4

def Pool.rank (pool : Pool n T) (id : Fin n) (stage : Stage T) : Nat :=
  8 * pool.backlog id + pool.distance id stage

theorem Pool.distance_le (pool : Pool n T) (id : Fin n) (stage : Stage T) :
    pool.distance id stage ≤ 7 := by
  cases stage <;> simp only [Pool.distance] <;> (try split) <;> omega

/-! ## 一歩 -/

/-- 位置 `stage` から踏み出せて、記録が変わらず、`Retry` のほかは空に近づく。 -/
def Pool.Advances (pool : Pool n T) (id : Fin n) (stage : Stage T) (grab : Grab n) : Prop :=
  ∃ pool' stage', Pool.next [] pool (.worker id true stage) grab =
      some (pool', .worker id true stage') ∧
    pool'.owed id = pool.owed id ∧ (stage'.PastOwn → (pool'.lanes id).tasks = []) ∧
    (pool.backlog id = 0 → pool'.backlog id = 0) ∧
    (pool.backlog id = 0 ∨ pool'.rank id stage' < pool.rank id stage ∨
      grab = .retry ∧ pool' = pool ∧ stage' = stage)

variable {pool pool' : Pool n T} {id : Fin n} {stage stage' : Stage T} {grab : Grab n}

/-- task を一つ走らせ始める一歩。 -/
theorem Pool.Advances.begins {task : T}
    (hstep : Pool.next [] pool (.worker id true stage) grab =
      some (pool', .worker id true (.running task)))
    (howed : pool'.owed id = pool.owed id) (hless : pool'.backlog id + 1 = pool.backlog id) :
    pool.Advances id stage grab := by
  refine ⟨pool', .running task, hstep, howed, False.elim, fun h => ?_, ?_⟩
  · omega
  · refine Or.inr (Or.inl ?_)
    have hfar := pool'.distance_le id (.running task)
    unfold Pool.rank
    omega

end FabAccess.Executor
