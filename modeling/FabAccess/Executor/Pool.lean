import Mathlib.Data.Fin.Basic
import Mathlib.Data.List.FinRange
import Mathlib.Logic.Function.Basic
import FabAccess.Infra.Interleave

/-!
# worker thread と queue

`runtime/executor/src/pool.rs` の `schedule` と `schedule_local`、`worker.rs` の `WorkerThread`、
`thread_manager.rs` の `ThreadManager` の埋め込み。

task は共有の `task_queue` か、一つの worker の `local_tasks` に入る。worker は自分の queue を空にし、
`task_queue` からまとめて取り、ほかの worker から盗み、それでも無ければ眠る。queue と parker への操作の
一回ずつを一歩とし、いくつもの worker と、task を入れる thread とが割り込み合う。

```
localTasks → tasks → taskQueue → fences → park
     ↑__________________|___________|______|   （task があれば running を経て localTasks に戻る）
```

* まとめて取る個数と、`Retry` が返るかどうかは決まっていないので、外から与える
* `fences` は `initialize` で一つも入らない。ここでは任意の列とする
* `scale_pool` の本体は空で、眠った worker を起こすのは `schedule_local` だけである
* crossbeam の parker は、起きていて眠る前でも `unpark` を一つ覚える
-/

namespace FabAccess.Executor

open Infra

/--
一つの worker の queue と parker。`scheduled` は `local_tasks` に入った task、`begun` はそのうち
走り始めた task の記録である。
-/
structure Lane (T : Type) where
  tasks : List T
  localTasks : List T
  /-- parker が `unpark` を覚えている -/
  notified : Bool
  scheduled : List T
  begun : List T
  deriving DecidableEq

/--
queue の全体。`pushed` は `task_queue` に入った task、`begun` はそのうち走り始めた task と、走らせた
worker の記録である。
-/
structure Pool (n : Nat) (T : Type) where
  taskQueue : List T
  lanes : Fin n → Lane T
  pushed : List T
  begun : List (Fin n × T)

/-- worker の位置。 -/
inductive Stage (T : Type) where
  /-- `local_tasks.pop()` -/
  | localTasks
  /-- `tasks.pop()` -/
  | tasks
  /-- `task_queue.steal_batch_and_pop(&self.tasks)` -/
  | taskQueue
  /-- `select_fence` と、選ばれた fence の `steal_batch_and_pop` -/
  | fences
  | running (task : T)
  /-- `park` か `park_timeout` -/
  | park
  deriving DecidableEq, Repr

/-- 動くもの。 -/
inductive Hand (n : Nat) (T : Type) where
  /-- `isStatic` なら `run_timeout`、そうでなければ `run` -/
  | worker (id : Fin n) (isStatic : Bool) (stage : Stage T)
  /-- `schedule_local` が task を入れて、まだ `unpark` していない -/
  | waker (id : Fin n)
  | woken
  deriving DecidableEq, Repr

/-- 盗みの成り行き。`extra` は、走らせる一つのほかに自分の queue に移す数である。 -/
inductive Grab (n : Nat) where
  | retry
  | take (extra : Nat)
  | takeFrom (victim : Fin n) (extra : Nat)
  deriving DecidableEq, Repr

/-- task の入れ方。 -/
inductive Scheduling (n : Nat) (T : Type) where
  /-- `Executor::schedule` -/
  | global (task : T)
  /-- `schedule_local` -/
  | onWorker (id : Fin n) (task : T)
  deriving DecidableEq, Repr

namespace Pool

variable {n : Nat} {T : Type}

def start (n : Nat) (T : Type) : Pool n T where
  taskQueue := []
  lanes := fun _ => ⟨[], [], false, [], []⟩
  pushed := []
  begun := []

def setLane (pool : Pool n T) (id : Fin n) (lane : Lane T) : Pool n T :=
  { pool with lanes := Function.update pool.lanes id lane }

/-- 共有の queue から来た task を走らせ始める。 -/
def begin (pool : Pool n T) (id : Fin n) (task : T) : Pool n T :=
  { pool with begun := pool.begun ++ [(id, task)] }

/-- `task_queue` の先頭の一つと、続く `extra` 個を取る。 -/
def stealBatch (pool : Pool n T) (id : Fin n) (extra : Nat) : Option (T × Pool n T) :=
  match pool.taskQueue with
  | [] => none
  | task :: rest =>
    let lane := pool.lanes id
    some (task, { pool with taskQueue := rest.drop extra }.setLane id
      { lane with tasks := lane.tasks ++ rest.take extra })

/-- `victim` の queue から取る。自分の queue からは一つだけ取る。 -/
def stealFrom (pool : Pool n T) (id victim : Fin n) (extra : Nat) : Option (T × Pool n T) :=
  match (pool.lanes victim).tasks with
  | [] => none
  | task :: rest =>
    let extra := if victim = id then 0 else extra
    let pool := pool.setLane victim { pool.lanes victim with tasks := rest.drop extra }
    let lane := pool.lanes id
    some (task, pool.setLane id { lane with tasks := lane.tasks ++ rest.take extra })

/-- task を入れる。 -/
def schedule (pool : Pool n T) : Scheduling n T → Option (Pool n T × List (Hand n T))
  | .global task =>
    some ({ pool with taskQueue := pool.taskQueue ++ [task], pushed := pool.pushed ++ [task] }, [])
  | .onWorker id task =>
    let lane := pool.lanes id
    some (pool.setLane id { lane with
      localTasks := lane.localTasks ++ [task], scheduled := lane.scheduled ++ [task] }, [.waker id])

/-- worker と waker の一歩。眠っている worker は、`unpark` されるか時間が来るまで進まない。 -/
def next (fences : List (Fin n)) (pool : Pool n T) (hand : Hand n T) (grab : Grab n) :
    Option (Pool n T × Hand n T) :=
  match hand with
  | .woken => none
  | .waker id => some (pool.setLane id { pool.lanes id with notified := true }, .woken)
  | .worker id isStatic stage =>
    let lane := pool.lanes id
    match stage with
    | .localTasks =>
      match lane.localTasks with
      | task :: rest =>
        let lane := { lane with localTasks := rest, begun := lane.begun ++ [task] }
        some (pool.setLane id lane, .worker id isStatic (.running task))
      | [] => some (pool, .worker id isStatic .tasks)
    | .tasks =>
      match lane.tasks with
      | task :: rest => some ((pool.setLane id { lane with tasks := rest }).begin id task,
          .worker id isStatic (.running task))
      | [] => some (pool, .worker id isStatic .taskQueue)
    | .taskQueue =>
      match grab with
      | .retry => some (pool, .worker id isStatic .taskQueue)
      | .take extra =>
        match pool.stealBatch id extra with
        | some (task, pool) => some (pool.begin id task, .worker id isStatic (.running task))
        | none => some (pool, .worker id isStatic .fences)
      | .takeFrom _ _ => none
    | .fences =>
      if fences = [] then some (pool, .worker id isStatic .park)
      else
        match grab with
        | .retry => some (pool, .worker id isStatic .fences)
        | .takeFrom victim extra =>
          if victim ∈ fences then
            match pool.stealFrom id victim extra with
            | some (task, pool) => some (pool.begin id task, .worker id isStatic (.running task))
            | none => some (pool, .worker id isStatic .park)
          else none
        | .take _ => none
    | .running _ => some (pool, .worker id isStatic .localTasks)
    | .park =>
      if lane.notified then
        some (pool.setLane id { lane with notified := false }, .worker id isStatic .localTasks)
      else if isStatic then some (pool, .worker id isStatic .localTasks)
      else none

end Pool

/-- `Spooler::new`。`initialize` が始める worker のうち、初めの `staticThreads` 個が static である。 -/
def Spooler.new (staticThreads n : Nat) (T : Type) : Config (Pool n T) (Hand n T) where
  shared := .start n T
  threads := (List.finRange n).map fun id =>
    .worker id (decide (id.val < staticThreads)) .localTasks

/-- `Executor` の全体。`fences` は盗む相手である。 -/
def executor {n : Nat} (T : Type) (fences : List (Fin n)) :
    System (Pool n T) (Hand n T) (Scheduling n T) (Grab n) where
  spawn := Pool.schedule
  next := Pool.next fences

end FabAccess.Executor
