import Mathlib.Algebra.BigOperators.Fin
import Mathlib.Algebra.Order.Group.Multiset
import Mathlib.Tactic.Abel
import FabAccess.Executor.Pool

/-!
# task は失われず、二度走らない

* `next_turn` — 一歩でできること
* `schedule_conserves`・`turn_conserves` — 一歩は task を失わず、増やさない
* `tasks_conserved` — どの割り込みの実行でも、入った task は queue にあるか、一度だけ走り始めている。
  worker に結び付いた task は、その worker が入った順に走らせる
-/

namespace FabAccess.Executor

open Infra Infra.System

variable {n : Nat} {T : Type}

namespace Pool

variable {fences : List (Fin n)} {pool pool' : Pool n T}

/-! ## lane の読み書き -/

@[simp] theorem setLane_taskQueue (id : Fin n) (lane : Lane T) :
    (pool.setLane id lane).taskQueue = pool.taskQueue := rfl

@[simp] theorem setLane_pushed (id : Fin n) (lane : Lane T) :
    (pool.setLane id lane).pushed = pool.pushed := rfl

@[simp] theorem setLane_begun (id : Fin n) (lane : Lane T) :
    (pool.setLane id lane).begun = pool.begun := rfl

@[simp] theorem setLane_lanes_self (id : Fin n) (lane : Lane T) :
    (pool.setLane id lane).lanes id = lane := Function.update_self ..

/-- 一つの worker の queue だけが変わる。 -/
theorem setLane_lanes (id : Fin n) (lane : Lane T) (id' : Fin n) :
    (pool.setLane id lane).lanes id' = if id' = id then lane else pool.lanes id' := by
  unfold setLane
  split
  · next heq =>
    subst heq
    exact Function.update_self ..
  · next hne => exact Function.update_of_ne hne ..

@[simp] theorem begin_taskQueue (id : Fin n) (task : T) :
    (pool.begin id task).taskQueue = pool.taskQueue := rfl

@[simp] theorem begin_lanes (id : Fin n) (task : T) :
    (pool.begin id task).lanes = pool.lanes := rfl

@[simp] theorem begin_pushed (id : Fin n) (task : T) :
    (pool.begin id task).pushed = pool.pushed := rfl

/-! ## 一歩でできること -/

/-- 一歩でできること。走り始めた task は、自分の queue か、盗んだ queue の先頭である。 -/
inductive Turn (fences : List (Fin n)) (pool : Pool n T) : Hand n T → Pool n T → Hand n T → Prop where
  | unpark (id : Fin n) : Turn fences pool (.waker id)
    (pool.setLane id { pool.lanes id with notified := true }) .woken
  | beginLocal {id : Fin n} (s : Bool) {task : T} {rest : List T}
    (h : (pool.lanes id).localTasks = task :: rest) :
    Turn fences pool (.worker id s .localTasks)
      (pool.setLane id { pool.lanes id with
        localTasks := rest, begun := (pool.lanes id).begun ++ [task] })
      (.worker id s (.running task))
  | noLocal {id : Fin n} (s : Bool) (h : (pool.lanes id).localTasks = []) :
    Turn fences pool (.worker id s .localTasks) pool (.worker id s .tasks)
  | beginOwn {id : Fin n} (s : Bool) {task : T} {rest : List T}
    (h : (pool.lanes id).tasks = task :: rest) :
    Turn fences pool (.worker id s .tasks)
      ((pool.setLane id { pool.lanes id with tasks := rest }).begin id task)
      (.worker id s (.running task))
  | noTask {id : Fin n} (s : Bool) (h : (pool.lanes id).tasks = []) :
    Turn fences pool (.worker id s .tasks) pool (.worker id s .taskQueue)
  | beginStolen {id : Fin n} (s : Bool) {extra : Nat} {task : T} {pool' : Pool n T}
    (h : pool.stealBatch id extra = some (task, pool')) :
    Turn fences pool (.worker id s .taskQueue) (pool'.begin id task) (.worker id s (.running task))
  | noQueue (id : Fin n) (s : Bool) (h : pool.taskQueue = []) :
    Turn fences pool (.worker id s .taskQueue) pool (.worker id s .fences)
  | beginTaken {id : Fin n} (s : Bool) {victim : Fin n} {extra : Nat} {task : T} {pool' : Pool n T}
    (hmem : victim ∈ fences) (h : pool.stealFrom id victim extra = some (task, pool')) :
    Turn fences pool (.worker id s .fences) (pool'.begin id task) (.worker id s (.running task))
  | noFence (id : Fin n) (s : Bool) :
    Turn fences pool (.worker id s .fences) pool (.worker id s .park)
  /-- `Retry` -/
  | retry {id : Fin n} (s : Bool) {stage : Stage T} (h : stage = .taskQueue ∨ stage = .fences) :
    Turn fences pool (.worker id s stage) pool (.worker id s stage)
  | finish (id : Fin n) (s : Bool) (task : T) :
    Turn fences pool (.worker id s (.running task)) pool (.worker id s .localTasks)
  | resume {id : Fin n} (s : Bool) (h : (pool.lanes id).notified = true) :
    Turn fences pool (.worker id s .park)
      (pool.setLane id { pool.lanes id with notified := false }) (.worker id s .localTasks)
  | timeout (id : Fin n) : Turn fences pool (.worker id true .park) pool (.worker id true .localTasks)

/-- 取れないのは、共有の queue が空のときである。 -/
theorem stealBatch_none {id : Fin n} {extra : Nat} (h : pool.stealBatch id extra = none) :
    pool.taskQueue = [] := by
  unfold stealBatch at h
  split at h
  · next hq => exact hq
  · cases h

/-- worker の一歩は、`Turn` のどれかである。 -/
theorem next_turn {hand hand' : Hand n T} {grab : Grab n}
    (h : pool.next fences hand grab = some (pool', hand')) :
    Turn fences pool hand pool' hand' := by
  cases hand with
  | woken => cases h
  | waker id =>
    cases h
    exact .unpark id
  | worker id s stage =>
    cases stage with
    | localTasks =>
      simp only [next] at h
      split at h
      · next task rest hq =>
        cases h
        exact .beginLocal s hq
      · next hq =>
        cases h
        exact .noLocal s hq
    | tasks =>
      simp only [next] at h
      split at h
      · next task rest hq =>
        cases h
        exact .beginOwn s hq
      · next hq =>
        cases h
        exact .noTask s hq
    | taskQueue =>
      cases grab with
      | retry =>
        cases h
        exact .retry s (Or.inl rfl)
      | take extra =>
        simp only [next] at h
        split at h
        · next task pool'' hsteal =>
          cases h
          exact .beginStolen s hsteal
        · next hsteal =>
          cases h
          exact .noQueue id s (stealBatch_none hsteal)
      | takeFrom victim extra => cases h
    | fences =>
      simp only [next] at h
      split at h
      · cases h
        exact .noFence id s
      · cases grab with
        | retry =>
          cases h
          exact .retry s (Or.inr rfl)
        | take extra => cases h
        | takeFrom victim extra =>
          dsimp only at h
          split at h
          · next hmem =>
            split at h
            · next task pool'' hsteal =>
              cases h
              exact .beginTaken s hmem hsteal
            · cases h
              exact .noFence id s
          · cases h
    | running task =>
      cases h
      exact .finish id s task
    | park =>
      simp only [next] at h
      split at h
      · next hn =>
        cases h
        exact .resume s hn
      · split at h
        · next hs =>
          cases h
          subst hs
          exact .timeout id
        · cases h

/-! ## task の数 -/

/-- 共有の queue から来て、まだ走っていない task。 -/
def waiting (pool : Pool n T) : Multiset T :=
  (pool.taskQueue : Multiset T) + ∑ id, ((pool.lanes id).tasks : Multiset T)

/-- 一つの worker の queue を替えると、待っている task は、その出入りの分だけ変わる。 -/
theorem waiting_setLane (pool : Pool n T) (id : Fin n) (lane : Lane T) :
    (pool.setLane id lane).waiting + ((pool.lanes id).tasks : Multiset T) =
      pool.waiting + (lane.tasks : Multiset T) := by
  unfold waiting
  rw [← Finset.sum_erase_add _ _ (Finset.mem_univ id),
    ← Finset.sum_erase_add (f := fun id' => ((pool.lanes id').tasks : Multiset T)) _
      (Finset.mem_univ id), setLane_lanes_self, setLane_taskQueue]
  have hrest : ∑ id' ∈ Finset.univ.erase id, (((pool.setLane id lane).lanes id').tasks : Multiset T) =
      ∑ id' ∈ Finset.univ.erase id, ((pool.lanes id').tasks : Multiset T) := by
    refine Finset.sum_congr rfl fun id' hid' => ?_
    rw [setLane_lanes, if_neg (Finset.ne_of_mem_erase hid')]
  rw [hrest]
  abel

/-- `tasks` を変えない書き込み。 -/
theorem waiting_setLane_of_eq {id : Fin n} {lane : Lane T} (h : lane.tasks = (pool.lanes id).tasks) :
    (pool.setLane id lane).waiting = pool.waiting := by
  have hsum := waiting_setLane pool id lane
  rwa [h, add_left_inj] at hsum

/-- 分けても、task は増えも減りもしない。 -/
theorem take_add_drop (l : List T) (k : Nat) :
    (l.take k : Multiset T) + (l.drop k : Multiset T) = l := by
  rw [Multiset.coe_add, List.take_append_drop]

/-- 共有の queue から取ると、待っている task は、走らせる一つだけ減る。 -/
theorem waiting_stealBatch {id : Fin n} {extra : Nat} {task : T}
    (h : pool.stealBatch id extra = some (task, pool')) :
    pool.waiting = pool'.waiting + {task} := by
  unfold stealBatch at h
  split at h
  · cases h
  · next task' rest hq =>
    cases h
    generalize hmid : ({ pool with taskQueue := rest.drop extra } : Pool n T) = mid
    have htake : pool.waiting = mid.waiting + ({task} + (rest.take extra : Multiset T)) := by
      unfold waiting
      rw [← hmid, hq, ← Multiset.cons_coe, ← Multiset.singleton_add, ← take_add_drop rest extra]
      abel
    have hgive := waiting_setLane mid id
      { pool.lanes id with tasks := (pool.lanes id).tasks ++ rest.take extra }
    rw [show mid.lanes = pool.lanes by rw [← hmid]] at hgive
    refine add_right_cancel (b := ((pool.lanes id).tasks : Multiset T)) ?_
    calc pool.waiting + ((pool.lanes id).tasks : Multiset T)
        = mid.waiting + (((pool.lanes id).tasks ++ rest.take extra : List T) : Multiset T) +
          {task} := by
          rw [htake, ← Multiset.coe_add]
          abel
      _ = _ := by
          rw [← hgive]
          abel

/-- ほかの worker から取っても、待っている task は、走らせる一つだけ減る。 -/
theorem waiting_stealFrom {id victim : Fin n} {extra : Nat} {task : T}
    (h : pool.stealFrom id victim extra = some (task, pool')) :
    pool.waiting = pool'.waiting + {task} := by
  unfold stealFrom at h
  split at h
  · cases h
  · next task' rest hq =>
    cases h
    generalize (if victim = id then 0 else extra) = extra
    generalize hmid : pool.setLane victim { pool.lanes victim with tasks := rest.drop extra } = mid
    have htake := waiting_setLane pool victim
      { pool.lanes victim with tasks := rest.drop extra }
    have hgive := waiting_setLane mid id
      { mid.lanes id with tasks := (mid.lanes id).tasks ++ rest.take extra }
    rw [hmid, hq, ← Multiset.cons_coe, ← Multiset.singleton_add, ← take_add_drop rest extra] at htake
    refine add_right_cancel (b := (rest.drop extra : Multiset T)) ?_
    refine add_right_cancel (b := ((mid.lanes id).tasks : Multiset T)) ?_
    calc pool.waiting + (rest.drop extra : Multiset T) + ((mid.lanes id).tasks : Multiset T)
        = mid.waiting + ({task} + ((rest.take extra : Multiset T) + (rest.drop extra : Multiset T))) +
            ((mid.lanes id).tasks : Multiset T) := by rw [htake]
      _ = mid.waiting + (((mid.lanes id).tasks ++ rest.take extra : List T) : Multiset T) +
            {task} + (rest.drop extra : Multiset T) := by
          rw [← Multiset.coe_add]
          abel
      _ = _ := by
          rw [← hgive]
          abel

/-- `id` が盗んだ前後。動くのは `tasks` だけで、ほかの worker の空の queue は空のままである。 -/
structure Moved (id : Fin n) (pool pool' : Pool n T) : Prop where
  pushed : pool'.pushed = pool.pushed
  begun : pool'.begun = pool.begun
  lane : ∀ id', ∃ tasks, pool'.lanes id' = { pool.lanes id' with tasks := tasks } ∧
    (id' ≠ id → (pool.lanes id').tasks = [] → tasks = [])

/-- 共有の queue から取っても、`local_tasks` には触らない。 -/
theorem moved_stealBatch {id : Fin n} {extra : Nat} {task : T}
    (h : pool.stealBatch id extra = some (task, pool')) : Moved id pool pool' := by
  unfold stealBatch at h
  split at h
  · cases h
  · next task' rest hq =>
    cases h
    refine ⟨rfl, rfl, fun id' => ?_⟩
    rw [setLane_lanes]
    split
    · next heq =>
      subst heq
      exact ⟨_, rfl, fun hne => absurd rfl hne⟩
    · exact ⟨_, rfl, fun _ h => h⟩

/-- ほかの worker から取っても、`local_tasks` には触らない。 -/
theorem moved_stealFrom {id victim : Fin n} {extra : Nat} {task : T}
    (h : pool.stealFrom id victim extra = some (task, pool')) : Moved id pool pool' := by
  unfold stealFrom at h
  split at h
  · cases h
  · next task' rest hq =>
    cases h
    refine ⟨rfl, rfl, fun id' => ?_⟩
    rw [setLane_lanes]
    split
    · next heq =>
      subst heq
      rw [setLane_lanes]
      split
      · next heq =>
        subst heq
        exact ⟨_, rfl, fun hne => absurd rfl hne⟩
      · exact ⟨_, rfl, fun hne => absurd rfl hne⟩
    · rw [setLane_lanes]
      split
      · next heq =>
        subst heq
        exact ⟨_, rfl, fun _ hnil => by rw [hq] at hnil; cases hnil⟩
      · exact ⟨_, rfl, fun _ h => h⟩

/-- 記録と queue は合っている。 -/
structure Accounted (pool : Pool n T) : Prop where
  shared : (pool.pushed : Multiset T) = pool.waiting + (pool.begun.map Prod.snd : List T)
  lane : ∀ id, (pool.lanes id).scheduled = (pool.lanes id).begun ++ (pool.lanes id).localTasks

/-- 初めは、どこにも task が無い。 -/
theorem accounted_start (n : Nat) (T : Type) : (start n T).Accounted where
  shared := by simp [start, waiting]
  lane _ := rfl

/-- 盗んで走らせ始める。 -/
theorem Accounted.steal {id : Fin n} {task : T} (h : pool.Accounted) (hmoved : Moved id pool pool')
    (hwait : pool.waiting = pool'.waiting + {task}) : (pool'.begin id task).Accounted where
  shared := by
    show ((pool'.pushed : List T) : Multiset T) = pool'.waiting +
      (((pool'.begun ++ [(id, task)]).map Prod.snd : List T) : Multiset T)
    rw [hmoved.pushed, hmoved.begun, h.shared, hwait, List.map_append, ← Multiset.coe_add,
      add_assoc, add_comm ({task} : Multiset T)]
    rfl
  lane id' := by
    obtain ⟨tasks, hlane, _⟩ := hmoved.lane id'
    rw [begin_lanes, hlane]
    exact h.lane id'

/-- `tasks` を変えない書き込み。 -/
theorem Accounted.setLane {id : Fin n} {lane : Lane T} (h : pool.Accounted)
    (htasks : lane.tasks = (pool.lanes id).tasks)
    (hlane : lane.scheduled = lane.begun ++ lane.localTasks) : (pool.setLane id lane).Accounted where
  shared := by
    rw [waiting_setLane_of_eq htasks]
    exact h.shared
  lane id' := by
    rw [setLane_lanes]
    split
    · exact hlane
    · exact h.lane id'

/-- worker と waker の一歩は task を失わず、増やさない。 -/
theorem turn_conserves {hand hand' : Hand n T} (h : Turn fences pool hand pool' hand')
    (ha : pool.Accounted) : pool'.Accounted := by
  cases h with
  | unpark id => exact ha.setLane rfl (ha.lane id)
  | beginLocal s hq =>
    refine ha.setLane rfl ?_
    dsimp only
    rw [ha.lane, hq, List.append_assoc, List.singleton_append]
  | @beginOwn id s task rest hq =>
    have hwait := waiting_setLane pool id { pool.lanes id with tasks := rest }
    rw [hq, ← Multiset.cons_coe, ← Multiset.singleton_add, ← add_assoc, add_left_inj] at hwait
    refine ha.steal ⟨rfl, rfl, fun id' => ?_⟩ hwait.symm
    rw [setLane_lanes]
    split
    · next heq =>
      subst heq
      exact ⟨rest, rfl, fun hne => absurd rfl hne⟩
    · exact ⟨_, rfl, fun _ h => h⟩
  | beginStolen s hsteal => exact ha.steal (moved_stealBatch hsteal) (waiting_stealBatch hsteal)
  | beginTaken s hmem hsteal => exact ha.steal (moved_stealFrom hsteal) (waiting_stealFrom hsteal)
  | resume s hn => exact ha.setLane rfl (ha.lane _)
  | _ => exact ha

/-- task を入れる。 -/
theorem schedule_conserves {i : Scheduling n T} {hands : List (Hand n T)}
    (h : pool.schedule i = some (pool', hands)) (ha : pool.Accounted) : pool'.Accounted := by
  cases i with
  | global task =>
    cases h
    refine ⟨?_, ha.lane⟩
    unfold waiting
    dsimp only
    rw [← Multiset.coe_add, ← Multiset.coe_add, ha.shared]
    unfold waiting
    abel
  | onWorker id task =>
    cases h
    refine ha.setLane rfl ?_
    dsimp only
    rw [ha.lane, List.append_assoc]

/-! ## 実行 -/

/-- worker も waker も、入った task の記録を変えない。 -/
theorem turn_recorded {hand hand' : Hand n T} (h : Turn fences pool hand pool' hand') :
    pool'.pushed = pool.pushed ∧
      ∀ id, (pool'.lanes id).scheduled = (pool.lanes id).scheduled := by
  have hmoved : ∀ {id task} {pool'' : Pool n T}, Moved id pool pool'' →
      (pool''.begin id task).pushed = pool.pushed ∧
        ∀ id', ((pool''.begin id task).lanes id').scheduled = (pool.lanes id').scheduled := by
    intro id task pool'' hm
    refine ⟨hm.pushed, fun id' => ?_⟩
    obtain ⟨tasks, hlane, _⟩ := hm.lane id'
    rw [begin_lanes, hlane]
  have hset : ∀ {id : Fin n} {lane : Lane T}, lane.scheduled = (pool.lanes id).scheduled →
      ∀ id', ((pool.setLane id lane).lanes id').scheduled = (pool.lanes id').scheduled := by
    intro id lane hsame id'
    rw [setLane_lanes]
    split
    · next heq =>
      rw [heq]
      exact hsame
    · rfl
  cases h with
  | unpark id => exact ⟨rfl, hset rfl⟩
  | beginLocal s hq => exact ⟨rfl, hset rfl⟩
  | beginOwn s hq => exact ⟨rfl, hset rfl⟩
  | beginStolen s hsteal => exact hmoved (moved_stealBatch hsteal)
  | beginTaken s hmem hsteal => exact hmoved (moved_stealFrom hsteal)
  | resume s hn => exact ⟨rfl, hset rfl⟩
  | _ => exact ⟨rfl, fun _ => rfl⟩

end Pool

/-- `task_queue` に入る task。 -/
def Scheduling.toShared : Scheduling n T → Option T
  | .global task => some task
  | .onWorker _ _ => none

/-- worker `id` の `local_tasks` に入る task。 -/
def Scheduling.toLane (id : Fin n) : Scheduling n T → Option T
  | .global _ => none
  | .onWorker id' task => if id' = id then some task else none

/-- 実行の中で始まるもの。 -/
def spawned (ms : List (Move (Scheduling n T) (Grab n))) : List (Scheduling n T) :=
  ms.filterMap fun
    | .spawn i => some i
    | .exec _ _ => none

section Run

variable {fences : List (Fin n)} {c c' : Config (Pool n T) (Hand n T)}
  {ms : List (Move (Scheduling n T) (Grab n))}

/-- 入った task の記録は、実行の中で入れたものである。 -/
theorem run_recorded (hrun : (executor T fences).run c ms = some c') :
    c'.shared.pushed = c.shared.pushed ++ (spawned ms).filterMap Scheduling.toShared ∧
      ∀ id, (c'.shared.lanes id).scheduled =
        (c.shared.lanes id).scheduled ++ (spawned ms).filterMap (Scheduling.toLane id) := by
  induction ms generalizing c with
  | nil =>
    cases hrun
    exact ⟨(List.append_nil _).symm, fun _ => (List.append_nil _).symm⟩
  | cons m ms ih =>
    obtain ⟨d, hd, hrest⟩ := run_cons hrun
    obtain ⟨hpushed, hlanes⟩ := ih hrest
    cases m with
    | spawn i =>
      obtain ⟨pool, hands, hspawn, rfl⟩ := step_spawn hd
      have hcons : spawned (.spawn i :: ms) = i :: spawned ms := rfl
      rw [hcons]
      cases i with
      | global task =>
        cases hspawn
        refine ⟨?_, hlanes⟩
        rw [hpushed, List.append_assoc]
        rfl
      | onWorker id' task =>
        cases hspawn
        refine ⟨hpushed, fun id => ?_⟩
        rw [hlanes id, Pool.setLane_lanes, List.filterMap_cons]
        by_cases heq : id = id'
        · subst heq
          simp [Scheduling.toLane]
        · simp [Scheduling.toLane, heq, Ne.symm heq]
    | exec k grab =>
      obtain ⟨hand, pool, hand', _, _, hnext, rfl, _, _⟩ := step_exec hd
      obtain ⟨hpushed', hlanes'⟩ := Pool.turn_recorded (Pool.next_turn hnext)
      have hcons : spawned (.exec k grab :: ms) = spawned ms := rfl
      rw [hcons]
      exact ⟨by rw [hpushed, hpushed'], fun id => by rw [hlanes id, hlanes' id]⟩

/-- どの実行でも、入った task は、待っているか走り始めたかのどちらかである。 -/
theorem run_accounted (hrun : (executor T fences).run c ms = some c') (hc : c.shared.Accounted) :
    c'.shared.Accounted := by
  have hfree : (executor T fences).Obeys (fun _ _ => True) c ms :=
    obeys_of_forall (fun _ _ _ => trivial) _
  refine run_invariant_of_obeys (motive := fun (pool : Pool n T) _ => pool.Accounted)
    ?_ ?_ ?_ hrun hfree hc
  · intro pool _ _ _ h
    exact h
  · intro pool _ i pool' hands hspawn _ h
    exact Pool.schedule_conserves hspawn h
  · intro d k hand grab pool' hand' _ _ _ hnext _ h
    exact Pool.turn_conserves (Pool.next_turn hnext) h

end Run

/--
**どの割り込みの実行でも、入った task はどれも、入った回数だけ、queue にあるか走り始めている。**

worker がいくつあっても、誰がいつ task を入れ、まとめて取る個数がいくつで、どの worker から盗んでも、
共有の queue に入った task は失われず、二度は走らない。一つの worker に結び付いた task は、その worker
だけが、入った順に走らせる。
-/
theorem tasks_conserved (staticThreads n : Nat) (T : Type) (fences : List (Fin n))
    (ms : List (Move (Scheduling n T) (Grab n))) (c : Config (Pool n T) (Hand n T))
    (hrun : (executor T fences).run (Spooler.new staticThreads n T) ms = some c) :
    (((spawned ms).filterMap Scheduling.toShared : List T) : Multiset T) =
      (c.shared.taskQueue : Multiset T) + ∑ id, ((c.shared.lanes id).tasks : Multiset T) +
        (c.shared.begun.map Prod.snd : List T) ∧
    ∀ id, (spawned ms).filterMap (Scheduling.toLane id) =
      (c.shared.lanes id).begun ++ (c.shared.lanes id).localTasks := by
  have hacc := run_accounted hrun (Pool.accounted_start n T)
  obtain ⟨hpushed, hlanes⟩ := run_recorded hrun
  constructor
  · rw [← List.nil_append (List.filterMap _ _)]
    rw [show ([] : List T) = (Spooler.new staticThreads n T).shared.pushed from rfl, ← hpushed]
    exact hacc.shared
  · intro id
    rw [← List.nil_append (List.filterMap _ _)]
    rw [show ([] : List T) = ((Spooler.new staticThreads n T).shared.lanes id).scheduled from rfl,
      ← hlanes id]
    exact hacc.lane id

/-- 二つの global な task と一つの local な task を、二つの worker が走らせる。 -/
def twoWorkers : List (Move (Scheduling 2 Nat) (Grab 2)) :=
  [.spawn (.global 7), .spawn (.global 8), .spawn (.onWorker 1 9), .exec 0 .retry, .exec 0 .retry,
    .exec 0 (.take 1), .exec 1 .retry, .exec 2 .retry]

theorem tasks_conserved_twoWorkers :
    ∃ c, (executor Nat []).run (Spooler.new 1 2 Nat) twoWorkers = some c ∧
      (((spawned twoWorkers).filterMap Scheduling.toShared : List Nat) : Multiset Nat) =
        (c.shared.taskQueue : Multiset Nat) + ∑ id, ((c.shared.lanes id).tasks : Multiset Nat) +
          (c.shared.begun.map Prod.snd : List Nat) ∧
      ∀ id, (spawned twoWorkers).filterMap (Scheduling.toLane id) =
        (c.shared.lanes id).begun ++ (c.shared.lanes id).localTasks := by
  have h : ((executor Nat []).run (Spooler.new 1 2 Nat) twoWorkers).isSome := by decide
  obtain ⟨c, hrun⟩ := Option.isSome_iff_exists.mp h
  exact ⟨c, hrun, tasks_conserved 1 2 Nat [] twoWorkers c hrun⟩

end FabAccess.Executor
