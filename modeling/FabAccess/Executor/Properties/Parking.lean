import FabAccess.Executor.Properties.Pool

/-!
# 眠る worker

worker が眠るのは、自分の queue が空のときだけである。眠った後に task が入れば、入れた thread が
`unpark` するまでの間を除いて、parker がそれを覚えている。

* `turn_settled` — 一歩は `Settled` を保つ
* `parked_worker_has_no_work` — どの割り込みの実行でも、眠ったまま task を残す worker は無い
* `parked_dynamic_worker_stays` — static でない worker は、一度眠ると、`schedule_local` された task が
  無い限り何も走らせない
-/

namespace FabAccess.Executor

open Infra Infra.System

variable {n : Nat} {T : Type}

/-- worker の番号。 -/
def Hand.workerId : Hand n T → Option (Fin n)
  | .worker id _ _ => some id
  | _ => none

/-- `local_tasks` が空だと見た後の位置。 -/
def Stage.PastLocal : Stage T → Prop
  | .tasks | .taskQueue | .fences | .park => True
  | _ => False

/-- 自分の `tasks` も空だと見た後の位置。 -/
def Stage.PastOwn : Stage T → Prop
  | .taskQueue | .fences | .park => True
  | _ => False

/-- worker `id` に新しい task を知らせるものがある。 -/
def Told (pool : Pool n T) (hands : List (Hand n T)) (id : Fin n) : Prop :=
  (pool.lanes id).localTasks = [] ∨ (pool.lanes id).notified = true ∨ .waker id ∈ hands

/-- 位置から分かること。 -/
structure Settled (pool : Pool n T) (hands : List (Hand n T)) : Prop where
  /-- worker は一つずつ動く -/
  nodup : (hands.filterMap Hand.workerId).Nodup
  own : ∀ id s stage, .worker id s stage ∈ hands → stage.PastOwn → (pool.lanes id).tasks = []
  told : ∀ id s stage, .worker id s stage ∈ hands → stage.PastLocal → Told pool hands id

/-! ## 一歩 -/

theorem settled_symm : Symm (Settled (n := n) (T := T)) := by
  intro pool hands hands' hperm h
  refine ⟨((hperm.filterMap _).nodup_iff).mp h.nodup, ?_, ?_⟩
  · intro id s stage hmem
    exact h.own id s stage (hperm.mem_iff.mpr hmem)
  · intro id s stage hmem hpast
    rcases h.told id s stage (hperm.mem_iff.mpr hmem) hpast with hnil | hn | hw
    · exact Or.inl hnil
    · exact Or.inr (Or.inl hn)
    · exact Or.inr (Or.inr (hperm.mem_iff.mp hw))

theorem settled_start (staticThreads n : Nat) (T : Type) :
    Settled (Spooler.new staticThreads n T).shared (Spooler.new staticThreads n T).threads where
  nodup := by
    have hids : (Spooler.new staticThreads n T).threads.filterMap Hand.workerId = List.finRange n := by
      unfold Spooler.new
      dsimp only
      rw [List.filterMap_map]
      exact List.filterMap_some
    rw [hids]
    exact List.nodup_finRange n
  own id s stage hmem hpast := rfl
  told id s stage hmem hpast := Or.inl rfl

variable {fences : List (Fin n)} {pool pool' : Pool n T} {rest : List (Hand n T)}

/-- 並んでいるほかの worker は、番号が違う。 -/
theorem Settled.ne {id id' : Fin n} {s s' : Bool} {stage stage' : Stage T}
    (h : Settled pool (.worker id s stage :: rest)) (hmem : .worker id' s' stage' ∈ rest) :
    id' ≠ id := by
  rintro rfl
  have hnodup : (id' :: rest.filterMap Hand.workerId).Nodup := h.nodup
  exact (List.nodup_cons.mp hnodup).1 (List.mem_filterMap.mpr ⟨_, hmem, rfl⟩)

/-- 動いた worker の新しい位置について、分かることを言い直す。 -/
theorem Settled.move {id : Fin n} {s : Bool} {stage stage' : Stage T}
    (h : Settled pool (.worker id s stage :: rest))
    (hlanes : ∀ id', id' ≠ id → ((pool.lanes id').tasks = [] → (pool'.lanes id').tasks = []) ∧
      (pool'.lanes id').localTasks = (pool.lanes id').localTasks ∧
      (pool'.lanes id').notified = (pool.lanes id').notified)
    (hown : stage'.PastOwn → (pool'.lanes id).tasks = [])
    (htold : stage'.PastLocal → Told pool' (.worker id s stage' :: rest) id) :
    Settled pool' (.worker id s stage' :: rest) where
  nodup := h.nodup
  own id' s' stage'' hmem hpast := by
    rcases List.mem_cons.mp hmem with heq | hmem
    · cases heq
      exact hown hpast
    · have hold := h.own id' s' stage'' (List.mem_cons_of_mem _ hmem) hpast
      exact (hlanes id' (h.ne hmem)).1 hold
  told id' s' stage'' hmem hpast := by
    rcases List.mem_cons.mp hmem with heq | hmem
    · cases heq
      exact htold hpast
    · obtain ⟨_, hlocal, hnotified⟩ := hlanes id' (h.ne hmem)
      rcases h.told id' s' stage'' (List.mem_cons_of_mem _ hmem) hpast with hnil | hn | hw
      · exact Or.inl (hlocal.trans hnil)
      · exact Or.inr (Or.inl (hnotified.trans hn))
      · rcases List.mem_cons.mp hw with heq | hw
        · cases heq
        · exact Or.inr (Or.inr (List.mem_cons_of_mem _ hw))

/-- queue の変わらない一歩。 -/
theorem Settled.stay {id : Fin n} {s : Bool} {stage stage' : Stage T}
    (h : Settled pool (.worker id s stage :: rest))
    (hown : stage'.PastOwn → (pool.lanes id).tasks = [])
    (hlocal : stage'.PastLocal → stage.PastLocal ∨ (pool.lanes id).localTasks = []) :
    Settled pool (.worker id s stage' :: rest) := by
  refine h.move (fun id' _ => ⟨fun h => h, rfl, rfl⟩) hown fun hpast => ?_
  rcases hlocal hpast with hpast | hnil
  · rcases h.told id s stage (List.mem_cons_self ..) hpast with hnil | hn | hw
    · exact Or.inl hnil
    · exact Or.inr (Or.inl hn)
    · rcases List.mem_cons.mp hw with heq | hw
      · cases heq
      · exact Or.inr (Or.inr (List.mem_cons_of_mem _ hw))
  · exact Or.inl hnil

/-- task を走らせ始める。 -/
theorem Settled.moved {id : Fin n} {s : Bool} {stage : Stage T} {task : T}
    (h : Settled pool (.worker id s stage :: rest)) (hmoved : Pool.Moved id pool pool') :
    Settled (pool'.begin id task) (.worker id s (.running task) :: rest) := by
  refine h.move (fun id' hne => ?_) (fun hpast => nomatch hpast) (fun hpast => nomatch hpast)
  obtain ⟨tasks, hlane, hempty⟩ := hmoved.lane id'
  rw [Pool.begin_lanes, hlane]
  exact ⟨hempty hne, rfl, rfl⟩

/-- `unpark` すれば、知らせるものは parker が覚える。 -/
theorem Settled.unpark {id : Fin n} (h : Settled pool (.waker id :: rest)) :
    Settled (pool.setLane id { pool.lanes id with notified := true }) (.woken :: rest) where
  nodup := h.nodup
  own id' s stage hmem hpast := by
    have hmem' : Hand.worker id' s stage ∈ rest := by simpa using hmem
    have hold := h.own id' s stage (List.mem_cons_of_mem _ hmem') hpast
    rw [Pool.setLane_lanes]
    split
    · next heq =>
      subst heq
      exact hold
    · exact hold
  told id' s stage hmem hpast := by
    have hmem' : Hand.worker id' s stage ∈ rest := by simpa using hmem
    unfold Told
    rw [Pool.setLane_lanes]
    by_cases heq : id' = id
    · rw [if_pos heq]
      exact Or.inr (Or.inl rfl)
    · rw [if_neg heq]
      rcases h.told id' s stage (List.mem_cons_of_mem _ hmem') hpast with hnil | hn | hw
      · exact Or.inl hnil
      · exact Or.inr (Or.inl hn)
      · rcases List.mem_cons.mp hw with hw | hw
        · cases hw
          exact absurd rfl heq
        · exact Or.inr (Or.inr (List.mem_cons_of_mem _ hw))

theorem turn_settled {hand hand' : Hand n T} (h : Pool.Turn fences pool hand pool' hand')
    (hs : Settled pool (hand :: rest)) : Settled pool' (hand' :: rest) := by
  have hother : ∀ {id : Fin n} {lane : Lane T} (id' : Fin n), id' ≠ id →
      ((pool.lanes id').tasks = [] → ((pool.setLane id lane).lanes id').tasks = []) ∧
      ((pool.setLane id lane).lanes id').localTasks = (pool.lanes id').localTasks ∧
      ((pool.setLane id lane).lanes id').notified = (pool.lanes id').notified := by
    intro id lane id' hne
    rw [Pool.setLane_lanes, if_neg hne]
    exact ⟨fun h => h, rfl, rfl⟩
  cases h with
  | unpark id => exact hs.unpark
  | beginLocal s hq =>
    exact hs.move hother (fun hpast => nomatch hpast) (fun hpast => nomatch hpast)
  | noLocal s hq => exact hs.stay (fun hpast => nomatch hpast) (fun _ => Or.inr hq)
  | beginOwn s hq => exact hs.move hother (fun hpast => nomatch hpast) (fun hpast => nomatch hpast)
  | noTask s hq => exact hs.stay (fun _ => hq) (fun _ => Or.inl trivial)
  | beginStolen s hsteal => exact hs.moved (Pool.moved_stealBatch hsteal)
  | noQueue id s hq =>
    exact hs.stay (fun _ => hs.own id s _ (List.mem_cons_self ..) trivial) (fun _ => Or.inl trivial)
  | beginTaken s hmem hsteal => exact hs.moved (Pool.moved_stealFrom hsteal)
  | noFence id s =>
    exact hs.stay (fun _ => hs.own id s _ (List.mem_cons_self ..) trivial) (fun _ => Or.inl trivial)
  | retry s hstage => exact hs
  | finish id s task => exact hs.stay (fun hpast => nomatch hpast) (fun hpast => nomatch hpast)
  | resume s hn => exact hs.move hother (fun hpast => nomatch hpast) (fun hpast => nomatch hpast)
  | timeout id => exact hs.stay (fun hpast => nomatch hpast) (fun hpast => nomatch hpast)

/-- task を入れる。 -/
theorem schedule_settled {i : Scheduling n T} {hands new : List (Hand n T)}
    (h : pool.schedule i = some (pool', new)) (hs : Settled pool hands) :
    Settled pool' (new ++ hands) := by
  cases i with
  | global task =>
    cases h
    exact ⟨hs.nodup, hs.own, hs.told⟩
  | onWorker id task =>
    cases h
    refine ⟨hs.nodup, fun id' s stage hmem hpast => ?_, fun id' s stage hmem hpast => ?_⟩
    · have hmem' : Hand.worker id' s stage ∈ hands := by simpa using hmem
      have hold := hs.own id' s stage hmem' hpast
      rw [Pool.setLane_lanes]
      split
      · next heq =>
        subst heq
        exact hold
      · exact hold
    · have hmem' : Hand.worker id' s stage ∈ hands := by simpa using hmem
      unfold Told
      by_cases heq : id' = id
      · subst heq
        exact Or.inr (Or.inr (List.mem_cons_self ..))
      · rw [Pool.setLane_lanes, if_neg heq]
        rcases hs.told id' s stage hmem' hpast with hnil | hn | hw
        · exact Or.inl hnil
        · exact Or.inr (Or.inl hn)
        · exact Or.inr (Or.inr (List.mem_cons_of_mem _ hw))

/-! ## 実行 -/

section Run

variable {c : Config (Pool n T) (Hand n T)} {ms : List (Move (Scheduling n T) (Grab n))}

theorem run_settled {staticThreads : Nat}
    (hrun : (executor T fences).run (Spooler.new staticThreads n T) ms = some c) :
    Settled c.shared c.threads := by
  have hfree : (executor T fences).Obeys (fun _ _ => True) (Spooler.new staticThreads n T) ms :=
    obeys_of_forall (fun _ _ _ => trivial) _
  refine run_invariant_of_obeys settled_symm ?_ ?_ hrun hfree (settled_start staticThreads n T)
  · intro pool hands i pool' new hspawn _ h
    exact schedule_settled hspawn h
  · intro d k hand grab pool' hand' rest _ _ hnext _ h
    exact turn_settled (Pool.next_turn hnext) h

end Run

/--
**どの割り込みの実行でも、眠っている worker は task を残していない。**

眠っている worker の `tasks` は空である。`local_tasks` に task があるなら、parker がもう `unpark` を
覚えているか、task を入れた thread がこれから `unpark` する。
-/
theorem parked_worker_has_no_work (staticThreads n : Nat) (T : Type) (fences : List (Fin n))
    (ms : List (Move (Scheduling n T) (Grab n))) (c : Config (Pool n T) (Hand n T))
    (hrun : (executor T fences).run (Spooler.new staticThreads n T) ms = some c) (id : Fin n)
    (s : Bool) (hmem : .worker id s .park ∈ c.threads) :
    (c.shared.lanes id).tasks = [] ∧
      ((c.shared.lanes id).localTasks = [] ∨ (c.shared.lanes id).notified = true ∨
        .waker id ∈ c.threads) :=
  ⟨(run_settled hrun).own id s _ hmem trivial, (run_settled hrun).told id s _ hmem trivial⟩

/-- 一つの worker が眠った後に、local な task が入る。 -/
def parkThenSchedule : List (Move (Scheduling 1 Nat) (Grab 1)) :=
  [.exec 0 .retry, .exec 0 .retry, .exec 0 (.take 0), .exec 0 .retry, .spawn (.onWorker 0 5)]

theorem parked_worker_has_no_work_parkThenSchedule :
    ∃ c, (executor Nat []).run (Spooler.new 0 1 Nat) parkThenSchedule = some c ∧
      (c.shared.lanes 0).localTasks = [5] ∧ (c.shared.lanes 0).tasks = [] ∧
      ((c.shared.lanes 0).localTasks = [] ∨ (c.shared.lanes 0).notified = true ∨
        .waker 0 ∈ c.threads) := by
  have h : ((executor Nat []).run (Spooler.new 0 1 Nat) parkThenSchedule).map (fun c =>
      ((c.shared.lanes 0).localTasks, decide (.worker 0 false .park ∈ c.threads))) =
      some ([5], true) := by decide
  obtain ⟨c, hrun, hc⟩ := Option.map_eq_some_iff.mp h
  obtain ⟨hlocal, hmem⟩ := Prod.mk.inj hc
  exact ⟨c, hrun, hlocal, parked_worker_has_no_work 0 1 Nat [] _ c hrun 0 false
    (of_decide_eq_true hmem)⟩

/-! ## 起こされない worker -/

/-- worker `id` が走らせ始めた task の記録。 -/
def Pool.ranBy (pool : Pool n T) (id : Fin n) : List (Fin n × T) × List T :=
  (pool.begun.filter fun e => e.1 = id, (pool.lanes id).begun)

/-- worker `id` は眠っていて、起こすものが無い。`ran` はそれまでに走らせた task である。 -/
structure Asleep (id : Fin n) (ran : List (Fin n × T) × List T) (pool : Pool n T)
    (hands : List (Hand n T)) : Prop where
  settled : Settled pool hands
  parked : .worker id false .park ∈ hands
  quiet : (pool.lanes id).notified = false
  alone : .waker id ∉ hands
  ran : pool.ranBy id = ran

/-- ほかの worker の一歩。 -/
theorem turn_other {id id' : Fin n} {s : Bool} {stage : Stage T} {hand' : Hand n T}
    (h : Pool.Turn fences pool (.worker id' s stage) pool' hand') (hne : id ≠ id') :
    (pool'.lanes id).notified = (pool.lanes id).notified ∧ pool'.ranBy id = pool.ranBy id := by
  have hmoved : ∀ {task} {pool'' : Pool n T}, Pool.Moved id' pool pool'' →
      ((pool''.begin id' task).lanes id).notified = (pool.lanes id).notified ∧
        (pool''.begin id' task).ranBy id = pool.ranBy id := by
    intro task pool'' hm
    obtain ⟨tasks, hlane, _⟩ := hm.lane id
    unfold Pool.ranBy
    rw [Pool.begin_lanes, hlane]
    refine ⟨rfl, Prod.ext ?_ rfl⟩
    show (pool''.begun ++ [(id', task)]).filter _ = _
    rw [hm.begun, List.filter_append, List.filter_cons_of_neg (by simpa using hne.symm),
      List.filter_nil, List.append_nil]
  have hset : ∀ {lane : Lane T}, ((pool.setLane id' lane).lanes id).notified =
      (pool.lanes id).notified ∧ (pool.setLane id' lane).ranBy id = pool.ranBy id := by
    intro lane
    unfold Pool.ranBy
    rw [Pool.setLane_lanes, if_neg hne]
    exact ⟨rfl, rfl⟩
  cases h with
  | beginLocal s hq => exact hset
  | @beginOwn _ s task lane hq =>
    refine hmoved ⟨rfl, rfl, fun id'' => ?_⟩
    rw [Pool.setLane_lanes]
    split
    · next heq =>
      subst heq
      exact ⟨lane, rfl, fun hne => absurd rfl hne⟩
    · exact ⟨_, rfl, fun _ h => h⟩
  | beginStolen s hsteal => exact hmoved (Pool.moved_stealBatch hsteal)
  | beginTaken s hmem hsteal => exact hmoved (Pool.moved_stealFrom hsteal)
  | resume s hn => exact hset
  | _ => exact ⟨rfl, rfl⟩

theorem turn_asleep {id : Fin n} {ran : List (Fin n × T) × List T} {hand hand' : Hand n T}
    (h : Pool.Turn fences pool hand pool' hand') (ha : Asleep id ran pool (hand :: rest)) :
    Asleep id ran pool' (hand' :: rest) := by
  have hsettled := turn_settled h ha.settled
  cases hand with
  | woken => cases h
  | waker id' =>
    have hne : id ≠ id' := by
      rintro rfl
      exact ha.alone (List.mem_cons_self ..)
    cases h
    refine ⟨hsettled, ?_, ?_, ?_, ?_⟩
    · simpa using ha.parked
    · rw [Pool.setLane_lanes, if_neg hne]
      exact ha.quiet
    · intro hmem
      exact ha.alone (List.mem_cons_of_mem _ (by simpa using hmem))
    · rw [← ha.ran]
      unfold Pool.ranBy
      rw [Pool.setLane_lanes, if_neg hne]
      rfl
  | worker id' s stage =>
    rcases List.mem_cons.mp ha.parked with heq | hmem
    · -- 眠っている当の worker は、`unpark` も時間も無ければ進めない
      cases heq
      cases h with
      | resume s hn =>
        rw [ha.quiet] at hn
        cases hn
      | retry s hstage => rcases hstage with hstage | hstage <;> cases hstage
    · have hne : id ≠ id' := ha.settled.ne hmem
      obtain ⟨hnotified, hran⟩ := turn_other h hne
      refine ⟨hsettled, List.mem_cons_of_mem _ hmem, hnotified.trans ha.quiet, ?_,
        hran.trans ha.ran⟩
      intro hw
      rcases List.mem_cons.mp hw with heq | hw
      · rw [← heq] at h
        cases h
      · exact ha.alone (List.mem_cons_of_mem _ hw)

theorem schedule_asleep {id : Fin n} {ran : List (Fin n × T) × List T} {i : Scheduling n T}
    {hands new : List (Hand n T)} (h : pool.schedule i = some (pool', new))
    (hi : ∀ task, i ≠ .onWorker id task) (ha : Asleep id ran pool hands) :
    Asleep id ran pool' (new ++ hands) := by
  have hsettled := schedule_settled h ha.settled
  cases i with
  | global task =>
    cases h
    exact ⟨hsettled, ha.parked, ha.quiet, ha.alone, ha.ran⟩
  | onWorker id' task =>
    have hne : id ≠ id' := by
      rintro rfl
      exact hi task rfl
    cases h
    refine ⟨hsettled, List.mem_cons_of_mem _ ha.parked, ?_, ?_, ?_⟩
    · rw [Pool.setLane_lanes, if_neg hne]
      exact ha.quiet
    · intro hmem
      rcases List.mem_cons.mp hmem with heq | hmem
      · cases heq
        exact hne rfl
      · exact ha.alone hmem
    · rw [← ha.ran]
      unfold Pool.ranBy
      rw [Pool.setLane_lanes, if_neg hne]
      rfl

/--
**static でない worker は、一度眠ると、自分に `schedule_local` された task が無い限り、二度と何も
走らせない。**

`task_queue` にどれだけ task が溜まっても、ほかの worker がどう動いても、そうである。`push` は誰も
起こさず、`scale_pool` は何もしないからである。
-/
theorem parked_dynamic_worker_stays (staticThreads n : Nat) (T : Type) (fences : List (Fin n))
    (ms ms' : List (Move (Scheduling n T) (Grab n))) (c d : Config (Pool n T) (Hand n T))
    (hrun : (executor T fences).run (Spooler.new staticThreads n T) ms = some c)
    (hrun' : (executor T fences).run c ms' = some d) (id : Fin n)
    (hparked : .worker id false .park ∈ c.threads) (hquiet : (c.shared.lanes id).notified = false)
    (halone : .waker id ∉ c.threads) (hms' : ∀ task, .spawn (.onWorker id task) ∉ ms') :
    .worker id false .park ∈ d.threads ∧ (d.shared.lanes id).begun = (c.shared.lanes id).begun ∧
      d.shared.begun.filter (fun e => e.1 = id) = c.shared.begun.filter (fun e => e.1 = id) := by
  have hok : (executor T fences).Obeys (fun _ m => ∀ task, m ≠ .spawn (.onWorker id task)) c ms' := by
    refine obeys_of_forall (fun m hm _ task heq => ?_) _
    rw [heq] at hm
    exact hms' task hm
  have hasleep := run_invariant_of_obeys (motive := Asleep id (c.shared.ranBy id)) ?_ ?_ ?_ hrun' hok
    ⟨run_settled hrun, hparked, hquiet, halone, rfl⟩
  · exact ⟨hasleep.parked, congrArg Prod.snd hasleep.ran, congrArg Prod.fst hasleep.ran⟩
  · intro pool hands hands' hperm h
    exact ⟨settled_symm _ _ _ hperm h.settled, hperm.mem_iff.mp h.parked, h.quiet,
      fun hw => h.alone (hperm.mem_iff.mpr hw), h.ran⟩
  · intro pool hands i pool' new hspawn hi h
    refine schedule_asleep hspawn (fun task heq => ?_) h
    exact hi task (by rw [heq])
  · intro e k hand grab pool' hand' rest _ _ hnext _ h
    exact turn_asleep (Pool.next_turn hnext) h

/-- 一つの static な worker と一つのそうでない worker が眠った後に、二つの global な task が入る。 -/
def pushWhileParked : List (Move (Scheduling 2 Nat) (Grab 2)) :=
  [.spawn (.global 7), .spawn (.global 8), .exec 0 .retry, .exec 0 .retry, .exec 0 (.take 1)]

/-- static でない worker が眠るところ。 -/
def parkSecond : List (Move (Scheduling 2 Nat) (Grab 2)) :=
  [.exec 1 .retry, .exec 1 .retry, .exec 1 (.take 0), .exec 1 .retry]

theorem parked_dynamic_worker_stays_pushWhileParked :
    ∃ c d, (executor Nat []).run (Spooler.new 1 2 Nat) parkSecond = some c ∧
      (executor Nat []).run c pushWhileParked = some d ∧ d.shared.begun = [(0, 7)] ∧
      .worker 1 false .park ∈ d.threads ∧ (d.shared.lanes 1).begun = (c.shared.lanes 1).begun ∧
      d.shared.begun.filter (fun e => e.1 = 1) = c.shared.begun.filter (fun e => e.1 = 1) := by
  have h : ((executor Nat []).run (Spooler.new 1 2 Nat) parkSecond).bind (fun c =>
      ((executor Nat []).run c pushWhileParked).map fun d =>
        (decide (.worker 1 false .park ∈ c.threads), (c.shared.lanes 1).notified,
          decide (.waker 1 ∈ c.threads), d.shared.begun)) =
      some (true, false, false, [(0, 7)]) := by decide
  obtain ⟨c, hrun, hc⟩ := Option.bind_eq_some_iff.mp h
  obtain ⟨d, hrun', hd⟩ := Option.map_eq_some_iff.mp hc
  simp only [Prod.mk.injEq, decide_eq_true_eq, decide_eq_false_iff_not] at hd
  obtain ⟨hparked, hquiet, halone, hbegun⟩ := hd
  refine ⟨c, d, hrun, hrun', hbegun, parked_dynamic_worker_stays 1 2 Nat [] parkSecond
    pushWhileParked c d hrun hrun' 1 hparked hquiet halone fun task hmem => ?_⟩
  simp [pushWhileParked] at hmem

end FabAccess.Executor
