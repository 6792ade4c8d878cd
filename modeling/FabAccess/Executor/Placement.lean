import Mathlib.Data.List.Basic

/-!
# worker thread を core に置く

`runtime/executor/src/placement.rs`、`load_balancer.rs` の `LoadBalancer::new`、`thread_manager.rs` の
`affinity_pinner` の埋め込み。

core の id は process の affinity mask から来る。mask は空きがあっても、0 から始まらなくてもよい。
`ROUND_ROBIN_PIN` は lock の下で読み書きされるので、thread は lock を取った順に並べる。
-/

namespace FabAccess.Executor

structure CoreId where
  id : Nat
  deriving DecidableEq, Repr

/-- `get_core_ids`。`size` は mask の bit の数（Linux では `CPU_SETSIZE`）である。 -/
def getCoreIds (size : Nat) (mask : Nat → Bool) : List CoreId :=
  ((List.range size).filter mask).map CoreId.mk

structure LoadBalancer where
  numCores : Nat
  cores : List CoreId

def LoadBalancer.new (cores : List CoreId) : LoadBalancer where
  numCores := cores.length
  cores := cores

/--
`ThreadManager::affinity_pinner`。`core` は `ROUND_ROBIN_PIN` の中身で、返るのは `set_for_current` に
渡した core と、次の中身である。
-/
def affinityPinner (balancer : LoadBalancer) (core : CoreId) :
    Option (Option CoreId × CoreId) :=
  if 1 ≠ balancer.numCores then
    -- 0 で割ると panic する
    if balancer.numCores = 0 then none
    else some (some core, ⟨(core.id + 1) % balancer.numCores⟩)
  else some (none, core)

/-- 始まった thread と、`set_for_current` に渡した core。 -/
structure Started (Thread : Type) where
  thread : Thread
  pinned : Option CoreId
  deriving DecidableEq, Repr

/-- 置かれる core。`set_for_current` を呼ばない thread は、process の mask のままである。 -/
def Started.affinity {Thread : Type} (cores : List CoreId) (started : Started Thread) :
    List CoreId :=
  match started.pinned with
  | some core => [core]
  | none => cores

/-- lock を取った順に thread を始める。 -/
def startAll {Thread : Type} (balancer : LoadBalancer) :
    CoreId → List Thread → Option (List (Started Thread))
  | _, [] => some []
  | core, thread :: threads =>
    match affinityPinner balancer core with
    | none => none
    | some (pinned, core') =>
      (startAll balancer core' threads).map fun started => ⟨thread, pinned⟩ :: started

end FabAccess.Executor
