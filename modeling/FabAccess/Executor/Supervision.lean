import FabAccess.Infra.Run
import Mathlib.Data.Finmap

/-!
# process group

`runtime/executor/src/supervision.rs` と、group の id を作り、持ち、手放すところ
（`executor/src/pool.rs`、`lightproc/src/raw_proc.rs` の `destroy`、`bffhd/capnp/mod.rs` の `handle`）の
埋め込み。

参照の数は手で数えられている。数を増やすのは `clone_group`、減らすのは `try_close` で、
`try_close` を呼ぶのは pool から group が消されるときの `clear` だけである。
`GroupId` は `Drop` を持たないので、id が捨てられても数は変わらない。
-/

namespace FabAccess.Executor

open Infra

abbrev ThreadId := Nat

abbrev ProcId := Nat

/-- 0 でない 64 bit の id（`GroupId`）。 -/
structure GroupId where
  id : UInt64
  nonzero : id ≠ 0
  deriving DecidableEq

/-- `id_to_idx`。0 でないので、引き算は回り込まない。 -/
def idToIdx (id : GroupId) : UInt64 := id.id - 1

/-- `idx_to_id`。回り込んで 0 になると `GroupId::from_u64` が panic する。 -/
def idxToId (idx : UInt64) : Option GroupId :=
  if h : idx + 1 ≠ 0 then some ⟨idx + 1, h⟩ else none

structure GroupInner where
  parent : Option GroupId
  /-- `AtomicUsize` で、あふれると回り込む。 -/
  refCount : UInt64
  deriving DecidableEq

/--
registry と、id を持っているもの。

`owned` は呼び出し側が持っている id である（`Executor` の `root_cgroup`、まだ proc に渡していない id）。
`created` と `counted` は記録で、これまでに作られた group とその parent、
これまでに数えられた参照の行き先を並べる。
-/
structure World where
  groups : Finmap fun _ : UInt64 => GroupInner
  current : Finmap fun _ : ThreadId => GroupId
  procs : Finmap fun _ : ProcId => Option GroupId
  owned : List GroupId
  created : List (GroupId × Option GroupId)
  counted : List GroupId

namespace World

def start : World :=
  { groups := ∅, current := ∅, procs := ∅, owned := [], created := [], counted := [] }

/-! ## registry の操作 -/

/-- `SupervisionRegistry::clone_group`。返る id は引数と同じなので、変わった registry だけを返す。 -/
def cloneGroup (w : World) (id : GroupId) : Option World :=
  match w.groups.lookup (idToIdx id) with
  | none => none
  | some group =>
    if group.refCount = 0 then none
    else
      some { w with
        groups := w.groups.insert (idToIdx id) { group with refCount := group.refCount + 1 }
        counted := id :: w.counted }

/-- `SupervisionRegistry::new_group_inner`。`idx` は slab が選ぶ空き番地。 -/
def newGroupInner (w : World) (idx : UInt64) (parent : Option GroupId) : Option World :=
  if idx ∈ w.groups then none
  else
    match idxToId idx with
    | none => none
    | some id =>
      some { w with
        groups := w.groups.insert idx { parent := parent, refCount := 1 }
        owned := id :: w.owned
        created := (id, parent) :: w.created
        counted := id :: w.counted }

/-- `SupervisionRegistry::new_root_group`。 -/
def newRootGroup (w : World) (idx : UInt64) : Option World := w.newGroupInner idx none

/-- `SupervisionRegistry::new_group`。 -/
def newGroup (w : World) (thread : ThreadId) (idx : UInt64) : Option World :=
  match w.current.lookup thread with
  | none => w.newGroupInner idx none
  | some id => (w.cloneGroup id).bind fun w' => w'.newGroupInner idx (some id)

/-- `SupervisionRegistry::current`。 -/
def currentGroup (w : World) (thread : ThreadId) : Option (World × Option GroupId) :=
  match w.current.lookup thread with
  | none => some (w, none)
  | some id => (w.cloneGroup id).map fun w' => (w', some id)

/-- `SupervisionRegistry::set_current`。既に入っていれば何もしない。入れる id は数えない。 -/
def setCurrent (w : World) (thread : ThreadId) (id : GroupId) : World :=
  match w.current.lookup thread with
  | none => { w with current := w.current.insert thread id }
  | some _ => w

/-- `SupervisionRegistry::try_close`。数を減らし、残りが無くなったかどうかを返す。 -/
def tryClose (w : World) (id : GroupId) : Option (World × Bool) :=
  match w.groups.lookup (idToIdx id) with
  | none => none
  | some group =>
    let groups := w.groups.insert (idToIdx id) { group with refCount := group.refCount - 1 }
    some ({ w with groups := groups }, decide (group.refCount ≤ 1))

/--
`Pool::clear` が group を消すときに起きること。`GroupInner::clear` は `try_close` の返り値を見ない。

`Pool::clear` を呼ぶ code は無いので、`step` はこれを通らない。
-/
def clear (w : World) (idx : UInt64) : Option World :=
  match w.groups.lookup idx with
  | none => none
  | some group =>
    let cleared := { w with groups := w.groups.erase idx }
    match group.parent with
    | none => some cleared
    | some parent => (cleared.tryClose parent).map Prod.fst

/-! ## proc -/

/-- proc を作る（`LightProc::build`）。id は `ProcData` に移る。 -/
def build (w : World) (proc : ProcId) (cgroup : Option GroupId) : Option World :=
  if proc ∈ w.procs then none else some { w with procs := w.procs.insert proc cgroup }

/-- `Executor::spawn` と `Executor::spawn_local`。 -/
def spawn (w : World) (thread : ThreadId) (proc : ProcId) : Option World :=
  match w.currentGroup thread with
  | none => none
  | some (w', cgroup) => w'.build proc cgroup

/-- `Executor::spawn_local_cgroup`。id は呼び出し側から proc に移る。 -/
def spawnLocalCgroup (w : World) (proc : ProcId) (id : GroupId) : Option World :=
  { w with owned := w.owned.erase id }.build proc (some id)

/-- `RawProc::destroy`。`ProcData` が捨てられ、中の id も捨てられる。 -/
def destroy (w : World) (proc : ProcId) : World := { w with procs := w.procs.erase proc }

end World

/-! ## 歩み -/

inductive Action where
  | newRootGroup (idx : UInt64)
  | newGroup (thread : ThreadId) (idx : UInt64)
  | current (thread : ThreadId)
  | setCurrent (thread : ThreadId) (id : GroupId)
  | spawn (thread : ThreadId) (proc : ProcId)
  | spawnLocalCgroup (proc : ProcId) (id : GroupId)
  /-- `derive(Clone)` の複製。`Executor` の複製もこれである。数えない。 -/
  | clone (id : GroupId)
  | destroy (proc : ProcId)
  /-- 呼び出し側が id を捨てる。 -/
  | drop (id : GroupId)
  deriving DecidableEq

/-- group を作る歩み。 -/
def Action.creates : Action → Bool
  | .newRootGroup _ => true
  | .newGroup _ _ => true
  | _ => false

namespace World

/-- 一歩。panic する歩みと、持っていない id を使う歩みは踏み出せない。 -/
def step (w : World) : Action → Option World
  | .newRootGroup idx => w.newRootGroup idx
  | .newGroup thread idx => w.newGroup thread idx
  | .current thread =>
    (w.currentGroup thread).map fun (w', id) => { w' with owned := id.toList ++ w'.owned }
  | .setCurrent thread id => if id ∈ w.owned then some (w.setCurrent thread id) else none
  | .spawn thread proc => w.spawn thread proc
  | .spawnLocalCgroup proc id => if id ∈ w.owned then w.spawnLocalCgroup proc id else none
  | .clone id => if id ∈ w.owned then some { w with owned := id :: w.owned } else none
  | .destroy proc => if proc ∈ w.procs then some (w.destroy proc) else none
  | .drop id => if id ∈ w.owned then some { w with owned := w.owned.erase id } else none

def run (w : World) (actions : List Action) : Option World := runFrom step w actions

end World

/-- `Executor::new`。作った root の id は `Executor` が持ち続ける。 -/
def executorNew (thread : ThreadId) (idx : UInt64) (id : GroupId) : List Action :=
  [.newRootGroup idx, .setCurrent thread id]

/-- `APIServer::handle` の終わり。接続ごとに group を一つ作り、proc に渡す。 -/
def handle (thread : ThreadId) (idx : UInt64) (id : GroupId) (proc : ProcId) : List Action :=
  [.newGroup thread idx, .spawnLocalCgroup proc id]

end FabAccess.Executor
