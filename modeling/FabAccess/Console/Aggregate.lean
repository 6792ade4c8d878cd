import Mathlib.Logic.Function.Basic
import FabAccess.Infra.Run

/-!
# console の event を集める

`runtime/console/src/aggregate.rs`、`event.rs`、`id_map.rs`、`lib.rs` の `send_stats` の埋め込み。

producer は `ConsoleLayer` を通して event を channel に入れ、`Aggregator::run` が取り出して
`update_state` に渡す。両者は別の thread で動くので、`run` は channel に触れるところで区切った
小さな歩みの列とし、producer の歩みが間に入れるようにする。

`P` は tracing と console_api の値、および `Arc` の参照である。ここでは中を見ない。
-/

namespace FabAccess.Console

open Infra

variable {P : Type}

/-- producer が送る event。 -/
inductive Event (P : Type) where
  | metadata (metadata : P)
  | spawn (id : Nat) (metadata stats : P) (fields : List P) (location : Option P)
  | resource (id : Nat) (parentId : Option Nat) (metadata : P) (concreteType : String) (kind : P)
      (location : Option P) (isInternal : Bool) (stats : P)
  | pollOp (metadata : P) (resourceId : Nat) (opName : String) (asyncOpId taskId : Nat)
      (isReady : Bool)
  | asyncResourceOp (id : Nat) (parentId : Option Nat) (resourceId : Nat) (metadata : P)
      (source : String) (stats : P)
  deriving DecidableEq

/-! ## `update_state` -/

structure Task (P : Type) where
  id : Nat
  metadata : P
  fields : List P
  location : Option P
  deriving DecidableEq

structure Resource (P : Type) where
  id : Nat
  parentId : Option Nat
  metadata : P
  concreteType : String
  kind : P
  location : Option P
  isInternal : Bool

structure AsyncOp (P : Type) where
  id : Nat
  parentId : Option Nat
  resourceId : Nat
  metadata : P
  source : String

structure PollOp (P : Type) where
  metadata : P
  resourceId : Nat
  name : String
  taskId : Nat
  asyncOpId : Nat
  isReady : Bool

/-- `IdMap`。中は `HashMap` である。 -/
abbrev IdMap (T : Type) := Nat → Option T

def IdMap.insert {T : Type} (map : IdMap T) (id : Nat) (data : T) : IdMap T :=
  Function.update map id (some data)

/-- `Aggregator` が集めたもの。 -/
structure Tables (P : Type) where
  allMetadata : List P
  newMetadata : List P
  tasks : IdMap (Task P)
  taskStats : IdMap P
  resources : IdMap (Resource P)
  resourceStats : IdMap P
  asyncOps : IdMap (AsyncOp P)
  asyncOpStats : IdMap P
  pollOps : List (PollOp P)

def Tables.empty : Tables P :=
  ⟨[], [], fun _ => none, fun _ => none, fun _ => none, fun _ => none, fun _ => none, fun _ => none,
    []⟩

/-- `Aggregator::update_state`。 -/
def Tables.updateState (tables : Tables P) : Event P → Tables P
  | .metadata metadata =>
    { tables with
      allMetadata := tables.allMetadata ++ [metadata]
      newMetadata := tables.newMetadata ++ [metadata] }
  | .spawn id metadata stats fields location =>
    { tables with
      tasks := tables.tasks.insert id { id, metadata, fields, location }
      taskStats := tables.taskStats.insert id stats }
  | .resource id parentId metadata concreteType kind location isInternal stats =>
    { tables with
      resources := tables.resources.insert id
        { id, parentId, metadata, concreteType, kind, location, isInternal }
      resourceStats := tables.resourceStats.insert id stats }
  | .pollOp metadata resourceId opName asyncOpId taskId isReady =>
    { tables with
      pollOps := tables.pollOps ++
        [{ metadata, resourceId, name := opName, taskId, asyncOpId, isReady }] }
  | .asyncResourceOp id parentId resourceId metadata source stats =>
    { tables with
      asyncOps := tables.asyncOps.insert id { id, parentId, resourceId, metadata, source }
      asyncOpStats := tables.asyncOpStats.insert id stats }

/-! ## channel -/

/-- crossbeam の bounded channel。`senders` と `receiver` は、まだ相手がいるかどうかである。 -/
structure EventChannel (P : Type) where
  capacity : Nat
  queue : List (Event P)
  senders : Bool
  receiver : Bool

namespace EventChannel

def isFull (channel : EventChannel P) : Bool := channel.capacity ≤ channel.queue.length

inductive TrySend (P : Type) where
  | ok (channel : EventChannel P)
  | full
  | disconnected

inductive TryRecv (P : Type) where
  | ok (event : Event P) (channel : EventChannel P)
  | empty
  | disconnected

def trySend (channel : EventChannel P) (event : Event P) : TrySend P :=
  if !channel.receiver then .disconnected
  else if channel.isFull then .full
  else .ok { channel with queue := channel.queue ++ [event] }

/-- 残っている event は、送り手がいなくなっても読める。 -/
def tryRecv (channel : EventChannel P) : TryRecv P :=
  match channel.queue with
  | event :: queue => .ok event { channel with queue }
  | [] => if channel.senders then .empty else .disconnected

end EventChannel

/-! ## `Aggregator::run` -/

/-- `run` の現在位置。 -/
inductive Pc where
  /-- `select!` で待つ -/
  | select
  /-- `while let Ok(event) = self.events.try_recv()` -/
  | drain
  /-- `if let Err(TryRecvError::Disconnected) = self.events.try_recv()` -/
  | test
  /-- client への送り出し -/
  | flush
  | returned
  deriving DecidableEq, Repr

structure Aggregator (P : Type) where
  tables : Tables P
  watchers : List Nat
  running : Bool
  shouldSend : Bool
  pc : Pc

/-- どの数を増やすか（`Shared` の field）。 -/
inductive Dropped where
  | tasks
  | resources
  | asyncOps
  deriving DecidableEq, Repr

/--
捨てられた event の数。source の `AtomicUsize` は 2^64 で 0 に戻るが、読まれて 0 に戻されてから次に
読まれるまでに捨てられる event は 2^64 より少ないとして、自然数で数える。
-/
structure Shared where
  droppedTasks : Nat
  droppedResources : Nat
  droppedAsyncOps : Nat
  deriving DecidableEq, Repr

def Shared.fetchAdd (shared : Shared) : Dropped → Shared
  | .tasks => { shared with droppedTasks := shared.droppedTasks + 1 }
  | .resources => { shared with droppedResources := shared.droppedResources + 1 }
  | .asyncOps => { shared with droppedAsyncOps := shared.droppedAsyncOps + 1 }

/-- `task_update` などが読み出して 0 に戻す。 -/
def Shared.taken : Shared := ⟨0, 0, 0⟩

/-- `select!` の結果。`sent` は最初の送り出しが届いたかどうかである。 -/
inductive Wake where
  | timer
  | instrument (watch : Nat) (sent : Bool)
  | watchTaskDetail
  | pause
  | resume
  | rpcClosed
  deriving DecidableEq, Repr

/-- 全体の状態。`accepted` は channel が受け取った event、`applied` は `update_state` に渡った event の記録。 -/
structure World (P : Type) where
  channel : EventChannel P
  agg : Aggregator P
  shared : Shared
  accepted : List (Event P)
  applied : List (Event P)

/-- 一つの歩み。`isFull` と `trySend` は producer の `send_stats` の二つの部分である。 -/
inductive Action (P : Type) where
  | isFull (dropped : Dropped)
  | trySend (dropped : Dropped) (event : Event P)
  | dropLayer
  | wake (cmd : Wake)
  | tick (delivers : Nat → Bool)

namespace Aggregator

/-- `select!` の腕。返るのは `rpcs` が閉じたときである。 -/
def select (agg : Aggregator P) : Wake → Aggregator P
  | .timer => { agg with shouldSend := agg.running, pc := .drain }
  | .instrument watch sent =>
    { agg with
      watchers := if sent then agg.watchers ++ [watch] else agg.watchers
      shouldSend := false
      pc := .drain }
  | .watchTaskDetail => { agg with shouldSend := false, pc := .drain }
  | .pause => { agg with running := false, shouldSend := false, pc := .drain }
  | .resume => { agg with running := true, shouldSend := false, pc := .drain }
  | .rpcClosed => { agg with pc := .returned }

def publish (agg : Aggregator P) (delivers : Nat → Bool) : Aggregator P :=
  { agg with
    tables := { agg.tables with newMetadata := [], pollOps := [] }
    watchers := agg.watchers.filter delivers }

end Aggregator

namespace World

/-- `run` が返ると `Aggregator` が落ち、channel には受け手がいなくなる。残りの event は読まれない。 -/
def returned (w : World P) : World P :=
  { w with
    channel := { w.channel with receiver := false }
    agg := { w.agg with pc := .returned } }

/-- `Aggregator` の一歩。 -/
def tick (w : World P) (delivers : Nat → Bool) : Option (World P) :=
  match w.agg.pc with
  | .select | .returned => none
  | .drain =>
    match w.channel.tryRecv with
    | .ok event channel => some
      { w with
        channel
        agg := { w.agg with tables := w.agg.tables.updateState event }
        applied := w.applied ++ [event] }
    | .empty | .disconnected => some { w with agg := { w.agg with pc := .test } }
  | .test =>
    match w.channel.tryRecv with
    | .disconnected => some w.returned
    -- `Err(Disconnected)` でなければ何もしない。取り出した event もここで捨てられる
    | .ok _ channel => some { w with channel, agg := { w.agg with pc := .flush } }
    | .empty => some { w with agg := { w.agg with pc := .flush } }
  | .flush =>
    if !w.agg.watchers.isEmpty && w.agg.shouldSend then some
      { w with agg := { w.agg.publish delivers with pc := .select }, shared := .taken }
    else some { w with agg := { w.agg with pc := .select } }

def step (w : World P) : Action P → Option (World P)
  | .isFull dropped =>
    if w.channel.isFull then some { w with shared := w.shared.fetchAdd dropped } else some w
  | .trySend dropped event =>
    match w.channel.trySend event with
    | .ok channel => some { w with channel, accepted := w.accepted ++ [event] }
    | .full => some { w with shared := w.shared.fetchAdd dropped }
    | .disconnected => some w
  | .dropLayer => some { w with channel := { w.channel with senders := false } }
  | .wake cmd =>
    match w.agg.pc, cmd with
    | .select, .rpcClosed => some w.returned
    | .select, .instrument watch sent =>
      some { w with agg := w.agg.select (.instrument watch sent), shared := .taken }
    | .select, cmd => some { w with agg := w.agg.select cmd }
    | _, _ => none
  | .tick delivers => w.tick delivers

def run (w : World P) (actions : List (Action P)) : Option (World P) := runFrom step w actions

/-- `ConsoleLayer::build` の直後。 -/
def start (capacity : Nat) : World P where
  channel := ⟨capacity, [], true, true⟩
  agg := ⟨.empty, [], true, false, .select⟩
  shared := .taken
  accepted := []
  applied := []

end World

end FabAccess.Console
