import FabAccess.Infra.Interleave

/-!
# span の出入りと poll の統計

`runtime/console/src/stats.rs` の `PollStats`、`stack.rs` の `SpanStack`、`lib.rs` の `on_enter` と
`on_exit` の埋め込み。

span に入るたび、その span と親の span の `start_poll` が呼ばれ、thread ごとの `SpanStack` に積まれる。
`Instant` はナノ秒の `Nat` とし、`usize` は `BitVec 64` とする。

* `current_polls` は lock の外で数えるので、その `fetch_add` と `fetch_sub`、および `timestamps` の lock を
  取る区間をそれぞれ一歩とする
* span の表（tracing の registry）は動かさない。入っている span とその親は閉じず、id は使い回さないものとする
-/

namespace FabAccess.Console

open Infra

/-! ## `PollStats` -/

/-- `H` は poll の長さを記録するもの（`Histogram` または `()`）である。 -/
structure PollTimestamps (H : Type) where
  firstPoll : Option Nat
  lastPollStarted : Option Nat
  lastPollEnded : Option Nat
  busyTime : Nat
  histogram : H
  deriving DecidableEq, Repr

structure PollStats (H : Type) where
  currentPolls : BitVec 64
  polls : BitVec 64
  timestamps : PollTimestamps H
  deriving DecidableEq, Repr

namespace PollStats

variable {H : Type} (recordPollDuration : H → Nat → H)

def new (histogram : H) : PollStats H := ⟨0, 0, ⟨none, none, none, 0, histogram⟩⟩

def fetchAdd (stats : PollStats H) : PollStats H :=
  { stats with currentPolls := stats.currentPolls + 1 }

def fetchSub (stats : PollStats H) : PollStats H :=
  { stats with currentPolls := stats.currentPolls - 1 }

/-- `start_poll` が最初の poll について lock の中で行うこと。 -/
def begun (stats : PollStats H) (now : Nat) : PollStats H :=
  { stats with
    polls := stats.polls + 1
    timestamps := { stats.timestamps with
      firstPoll := some (stats.timestamps.firstPoll.getD now)
      lastPollStarted := some now } }

/-- `end_poll` が最後の poll について lock の中で行うこと。時計が戻っていれば、長さは記録しない。 -/
def ended (stats : PollStats H) (now : Nat) : PollStats H :=
  match stats.timestamps.lastPollStarted with
  | none => stats
  | some started =>
    let timestamps := { stats.timestamps with lastPollEnded := some now }
    if started ≤ now then
      { stats with timestamps := { timestamps with
        busyTime := timestamps.busyTime + (now - started)
        histogram := recordPollDuration timestamps.histogram (now - started) } }
    else { stats with timestamps }

/-- 途中に割り込みのない `start_poll`。 -/
def startPoll (stats : PollStats H) (now : Nat) : PollStats H :=
  if stats.currentPolls = 0 then stats.fetchAdd.begun now else stats.fetchAdd

/-- 途中に割り込みのない `end_poll`。 -/
def endPoll (stats : PollStats H) (now : Nat) : PollStats H :=
  if 1 < stats.currentPolls then stats.fetchSub else stats.fetchSub.ended recordPollDuration now

/-- `start_poll` か `end_poll` の呼び出し。 -/
inductive Call where
  | start (now : Nat)
  | finish (now : Nat)
  deriving DecidableEq, Repr

def call (stats : PollStats H) : Call → PollStats H
  | .start now => stats.startPoll now
  | .finish now => stats.endPoll recordPollDuration now

end PollStats

/-- `Histogram`。`histogram` は hdrhistogram である。 -/
structure Histogram (H : Type) where
  histogram : H
  max : Nat
  outliers : Nat
  maxOutlier : Option Nat
  deriving DecidableEq, Repr

/-- `record_poll_duration`。`as_nanos() as u64` は上の桁を捨てる。 -/
def Histogram.recordPollDuration {H : Type} (record : H → Nat → H) (this : Histogram H)
    (duration : Nat) : Histogram H :=
  let durationNs := duration % 2 ^ 64
  if this.max < durationNs then
    { this with
      outliers := this.outliers + 1
      maxOutlier := some (match this.maxOutlier with
        | none => durationNs
        | some outlier => Nat.max outlier durationNs)
      histogram := record this.histogram this.max }
  else { this with histogram := record this.histogram durationNs }

/-! ## `SpanStack` -/

structure ContextId where
  id : Nat
  duplicate : Bool
  deriving DecidableEq, Repr

/-- thread が入っている span。後に入ったものが後ろに来る。 -/
abbrev SpanStack := List ContextId

namespace SpanStack

def push (stack : SpanStack) (id : Nat) : SpanStack × Bool :=
  let duplicate := stack.any fun ctx => ctx.id == id
  (stack ++ [⟨id, duplicate⟩], !duplicate)

/-- 最後に入った `expectedId` を取り除く。 -/
def pop (stack : SpanStack) (expectedId : Nat) : SpanStack × Bool :=
  match stack.reverse.find? fun ctx => ctx.id == expectedId with
  | some ctx => ((stack.reverse.eraseP fun ctx => ctx.id == expectedId).reverse, !ctx.duplicate)
  | none => (stack, false)

def iter (stack : SpanStack) : List Nat :=
  stack.filterMap fun ctx => if ctx.duplicate then none else some ctx.id

end SpanStack

/-! ## `on_enter` と `on_exit` -/

/-- span に付いている統計の種類。`send_stats` が捨てた span には何も付かない。 -/
inductive SpanKind where
  | task
  | asyncOp
  | resource
  | other
  deriving DecidableEq, Repr

structure Span where
  kind : SpanKind
  parent : Option Nat
  deriving DecidableEq, Repr

/-- `start_poll` と `end_poll` のある統計が付いている。 -/
def SpanKind.polled : SpanKind → Bool
  | .task | .asyncOp => true
  | .resource | .other => false

/-- 内側の `update` が `Some` を返す。 -/
def SpanKind.updated : SpanKind → Bool
  | .other => false
  | _ => true

/-- `on_enter` と `on_exit` の歩。 -/
inductive SpanOp where
  | fetchAdd (id now : Nat)
  | begun (id now : Nat)
  | fetchSub (id now : Nat)
  | ended (id now : Nat)
  | push (id : Nat)
  | pop (id : Nat)
  deriving DecidableEq, Repr

variable (spans : Nat → Option Span)

/-- 内側の `update` の、poll の統計についての部分。 -/
def update (op : Nat → SpanOp) (id : Nat) : List SpanOp :=
  match spans id with
  | some span => if span.kind.polled then [op id] else []
  | none => []

/-- `on_enter` と `on_exit` に共通の順序。`span.parent()` は親がまだあるときだけ返る。 -/
def updateSpan (op : Nat → SpanOp) (last : SpanOp) (id : Nat) : List SpanOp :=
  match spans id with
  | none => []
  | some span =>
    if span.kind.updated then
      update spans op id ++
        (match span.parent with
        | some parent => update spans op parent
        | none => []) ++ [last]
    else []

def onEnter (id now : Nat) : List SpanOp := updateSpan spans (.fetchAdd · now) (.push id) id

def onExit (id now : Nat) : List SpanOp := updateSpan spans (.fetchSub · now) (.pop id) id

/-- 一つの thread。`todo` は進行中の `on_enter` か `on_exit` の残りである。 -/
structure SpanThread where
  stack : SpanStack
  todo : List SpanOp
  deriving DecidableEq, Repr

/-- 一歩の選び方。出るのは、その thread が入っている span だけである。 -/
inductive SpanPick where
  | enter (id now : Nat)
  | exit (id now : Nat)
  | go
  deriving DecidableEq, Repr

variable {H : Type} (recordPollDuration : H → Nat → H)

/-- 一つの歩。 -/
def SpanOp.exec (stats : Nat → PollStats H) (stack : SpanStack) :
    SpanOp → (Nat → PollStats H) × SpanStack × List SpanOp
  | .fetchAdd id now =>
    (Function.update stats id (stats id).fetchAdd, stack,
      if (stats id).currentPolls = 0 then [.begun id now] else [])
  | .begun id now => (Function.update stats id ((stats id).begun now), stack, [])
  | .fetchSub id now =>
    (Function.update stats id (stats id).fetchSub, stack,
      if 1 < (stats id).currentPolls then [] else [.ended id now])
  | .ended id now =>
    (Function.update stats id ((stats id).ended recordPollDuration now), stack, [])
  | .push id => (stats, (stack.push id).1, [])
  | .pop id => (stats, (stack.pop id).1, [])

def SpanThread.next (stats : Nat → PollStats H) (thread : SpanThread) (pick : SpanPick) :
    Option ((Nat → PollStats H) × SpanThread) :=
  match thread.todo, pick with
  | [], .enter id now => some (stats, { thread with todo := onEnter spans id now })
  | [], .exit id now =>
    if thread.stack.any fun ctx => ctx.id == id then
      some (stats, { thread with todo := onExit spans id now })
    else none
  | op :: todo, .go =>
    let (stats, stack, more) := op.exec recordPollDuration stats thread.stack
    some (stats, ⟨stack, more ++ todo⟩)
  | _, _ => none

/-- いくつもの thread が span に出入りする系。 -/
def spanThreads : System (Nat → PollStats H) SpanThread Unit SpanPick where
  spawn stats _ := some (stats, [⟨[], []⟩])
  next := SpanThread.next spans recordPollDuration

/-- どの span にも誰も入っていない。 -/
def spanStart (histogram : H) : Config (Nat → PollStats H) SpanThread :=
  ⟨fun _ => .new histogram, []⟩

end FabAccess.Console
