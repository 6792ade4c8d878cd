import Mathlib.Data.List.Basic

/-!
# actor の駆動

`bffhd/actors/mod.rs` の `ActorDriver::poll` の埋め込み。signal と、進行中の `apply` の future の
二つを見る、手書きの poll の loop である。

signal の値は poll の途中でも変わるので、loop を一つの共有の操作ごとの歩に分ける。
future が終わるかどうかは外から与える。futures-signals は `Signals` として受け取る。
-/

namespace FabAccess

/-- `std::task::Poll`。 -/
inductive Poll (α : Type) where
  | ready (value : α)
  | pending
  deriving DecidableEq, Repr

/--
一つの `Mutable` に繋がった signal（futures-signals）。

`poll_change` は、前に渡してから変わっていれば（最初の呼び出しでも）いまの値を渡し、
そうでなければ、終わっていれば `None`、終わっていなければ `Pending` を返す。
`set` は、同じ値を書いたときに変わったと見なしても見なさなくてもよい。
-/
structure Signals (V : Type) where
  State : Type
  start : V → State
  value : State → V
  /-- まだ渡していない変化がある -/
  due : State → Bool
  /-- `Mutable` がすべて捨てられた -/
  ended : State → Bool
  pollChange : State → Poll (Option V) × State
  set : State → V → State
  close : State → State
  start_spec : ∀ v, value (start v) = v ∧ due (start v) = true ∧ ended (start v) = false
  poll_due : ∀ s, due s = true → (pollChange s).1 = .ready (some (value s)) ∧
    due (pollChange s).2 = false
  poll_pending : ∀ s, due s = false → ended s = false → (pollChange s).1 = .pending ∧
    due (pollChange s).2 = false
  poll_ended : ∀ s, due s = false → ended s = true → (pollChange s).1 = .ready none ∧
    due (pollChange s).2 = false
  poll_same : ∀ s, value (pollChange s).2 = value s ∧ ended (pollChange s).2 = ended s
  set_spec : ∀ s v, value (set s v) = v ∧ ended (set s v) = ended s ∧
    (due (set s v) = true ∨ v = value s ∧ due (set s v) = due s)
  close_spec : ∀ s, value (close s) = value s ∧ due (close s) = due s ∧ ended (close s) = true

/-- 起きたこと。`k` は何番目の `apply` の future かである。 -/
inductive ActorEvent (V : Type) where
  | polled
  | futureReady (k : Nat)
  | futurePending (k : Nat)
  | handed (state : V)
  | applied (k : Nat) (state : V)
  | signalPending
  | signalEnded
  /-- `poll` が `Poll::Pending` を返した -/
  | pending
  /-- `poll` が `Poll::Ready` を返した -/
  | completed
  | changed (state : V)
  | closed
  deriving DecidableEq, Repr

variable {V : Type} (sig : Signals V)

/-- `ActorDriver`。`actor` は `apply` の引数の列、`future` はいまの future が何番目のものかである。 -/
structure ActorDriver where
  signal : sig.State
  actor : List V
  future : Option Nat

/-- `poll` の中の位置。 -/
inductive ActorPc where
  /-- `poll` の外 -/
  | idle
  /-- loop の先頭 -/
  | future
  | signal
  /-- `Poll::Ready` を返した後 -/
  | done
  deriving DecidableEq, Repr

variable {sig}

namespace ActorDriver

def new (signal : sig.State) : ActorDriver sig := { signal, actor := [], future := none }

/-- `Actor::apply` を呼び、返った future を持つ。 -/
def apply (d : ActorDriver sig) (state : V) : ActorDriver sig :=
  { d with actor := d.actor ++ [state], future := some d.actor.length }

/-- loop の前半。`ready` は future を poll した結果である。 -/
def pollFuture (d : ActorDriver sig) (ready : Bool) :
    ActorDriver sig × ActorPc × List (ActorEvent V) :=
  match d.future with
  | none => (d, .signal, [])
  | some k =>
    if ready then ({ d with future := none }, .signal, [.futureReady k])
    else (d, .idle, [.futurePending k, .pending])

/-- loop の後半。 -/
def pollSignal (d : ActorDriver sig) : ActorDriver sig × ActorPc × List (ActorEvent V) :=
  let (change, signal) := sig.pollChange d.signal
  let d := { d with signal }
  match change with
  | .pending => (d, .idle, [.signalPending, .pending])
  | .ready none => (d, .done, [.signalEnded, .completed])
  | .ready (some state) => (d.apply state, .future, [.handed state, .applied d.actor.length state])

end ActorDriver

variable (sig) in
/-- driver と、そこまでの記録。 -/
structure ActorWorld where
  driver : ActorDriver sig
  pc : ActorPc
  trace : List (ActorEvent V)

/-- 一歩の指定。`set` と `close` は resource の側である。 -/
inductive ActorMove (V : Type) where
  | poll
  | future (ready : Bool)
  | signal
  | set (state : V)
  | close
  deriving DecidableEq, Repr

namespace ActorWorld

def new (sig : Signals V) (v : V) : ActorWorld sig := ⟨.new (sig.start v), .idle, []⟩

/-- driver の一歩の結果を書き込む。 -/
def advance (w : ActorWorld sig) (r : ActorDriver sig × ActorPc × List (ActorEvent V)) :
    ActorWorld sig :=
  ⟨r.1, r.2.1, w.trace ++ r.2.2⟩

def step (w : ActorWorld sig) : ActorMove V → Option (ActorWorld sig)
  | .poll => if w.pc = .idle then some (w.advance (w.driver, .future, [.polled])) else none
  | .future ready =>
    if w.pc = .future then some (w.advance (w.driver.pollFuture ready)) else none
  | .signal => if w.pc = .signal then some (w.advance w.driver.pollSignal) else none
  | .set state => some (w.advance
    ({ w.driver with signal := sig.set w.driver.signal state }, w.pc, [.changed state]))
  | .close => some (w.advance
    ({ w.driver with signal := sig.close w.driver.signal }, w.pc, [.closed]))

def run (w : ActorWorld sig) : List (ActorMove V) → Option (ActorWorld sig)
  | [] => some w
  | m :: ms =>
    match w.step m with
    | none => none
    | some w' => w'.run ms

end ActorWorld

end FabAccess
