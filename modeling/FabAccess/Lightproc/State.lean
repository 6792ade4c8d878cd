import Mathlib.Tactic.Basic

/-!
# lightproc の state word

`runtime/lightproc/src/state.rs` の埋め込み。

一つの u64 に、七つの flag と参照の数が入っている。flag は bit の集まりなので、
mask は成分ごとの `&&&`・`|||`・`~~~` で書く。`RUNNING & SCHEDULED` が空集合であるといった、
source の mask の取り方もそのまま表れる。

参照の数は `Nat` とする。`fetch_sub` が 0 から引くと flag の側へ桁借りが起きるが、
そこから先の状態は追わず、`Shared.underflow` に記録して系を止める。
-/

namespace FabAccess.Lightproc

/-- `bitflags` の `StateFlags`。 -/
structure StateFlags where
  scheduled : Bool := false
  running : Bool := false
  completed : Bool := false
  closed : Bool := false
  handle : Bool := false
  awaiter : Bool := false
  locked : Bool := false
  deriving DecidableEq, Repr

namespace StateFlags

instance : AndOp StateFlags where
  and a b :=
    { scheduled := a.scheduled && b.scheduled, running := a.running && b.running,
      completed := a.completed && b.completed, closed := a.closed && b.closed,
      handle := a.handle && b.handle, awaiter := a.awaiter && b.awaiter,
      locked := a.locked && b.locked }

instance : OrOp StateFlags where
  or a b :=
    { scheduled := a.scheduled || b.scheduled, running := a.running || b.running,
      completed := a.completed || b.completed, closed := a.closed || b.closed,
      handle := a.handle || b.handle, awaiter := a.awaiter || b.awaiter,
      locked := a.locked || b.locked }

instance : Complement StateFlags where
  complement a :=
    { scheduled := !a.scheduled, running := !a.running, completed := !a.completed,
      closed := !a.closed, handle := !a.handle, awaiter := !a.awaiter, locked := !a.locked }

def SCHEDULED : StateFlags := { scheduled := true }
def RUNNING : StateFlags := { running := true }
def COMPLETED : StateFlags := { completed := true }
def CLOSED : StateFlags := { closed := true }
def HANDLE : StateFlags := { handle := true }
def AWAITER : StateFlags := { awaiter := true }
def LOCKED : StateFlags := { locked := true }

/-- 空でない共通部分を持つ。 -/
def intersects (a b : StateFlags) : Bool :=
  let c := a &&& b
  c.scheduled || c.running || c.completed || c.closed || c.handle || c.awaiter || c.locked

end StateFlags

open StateFlags

/-- state word。 -/
structure State where
  flags : StateFlags
  refcount : Nat
  deriving DecidableEq, Repr

namespace State

def isScheduled (s : State) : Bool := s.flags.scheduled
def isRunning (s : State) : Bool := s.flags.running
def isCompleted (s : State) : Bool := s.flags.completed
def isClosed (s : State) : Bool := s.flags.closed
def isHandle (s : State) : Bool := s.flags.handle
def isAwaiter (s : State) : Bool := s.flags.awaiter
def isLocked (s : State) : Bool := s.flags.locked

/-- `fetch_or` が書く値。返り値は元の word である。 -/
def fetchOr (s : State) (val : StateFlags) : State := { s with flags := s.flags ||| val }

/-- `fetch_and` が書く値。参照の数は全 bit の mask で残る。 -/
def fetchAnd (s : State) (val : StateFlags) : State := { s with flags := s.flags &&& val }

end State

/-! ## 成分ごとの計算 -/

section

variable (a b : StateFlags)

@[simp] theorem and_scheduled : (a &&& b).scheduled = (a.scheduled && b.scheduled) := rfl
@[simp] theorem and_running : (a &&& b).running = (a.running && b.running) := rfl
@[simp] theorem and_completed : (a &&& b).completed = (a.completed && b.completed) := rfl
@[simp] theorem and_closed : (a &&& b).closed = (a.closed && b.closed) := rfl
@[simp] theorem and_handle : (a &&& b).handle = (a.handle && b.handle) := rfl
@[simp] theorem and_awaiter : (a &&& b).awaiter = (a.awaiter && b.awaiter) := rfl
@[simp] theorem and_locked : (a &&& b).locked = (a.locked && b.locked) := rfl

@[simp] theorem or_scheduled : (a ||| b).scheduled = (a.scheduled || b.scheduled) := rfl
@[simp] theorem or_running : (a ||| b).running = (a.running || b.running) := rfl
@[simp] theorem or_completed : (a ||| b).completed = (a.completed || b.completed) := rfl
@[simp] theorem or_closed : (a ||| b).closed = (a.closed || b.closed) := rfl
@[simp] theorem or_handle : (a ||| b).handle = (a.handle || b.handle) := rfl
@[simp] theorem or_awaiter : (a ||| b).awaiter = (a.awaiter || b.awaiter) := rfl
@[simp] theorem or_locked : (a ||| b).locked = (a.locked || b.locked) := rfl

@[simp] theorem not_scheduled : (~~~a).scheduled = !a.scheduled := rfl
@[simp] theorem not_running : (~~~a).running = !a.running := rfl
@[simp] theorem not_completed : (~~~a).completed = !a.completed := rfl
@[simp] theorem not_closed : (~~~a).closed = !a.closed := rfl
@[simp] theorem not_handle : (~~~a).handle = !a.handle := rfl
@[simp] theorem not_awaiter : (~~~a).awaiter = !a.awaiter := rfl
@[simp] theorem not_locked : (~~~a).locked = !a.locked := rfl

end

/-- `COMPLETED | CLOSED` との交わり。 -/
@[simp] theorem intersects_completed_closed (f : StateFlags) :
    f.intersects (COMPLETED ||| CLOSED) = (f.completed || f.closed) := by
  simp [intersects, COMPLETED, CLOSED]

/-- `SCHEDULED | RUNNING` との交わり。 -/
@[simp] theorem intersects_scheduled_running (f : StateFlags) :
    f.intersects (SCHEDULED ||| RUNNING) = (f.scheduled || f.running) := by
  simp [intersects, SCHEDULED, RUNNING]

end FabAccess.Lightproc
