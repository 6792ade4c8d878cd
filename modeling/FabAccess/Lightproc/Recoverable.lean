import FabAccess.Lightproc.Proc

/-!
# panic を受け止める proc

`LightProc::recoverable`、`catch_unwind.rs` の `CatchUnwind`、`recoverable_handle.rs` の
`RecoverableHandle` の埋め込み。

`CatchUnwind` が中の future を包むので、proc の output は `thread::Result<R>` であり、panic は proc にとって
`Ready` になる。`RecoverableHandle` は `ProcHandle` を包み、poll の結果を読み替える。
-/

namespace FabAccess.Lightproc

open Infra

/-- `CatchUnwind` の中の future の poll が行うこと。`E` は panic の理由である。 -/
inductive InnerPoll (R E : Type) where
  | ready (v : R)
  | pending
  | panic (reason : E)
  deriving DecidableEq, Repr

variable {R E W C : Type}

/-- `CatchUnwind::poll`。 -/
def catchUnwind : InnerPoll R E → Choice (Except E R)
  | .ready v => .ready (.ok v)
  | .pending => .pending
  | .panic reason => .ready (.error reason)

/-- 一歩の選択。future は `CatchUnwind` を通してだけ poll される。 -/
inductive RecoverableChoice (R E : Type) where
  | go
  | spurious
  | future (inner : InnerPoll R E)
  deriving DecidableEq, Repr

def RecoverableChoice.inner : RecoverableChoice R E → Choice (Except E R)
  | .go => .go
  | .spurious => .spurious
  | .future inner => catchUnwind inner

/-- `RecoverableHandle` の `inner` のほか。`called` と `polled` は記録である。 -/
structure RecoverableHandle (R E C : Type) where
  panicked : Option C
  /-- 呼ばれた callback と、渡された理由 -/
  called : List (C × E)
  /-- poll が返したもの -/
  polled : List (Poll R)
  deriving DecidableEq, Repr

namespace RecoverableHandle

def new : RecoverableHandle R E C := ⟨none, [], []⟩

def onPanic (handle : RecoverableHandle R E C) (callback : C) : RecoverableHandle R E C :=
  { handle with panicked := some callback }

/-- `RecoverableHandle::poll` が、`inner` の poll の結果を受けて行うこと。 -/
def poll (handle : RecoverableHandle R E C) : Poll (Except E R) → RecoverableHandle R E C
  | .pending => { handle with polled := handle.polled ++ [.pending] }
  | .ready none => { handle with polled := handle.polled ++ [.ready none] }
  | .ready (some (.ok v)) => { handle with polled := handle.polled ++ [.ready (some v)] }
  | .ready (some (.error reason)) =>
    { panicked := none
      called := match handle.panicked with
        | some callback => handle.called ++ [(callback, reason)]
        | none => handle.called
      polled := handle.polled ++ [.ready none] }

/-- この歩で `inner` の poll が返るなら、その続き。 -/
def after (handle : RecoverableHandle R E C) : Thread (Except E R) W → RecoverableHandle R E C
  | .pollDone _ r :: _ => handle.poll r
  | _ => handle

end RecoverableHandle

structure RecoverableShared (R E W C : Type) where
  proc : Shared (Except E R) W
  handle : RecoverableHandle R E C

/-- proc と handle に対する操作。`onPanic` は handle を独占する。 -/
inductive RecoverableOp (W C : Type) where
  | proc (op : Op W)
  | onPanic (callback : C)
  deriving DecidableEq, Repr

/-- `LightProc::recoverable` の直後。 -/
def RecoverableShared.init : RecoverableShared R E W C := ⟨Shared.init, .new⟩

/-- 一つの recoverable な proc の系。 -/
def recoverable (R E W C : Type) [DecidableEq W] :
    System (RecoverableShared R E W C) (Thread (Except E R) W) (RecoverableOp W C)
      (RecoverableChoice R E) where
  spawn sh
    | .proc op =>
      ((Lightproc.proc (Except E R) W).spawn sh.proc op).map fun p => ({ sh with proc := p.1 }, p.2)
    | .onPanic callback =>
      if sh.proc.halted = false ∧ sh.proc.handle = .shared 0 then
        some ({ sh with handle := sh.handle.onPanic callback }, [])
      else none
  next sh t k :=
    (Lightproc.next sh.proc t k.inner).map fun p => (⟨p.1, sh.handle.after t⟩, p.2)

end FabAccess.Lightproc
