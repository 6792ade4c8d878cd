import FabAccess.Lightproc.Awaiter

/-!
# lightproc の一歩ずつの実行

`runtime/lightproc/src/raw_proc.rs`、`proc_data.rs`、`proc_handle.rs`、`lightproc.rs` の埋め込み。
一つの proc の上で、`LightProc`・`Waker`・`ProcHandle` の操作がいくつも同時に進む。

state word への一回の atomic 操作、awaiter の一回の入れ替え、中身への一回の access を
一歩とする。操作は残りの仕事 `Act` の列で、先頭から実行され、呼んだ関数の仕事が前に積まれる。

source の compare-exchange の loop は、どれも「手元の word を見て、抜けるか、
新しい word を書こうとする」形をしている。その本体が `Loop.attempt` である。

* 参照を受け取らない範囲は Rust の型が守るとおりにする。`run`・`schedule`・`drop` は `LightProc` を
  消費し、`poll` と handle の drop は `ProcHandle` を独占し、`cancel` は借りる。
* schedule 関数は、渡された `LightProc` を queue に入れるまでと、戻るまでとの二歩である。入れた後は、ほかの
  thread がその `LightProc` を走らせ始めてよい。
* `tick` の中の waker は数えられない参照で、future の poll の間だけ借りられる。
* 待っている task の waker `W` は、この proc のものではないとする。

`Shared` の後半は履歴で、どの操作もそれを読まない。
-/

namespace FabAccess.Lightproc

open Infra StateFlags

/-- 借りている参照。 -/
inductive Loan where
  /-- `&LightProc` -/
  | proc
  /-- `&Waker` -/
  | waker
  /-- `tick` が作る、poll の間だけの `&Waker` -/
  | tick
  /-- `&ProcHandle` -/
  | handle
  deriving DecidableEq, Repr

/-- `ProcData::cancel` を呼ぶもの。 -/
inductive Canceller where
  | call
  | drop
  deriving DecidableEq, Repr

/-- `ProcData::notify` を呼ぶもの。 -/
inductive Notifier where
  /-- `LightProc::cancel` -/
  | call
  /-- `LightProc` を終わらせるもの。`LightProc::drop`、`Guard::drop`、`tick` の Ready -/
  | last
  /-- 閉じられた proc を見つけた `tick` -/
  | tick
  /-- `ProcHandle::cancel` -/
  | handle
  deriving DecidableEq, Repr

/-- CLOSED を立てたもの。 -/
inductive Closer where
  | cancel
  | drop
  | panic
  /-- handle の poll が output を取った -/
  | take
  /-- handle の無い proc が完了した -/
  | abandoned
  | handleDrop
  | handleCancel
  deriving DecidableEq, Repr

/-- 閉じた proc の poll の終わり方。 -/
inductive PollEnd where
  | closed
  | take
  deriving DecidableEq, Repr

/-- `swap_awaiter` の使い道。 -/
inductive Use (W : Type) where
  | register (w : W)
  | notify (n : Notifier)
  | notifyUnless (w : W) (e : PollEnd)
  deriving DecidableEq, Repr

/-- `Poll<Option<R>>`。 -/
inductive Poll (R : Type) where
  | pending
  | ready (v : Option R)
  deriving DecidableEq, Repr

/-- compare-exchange の loop。`wakeByRef` は借りた waker を、`poll` は呼んだ task の waker を持つ。 -/
inductive Loop (W : Type) where
  | tick
  | ready
  | pending
  | guard
  | wake
  | wakeByRef (via : Loan)
  | cancel (c : Canceller)
  | poll (w : W)
  | handleCancel
  | handleDropFirst
  | handleDrop
  deriving DecidableEq, Repr

/-- 残っている仕事。 -/
inductive Act (R W : Type) where
  | load (l : Loop W)
  | attempt (l : Loop W) (s : State)
  | polling (s : State)
  /-- Ready の後で future を捨てる -/
  | readyDrop (v : R) (s : State)
  | writeOutput (v : R) (s : State)
  | takeOutput
  | unschedule
  | dropFuture
  | decrement
  | destroy
  /-- tracing の span から出る -/
  | exitSpan
  /-- schedule 関数を呼び、関数が `LightProc` を queue に入れる -/
  | push
  /-- 入れた後の schedule 関数の残り。閉包は proc の中にあり、`schedule_local` の閉包は、入れた後で
  自分の `unparker` を読む -/
  | endSchedule
  | lock (u : Use W)
  | replace (u : Use W)
  | unlock (u : Use W) (old : Option W)
  | wakeAwaiter (u : Use W) (w : W)
  | clone (via : Loan)
  | endLoan (l : Loan)
  | reload (w : W)
  | pollTake (w : W)
  | pollDone (w : W) (r : Poll R)
  deriving DecidableEq, Repr

variable {R W : Type}

/-! ## loop の本体 -/

/-- loop の一周。手元の word だけで決まる。 -/
inductive Attempt (R W : Type) where
  /-- word に触らずに抜ける -/
  | leave (acts : List (Act R W))
  /-- 新しい word を書く。書けたら `acts` に進み、書けなければ読み直してもう一周する -/
  | cas (weak : Bool) (new : State) (acts : List (Act R W))
  deriving DecidableEq, Repr

def notifyIf (b : Bool) (n : Notifier) : List (Act R W) := if b then [.lock (.notify n)] else []

@[simp] theorem mem_notifyIf {b : Bool} {n : Notifier} {a : Act R W} :
    a ∈ notifyIf b n ↔ b = true ∧ a = .lock (.notify n) := by
  cases b <;> simp [notifyIf]

namespace Loop

def attemptTick (s : State) : Attempt R W :=
  if s.isClosed then .leave (notifyIf s.isAwaiter .tick ++ [.dropFuture, .decrement, .exitSpan])
  else
    let new : State := ⟨(s.flags &&& ~~~SCHEDULED) ||| RUNNING, s.refcount⟩
    .cas true new [.polling new]

def attemptReady (s : State) : Attempt R W :=
  let flags :=
    if !s.isHandle then (s.flags &&& ~~~(RUNNING &&& SCHEDULED)) ||| COMPLETED ||| CLOSED
    else (s.flags &&& ~~~(RUNNING &&& SCHEDULED)) ||| COMPLETED
  .cas true ⟨flags, s.refcount⟩
    ((if !s.isHandle || s.isClosed then [.takeOutput] else []) ++ notifyIf s.isAwaiter .last ++
      [.exitSpan, .decrement])

def attemptPending (s : State) : Attempt R W :=
  let flags :=
    if s.isClosed then s.flags &&& ~~~(RUNNING ||| SCHEDULED) else s.flags &&& ~~~RUNNING
  .cas true ⟨flags, s.refcount⟩
    (if s.isClosed then [.dropFuture, .decrement, .exitSpan]
      else if s.isScheduled then [.push, .exitSpan]
      else [.decrement, .exitSpan])

/-- `Guard::drop`。 -/
def attemptGuard (s : State) : Attempt R W :=
  if s.isClosed then .leave [.unschedule, .dropFuture, .decrement, .exitSpan]
  else
    .cas true ⟨(s.flags &&& ~~~(RUNNING &&& SCHEDULED)) ||| CLOSED, s.refcount⟩
      ([.dropFuture] ++ notifyIf s.isAwaiter .last ++ [.decrement, .exitSpan])

def attemptWake (s : State) : Attempt R W :=
  if s.flags.intersects (COMPLETED ||| CLOSED) then .leave [.decrement]
  else if s.isScheduled then .cas true s [.decrement]
  else
    .cas true ⟨s.flags ||| SCHEDULED, s.refcount⟩
      (if !s.isRunning then [.push] else [.decrement])

def attemptWakeByRef (via : Loan) (s : State) : Attempt R W :=
  if s.flags.intersects (COMPLETED ||| CLOSED) then .leave [.endLoan via]
  else if s.isScheduled then .cas true s [.endLoan via]
  else if !s.flags.intersects (SCHEDULED ||| RUNNING) then
    .cas true ⟨s.flags ||| SCHEDULED, s.refcount + 1⟩ [.push, .endLoan via]
  else .cas true ⟨s.flags ||| SCHEDULED, s.refcount⟩ [.endLoan via]

/-- `ProcData::cancel` の後に残る仕事。`LightProc::drop` は続けて future を捨てる。 -/
def afterCancel : Canceller → List (Act R W)
  | .call => [.endLoan .proc]
  | .drop => [.dropFuture, .decrement]

/-- `notify` を呼ぶときは、借りている参照はその中で返す。 -/
def notifyCancel : Canceller → List (Act R W)
  | .call => [.lock (.notify .call)]
  | .drop => [.lock (.notify .last), .dropFuture, .decrement]

def attemptCancel (c : Canceller) (s : State) : Attempt R W :=
  if s.flags.intersects (COMPLETED ||| CLOSED) then .leave (afterCancel c)
  else
    .cas true ⟨s.flags ||| CLOSED, s.refcount⟩
      (if s.isAwaiter then notifyCancel c else afterCancel c)

def attemptPoll (w : W) (s : State) : Attempt R W :=
  if s.isClosed then .leave [.lock (.notifyUnless w .closed)]
  else if !s.isCompleted then .leave [.lock (.register w)]
  else
    .cas false ⟨s.flags ||| CLOSED, s.refcount⟩
      (if s.isAwaiter then [.lock (.notifyUnless w .take)] else [.pollTake w])

/-- `ProcHandle::cancel`。SCHEDULED か RUNNING の **とき** に参照を足し、schedule はそうで
ないときに行う。 -/
def attemptHandleCancel (s : State) : Attempt R W :=
  if s.flags.intersects (COMPLETED ||| CLOSED) then .leave [.endLoan .handle]
  else
    let new : State :=
      if s.flags.intersects (SCHEDULED ||| RUNNING) then
        ⟨s.flags ||| SCHEDULED ||| CLOSED, s.refcount + 1⟩
      else ⟨s.flags ||| CLOSED, s.refcount⟩
    .cas true new
      ((if !s.flags.intersects (SCHEDULED ||| RUNNING) then [.push] else []) ++
        (if s.isAwaiter then [.lock (.notify .handle)] else [.endLoan .handle]))

/-- `ProcHandle::drop` の loop。 -/
def attemptHandleDrop (s : State) : Attempt R W :=
  if s.isCompleted && !s.isClosed then
    let new : State := ⟨s.flags ||| CLOSED, s.refcount⟩
    .cas true new [.takeOutput, .attempt .handleDrop new]
  else
    let new : State :=
      if s.refcount == 0 && !s.isClosed then ⟨SCHEDULED ||| CLOSED, 1⟩
      else ⟨s.flags &&& ~~~HANDLE, s.refcount⟩
    .cas true new
      (if s.refcount == 0 then (if !s.isClosed then [.push] else [.destroy]) else [])

def attempt : Loop W → State → Attempt R W
  | .tick => attemptTick
  | .ready => attemptReady
  | .pending => attemptPending
  | .guard => attemptGuard
  | .wake => attemptWake
  | .wakeByRef via => attemptWakeByRef via
  | .cancel c => attemptCancel c
  | .poll w => attemptPoll w
  | .handleCancel => attemptHandleCancel
  -- 作られた直後であることを当てにした一回だけの試み
  | .handleDropFirst => fun _ => .cas true ⟨SCHEDULED, 1⟩ []
  | .handleDrop => attemptHandleDrop

/-- 書けなかったときに続ける loop。 -/
def again : Loop W → Loop W
  | .handleDropFirst => .handleDrop
  | l => l

end Loop

/-! ## 共有される状態 -/

/-- `ProcHandle` の使われ方。 -/
inductive HandleUse where
  /-- `&ProcHandle` が `n` 個借りられている -/
  | shared (n : Nat)
  /-- poll の途中 -/
  | polled
  | gone
  deriving DecidableEq, Repr

/-- 終わった poll の記録。`expected` は始まったときに取り出せるはずだった output である。 -/
structure PollRecord (R W : Type) where
  waker : W
  expected : Option R
  result : Poll R
  deriving DecidableEq, Repr

structure Shared (R W : Type) where
  word : State
  awaiter : Option W
  /-- output の置き場。初期化されていなければ `none` -/
  output : Option R
  /-- 手元にある `LightProc` -/
  held : Nat
  /-- schedule された `LightProc` -/
  queued : Nat
  wakers : Nat
  handle : HandleUse
  procLoans : Nat
  wakerLoans : Nat
  tickLoans : Nat
  /-- 進行中の future の poll -/
  polls : Nat
  /-- 参照の数が 0 から引かれた -/
  underflow : Bool
  aborted : Bool
  -- ここから履歴
  futureDrops : Nat
  outputWrites : Nat
  outputReads : Nat
  destroys : Nat
  /-- destroy された後の access -/
  badAccess : Bool
  /-- 初期化されていない output を読んだ -/
  badRead : Bool
  readies : List R
  closedBy : Option Closer
  /-- 生きている proc を起こした後、まだ poll が始まっていない -/
  wakeSeen : Bool
  /-- いまの、または最後の poll が始まってから起こされた waker -/
  woken : List W
  /-- いまの、または最後の poll が登録した waker -/
  registered : Option W
  expected : Option R
  polled : List (PollRecord R W)
  deriving DecidableEq, Repr

namespace Shared

/-- `RawProc::allocate` の直後。 -/
def init : Shared R W where
  word := ⟨SCHEDULED ||| HANDLE, 1⟩
  awaiter := none
  output := none
  held := 1
  queued := 0
  wakers := 0
  handle := .shared 0
  procLoans := 0
  wakerLoans := 0
  tickLoans := 0
  polls := 0
  underflow := false
  aborted := false
  futureDrops := 0
  outputWrites := 0
  outputReads := 0
  destroys := 0
  badAccess := false
  badRead := false
  readies := []
  closedBy := none
  wakeSeen := false
  woken := []
  registered := none
  expected := none
  polled := []

/-- proc の memory に触る。 -/
def touch (sh : Shared R W) : Shared R W :=
  { sh with badAccess := sh.badAccess || decide (0 < sh.destroys) }

/-- output を読み出す。 -/
def readOutput (sh : Shared R W) : Shared R W :=
  { sh.touch with
    output := none, outputReads := sh.outputReads + 1,
    badRead := sh.badRead || sh.output.isNone }

def closeBy (sh : Shared R W) (c : Closer) : Shared R W := { sh with closedBy := some c }

def lend (sh : Shared R W) : Loan → Option (Shared R W)
  | .proc => if 0 < sh.held then some { sh with procLoans := sh.procLoans + 1 } else none
  | .waker => if 0 < sh.wakers then some { sh with wakerLoans := sh.wakerLoans + 1 } else none
  | .tick => if 0 < sh.polls then some { sh with tickLoans := sh.tickLoans + 1 } else none
  | .handle =>
    match sh.handle with
    | .shared n => some { sh with handle := .shared (n + 1) }
    | _ => none

def endLoan (sh : Shared R W) : Loan → Shared R W
  | .proc => { sh with procLoans := sh.procLoans - 1 }
  | .waker => { sh with wakerLoans := sh.wakerLoans - 1 }
  | .tick => { sh with tickLoans := sh.tickLoans - 1 }
  | .handle =>
    match sh.handle with
    | .shared n => { sh with handle := .shared (n - 1) }
    | _ => sh

/-- 参照を返しても、借りている数のほかは変わらない。 -/
theorem endLoan_eq (sh : Shared R W) (l : Loan) :
    ∃ p w t h, sh.endLoan l =
      { sh with procLoans := p, wakerLoans := w, tickLoans := t, handle := h } := by
  cases l with
  | handle =>
    simp only [endLoan]
    split
    · exact ⟨_, _, _, _, rfl⟩
    · exact ⟨_, _, _, _, rfl⟩
  | proc | waker | tick => exact ⟨_, _, _, _, rfl⟩

/-- underflow か abort の後は何も進まない。 -/
def halted (sh : Shared R W) : Bool := sh.underflow || sh.aborted

end Shared

/-- compare-exchange が通ったときの履歴の更新。`s` は書く前の word である。 -/
def Loop.record (l : Loop W) (s : State) (sh : Shared R W) : Shared R W :=
  match l with
  | .tick => { sh with polls := sh.polls + 1, wakeSeen := false }
  | .ready => if s.isHandle then sh else sh.closeBy .abandoned
  | .pending => sh
  | .guard => sh.closeBy .panic
  | .wake | .wakeByRef _ => { sh with wakeSeen := true }
  | .cancel .call => sh.closeBy .cancel
  | .cancel .drop => sh.closeBy .drop
  | .poll _ => sh.closeBy .take
  | .handleCancel => sh.closeBy .handleCancel
  | .handleDropFirst => sh
  | .handleDrop => if s.isClosed then sh
      else if s.isCompleted || s.refcount == 0 then sh.closeBy .handleDrop else sh

/-! ## 一歩 -/

/-- 一歩の選択。weak な compare-exchange の偽の失敗と、future の poll の結果。 -/
inductive Choice (R : Type) where
  | go
  | spurious
  | ready (v : R)
  | pending
  | panic
  deriving DecidableEq, Repr

def Choice.isSpurious : Choice R → Bool
  | .spurious => true
  | _ => false

def Use.new : Use W → Option W
  | .register w => some w
  | .notify _ | .notifyUnless _ _ => none

def PollEnd.act (w : W) : PollEnd → Act R W
  | .closed => .pollDone w (.ready none)
  | .take => .pollTake w

/-- `notify` を呼んだ操作が、終わりに返す参照。 -/
def Notifier.loans : Notifier → List (Act R W)
  | .call => [.endLoan .proc]
  | .handle => [.endLoan .handle]
  | .last | .tick => []

def wakeOld (u : Use W) : Option W → List (Act R W)
  | some w => [.wakeAwaiter u w]
  | none => []

/-- `swap_awaiter` が元の waker を返した後の仕事。 -/
def Use.finish [DecidableEq W] (u : Use W) (old : Option W) : List (Act R W) :=
  match u with
  | .register w => [.reload w]
  | .notify n => wakeOld u old ++ n.loans
  | .notifyUnless w e => (if old = some w then [] else wakeOld u old) ++ [e.act w]

/-- `i32::MAX`。 -/
def maxRefcount : Nat := 2 ^ 31 - 1

/-- 先頭の仕事を一つ実行する。返すのは新しい共有状態と、代わりに積む仕事である。 -/
def exec [DecidableEq W] (sh : Shared R W) (a : Act R W) (k : Choice R) :
    Option (Shared R W × List (Act R W)) :=
  match a with
  | .load l => some (sh.touch, [.attempt l sh.word])
  | .attempt l s =>
    match l.attempt s with
    | .leave acts => some (sh, acts)
    | .cas weak new acts =>
      if sh.word = s ∧ (weak && k.isSpurious) = false then
        some (l.record s { sh.touch with word := new }, acts)
      else some (sh.touch, [.attempt l.again sh.word])
  | .polling s =>
    -- 借りた waker を future が手放すまで poll は返らない
    if 0 < sh.tickLoans then none
    else
      let sh := { sh.touch with polls := sh.polls - 1 }
      match k with
      | .ready v => some ({ sh with readies := sh.readies ++ [v] }, [.readyDrop v s])
      | .pending => some (sh, [.attempt .pending s])
      | .panic => some (sh, [.load .guard])
      | .go | .spurious => none
  | .readyDrop v s =>
    some ({ sh.touch with futureDrops := sh.futureDrops + 1 }, [.writeOutput v s])
  | .writeOutput v s =>
    some ({ sh.touch with output := some v, outputWrites := sh.outputWrites + 1 },
      [.attempt .ready s])
  | .takeOutput => some (sh.readOutput, [])
  | .unschedule => some ({ sh.touch with word := sh.word.fetchAnd (~~~SCHEDULED) }, [])
  | .dropFuture => some ({ sh.touch with futureDrops := sh.futureDrops + 1 }, [])
  | .decrement =>
    if sh.word.refcount = 0 then some ({ sh.touch with underflow := true }, [])
    else
      let new : State := { sh.word with refcount := sh.word.refcount - 1 }
      some ({ sh.touch with word := new },
        if new.refcount == 0 && !new.isHandle then [.destroy] else [])
  | .destroy => some ({ sh.touch with destroys := sh.destroys + 1 }, [])
  | .exitSpan => some (sh.touch, [])
  | .push => some ({ sh.touch with queued := sh.queued + 1 }, [.endSchedule])
  | .endSchedule => some (sh.touch, [])
  | .lock u =>
    some ({ sh.touch with word := sh.word.fetchOr (lockMask u.new) },
      [if sh.word.isLocked then .replace u else .lock u])
  | .replace u => some ({ sh.touch with awaiter := u.new }, [.unlock u sh.awaiter])
  | .unlock u old =>
    some ({ sh.touch with word := sh.word.fetchAnd (unlockMask u.new) }, u.finish old)
  | .wakeAwaiter _ w => some ({ sh with woken := w :: sh.woken }, [])
  | .clone via =>
    if maxRefcount < sh.word.refcount then some ({ sh.touch with aborted := true }, [.endLoan via])
    else
      some ({ sh.touch with
        word := { sh.word with refcount := sh.word.refcount + 1 }, wakers := sh.wakers + 1 },
        [.endLoan via])
  | .endLoan l => some (sh.endLoan l, [])
  | .reload w =>
    if sh.word.isClosed then some (sh.touch, [.lock (.notifyUnless w .closed)])
    else if !sh.word.isCompleted then
      some ({ sh.touch with registered := some w }, [.pollDone w .pending])
    else some (sh.touch, [.attempt (.poll w) sh.word])
  | .pollTake w =>
    match sh.output with
    | some v => some (sh.readOutput, [.pollDone w (.ready (some v))])
    -- 初期化されていない値では先へ進めない
    | none => some ({ sh.touch with badRead := true }, [.pollTake w])
  | .pollDone w r =>
    some ({ sh with handle := .shared 0, polled := sh.polled ++ [⟨w, sh.expected, r⟩] }, [])

/-- 進行中の操作。 -/
abbrev Thread (R W : Type) := List (Act R W)

def next [DecidableEq W] (sh : Shared R W) (t : Thread R W) (k : Choice R) :
    Option (Shared R W × Thread R W) :=
  match t with
  | [] => none
  | a :: rest =>
    if sh.halted then none
    else (exec sh a k).map (fun p => (p.1, p.2 ++ rest))

/-! ## 操作の始まり -/

/-- proc に対する操作と、executor が queue から取り出すこと。 -/
inductive Op (W : Type) where
  | pop
  | schedule
  | run
  | cancel
  | drop
  | clone (via : Loan)
  | wake
  | wakeByRef (via : Loan)
  | dropWaker
  | poll (w : W)
  | cancelHandle
  | dropHandle
  deriving DecidableEq, Repr

/-- `n` 個のうち一つを、借りている `loans` と両立する形で手放せる。 -/
def spare (n loans : Nat) : Bool := 0 < n && (loans == 0 || 1 < n)

/-- waker を借りられるのは、waker からか、poll の中の waker からである。 -/
def Loan.isWaker : Loan → Bool
  | .waker | .tick => true
  | .proc | .handle => false

def spawn (sh : Shared R W) (op : Op W) : Option (Shared R W × List (Thread R W)) :=
  match op with
  | .pop =>
    if 0 < sh.queued then some ({ sh with queued := sh.queued - 1, held := sh.held + 1 }, [])
    else none
  | .schedule =>
    if spare sh.held sh.procLoans then some ({ sh with held := sh.held - 1 }, [[.push]]) else none
  | .run =>
    if spare sh.held sh.procLoans then some ({ sh with held := sh.held - 1 }, [[.load .tick]])
    else none
  | .cancel => (sh.lend .proc).map (fun sh => (sh, [[.load (.cancel .call)]]))
  | .drop =>
    if spare sh.held sh.procLoans then
      some ({ sh with held := sh.held - 1 }, [[.load (.cancel .drop)]])
    else none
  | .clone via =>
    if via.isWaker then (sh.lend via).map (fun sh => (sh, [[.clone via]])) else none
  | .wake =>
    if spare sh.wakers sh.wakerLoans then
      some ({ sh with wakers := sh.wakers - 1 }, [[.load .wake]])
    else none
  | .wakeByRef via =>
    if via.isWaker then (sh.lend via).map (fun sh => (sh, [[.load (.wakeByRef via)]])) else none
  | .dropWaker =>
    if spare sh.wakers sh.wakerLoans then
      some ({ sh with wakers := sh.wakers - 1 }, [[.decrement]])
    else none
  | .poll w =>
    if sh.handle = .shared 0 then
      some ({ sh with
        handle := .polled, woken := [], registered := none,
        expected := if sh.word.isCompleted && !sh.word.isClosed then sh.output else none },
        [[.load (.poll w)]])
    else none
  | .cancelHandle => (sh.lend .handle).map (fun sh => (sh, [[.load .handleCancel]]))
  | .dropHandle =>
    if sh.handle = .shared 0 then
      some ({ sh with handle := .gone }, [[.attempt .handleDropFirst ⟨SCHEDULED ||| HANDLE, 1⟩]])
    else none

/-- 一つの proc の系。 -/
def proc (R W : Type) [DecidableEq W] :
    System (Shared R W) (Thread R W) (Op W) (Choice R) where
  spawn sh op := if sh.halted then none else spawn sh op
  next := next

end FabAccess.Lightproc
