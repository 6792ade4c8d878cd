import FabAccess.Lightproc.Proc

/-!
# 一歩で起こりうること

`exec` の場合分けを一度だけ行い、関係 `Effect` にまとめる。不変条件の証明はこの関係の
場合分けで済み、loop の本体を開かない。

`ProcHandle::cancel` の compare-exchange が通る一歩だけは含めない（`Act.cancels`）。
-/

namespace FabAccess.Lightproc

open Infra StateFlags

variable {R W : Type}

/-- この一歩で `ProcHandle::cancel` が proc を閉じる。 -/
def Act.cancels (sh : Shared R W) (k : Choice R) : Act R W → Bool
  | .attempt .handleCancel s =>
    decide (sh.word = s) && !s.isCompleted && !s.isClosed && !k.isSpurious
  | _ => false

/-- 空の mask は何も落とさない。 -/
theorem and_not_running_and_scheduled (f : StateFlags) : f &&& ~~~(RUNNING &&& SCHEDULED) = f := by
  cases f
  simp [HAnd.hAnd, AndOp.and, RUNNING, SCHEDULED, Complement.complement]

theorem dead_iff {s : State} : s.flags.intersects (COMPLETED ||| CLOSED) = true ↔
    s.isCompleted = true ∨ s.isClosed = true := by
  rw [intersects_completed_closed, Bool.or_eq_true]
  exact Iff.rfl

/-- 一歩の前の共有状態と仕事、後の共有状態と積まれる仕事。 -/
inductive Effect [DecidableEq W] :
    Shared R W → Act R W → Shared R W → List (Act R W) → Prop where
  | load (sh) (l : Loop W) : Effect sh (.load l) sh.touch [.attempt l sh.word]
  | retry (sh) (l : Loop W) (s) : Effect sh (.attempt l s) sh.touch [.attempt l.again sh.word]
  -- 手元の word を見て loop を抜ける
  | tickClosed (sh) (s : State) (h : s.isClosed = true) :
      Effect sh (.attempt .tick s) sh
        (notifyIf s.isAwaiter .tick ++ [.dropFuture, .decrement, .exitSpan])
  | guardClosed (sh) (s : State) (h : s.isClosed = true) :
      Effect sh (.attempt .guard s) sh [.unschedule, .dropFuture, .decrement, .exitSpan]
  | wakeDead (sh) (s : State) (h : s.isCompleted = true ∨ s.isClosed = true) :
      Effect sh (.attempt .wake s) sh [.decrement]
  | refDead (sh) (via) (s : State) (h : s.isCompleted = true ∨ s.isClosed = true) :
      Effect sh (.attempt (.wakeByRef via) s) sh [.endLoan via]
  | cancelDead (sh) (c) (s : State) (h : s.isCompleted = true ∨ s.isClosed = true) :
      Effect sh (.attempt (.cancel c) s) sh (Loop.afterCancel c)
  | pollClosed (sh) (w) (s : State) (h : s.isClosed = true) :
      Effect sh (.attempt (.poll w) s) sh [.lock (.notifyUnless w .closed)]
  | pollRegister (sh) (w) (s : State) (hc : s.isClosed = false) (hd : s.isCompleted = false) :
      Effect sh (.attempt (.poll w) s) sh [.lock (.register w)]
  | handleCancelDead (sh) (s : State) (h : s.isCompleted = true ∨ s.isClosed = true) :
      Effect sh (.attempt .handleCancel s) sh [.endLoan .handle]
  -- compare-exchange が通る
  | tickRun (sh) (hc : sh.word.isClosed = false) :
      Effect sh (.attempt .tick sh.word)
        { sh.touch with
          word := ⟨(sh.word.flags &&& ~~~SCHEDULED) ||| RUNNING, sh.word.refcount⟩,
          polls := sh.polls + 1, wakeSeen := false }
        [.polling ⟨(sh.word.flags &&& ~~~SCHEDULED) ||| RUNNING, sh.word.refcount⟩]
  | readyKeep (sh) (hh : sh.word.isHandle = true) (hc : sh.word.isClosed = false) :
      Effect sh (.attempt .ready sh.word)
        { sh.touch with word := ⟨sh.word.flags ||| COMPLETED, sh.word.refcount⟩ }
        (notifyIf sh.word.isAwaiter .last ++ [.exitSpan, .decrement])
  | readyAbandon (sh) (hh : sh.word.isHandle = false) :
      Effect sh (.attempt .ready sh.word)
        { sh.touch with
          word := ⟨sh.word.flags ||| COMPLETED ||| CLOSED, sh.word.refcount⟩,
          closedBy := some .abandoned }
        (.takeOutput :: notifyIf sh.word.isAwaiter .last ++ [.exitSpan, .decrement])
  | readyClosed (sh) (hh : sh.word.isHandle = true) (hc : sh.word.isClosed = true) :
      Effect sh (.attempt .ready sh.word)
        { sh.touch with word := ⟨sh.word.flags ||| COMPLETED, sh.word.refcount⟩ }
        (.takeOutput :: notifyIf sh.word.isAwaiter .last ++ [.exitSpan, .decrement])
  | pendClosed (sh) (hc : sh.word.isClosed = true) :
      Effect sh (.attempt .pending sh.word)
        { sh.touch with
          word := ⟨sh.word.flags &&& ~~~(RUNNING ||| SCHEDULED), sh.word.refcount⟩ }
        [.dropFuture, .decrement, .exitSpan]
  | pendAgain (sh) (hc : sh.word.isClosed = false) (hs : sh.word.isScheduled = true) :
      Effect sh (.attempt .pending sh.word)
        { sh.touch with word := ⟨sh.word.flags &&& ~~~RUNNING, sh.word.refcount⟩ }
        [.push, .exitSpan]
  | pendIdle (sh) (hc : sh.word.isClosed = false) (hs : sh.word.isScheduled = false) :
      Effect sh (.attempt .pending sh.word)
        { sh.touch with word := ⟨sh.word.flags &&& ~~~RUNNING, sh.word.refcount⟩ }
        [.decrement, .exitSpan]
  | guardClose (sh) (hc : sh.word.isClosed = false) :
      Effect sh (.attempt .guard sh.word)
        { sh.touch with
          word := ⟨sh.word.flags ||| CLOSED, sh.word.refcount⟩, closedBy := some .panic }
        ([.dropFuture] ++ notifyIf sh.word.isAwaiter .last ++ [.decrement, .exitSpan])
  | wakePublish (sh) (hd : sh.word.isCompleted = false) (hc : sh.word.isClosed = false)
      (hs : sh.word.isScheduled = true) :
      Effect sh (.attempt .wake sh.word) { sh.touch with wakeSeen := true } [.decrement]
  | wakeSchedule (sh) (hd : sh.word.isCompleted = false) (hc : sh.word.isClosed = false)
      (hs : sh.word.isScheduled = false) (hr : sh.word.isRunning = false) :
      Effect sh (.attempt .wake sh.word)
        { sh.touch with
          word := ⟨sh.word.flags ||| SCHEDULED, sh.word.refcount⟩, wakeSeen := true }
        [.push]
  | wakeMark (sh) (hd : sh.word.isCompleted = false) (hc : sh.word.isClosed = false)
      (hs : sh.word.isScheduled = false) (hr : sh.word.isRunning = true) :
      Effect sh (.attempt .wake sh.word)
        { sh.touch with
          word := ⟨sh.word.flags ||| SCHEDULED, sh.word.refcount⟩, wakeSeen := true }
        [.decrement]
  | refPublish (sh) (via) (hd : sh.word.isCompleted = false) (hc : sh.word.isClosed = false)
      (hs : sh.word.isScheduled = true) :
      Effect sh (.attempt (.wakeByRef via) sh.word)
        { sh.touch with wakeSeen := true } [.endLoan via]
  | refSchedule (sh) (via) (hd : sh.word.isCompleted = false) (hc : sh.word.isClosed = false)
      (hs : sh.word.isScheduled = false) (hr : sh.word.isRunning = false) :
      Effect sh (.attempt (.wakeByRef via) sh.word)
        { sh.touch with
          word := ⟨sh.word.flags ||| SCHEDULED, sh.word.refcount + 1⟩, wakeSeen := true }
        [.push, .endLoan via]
  | refMark (sh) (via) (hd : sh.word.isCompleted = false) (hc : sh.word.isClosed = false)
      (hs : sh.word.isScheduled = false) (hr : sh.word.isRunning = true) :
      Effect sh (.attempt (.wakeByRef via) sh.word)
        { sh.touch with
          word := ⟨sh.word.flags ||| SCHEDULED, sh.word.refcount⟩, wakeSeen := true }
        [.endLoan via]
  | cancelCall (sh) (hd : sh.word.isCompleted = false) (hc : sh.word.isClosed = false) :
      Effect sh (.attempt (.cancel .call) sh.word)
        { sh.touch with
          word := ⟨sh.word.flags ||| CLOSED, sh.word.refcount⟩, closedBy := some .cancel }
        (if sh.word.isAwaiter then [.lock (.notify .call)] else [.endLoan .proc])
  | cancelDrop (sh) (hd : sh.word.isCompleted = false) (hc : sh.word.isClosed = false) :
      Effect sh (.attempt (.cancel .drop) sh.word)
        { sh.touch with
          word := ⟨sh.word.flags ||| CLOSED, sh.word.refcount⟩, closedBy := some .drop }
        (notifyIf sh.word.isAwaiter .last ++ [.dropFuture, .decrement])
  | pollClose (sh) (w) (hc : sh.word.isClosed = false) (hd : sh.word.isCompleted = true) :
      Effect sh (.attempt (.poll w) sh.word)
        { sh.touch with
          word := ⟨sh.word.flags ||| CLOSED, sh.word.refcount⟩, closedBy := some .take }
        (if sh.word.isAwaiter then [.lock (.notifyUnless w .take)] else [.pollTake w])
  | dropFirst (sh : Shared R W) :
      Effect sh (.attempt .handleDropFirst sh.word) { sh.touch with word := ⟨SCHEDULED, 1⟩ } []
  | dropClose (sh) (hd : sh.word.isCompleted = true) (hc : sh.word.isClosed = false) :
      Effect sh (.attempt .handleDrop sh.word)
        { sh.touch with
          word := ⟨sh.word.flags ||| CLOSED, sh.word.refcount⟩, closedBy := some .handleDrop }
        [.takeOutput, .attempt .handleDrop ⟨sh.word.flags ||| CLOSED, sh.word.refcount⟩]
  | dropSchedule (sh) (hd : sh.word.isCompleted = false) (hc : sh.word.isClosed = false)
      (hr : sh.word.refcount = 0) :
      Effect sh (.attempt .handleDrop sh.word)
        { sh.touch with word := ⟨SCHEDULED ||| CLOSED, 1⟩, closedBy := some .handleDrop } [.push]
  | dropDestroy (sh) (hc : sh.word.isClosed = true) (hr : sh.word.refcount = 0) :
      Effect sh (.attempt .handleDrop sh.word)
        { sh.touch with word := ⟨sh.word.flags &&& ~~~HANDLE, sh.word.refcount⟩ } [.destroy]
  | dropLeave (sh) (h : sh.word.isCompleted = true → sh.word.isClosed = true)
      (hr : sh.word.refcount ≠ 0) :
      Effect sh (.attempt .handleDrop sh.word)
        { sh.touch with word := ⟨sh.word.flags &&& ~~~HANDLE, sh.word.refcount⟩ } []
  -- loop のほかの仕事
  | pollReady (sh) (v : R) (s) (hl : sh.tickLoans = 0) :
      Effect sh (.polling s)
        { sh.touch with polls := sh.polls - 1, readies := sh.readies ++ [v] } [.readyDrop v s]
  | pollPending (sh) (s) (hl : sh.tickLoans = 0) :
      Effect sh (.polling s) { sh.touch with polls := sh.polls - 1 } [.attempt .pending s]
  | pollPanic (sh) (s) (hl : sh.tickLoans = 0) :
      Effect sh (.polling s) { sh.touch with polls := sh.polls - 1 } [.load .guard]
  | readyDrop (sh) (v : R) (s) :
      Effect sh (.readyDrop v s) { sh.touch with futureDrops := sh.futureDrops + 1 }
        [.writeOutput v s]
  | writeOutput (sh) (v : R) (s) :
      Effect sh (.writeOutput v s)
        { sh.touch with output := some v, outputWrites := sh.outputWrites + 1 }
        [.attempt .ready s]
  | takeOutput (sh) : Effect sh .takeOutput sh.readOutput []
  | unschedule (sh : Shared R W) :
      Effect sh .unschedule { sh.touch with word := sh.word.fetchAnd (~~~SCHEDULED) } []
  | dropFuture (sh : Shared R W) :
      Effect sh .dropFuture { sh.touch with futureDrops := sh.futureDrops + 1 } []
  | underflow (sh) (hr : sh.word.refcount = 0) :
      Effect sh .decrement { sh.touch with underflow := true } []
  | decrementLast (sh) (hr : sh.word.refcount = 1) (hh : sh.word.isHandle = false) :
      Effect sh .decrement { sh.touch with word := { sh.word with refcount := 0 } } [.destroy]
  | decrement (sh) (n) (hr : sh.word.refcount = n + 1) (hh : n = 0 → sh.word.isHandle = true) :
      Effect sh .decrement { sh.touch with word := { sh.word with refcount := n } } []
  | destroy (sh : Shared R W) :
      Effect sh .destroy { sh.touch with destroys := sh.destroys + 1 } []
  | exitSpan (sh) : Effect sh .exitSpan sh.touch []
  | push (sh : Shared R W) : Effect sh .push { sh.touch with queued := sh.queued + 1 } [.endSchedule]
  | endSchedule (sh) : Effect sh .endSchedule sh.touch []
  | lockMore (sh) (u : Use W) (hl : sh.word.isLocked = false) :
      Effect sh (.lock u) { sh.touch with word := sh.word.fetchOr (lockMask u.new) } [.lock u]
  | lockDone (sh) (u : Use W) (hl : sh.word.isLocked = true) :
      Effect sh (.lock u) { sh.touch with word := sh.word.fetchOr (lockMask u.new) } [.replace u]
  | replace (sh) (u : Use W) :
      Effect sh (.replace u) { sh.touch with awaiter := u.new } [.unlock u sh.awaiter]
  | unlock (sh) (u : Use W) (old) :
      Effect sh (.unlock u old) { sh.touch with word := sh.word.fetchAnd (unlockMask u.new) }
        (u.finish old)
  | wakeAwaiter (sh) (u : Use W) (w : W) :
      Effect sh (.wakeAwaiter u w) { sh with woken := w :: sh.woken } []
  | cloneAbort (sh) (via) (hr : maxRefcount < sh.word.refcount) :
      Effect sh (.clone via) { sh.touch with aborted := true } [.endLoan via]
  | clone (sh) (via) (hr : sh.word.refcount ≤ maxRefcount) :
      Effect sh (.clone via)
        { sh.touch with
          word := { sh.word with refcount := sh.word.refcount + 1 }, wakers := sh.wakers + 1 }
        [.endLoan via]
  | endLoan (sh) (l) : Effect sh (.endLoan l) (sh.endLoan l) []
  | reloadClosed (sh) (w : W) (hc : sh.word.isClosed = true) :
      Effect sh (.reload w) sh.touch [.lock (.notifyUnless w .closed)]
  | reloadPending (sh) (w : W) (hc : sh.word.isClosed = false) (hd : sh.word.isCompleted = false) :
      Effect sh (.reload w) { sh.touch with registered := some w } [.pollDone w .pending]
  | reloadAgain (sh) (w : W) (hc : sh.word.isClosed = false) (hd : sh.word.isCompleted = true) :
      Effect sh (.reload w) sh.touch [.attempt (.poll w) sh.word]
  | pollTake (sh) (w : W) (v : R) (ho : sh.output = some v) :
      Effect sh (.pollTake w) sh.readOutput [.pollDone w (.ready (some v))]
  | pollTakeNone (sh) (w : W) (ho : sh.output = none) :
      Effect sh (.pollTake w) { sh.touch with badRead := true } [.pollTake w]
  | pollDone (sh) (w : W) (r : Poll R) :
      Effect sh (.pollDone w r)
        { sh with handle := .shared 0, polled := sh.polled ++ [⟨w, sh.expected, r⟩] } []

/-! ## `exec` はこの関係の中で動く -/

section Exec

variable [DecidableEq W] {sh sh' : Shared R W} {k : Choice R} {new : List (Act R W)}

theorem exec_attempt {l : Loop W} {s : State} (he : exec sh (.attempt l s) k = some (sh', new)) :
    (l.attempt s = .leave new ∧ sh' = sh) ∨
    (sh' = sh.touch ∧ new = [.attempt l.again sh.word]) ∨
    ∃ weak w, l.attempt s = .cas weak w new ∧ sh.word = s ∧ (weak && k.isSpurious) = false ∧
      sh' = l.record s { sh.touch with word := w } := by
  simp only [exec] at he
  split at he
  · next acts ha =>
    simp only [Option.some.injEq, Prod.mk.injEq] at he
    obtain ⟨rfl, rfl⟩ := he
    exact Or.inl ⟨ha, rfl⟩
  · next weak w acts ha =>
    split at he
    · next hw =>
      simp only [Option.some.injEq, Prod.mk.injEq] at he
      obtain ⟨rfl, rfl⟩ := he
      exact Or.inr (Or.inr ⟨weak, w, ha, hw.1, hw.2, rfl⟩)
    · simp only [Option.some.injEq, Prod.mk.injEq] at he
      obtain ⟨rfl, rfl⟩ := he
      exact Or.inr (Or.inl ⟨rfl, rfl⟩)

theorem leave_effect {l : Loop W} {s : State} (h : l.attempt s = .leave new) :
    Effect sh (.attempt l s) sh new := by
  cases l <;> simp only [Loop.attempt] at h
  case tick =>
    unfold Loop.attemptTick at h
    split at h <;> cases h
    next hc => exact .tickClosed sh s hc
  case ready => simp [Loop.attemptReady] at h
  case pending => simp [Loop.attemptPending] at h
  case guard =>
    unfold Loop.attemptGuard at h
    split at h <;> cases h
    next hc => exact .guardClosed sh s hc
  case wake =>
    unfold Loop.attemptWake at h
    split at h
    · next hd => cases h; exact .wakeDead sh s (dead_iff.mp hd)
    · split at h <;> cases h
  case wakeByRef via =>
    unfold Loop.attemptWakeByRef at h
    split at h
    · next hd => cases h; exact .refDead sh via s (dead_iff.mp hd)
    · split at h
      · cases h
      · split at h <;> cases h
  case cancel c =>
    unfold Loop.attemptCancel at h
    split at h <;> cases h
    next hd => exact .cancelDead sh c s (dead_iff.mp hd)
  case poll w =>
    unfold Loop.attemptPoll at h
    split at h
    · next hc => cases h; exact .pollClosed sh w s hc
    · next hc =>
      split at h <;> cases h
      next hd => exact .pollRegister sh w s (by simpa using hc) (by simpa using hd)
  case handleCancel =>
    unfold Loop.attemptHandleCancel at h
    split at h <;> cases h
    next hd => exact .handleCancelDead sh s (dead_iff.mp hd)
  case handleDropFirst => cases h
  case handleDrop =>
    unfold Loop.attemptHandleDrop at h
    split at h <;> cases h

theorem cas_effect {l : Loop W} {weak : Bool} {w : State}
    (h : l.attempt sh.word = .cas weak w new) (hl : l ≠ .handleCancel) :
    Effect sh (.attempt l sh.word) (l.record sh.word { sh.touch with word := w }) new := by
  cases l <;> simp only [Loop.attempt] at h
  case tick =>
    unfold Loop.attemptTick at h
    split at h <;> cases h
    next hc => exact .tickRun sh (by simpa using hc)
  case ready =>
    unfold Loop.attemptReady at h
    -- mask は何も落とさないので、書かれるのは COMPLETED（と CLOSED）を足した word である
    rw [and_not_running_and_scheduled] at h
    cases hh : sh.word.isHandle with
    | false =>
      simp only [hh, Bool.not_false, if_true, Bool.true_or] at h
      cases h
      simp only [Loop.record, hh]
      exact .readyAbandon sh hh
    | true =>
      cases hc : sh.word.isClosed with
      | false =>
        simp only [hh, hc, Bool.not_true, Bool.false_eq_true, if_false, Bool.or_self,
          List.nil_append] at h
        cases h
        simp only [Loop.record, hh]
        exact .readyKeep sh hh hc
      | true =>
        simp only [hh, hc, Bool.not_true, Bool.false_eq_true, if_false, Bool.or_true, if_true] at h
        cases h
        simp only [Loop.record, hh]
        exact .readyClosed sh hh hc
  case pending =>
    unfold Loop.attemptPending at h
    cases hc : sh.word.isClosed with
    | true =>
      simp only [hc, if_true] at h
      cases h
      exact .pendClosed sh hc
    | false =>
      simp only [hc, Bool.false_eq_true, if_false] at h
      cases h
      cases hs : sh.word.isScheduled with
      | true => exact .pendAgain sh hc hs
      | false => exact .pendIdle sh hc hs
  case guard =>
    unfold Loop.attemptGuard at h
    rw [and_not_running_and_scheduled] at h
    split at h <;> cases h
    next hc => exact .guardClose sh (by simpa using hc)
  case wake =>
    unfold Loop.attemptWake at h
    split at h
    · cases h
    · next hd =>
      simp only [intersects_completed_closed, Bool.or_eq_true, not_or, Bool.not_eq_true] at hd
      split at h
      · next hs => cases h; exact .wakePublish sh hd.1 hd.2 hs
      · next hs =>
        cases h
        rw [Bool.not_eq_true] at hs
        cases hr : sh.word.isRunning with
        | true => exact .wakeMark sh hd.1 hd.2 hs hr
        | false => exact .wakeSchedule sh hd.1 hd.2 hs hr
  case wakeByRef via =>
    unfold Loop.attemptWakeByRef at h
    split at h
    · cases h
    · next hd =>
      simp only [intersects_completed_closed, Bool.or_eq_true, not_or, Bool.not_eq_true] at hd
      split at h
      · next hs => cases h; exact .refPublish sh via hd.1 hd.2 hs
      · next hs =>
        rw [Bool.not_eq_true] at hs
        split at h
        · next hr =>
          cases h
          simp only [intersects_scheduled_running, Bool.not_eq_true', Bool.or_eq_false_iff] at hr
          exact .refSchedule sh via hd.1 hd.2 hs hr.2
        · next hr =>
          cases h
          refine .refMark sh via hd.1 hd.2 hs ?_
          simpa [State.isRunning, show sh.word.flags.scheduled = false from hs] using hr
  case cancel c =>
    unfold Loop.attemptCancel at h
    split at h <;> cases h
    next hd =>
    simp only [intersects_completed_closed, Bool.or_eq_true, not_or, Bool.not_eq_true] at hd
    cases c with
    | call => exact .cancelCall sh hd.1 hd.2
    | drop =>
      have := Effect.cancelDrop sh hd.1 hd.2
      cases ha : sh.word.isAwaiter with
      | true => simpa [ha, notifyIf, Loop.record, Shared.closeBy, Loop.notifyCancel] using this
      | false => simpa [ha, notifyIf, Loop.record, Shared.closeBy, Loop.afterCancel] using this
  case poll w =>
    unfold Loop.attemptPoll at h
    split at h
    · cases h
    · next hc =>
      split at h <;> cases h
      next hd =>
      have := Effect.pollClose sh w (by simpa using hc) (by simpa using hd)
      cases ha : sh.word.isAwaiter with
      | true => simpa [ha, Loop.record, Shared.closeBy] using this
      | false => simpa [ha, Loop.record, Shared.closeBy] using this
  case handleCancel => exact absurd rfl hl
  case handleDropFirst =>
    cases h
    exact .dropFirst sh
  -- 完了して閉じられていなければ output を捨てに行き、そうでなければ HANDLE を下ろす
  case handleDrop =>
    unfold Loop.attemptHandleDrop at h
    split at h
    · next hd =>
      cases h
      rw [Bool.and_eq_true, Bool.not_eq_true'] at hd
      simp only [Loop.record, hd.1, hd.2]
      exact .dropClose sh hd.1 hd.2
    · next hd =>
      rw [Bool.and_eq_true, Bool.not_eq_true', not_and, Bool.not_eq_false] at hd
      cases h
      by_cases hr : sh.word.refcount = 0
      · cases hc : sh.word.isClosed with
        | false =>
          have hd' : sh.word.isCompleted = false := by
            cases hd' : sh.word.isCompleted with
            | false => rfl
            | true => rw [hd hd'] at hc; cases hc
          have := Effect.dropSchedule sh hd' hc hr
          simpa [Loop.record, Shared.closeBy, hr, hc] using this
        | true =>
          have := Effect.dropDestroy sh hc hr
          simpa [Loop.record, hr, hc] using this
      · have := Effect.dropLeave sh hd hr
        cases hc : sh.word.isClosed with
        | true => simpa [Loop.record, hr, hc] using this
        | false =>
          have hd' : sh.word.isCompleted = false := by
            cases hd' : sh.word.isCompleted with
            | false => rfl
            | true => rw [hd hd'] at hc; cases hc
          simpa [Loop.record, hr, hc, hd'] using this

/-- `exec` の一歩は、`ProcHandle::cancel` が閉じる一歩を除いて、`Effect` のどれかである。 -/
theorem exec_effect {a : Act R W} (he : exec sh a k = some (sh', new))
    (hno : a.cancels sh k = false) : Effect sh a sh' new := by
  cases a <;> simp only [exec] at he
  case attempt l s =>
    rcases exec_attempt he with ⟨hl, rfl⟩ | ⟨rfl, rfl⟩ | ⟨weak, w, hcas, rfl, hk, rfl⟩
    · exact leave_effect hl
    · exact .retry sh l s
    -- 通る compare-exchange のうち `ProcHandle::cancel` のものは、仮定が除く
    · refine cas_effect hcas ?_
      rintro rfl
      simp only [Loop.attempt, Loop.attemptHandleCancel] at hcas
      split at hcas
      · cases hcas
      · next hd =>
        cases hcas
        rw [dead_iff, not_or, Bool.not_eq_true, Bool.not_eq_true] at hd
        rw [Bool.true_and] at hk
        simp [Act.cancels, hd.1, hd.2, hk] at hno
  case polling s =>
    split at he
    · cases he
    · next hl =>
      have hl : sh.tickLoans = 0 := by omega
      cases k with
      | ready v => cases he; exact .pollReady sh v s hl
      | pending => cases he; exact .pollPending sh s hl
      | panic => cases he; exact .pollPanic sh s hl
      | go | spurious => cases he
  case decrement =>
    split at he
    · next hr => cases he; exact .underflow sh hr
    · next hr =>
      obtain ⟨n, hn⟩ := Nat.exists_eq_succ_of_ne_zero hr
      simp only [hn, Nat.succ_sub_one] at he
      by_cases hlast : n = 0 ∧ sh.word.isHandle = false
      · obtain ⟨rfl, hh⟩ := hlast
        simp only [State.isHandle] at he hh
        simp only [hh, beq_self_eq_true, Bool.not_false, Bool.and_self, if_true] at he
        cases he
        exact .decrementLast sh hn hh
      · have hd : ¬ ((n == 0 && !sh.word.flags.handle) = true) := by
          simpa [State.isHandle] using hlast
        simp only [State.isHandle, hd] at he
        cases he
        refine .decrement sh n hn (fun h0 => ?_)
        cases hh : sh.word.isHandle with
        | true => rfl
        | false => exact absurd ⟨h0, hh⟩ hlast
  case clone via =>
    split at he
    · next hr => cases he; exact .cloneAbort sh via hr
    · next hr => cases he; exact .clone sh via (Nat.le_of_not_lt hr)
  case lock u =>
    cases hl : sh.word.isLocked with
    | true => simp only [hl] at he; cases he; exact .lockDone sh u hl
    | false => simp only [hl] at he; cases he; exact .lockMore sh u hl
  case reload w =>
    split at he
    · next hc => cases he; exact .reloadClosed sh w hc
    · next hc =>
      rw [Bool.not_eq_true] at hc
      split at he
      · next hd => cases he; exact .reloadPending sh w hc (by simpa using hd)
      · next hd => cases he; exact .reloadAgain sh w hc (by simpa using hd)
  case pollTake w =>
    split at he
    · next v ho => cases he; exact .pollTake sh w v ho
    · next ho => cases he; exact .pollTakeNone sh w ho
  all_goals
    cases he
    constructor

end Exec

/-! ## 操作の始まり -/

/-- 操作の始まりで起こりうること。 -/
inductive Begin : Shared R W → Shared R W → List (Thread R W) → Prop where
  | pop (sh : Shared R W) (h : 0 < sh.queued) :
      Begin sh { sh with queued := sh.queued - 1, held := sh.held + 1 } []
  | schedule (sh : Shared R W) (h : 0 < sh.held) (hl : sh.procLoans = 0 ∨ 1 < sh.held) :
      Begin sh { sh with held := sh.held - 1 } [[.push]]
  | run (sh : Shared R W) (h : 0 < sh.held) (hl : sh.procLoans = 0 ∨ 1 < sh.held) :
      Begin sh { sh with held := sh.held - 1 } [[.load .tick]]
  | drop (sh : Shared R W) (h : 0 < sh.held) (hl : sh.procLoans = 0 ∨ 1 < sh.held) :
      Begin sh { sh with held := sh.held - 1 } [[.load (.cancel .drop)]]
  | cancel (sh : Shared R W) (h : 0 < sh.held) :
      Begin sh { sh with procLoans := sh.procLoans + 1 } [[.load (.cancel .call)]]
  | cloneWaker (sh : Shared R W) (h : 0 < sh.wakers) :
      Begin sh { sh with wakerLoans := sh.wakerLoans + 1 } [[.clone .waker]]
  | cloneTick (sh : Shared R W) (h : 0 < sh.polls) :
      Begin sh { sh with tickLoans := sh.tickLoans + 1 } [[.clone .tick]]
  | wake (sh : Shared R W) (h : 0 < sh.wakers) (hl : sh.wakerLoans = 0 ∨ 1 < sh.wakers) :
      Begin sh { sh with wakers := sh.wakers - 1 } [[.load .wake]]
  | refWaker (sh : Shared R W) (h : 0 < sh.wakers) :
      Begin sh { sh with wakerLoans := sh.wakerLoans + 1 } [[.load (.wakeByRef .waker)]]
  | refTick (sh : Shared R W) (h : 0 < sh.polls) :
      Begin sh { sh with tickLoans := sh.tickLoans + 1 } [[.load (.wakeByRef .tick)]]
  | dropWaker (sh : Shared R W) (h : 0 < sh.wakers) (hl : sh.wakerLoans = 0 ∨ 1 < sh.wakers) :
      Begin sh { sh with wakers := sh.wakers - 1 } [[.decrement]]
  | poll (sh : Shared R W) (w : W) (h : sh.handle = .shared 0) :
      Begin sh
        { sh with
          handle := .polled, woken := [], registered := none,
          expected := if sh.word.isCompleted && !sh.word.isClosed then sh.output else none }
        [[.load (.poll w)]]
  | cancelHandle (sh : Shared R W) (n : Nat) (h : sh.handle = .shared n) :
      Begin sh { sh with handle := .shared (n + 1) } [[.load .handleCancel]]
  | dropHandle (sh : Shared R W) (h : sh.handle = .shared 0) :
      Begin sh { sh with handle := .gone }
        [[.attempt .handleDropFirst ⟨SCHEDULED ||| HANDLE, 1⟩]]

theorem spare_iff {n loans : Nat} : spare n loans = true ↔ 0 < n ∧ (loans = 0 ∨ 1 < n) := by
  simp [spare]

theorem spawn_begin {sh sh' : Shared R W} {op : Op W} {ts : List (Thread R W)}
    (h : spawn sh op = some (sh', ts)) : Begin sh sh' ts := by
  cases op <;> simp only [spawn] at h
  case cancel =>
    simp only [Shared.lend, Option.map_eq_some_iff] at h
    obtain ⟨sh₁, hl, heq⟩ := h
    split at hl <;> cases hl
    next hh => cases heq; exact .cancel sh hh
  case clone via =>
    split at h <;> try cases h
    next hw =>
    rw [Option.map_eq_some_iff] at h
    obtain ⟨sh₁, hl, heq⟩ := h
    cases via with
    | waker =>
      simp only [Shared.lend] at hl
      split at hl <;> cases hl
      next hh => cases heq; exact .cloneWaker sh hh
    | tick =>
      simp only [Shared.lend] at hl
      split at hl <;> cases hl
      next hh => cases heq; exact .cloneTick sh hh
    | proc | handle => cases hw
  case wakeByRef via =>
    split at h <;> try cases h
    next hw =>
    rw [Option.map_eq_some_iff] at h
    obtain ⟨sh₁, hl, heq⟩ := h
    cases via with
    | waker =>
      simp only [Shared.lend] at hl
      split at hl <;> cases hl
      next hh => cases heq; exact .refWaker sh hh
    | tick =>
      simp only [Shared.lend] at hl
      split at hl <;> cases hl
      next hh => cases heq; exact .refTick sh hh
    | proc | handle => cases hw
  case cancelHandle =>
    simp only [Shared.lend, Option.map_eq_some_iff] at h
    obtain ⟨sh₁, hl, heq⟩ := h
    split at hl <;> cases hl
    next n hh => cases heq; exact .cancelHandle sh n hh
  case pop =>
    split at h <;> cases h
    next hh => exact .pop sh hh
  case schedule =>
    split at h <;> cases h
    next hh => exact .schedule sh (spare_iff.mp hh).1 (spare_iff.mp hh).2
  case run =>
    split at h <;> cases h
    next hh => exact .run sh (spare_iff.mp hh).1 (spare_iff.mp hh).2
  case drop =>
    split at h <;> cases h
    next hh => exact .drop sh (spare_iff.mp hh).1 (spare_iff.mp hh).2
  case wake =>
    split at h <;> cases h
    next hh => exact .wake sh (spare_iff.mp hh).1 (spare_iff.mp hh).2
  case dropWaker =>
    split at h <;> cases h
    next hh => exact .dropWaker sh (spare_iff.mp hh).1 (spare_iff.mp hh).2
  case poll w =>
    split at h <;> cases h
    next hh => exact .poll sh w hh
  case dropHandle =>
    split at h <;> cases h
    next hh => exact .dropHandle sh hh

end FabAccess.Lightproc
