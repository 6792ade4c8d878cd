import FabAccess.Lightproc.Phase
import FabAccess.Lightproc.Properties.RefCount

/-!
# 共通の不変条件

* `Phased` — 存在する `LightProc` と走っている `tick` は `Phase` に従う
* `Lending` — 借りている参照の数は合っていて、貸している元がある
* `Handled` — HANDLE は handle があることと一致し、poll は一度に一つである

`Core` はこれらに `Counted` を加えたもので、`Quiet` な実行の全体で成り立つ（`core_run`）。
-/

namespace FabAccess.Lightproc

open Infra System StateFlags

variable {R W : Type}

/-! ## 持ち物どうしの関係 -/

/-- どの仕事でも成り立つ、持ち物の大小。 -/
structure Tally.Fits (T : Tally) : Prop where
  procs : T.procs ≤ T.refs
  running : T.running ≤ T.procs
  polling : T.polling ≤ T.running
  completing : T.writing + T.completing ≤ T.running

/-- 持ち物の間の不等式は、和についても成り立つ。 -/
theorem Tally.Fits.add {S T : Tally} (hS : S.Fits) (hT : T.Fits) : (S + T).Fits := by
  obtain ⟨h1, h2, h3, h4⟩ := hS
  obtain ⟨k1, k2, k3, k4⟩ := hT
  refine ⟨?_, ?_, ?_, ?_⟩ <;> simp only [Tally.add_def] <;> omega

theorem Loan.fits (l : Loan) : l.tally.Fits := by
  cases l <;> constructor <;> decide

/-- どの loop の持ち物も、持ち物の間の不等式を満たす。 -/
theorem Loop.fits (l : Loop W) : l.tally.Fits := by
  cases l with
  | wakeByRef via => exact via.fits
  | cancel c => cases c <;> constructor <;> simp [Loop.tally]
  | _ => constructor <;> simp [Loop.tally]

theorem Use.fits (u : Use W) : u.tally.Fits := by
  cases u with
  | register w => constructor <;> simp [Use.tally]
  | notify n => cases n <;> constructor <;> simp [Use.tally, Notifier.tally, Tally.zero_def]
  | notifyUnless w e => cases e <;> constructor <;> simp [Use.tally]

/-- どの仕事の持ち物も、持ち物の間の不等式を満たす。 -/
theorem Act.fits (a : Act R W) : a.tally.Fits := by
  cases a with
  | load l => exact l.fits
  | attempt l s => exact l.fits
  | lock u => exact u.fits
  | replace u => exact u.fits
  | unlock u old => exact u.fits
  | clone via => exact via.fits
  | endLoan l => exact l.fits
  | _ => constructor <;> simp [Act.tally, Tally.zero_def]

/-- 進行中の仕事を合わせた持ち物も、その不等式を満たす。 -/
theorem fits_total (l : Pool R W) : (total Act.tally l).Fits := by
  induction l with
  | nil => constructor <;> simp [Tally.zero_def]
  | cons a l ih =>
    rw [total_cons]
    exact a.fits.add ih

/-! ## 局面 -/

def Phased (sh : Shared R W) (T : Tally) : Prop :=
  Phase sh.word.flags (sh.held + sh.queued + T.procs) T.running

section

variable [DecidableEq W] {sh sh' : Shared R W} {a : Act R W} {new : List (Act R W)} {C : Tally}

/-- 一歩は、word の flag と `LightProc` の居場所との対応を保つ。 -/
theorem phased_step (he : Effect sh a sh' new) (hs : a.Seen sh.word) (hC : C.Fits)
    (hlent : 0 < sh.procLoans → 0 < sh.held) (hloans : sh.procLoans = (a.tally + C).procLoans)
    (hcount : Counted sh (a.tally + C)) (h : Phased sh (a.tally + C)) :
    Phased sh' (total Act.tally new + C) := by
  have hrun := hC.running
  have hproc := hC.procs
  unfold Phased at h ⊢
  cases he
  case retry l s =>
    rw [total_cons, Act.tally, again_tally]
    exact h
  case cancelDead c s hd =>
    have hdead : sh.word.flags.completed = true ∨ sh.word.flags.closed = true := hd.imp hs.2 hs.1
    cases c with
    | call => exact h
    | drop =>
      simp only [Act.tally, Loop.tally, Tally.add_def, Nat.zero_add] at h
      have h' : Phase sh.word.flags (sh.held + sh.queued + C.procs + 1) C.running :=
        h.cast (by omega) rfl
      refine (h'.release hdead (by omega)).cast ?_ ?_ <;>
        simp [Loop.afterCancel, Act.tally, Tally.add_def, Tally.zero_def]
  case unlock u old =>
    simp only [Act.tally, total_finish] at h ⊢
    exact h.congr (by simp [State.fetchAnd, unlockMask_eq]) (by simp [State.fetchAnd, unlockMask_eq])
      (by simp [State.fetchAnd, unlockMask_eq]) (by simp [State.fetchAnd, unlockMask_eq])
  case lockMore u hl | lockDone u hl =>
    exact h.congr (by simp [State.fetchOr, lockMask_eq]) (by simp [State.fetchOr, lockMask_eq])
      (by simp [State.fetchOr, lockMask_eq]) (by simp [State.fetchOr, lockMask_eq])
  case endLoan l =>
    obtain ⟨_, _, _, _, hl⟩ := l.tally_eq
    obtain ⟨_, _, _, _, heq⟩ := Shared.endLoan_eq sh l
    simp only [Act.tally, hl, Tally.add_def, Nat.zero_add] at h
    rw [heq, total_nil, zero_add]
    exact h
  all_goals
    simp only [total_cons, total_append, total_nil, Tally.add_def, Tally.zero_def, Act.tally,
      Loop.tally, total_notifyIf_last, total_notifyIf_tick, total_cancelCall,
      total_pollClose, Use.tally, Notifier.tally, Loan.tally, Shared.touch, Nat.zero_add,
      Nat.add_zero, Shared.readOutput] at h hloans hcount ⊢
  -- 局面の移る歩には、`Phase` の同じ名前の移り方を当てる
  case tickClosed s hc =>
    have h' : Phase sh.word.flags (sh.held + sh.queued + C.procs + 1) C.running :=
      h.cast (by omega) rfl
    exact h'.release (Or.inr (hs.1 hc)) (by omega)
  -- 走っている間に閉じるのは `ProcHandle::cancel` だけなので、この先の三つは起こらない
  case guardClosed s hc =>
    have := h.closed (hs.1 hc)
    omega
  case readyClosed hh hc | pendClosed hc =>
    have := h.closed hc
    omega
  case tickRun hc => exact (h.start hc (by omega)).cast rfl (by omega)
  case readyKeep hh hc => exact (h.cast (by omega) (by omega)).complete
  case readyAbandon hh =>
    have h' : Phase (sh.word.flags ||| COMPLETED) (sh.held + sh.queued + C.procs) C.running :=
      (h.cast (by omega) (by omega)).complete
    exact h'.close_completed (by simp [COMPLETED])
  case pendAgain hc hsch => exact (h.cast rfl (by omega)).again hsch
  case pendIdle hc hsch => exact (h.cast (by omega) (by omega)).idle hsch
  case guardClose hc =>
    have hone := h.one
    exact (h.close (h.not_completed (by omega)) (by omega)).cast rfl (by omega)
  case wakeSchedule hd hc hsch hr =>
    exact (h.wake hc hd hsch hr).cast (by omega) rfl
  case refSchedule hd hc hsch hr =>
    exact (h.wake hc hd hsch hr).cast (by omega) rfl
  case wakeMark hd hc hsch hr | refMark hd hc hsch hr => exact h.mark hr
  -- `LightProc` を借りて閉じるので、その `LightProc` は走っていない
  case cancelCall hd hc =>
    have hone := h.one
    have := hlent (by omega)
    exact (h.close hd (by omega)).cast rfl (by omega)
  case cancelDrop hd hc =>
    have hone := h.one
    exact (h.close hd (by omega)).cast rfl (by omega)
  case pollClose w hc hd => exact h.close_completed hd
  case dropClose hd hc => exact h.close_completed hd
  case dropFirst =>
    simp only [Act.Seen] at hs
    rw [hs] at h
    exact h.congr rfl rfl rfl rfl
  -- 参照が 0 だから `LightProc` は一つも無く、新しい一つだけになる
  case dropSchedule hd hc hr =>
    have hzero : sh.held + sh.queued + C.refs = 0 := by
      simp only [Counted] at hcount
      omega
    refine (Phase.mk (q := 1) (r := 0) le_rfl (by omega) ?_ ?_ ?_ ?_).cast (by omega) (by omega) <;>
      simp [SCHEDULED, CLOSED]
  case dropDestroy | dropLeave =>
    exact h.congr (by simp [HANDLE]) (by simp [HANDLE]) (by simp [HANDLE]) (by simp [HANDLE])
  case unschedule =>
    have hc : sh.word.flags.closed = true := hs
    refine ⟨h.one, h.le, ?_, ?_, ?_, ?_⟩ <;> simp only [State.fetchAnd, and_closed, and_completed, hc]
    · simp [SCHEDULED]
    · simp [SCHEDULED]
    · simpa [SCHEDULED] using h.completed
    · intro _
      exact h.closed hc
  case push => exact h.cast (by omega) rfl
  all_goals exact h

end

/-- 操作の始まりも、その対応を保つ。 -/
theorem phased_begin {sh sh' : Shared R W} {ts : List (Thread R W)} {C : Tally}
    (hb : Begin sh sh' ts) (h : Phased sh C) : Phased sh' (total Act.tally ts.flatten + C) := by
  unfold Phased at h ⊢
  cases hb <;>
    simp only [List.flatten_cons, List.flatten_nil, List.append_nil, total_cons, total_nil,
      Tally.add_def, Tally.zero_def, Act.tally, Loop.tally, Loan.tally] <;>
    exact h.cast (by omega) (by omega)

/-! ## 借りている参照 -/

/-- 貸している元 `held`・`wakers`・`polls` と、借りている数、進行中の操作が持っている数。 -/
structure Loans (held wakers polls procs ws ticks : Nat) (T : Tally) : Prop where
  polling : polls = T.polling
  proc : procs = T.procLoans
  waker : ws = T.wakerLoans
  tick : ticks = T.tickLoans
  procHeld : 0 < procs → 0 < held
  wakerHeld : 0 < ws → 0 < wakers
  tickHeld : 0 < ticks → 0 < polls

def Lending (sh : Shared R W) (T : Tally) : Prop :=
  Loans sh.held sh.wakers sh.polls sh.procLoans sh.wakerLoans sh.tickLoans T

/-- 借りている参照の対応は、貸し借りの数だけで決まる。 -/
theorem Loans.congr {a b c d e f : Nat} {S T : Tally} (h : Loans a b c d e f S)
    (hp : T.polling = S.polling) (h1 : T.procLoans = S.procLoans)
    (h2 : T.wakerLoans = S.wakerLoans) (h3 : T.tickLoans = S.tickLoans) : Loans a b c d e f T := by
  refine ⟨?_, ?_, ?_, ?_, h.procHeld, h.wakerHeld, h.tickHeld⟩
  · rw [hp]; exact h.polling
  · rw [h1]; exact h.proc
  · rw [h2]; exact h.waker
  · rw [h3]; exact h.tick

section

variable [DecidableEq W] {sh sh' : Shared R W} {a : Act R W} {new : List (Act R W)} {C : Tally}

/-- 一歩は、貸した数と借りている仕事との対応を保つ。 -/
theorem lending_step (he : Effect sh a sh' new) (h : Lending sh (a.tally + C)) :
    Lending sh' (total Act.tally new + C) := by
  unfold Lending at h ⊢
  cases he
  case retry l s =>
    rw [total_cons, Act.tally, again_tally]
    exact h.congr rfl rfl rfl rfl
  case cancelDead c s hd => cases c <;> exact h.congr rfl rfl rfl rfl
  case endLoan l =>
    obtain ⟨h1, h2, h3, h4, h5, h6, h7⟩ := h
    cases l with
    | handle =>
      simp only [Act.tally, Loan.tally, Tally.add_def, Nat.zero_add] at h1 h2 h3 h4
      rw [total_nil, zero_add]
      simp only [Shared.endLoan]
      split <;> exact ⟨h1, h2, h3, h4, h5, h6, h7⟩
    | proc | waker | tick =>
      simp only [Act.tally, Loan.tally, Tally.add_def, Nat.zero_add] at h1 h2 h3 h4
      rw [total_nil, zero_add]
      simp only [Shared.endLoan]
      constructor <;> omega
  -- future の poll の始まりと終わり、waker の増える歩。ほかの歩は貸し借りを変えない
  case tickRun | pollReady | pollPending | pollPanic | clone =>
    obtain ⟨h1, h2, h3, h4, h5, h6, h7⟩ := h
    simp only [Tally.add_def, Act.tally, Loop.tally] at h1 h2 h3 h4
    constructor <;> simp only [total_cons, total_nil, Tally.add_def, Tally.zero_def, Act.tally,
      Loop.tally, Shared.touch] <;> omega
  all_goals
    refine h.congr ?_ ?_ ?_ ?_ <;>
      simp only [total_cons, total_append, total_nil, Tally.add_def, Tally.zero_def, Act.tally,
        Loop.tally, total_notifyIf_last, total_notifyIf_tick, total_cancelCall, total_finish,
        total_pollClose, Use.tally, Notifier.tally, Loan.tally, Nat.zero_add, Nat.add_zero]

end

/-- 操作の始まりも、その対応を保つ。 -/
theorem lending_begin {sh sh' : Shared R W} {ts : List (Thread R W)} {C : Tally}
    (hb : Begin sh sh' ts) (h : Lending sh C) : Lending sh' (total Act.tally ts.flatten + C) := by
  unfold Lending at h ⊢
  obtain ⟨h1, h2, h3, h4, h5, h6, h7⟩ := h
  cases hb
  all_goals
    dsimp only
    refine ⟨?_, ?_, ?_, ?_, by omega, by omega, by omega⟩ <;>
      simp only [List.flatten_cons, List.flatten_nil, List.append_nil, total_cons, total_nil,
        Tally.add_def, Tally.zero_def, Act.tally, Loop.tally, Loan.tally] <;>
      omega

/-! ## handle -/

namespace HandleUse

def alive : HandleUse → Nat
  | .gone => 0
  | .shared _ | .polled => 1

def polls : HandleUse → Nat
  | .polled => 1
  | .shared _ | .gone => 0

def loans : HandleUse → Nat
  | .shared n => n
  | .polled | .gone => 0

theorem eq_gone {u : HandleUse} (h : u.alive = 0) : u = .gone := by
  cases u <;> first | rfl | cases h

end HandleUse

/-- HANDLE と、handle の使われ方と、進行中の操作が持っている数。 -/
structure Handling (flag : Bool) (u : HandleUse) (T : Tally) : Prop where
  flag : flag.toNat = u.alive + T.drops
  polls : T.polls = u.polls
  loans : T.handleLoans = u.loans

def Handled (sh : Shared R W) (T : Tally) : Prop := Handling sh.word.isHandle sh.handle T

/-- handle を poll している仕事があれば、handle は poll に独占されている。 -/
theorem Handling.polled {b : Bool} {u : HandleUse} {T : Tally} (h : Handling b u T)
    (hT : 0 < T.polls) : u = .polled := by
  have hpolls := h.polls
  cases u with
  | polled => rfl
  | shared | gone =>
    simp only [HandleUse.polls] at hpolls
    omega

/-- handle の対応は、HANDLE と、handle を使う仕事の数だけで決まる。 -/
theorem Handling.congr {b b' : Bool} {u : HandleUse} {S T : Tally} (h : Handling b u S)
    (hb : b' = b) (h1 : T.drops = S.drops) (h2 : T.polls = S.polls)
    (h3 : T.handleLoans = S.handleLoans) : Handling b' u T := by
  refine ⟨?_, ?_, ?_⟩
  · rw [hb, h1]; exact h.flag
  · rw [h2]; exact h.polls
  · rw [h3]; exact h.loans

/-- handle を手放す一歩。 -/
theorem Handling.drop {b : Bool} {u : HandleUse} {S T : Tally} (h : Handling b u S)
    (h1 : S.drops = T.drops + 1) (h2 : T.polls = S.polls) (h3 : T.handleLoans = S.handleLoans) :
    Handling false u T := by
  refine ⟨?_, ?_, ?_⟩
  · have := h.flag
    have hle := Bool.toNat_le b
    simp only [Bool.toNat_false]
    omega
  · rw [h2]; exact h.polls
  · rw [h3]; exact h.loans

section

variable [DecidableEq W] {sh sh' : Shared R W} {a : Act R W} {new : List (Act R W)} {C : Tally}

/-- 一歩は、HANDLE と handle の使われ方との対応を保つ。 -/
theorem handled_step (he : Effect sh a sh' new) (h : Handled sh (a.tally + C)) :
    Handled sh' (total Act.tally new + C) := by
  unfold Handled at h ⊢
  cases he
  case retry l s =>
    rw [total_cons, Act.tally, again_tally]
    exact h.congr rfl rfl rfl rfl
  case cancelDead c s hd => cases c <;> exact h.congr rfl rfl rfl rfl
  case endLoan l =>
    rw [total_nil, zero_add]
    cases l with
    | handle =>
      obtain ⟨h1, h2, h3⟩ := h
      simp only [Act.tally, Loan.tally, Tally.add_def] at h1 h2 h3
      simp only [Shared.endLoan]
      cases hu : sh.handle with
      | shared n =>
        rw [hu] at h1 h2 h3
        simp only [HandleUse.alive, HandleUse.polls, HandleUse.loans] at h1 h2 h3
        constructor <;> simp only [HandleUse.alive, HandleUse.polls, HandleUse.loans] <;> omega
      | polled | gone =>
        rw [hu] at h3
        simp only [HandleUse.loans] at h3
        omega
    | proc | waker | tick =>
      refine h.congr rfl ?_ ?_ ?_ <;> simp only [Act.tally, Loan.tally, Tally.add_def, Nat.zero_add]
  -- poll が返り、handle は再び共有できる
  case pollDone w r =>
    rw [total_nil, zero_add]
    obtain ⟨h1, h2, h3⟩ := h
    simp only [Act.tally, Tally.add_def] at h1 h2 h3
    cases hu : sh.handle with
    | polled =>
      rw [hu] at h1 h2 h3
      simp only [HandleUse.alive, HandleUse.polls, HandleUse.loans] at h1 h2 h3
      constructor <;> simp only [HandleUse.alive, HandleUse.polls, HandleUse.loans] <;> omega
    | shared | gone =>
      rw [hu] at h2
      simp only [HandleUse.polls] at h2
      omega
  -- HANDLE が下りるのは handle の drop が終わる歩だけである
  case dropFirst | dropSchedule | dropDestroy | dropLeave =>
    refine Handling.congr (h.drop (T := C) ?_ ?_ ?_) ?_ ?_ ?_ ?_ <;>
      simp only [total_cons, total_nil, Tally.add_def, Tally.zero_def, Act.tally, Loop.tally,
        State.isHandle, and_handle, or_handle, not_handle, HANDLE, SCHEDULED, CLOSED] <;>
      first | omega | simp
  case lockMore | lockDone =>
    exact h.congr (by simp [State.isHandle, State.fetchOr, lockMask_eq]) rfl rfl rfl
  case unlock u old =>
    rw [total_finish]
    exact h.congr (by simp [State.isHandle, State.fetchAnd, unlockMask_eq]) rfl rfl rfl
  all_goals
    refine h.congr ?_ ?_ ?_ ?_ <;>
      simp only [total_cons, total_append, total_nil, Tally.add_def, Tally.zero_def, Act.tally,
        Loop.tally, total_notifyIf_last, total_notifyIf_tick, total_cancelCall,
        total_pollClose, Use.tally, Notifier.tally, Loan.tally, Nat.zero_add, Nat.add_zero,
        State.isHandle, State.fetchAnd, and_handle, or_handle, not_handle, SCHEDULED, RUNNING,
        CLOSED, COMPLETED, Shared.touch, Shared.readOutput, Bool.not_false, Bool.and_true,
        Bool.or_false]

end

/-- 操作の始まりも、その対応を保つ。 -/
theorem handled_begin {sh sh' : Shared R W} {ts : List (Thread R W)} {C : Tally}
    (hb : Begin sh sh' ts) (h : Handled sh C) : Handled sh' (total Act.tally ts.flatten + C) := by
  unfold Handled at h ⊢
  obtain ⟨h1, h2, h3⟩ := h
  cases hb
  case poll w hu | dropHandle hu | cancelHandle n hu =>
    rw [hu] at h1 h2 h3
    refine ⟨?_, ?_, ?_⟩ <;>
      simp only [HandleUse.alive, HandleUse.polls, HandleUse.loans, List.flatten_cons,
        List.flatten_nil, List.append_nil, total_cons, total_nil, Tally.add_def, Tally.zero_def,
        Act.tally, Loop.tally] at h1 h2 h3 ⊢ <;>
      omega
  all_goals
    refine ⟨?_, ?_, ?_⟩ <;>
      simp only [List.flatten_cons, List.flatten_nil, List.append_nil, total_cons, total_nil,
        Tally.add_def, Tally.zero_def, Act.tally, Loop.tally, Loan.tally] <;>
      omega

/-! ## poll の進み方 -/

section

variable [DecidableEq W] {sh sh' : Shared R W} {a : Act R W} {new : List (Act R W)} {C : Tally}

/-- 一歩で、handle を poll する仕事は増えない。 -/
theorem polls_step (he : Effect sh a sh' new) : (total Act.tally new).polls ≤ a.tally.polls := by
  cases he
  case retry l s =>
    rw [total_cons, Act.tally, again_tally]
    exact le_rfl
  case cancelDead c s hd => cases c <;> exact le_rfl
  case unlock u old =>
    rw [total_finish]
    exact le_rfl
  all_goals
    simp [total_cons, total_append, total_nil, Tally.add_def, Tally.zero_def, Act.tally,
      Loop.tally, Use.tally, Notifier.tally, Loan.tally]

/-- handle を poll しない仕事から、poll する仕事は積まれない。 -/
theorem polls_of_mem_new (he : Effect sh a sh' new) (ha : a.tally.polls = 0) {b : Act R W}
    (hb : b ∈ new) : b.tally.polls = 0 := by
  have hle := polls_step he
  have hmem := le_total_of_mem Tally.polls (fun _ _ => rfl) hb
  omega

/-- handle が poll に独占されているなら、一歩の前からそうである。 -/
theorem effect_polled_handle (he : Effect sh a sh' new) (h : sh'.handle = .polled) :
    sh.handle = .polled := by
  cases he
  case pollDone => cases h
  case endLoan l =>
    cases l with
    | handle =>
      simp only [Shared.endLoan] at h
      split at h
      · cases h
      · exact h
    | proc | waker | tick => exact h
  all_goals exact h

/-- 手放された handle は戻らない。 -/
theorem effect_gone (he : Effect sh a sh' new) (hh : Handled sh (a.tally + C))
    (hg : sh.handle = .gone) : sh'.handle = .gone := by
  cases he
  case pollDone w r =>
    have := hh.polls
    rw [hg] at this
    simp only [Act.tally, Tally.add_def, HandleUse.polls] at this
    omega
  case endLoan l => cases l <;> simp [Shared.endLoan, hg]
  all_goals exact hg

/-- poll の記録が増えるのは poll の終わりだけである。 -/
theorem effect_polled (he : Effect sh a sh' new) :
    sh'.polled = sh.polled ∨ ∃ w r, a = .pollDone w r ∧ new = [] ∧
      sh' = { sh with handle := .shared 0, polled := sh.polled ++ [⟨w, sh.expected, r⟩] } := by
  cases he
  case pollDone w r => exact Or.inr ⟨w, r, rfl, rfl, rfl⟩
  case endLoan l =>
    obtain ⟨_, _, _, _, heq⟩ := Shared.endLoan_eq sh l
    rw [heq]
    exact Or.inl rfl
  all_goals exact Or.inl rfl

/-- 取り出せるはずだった output の記録は、poll が始まるときにだけ変わる。 -/
theorem effect_expected (he : Effect sh a sh' new) : sh'.expected = sh.expected := by
  cases he
  case endLoan l =>
    obtain ⟨_, _, _, _, heq⟩ := Shared.endLoan_eq sh l
    rw [heq]
  all_goals rfl

end

/-! ## まとめ -/

structure Core (sh : Shared R W) (T : Tally) : Prop where
  counted : Counted sh T
  phased : Phased sh T
  lending : Lending sh T
  handled : Handled sh T

/-- 作られた直後は、どの対応も成り立つ。 -/
theorem core_init : Core (Shared.init : Shared R W) 0 := by
  refine ⟨rfl, ?_, ?_, ?_⟩
  · refine ⟨?_, ?_, ?_, ?_, ?_, ?_⟩ <;>
      simp [Shared.init, Tally.zero_def, SCHEDULED, HANDLE]
  · refine ⟨?_, ?_, ?_, ?_, ?_, ?_, ?_⟩ <;> simp [Shared.init, Tally.zero_def]
  · refine ⟨?_, ?_, ?_⟩ <;>
      simp [Shared.init, Tally.zero_def, HandleUse.alive, HandleUse.polls, HandleUse.loans,
        State.isHandle, HANDLE]

/-- 操作の始まりは、四つの対応を合わせて保つ。 -/
theorem core_begin {sh sh' : Shared R W} {ts : List (Thread R W)} {C : Tally}
    (hb : Begin sh sh' ts) (h : Core sh C) : Core sh' (total Act.tally ts.flatten + C) :=
  ⟨counted_begin hb h.counted, phased_begin hb h.phased, lending_begin hb h.lending,
    handled_begin hb h.handled⟩

/-- 一歩は、四つの対応を合わせて保つ。 -/
theorem core_step [DecidableEq W] {sh sh' : Shared R W} {a : Act R W} {new : List (Act R W)}
    {C : Tally} (he : Effect sh a sh' new) (hs : a.Seen sh.word) (hC : C.Fits)
    (h : Core sh (a.tally + C)) : Core sh' (total Act.tally new + C) :=
  ⟨counted_step he hs h.counted,
    phased_step he hs hC h.lending.procHeld h.lending.proc h.counted h.phased,
    lending_step he h.lending, handled_step he h.handled⟩

/-- poll の仕事があれば、handle は poll の途中である。 -/
theorem Core.polled_of_mem {sh : Shared R W} {l : Pool R W} {b : Act R W}
    (h : Core sh (total Act.tally l)) (hb : b ∈ l) (hpos : 0 < b.tally.polls) :
    sh.handle = .polled := by
  have hle := le_total_of_mem Tally.polls (fun _ _ => rfl) hb
  exact h.handled.polled (by omega)

/-- poll は `ProcHandle` を独占するので、その仕事は一つだけである。 -/
theorem Core.polls_alone {sh : Shared R W} {l : Pool R W} {a b : Act R W}
    (h : Core sh (total Act.tally (a :: l))) (ha : 0 < a.tally.polls) (hb : b ∈ l) :
    b.tally.polls = 0 := by
  have hle := le_total_of_mem Tally.polls (fun _ _ => rfl) hb
  have hpolls := h.handled.polls
  rw [h.polled_of_mem List.mem_cons_self ha, total_cons] at hpolls
  simp only [Tally.add_def, HandleUse.polls] at hpolls
  omega

/-! ## `Core` の上に積む不変条件 -/

/-- `Core` と、手元の word が古いだけであることと、`motive`。 -/
structure CoreWith (motive : Shared R W → List (Thread R W) → Prop) (sh : Shared R W)
    (l : List (Thread R W)) : Prop where
  seen : ∀ b ∈ l.flatten, b.Seen sh.word
  core : Core sh (total Act.tally l.flatten)
  inv : motive sh l

section CoreWith

variable [DecidableEq W] {motive : Shared R W → List (Thread R W) → Prop}
  {ok ok' : Config (Shared R W) (Thread R W) → Move (Op W) (Choice R) → Prop}
  (hok : ∀ c m, ok c m → Quiet c m) (hsymm : Symm motive)
  (hbegin : ∀ sh sh' ts l, Begin sh sh' ts → CoreWith motive sh l → motive sh' (ts ++ l))
  (hstep : ∀ c n k a r sh' new rest, acting c (.exec n k) = some (a, k) →
    c.threads.Perm ((a :: r) :: rest) → ok c (.exec n k) → Effect c.shared a sh' new →
    CoreWith motive c.shared ((a :: r) :: rest) → motive sh' ((new ++ r) :: rest))

include hsymm in

omit [DecidableEq W] in
/-- 不変条件は、進行中の操作の並び順によらない。 -/
theorem coreWith_symm : Symm (CoreWith motive) := by
  intro sh l l' hp h
  refine ⟨fun b hb => h.seen b (hp.flatten.mem_iff.mpr hb), ?_, hsymm sh l l' hp h.inv⟩
  rw [← total_perm _ hp.flatten]
  exact h.core

include hbegin in

/-- 上乗せの条件を始まりが保てば、`spawn` は全体を保つ。 -/
theorem coreWith_spawn {sh sh' : Shared R W} {l ts : List (Thread R W)} {op : Op W}
    (hs : (proc R W).spawn sh op = some (sh', ts)) (h : CoreWith motive sh l) :
    CoreWith motive sh' (ts ++ l) := by
  have hb := spawn_begin (spawn_eq_some hs).2
  obtain ⟨hw, hts⟩ := seen_begin hb
  refine ⟨fun b hmem => ?_, ?_, hbegin sh sh' ts l hb h⟩
  · rw [List.flatten_append, List.mem_append] at hmem
    rcases hmem with hmem | hmem
    · exact hts b hmem
    · rw [hw]
      exact h.seen b hmem
  · rw [List.flatten_append, total_append]
    exact core_begin hb h.core

include hok hstep in

/-- 上乗せの条件を一歩が保てば、`next` は全体を保つ。 -/
theorem coreWith_next {c : Config (Shared R W) (Thread R W)} {n : Nat} {t t' : Thread R W}
    {k : Choice R} {sh' : Shared R W} {rest : List (Thread R W)} (hget : c.threads[n]? = some t)
    (hperm : c.threads.Perm (t :: rest)) (hn : next c.shared t k = some (sh', t'))
    (hm : ok c (.exec n k)) (h : CoreWith motive c.shared (t :: rest)) :
    CoreWith motive sh' (t' :: rest) := by
  obtain ⟨a, r, new, rfl, _, he, rfl⟩ := next_eq_some hn
  have hact : acting c (.exec n k) = some (a, k) := by simp [acting, hget]
  have heff := exec_effect he (hok c _ hm (a, k) hact)
  have hseen := h.seen
  have hcore := h.core
  rw [List.flatten_cons, List.cons_append] at hseen hcore
  have ha : a.Seen c.shared.word := hseen a (by simp)
  refine ⟨fun b hb => ?_, ?_, hstep c n k a r sh' new rest hact hperm hm heff h⟩
  · rw [List.flatten_cons, List.append_assoc, List.mem_append] at hb
    rcases hb with hb | hb
    · exact seen_step heff ha b hb
    · exact (hseen b (List.mem_cons_of_mem _ hb)).mono (effect_le heff ha)
  · rw [List.flatten_cons, List.append_assoc, total_append]
    rw [total_cons] at hcore
    exact core_step heff ha (fits_total _) hcore

include hok hsymm hbegin hstep

/-- 始まりと一歩が保つ `motive` は、条件 `ok` を守る実行の全体で成り立つ。 -/
theorem run_coreWith {c : Config (Shared R W) (Thread R W)} {ms : List (Move (Op W) (Choice R))}
    (hrun : (proc R W).run ⟨Shared.init, []⟩ ms = some c)
    (hobeys : (proc R W).Obeys ok ⟨Shared.init, []⟩ ms) (hinit : motive Shared.init []) :
    CoreWith motive c.shared c.threads :=
  run_invariant_of_obeys (coreWith_symm hsymm)
    (fun _ _ _ _ _ hs _ h => coreWith_spawn hbegin hs h)
    (fun _ _ _ _ _ _ _ hget hperm hn hm h => coreWith_next hok hstep hget hperm hn hm h)
    hrun hobeys ⟨by simp, core_init, hinit⟩

/-- 同じ実行は、`motive` の下で `ok` から出る条件 `ok'` も守る。 -/
theorem obeys_coreWith {ms : List (Move (Op W) (Choice R))}
    (himp : ∀ c m, CoreWith motive c.shared c.threads → ok c m → ok' c m)
    (hobeys : (proc R W).Obeys ok ⟨Shared.init, []⟩ ms) (hinit : motive Shared.init []) :
    (proc R W).Obeys ok' ⟨Shared.init, []⟩ ms :=
  Obeys.of_invariant (coreWith_symm hsymm)
    (fun _ _ _ _ _ hs _ h => coreWith_spawn hbegin hs h)
    (fun _ _ _ _ _ _ _ hget hperm hn hm h => coreWith_next hok hstep hget hperm hn hm h)
    himp hobeys ⟨by simp, core_init, hinit⟩

end CoreWith

/-- `ProcHandle::cancel` が閉じることの無いどの実行でも、四つの対応は成り立つ。 -/
theorem core_run [DecidableEq W] {c : Config (Shared R W) (Thread R W)}
    {ms : List (Move (Op W) (Choice R))} (hrun : (proc R W).run ⟨Shared.init, []⟩ ms = some c)
    (hquiet : (proc R W).Obeys Quiet ⟨Shared.init, []⟩ ms) :
    Core c.shared (total Act.tally c.threads.flatten) :=
  (run_coreWith (motive := fun _ _ => True) (fun _ _ h => h) (fun _ _ _ _ _ => trivial)
    (fun _ _ _ _ _ _ => trivial) (fun _ _ _ _ _ _ _ _ _ _ _ _ _ => trivial) hrun hquiet trivial).core

end FabAccess.Lightproc
