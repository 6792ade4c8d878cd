import FabAccess.Lightproc.Core

/-!
# future と output の持ち主

future と output は proc の memory の同じ場所にあり、誰が捨てるかは、どの compare-exchange が先に
通ったかで決まる。

* `FutureKept` — future は、休んでいる proc の中にあるか、誰かがそれを捨てる義務を負っているか、
  もう捨てられたかのどれか一つである。`LightProc` を持つものは、その義務も持つ
* `OutputKept` — output は、完了したが閉じられていない proc の中か、それを取り出す仕事の側にある
-/

namespace FabAccess.Lightproc

open Infra System StateFlags

variable {R W : Type}

/-! ## future -/

/-- 生きていて、SCHEDULED も RUNNING も立っていない。 -/
def StateFlags.idle (f : StateFlags) : Bool := !(f.closed || f.completed || f.scheduled || f.running)

def FutureKept (sh : Shared R W) (T : Tally) : Prop :=
  sh.futureDrops + sh.held + sh.queued + T.duty + sh.word.flags.idle.toNat = 1

theorem Phase.not_idle {f : StateFlags} {q r : Nat} (h : Phase f q r) (hq : 0 < q) :
    f.idle = false := by
  cases hc : f.closed with
  | true => simp [StateFlags.idle, hc]
  | false =>
    have hd := h.not_completed hq
    have hs := h.scheduled hc hd
    cases hsr : (f.scheduled || f.running) with
    | true => simp only [StateFlags.idle, hc, hd, Bool.false_or, hsr, Bool.not_true]
    | false =>
      rw [hsr] at hs
      simp only [Bool.toNat_false] at hs
      omega

section

variable [DecidableEq W] {sh sh' : Shared R W} {a : Act R W} {new : List (Act R W)} {C : Tally}

theorem futureKept_step (he : Effect sh a sh' new) (hs : a.Seen sh.word) (hC : C.Fits)
    (hcore : Core sh (a.tally + C)) (h : FutureKept sh (a.tally + C)) :
    FutureKept sh' (total Act.tally new + C) := by
  have hphase : Phase sh.word.flags _ _ := hcore.phased
  unfold FutureKept at h ⊢
  cases he
  case retry l s =>
    rw [total_cons, Act.tally, again_tally]
    exact h
  case cancelDead c s hd => cases c <;> exact h
  case unlock u old =>
    rw [total_finish]
    simpa [StateFlags.idle, State.fetchAnd, unlockMask_eq, Shared.touch, Act.tally] using h
  case lockMore u hl | lockDone u hl =>
    simpa [StateFlags.idle, State.fetchOr, lockMask_eq, Shared.touch, Act.tally] using h
  case endLoan l =>
    obtain ⟨_, _, _, _, hl⟩ := l.tally_eq
    obtain ⟨_, _, _, _, heq⟩ := Shared.endLoan_eq sh l
    simp only [Act.tally, hl, Tally.add_def, Nat.zero_add] at h
    rw [heq, total_nil, zero_add]
    exact h
  all_goals
    simp only [total_cons, total_append, total_nil, Tally.add_def, Tally.zero_def, Act.tally,
      Loop.tally, total_notifyIf_last, total_notifyIf_tick, total_cancelCall, total_pollClose,
      Use.tally, Notifier.tally, Loan.tally, Shared.touch, Nat.zero_add, Nat.add_zero,
      Shared.readOutput] at h hphase ⊢
  -- ここから、式の項の間で一つ移る歩。`LightProc` を持つ側は idle でない
  case tickRun hc =>
    rw [hphase.not_idle (by omega)] at h
    simpa [StateFlags.idle, RUNNING] using h
  case readyKeep | readyAbandon | readyClosed =>
    rw [hphase.not_idle (by omega)] at h
    simpa [StateFlags.idle, COMPLETED] using h
  case pendClosed hc =>
    have := hphase.closed hc
    omega
  case pendAgain hc hsch =>
    rw [hphase.not_idle (by omega)] at h
    have hsch' : sh.word.flags.scheduled = true := hsch
    simpa [StateFlags.idle, RUNNING, hsch'] using h
  -- `LightProc` を手放し、future の責任は word の側（idle）に移る
  case pendIdle hc hsch =>
    have hd := hphase.not_completed (by omega)
    have hc' : sh.word.flags.closed = false := hc
    have hsch' : sh.word.flags.scheduled = false := hsch
    rw [hphase.not_idle (by omega)] at h
    simp only [StateFlags.idle, and_closed, and_completed, and_scheduled, and_running, not_closed,
      not_completed, not_scheduled, not_running, RUNNING, hc', hd, hsch', Bool.not_true,
      Bool.and_false, Bool.false_and, Bool.or_self, Bool.not_false, Bool.toNat_true]
    simp only [Bool.toNat_false] at h
    omega
  case guardClose | cancelDrop =>
    rw [hphase.not_idle (by omega)] at h
    simpa [StateFlags.idle, CLOSED] using h
  -- 借りられている間は持ち主が `LightProc` を持ち続けている
  case cancelCall =>
    have hheld := hcore.lending.procHeld
    have hloan := hcore.lending.proc
    simp only [Tally.add_def, Act.tally, Loop.tally] at hloan
    have hpos := hheld (by omega)
    rw [hphase.not_idle (by omega)] at h
    simpa [StateFlags.idle, CLOSED] using h
  case wakeSchedule hd hc hsch hr | refSchedule hd hc hsch hr =>
    have hidle : sh.word.flags.idle = true := by
      simp only [State.isClosed, State.isCompleted, State.isScheduled, State.isRunning] at hc hd hsch hr
      simp [StateFlags.idle, hc, hd, hsch, hr]
    rw [hidle] at h
    simp only [StateFlags.idle, or_scheduled, SCHEDULED, Bool.or_true, Bool.true_or, Bool.not_true,
      Bool.toNat_true, Bool.toNat_false] at h ⊢
    omega
  case wakeMark hd hc hsch hr | refMark hd hc hsch hr =>
    have hr' : sh.word.flags.running = true := hr
    simpa [StateFlags.idle, hr'] using h
  case pollClose hc hd | dropClose hd hc =>
    have hd' : sh.word.flags.completed = true := hd
    simpa [StateFlags.idle, hd'] using h
  case dropFirst =>
    simp only [Act.Seen] at hs
    rw [hs] at h
    exact h
  -- 参照が 0 なら `LightProc` も無いので idle であり、新しく queue に入る一つに責任が移る
  case dropSchedule hd hc hr =>
    have hcount := hcore.counted
    simp only [Counted, Tally.add_def, Act.tally, Loop.tally, Nat.zero_add] at hcount
    have hq := hphase.scheduled hc hd
    have hprocs := hC.procs
    have hsr : (sh.word.flags.scheduled || sh.word.flags.running) = false := by
      cases hsr : (sh.word.flags.scheduled || sh.word.flags.running) with
      | false => rfl
      | true =>
        rw [hsr, Bool.toNat_true] at hq
        omega
    have hidle : sh.word.flags.idle = true := by
      rw [StateFlags.idle, show sh.word.flags.closed = false from hc,
        show sh.word.flags.completed = false from hd, Bool.false_or, Bool.false_or, hsr]
      rfl
    rw [hidle] at h
    simp only [StateFlags.idle, or_closed, CLOSED, Bool.or_true, Bool.true_or, Bool.not_true,
      Bool.toNat_true, Bool.toNat_false] at h ⊢
    omega
  case dropDestroy | dropLeave => simpa [StateFlags.idle, HANDLE] using h
  case unschedule =>
    have hc : sh.word.flags.closed = true := hs
    simpa [StateFlags.idle, State.fetchAnd, SCHEDULED, hc] using h
  all_goals omega

end

theorem futureKept_begin {sh sh' : Shared R W} {ts : List (Thread R W)} {C : Tally}
    (hb : Begin sh sh' ts) (h : FutureKept sh C) :
    FutureKept sh' (total Act.tally ts.flatten + C) := by
  unfold FutureKept at h ⊢
  cases hb <;>
    simp only [List.flatten_cons, List.flatten_nil, List.append_nil, total_cons, total_nil,
      Tally.add_def, Tally.zero_def, Act.tally, Loop.tally, Loan.tally] at h ⊢ <;>
    omega

/-! ## output -/

structure OutputKept (sh : Shared R W) (T : Tally) : Prop where
  slot : sh.output.isSome.toNat =
    T.outputs + (sh.word.isCompleted && !sh.word.isClosed).toNat
  reads : sh.outputWrites = sh.outputReads + sh.output.isSome.toNat
  writes : sh.outputWrites = T.completing + sh.word.isCompleted.toNat
  readies : sh.readies.length = sh.outputWrites + T.writing
  good : sh.badRead = false
  handle : sh.word.isCompleted = true → sh.word.isClosed = false → sh.word.isHandle = true

theorem outputKept_init : OutputKept (Shared.init : Shared R W) 0 := by
  refine ⟨rfl, rfl, rfl, rfl, rfl, fun h => ?_⟩
  cases h

theorem OutputKept.congr {sh sh' : Shared R W} {S T : Tally} (h : OutputKept sh S)
    (ho : sh'.output = sh.output ∧ sh'.outputWrites = sh.outputWrites ∧
      sh'.outputReads = sh.outputReads ∧ sh'.badRead = sh.badRead ∧ sh'.readies = sh.readies)
    (hd : sh'.word.isCompleted = sh.word.isCompleted)
    (hc : (sh.word.isCompleted && !sh'.word.isClosed) = (sh.word.isCompleted && !sh.word.isClosed))
    (hh : sh.word.isCompleted = true → sh'.word.isClosed = false → sh.word.isHandle = true →
      sh'.word.isHandle = true)
    (h1 : T.outputs = S.outputs) (h2 : T.completing = S.completing)
    (h3 : T.writing = S.writing) : OutputKept sh' T := by
  obtain ⟨ho1, ho2, ho3, ho4, ho5⟩ := ho
  refine ⟨?_, ?_, ?_, ?_, ?_, ?_⟩
  · rw [ho1, hd, hc, h1]; exact h.slot
  · rw [ho1, ho2, ho3]; exact h.reads
  · rw [ho2, hd, h2]; exact h.writes
  · rw [ho2, ho5, h3]; exact h.readies
  · rw [ho4]; exact h.good
  · rw [hd]
    intro hd' hc'
    refine hh hd' hc' (h.handle hd' ?_)
    rw [hd', hc'] at hc
    simpa using hc.symm

/-- 取り出す側が output を読む。読んだ後の置き場は空である。 -/
theorem OutputKept.read {sh : Shared R W} {S T : Tally} (h : OutputKept sh S)
    (h1 : S.outputs = 1 + T.outputs) (h2 : T.completing = S.completing)
    (h3 : T.writing = S.writing) : OutputKept sh.readOutput T := by
  obtain ⟨hslot, hreads, hwrites, hready, hgood, hhandle⟩ := h
  have hle := Bool.toNat_le sh.output.isSome
  have hsome : sh.output.isSome = true := by
    cases ho : sh.output.isSome with
    | true => rfl
    | false =>
      rw [ho, Bool.toNat_false] at hslot
      omega
  rw [hsome] at hslot hreads hle
  simp only [Bool.toNat_true] at hslot hreads hle
  refine ⟨?_, ?_, ?_, ?_, ?_, hhandle⟩
  · simp only [Shared.readOutput, Shared.touch, Option.isSome_none, Bool.toNat_false]
    omega
  · simp only [Shared.readOutput, Shared.touch, Option.isSome_none, Bool.toNat_false]
    omega
  · rw [h2]
    exact hwrites
  · rw [h3]
    exact hready
  · simp only [Shared.readOutput, hgood, Bool.false_or, Option.isNone_eq_false_iff]
    exact hsome

section

variable [DecidableEq W] {sh sh' : Shared R W} {a : Act R W} {new : List (Act R W)} {C : Tally}

theorem outputKept_step (he : Effect sh a sh' new) (hs : a.Seen sh.word) (hC : C.Fits)
    (hcore : Core sh (a.tally + C)) (h : OutputKept sh (a.tally + C)) :
    OutputKept sh' (total Act.tally new + C) := by
  have hphase : Phase sh.word.flags _ _ := hcore.phased
  cases he
  case retry l s =>
    rw [total_cons, Act.tally, again_tally]
    exact h.congr ⟨rfl, rfl, rfl, rfl, rfl⟩ rfl rfl (fun _ _ hh => hh) rfl rfl rfl
  case cancelDead c s hd =>
    cases c <;> exact h.congr ⟨rfl, rfl, rfl, rfl, rfl⟩ rfl rfl (fun _ _ hh => hh) rfl rfl rfl
  case endLoan l =>
    obtain ⟨_, _, _, _, hl⟩ := l.tally_eq
    obtain ⟨_, _, _, _, heq⟩ := Shared.endLoan_eq sh l
    rw [heq, total_nil, zero_add]
    refine h.congr ⟨rfl, rfl, rfl, rfl, rfl⟩ rfl rfl (fun _ _ hh => hh) ?_ ?_ ?_ <;>
      simp only [Act.tally, hl, Tally.add_def, Nat.zero_add]
  case unlock u old =>
    rw [total_finish]
    refine h.congr ⟨rfl, rfl, rfl, rfl, rfl⟩ ?_ ?_ ?_ rfl rfl rfl <;>
      simp [State.isCompleted, State.isClosed, State.isHandle, State.fetchAnd, unlockMask_eq]
  case lockMore u hl | lockDone u hl =>
    refine h.congr ⟨rfl, rfl, rfl, rfl, rfl⟩ ?_ ?_ ?_ rfl rfl rfl <;>
      simp [State.isCompleted, State.isClosed, State.isHandle, State.fetchOr, lockMask_eq]
  case dropFirst =>
    simp only [Act.Seen] at hs
    refine h.congr ⟨rfl, rfl, rfl, rfl, rfl⟩ ?_ ?_ ?_ rfl rfl rfl <;>
      simp [hs, State.isCompleted, State.isClosed, SCHEDULED, HANDLE]
  case unschedule =>
    refine h.congr ⟨rfl, rfl, rfl, rfl, rfl⟩ ?_ ?_ ?_ rfl rfl rfl <;>
      simp [State.isCompleted, State.isClosed, State.isHandle, State.fetchAnd, SCHEDULED]
  case dropLeave hd hr =>
    refine h.congr ⟨rfl, rfl, rfl, rfl, rfl⟩ ?_ ?_ ?_ rfl rfl rfl <;>
      simp [State.isCompleted, State.isClosed, HANDLE]
    simp_all [State.isCompleted, State.isClosed]
  all_goals
    simp only [total_cons, total_append, total_nil, Tally.add_def, Tally.zero_def, Act.tally,
      Loop.tally, total_notifyIf_last, total_notifyIf_tick, total_cancelCall, total_pollClose,
      Use.tally, Notifier.tally, Loan.tally, Shared.touch, Nat.zero_add, Nat.add_zero] at h hphase ⊢
  -- 完了する歩。書かれた output は、handle があれば置き場に残り、無ければ取り出す仕事が積まれる
  case readyKeep hh hc =>
    have hd : sh.word.isCompleted = false := hphase.not_completed (by omega)
    obtain ⟨h1, h2, h3, h4, h5, h6⟩ := h
    rw [hd] at h1 h3
    refine ⟨?_, h2, ?_, h4, h5, ?_⟩ <;>
      simp_all [State.isCompleted, State.isClosed, State.isHandle, COMPLETED] <;> omega
  case readyAbandon hh =>
    have hd : sh.word.isCompleted = false := hphase.not_completed (by omega)
    obtain ⟨h1, h2, h3, h4, h5, h6⟩ := h
    rw [hd] at h1 h3
    refine ⟨?_, h2, ?_, h4, h5, ?_⟩ <;>
      simp_all [State.isCompleted, State.isClosed, COMPLETED, CLOSED]
    omega
  case readyClosed hh hc =>
    have := hphase.closed hc
    omega
  case guardClose hc | cancelDrop hd hc =>
    have hd : sh.word.flags.completed = false := hphase.not_completed (by omega)
    refine h.congr ⟨rfl, rfl, rfl, rfl, rfl⟩ ?_ ?_ ?_ rfl rfl rfl <;>
      simp [State.isCompleted, State.isClosed, CLOSED, hd]
  case cancelCall hd hc =>
    simp only [State.isCompleted] at hd
    refine h.congr ⟨rfl, rfl, rfl, rfl, rfl⟩ ?_ ?_ ?_ rfl rfl rfl <;>
      simp [State.isCompleted, State.isClosed, CLOSED, hd]
  case pollClose w hc hd | dropClose hd hc =>
    obtain ⟨h1, h2, h3, h4, h5, h6⟩ := h
    refine ⟨?_, h2, ?_, h4, h5, ?_⟩ <;>
      simp_all [State.isCompleted, State.isClosed, CLOSED]
    omega
  case dropSchedule hd hc hr =>
    refine h.congr ⟨rfl, rfl, rfl, rfl, rfl⟩ ?_ ?_ ?_ rfl rfl rfl <;>
      simp_all [State.isCompleted, State.isClosed, SCHEDULED, CLOSED]
  case dropDestroy hc hr =>
    refine h.congr ⟨rfl, rfl, rfl, rfl, rfl⟩ ?_ ?_ ?_ rfl rfl rfl <;>
      simp_all [State.isCompleted, State.isClosed, HANDLE]
  -- 走っている `tick` は一つだけなので、先に書かれた output は無い
  case writeOutput v s =>
    have hd : sh.word.isCompleted = false := hphase.not_completed (by omega)
    have hone := hphase.one
    have hle := hC.completing
    have hrun := hC.running
    obtain ⟨h1, h2, h3, h4, h5, h6⟩ := h
    rw [hd] at h1 h3
    simp only [Bool.false_and, Bool.toNat_false] at h1 h3
    refine ⟨?_, ?_, ?_, ?_, h5, ?_⟩ <;> simp_all <;> omega
  case takeOutput | pollTake =>
    exact h.read rfl rfl rfl
  case pollReady v s hl =>
    obtain ⟨h1, h2, h3, h4, h5, h6⟩ := h
    refine ⟨h1, h2, h3, ?_, h5, h6⟩
    simp only [List.length_append, List.length_singleton] at h4 ⊢
    omega
  -- 空の置き場を読みに行く poll は無い
  case pollTakeNone w ho =>
    have h1 := h.slot
    rw [ho] at h1
    simp only [Option.isSome_none, Bool.toNat_false] at h1
    omega
  all_goals
    refine h.congr ⟨rfl, rfl, rfl, rfl, rfl⟩ ?_ ?_ ?_ rfl rfl rfl <;>
      simp [State.isCompleted, State.isClosed, State.isHandle, SCHEDULED, RUNNING]

end

theorem outputKept_begin {sh sh' : Shared R W} {ts : List (Thread R W)} {C : Tally}
    (hb : Begin sh sh' ts) (h : OutputKept sh C) :
    OutputKept sh' (total Act.tally ts.flatten + C) := by
  cases hb <;>
    refine h.congr ⟨rfl, rfl, rfl, rfl, rfl⟩ rfl rfl (fun _ _ hh => hh) ?_ ?_ ?_ <;>
    simp only [List.flatten_cons, List.flatten_nil, List.append_nil, total_cons, total_nil,
      Tally.add_def, Tally.zero_def, Act.tally, Loop.tally, Loan.tally, Nat.zero_add]

end FabAccess.Lightproc
