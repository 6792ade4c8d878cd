import FabAccess.Lightproc.Core

/-!
# 一人だけが走り、起こしたことは失われない

`LightProc` は、手元か queue にあるか、`schedule` に渡される途中か、`tick` が手放すまでの間の
どこかに、合わせて高々一つしかない。`tick` は Pending の compare-exchange で `LightProc` を手放すので、
その後の `tick` の残り（span から出ること）の間には、次の `LightProc` がすでに queue にありうる。

起こした後でまだ poll が始まっていなければ、SCHEDULED は立ったままで、`LightProc` は
どこかで生きている。ただし、それを queue に入れるのは起こした本人とは限らない。
-/

namespace FabAccess.Lightproc

open Infra System StateFlags

variable {R W : Type}

/-- 起こされたままの生きている proc には SCHEDULED が立っている。 -/
def Woken (sh : Shared R W) : Prop :=
  sh.wakeSeen = true → sh.word.isClosed = false → sh.word.isCompleted = false →
    sh.word.isScheduled = true

def Loop.Bears (w : State) : Loop W → Prop
  | .tick | .cancel .drop => True
  | .ready | .pending | .guard => w.isScheduled = true
  | _ => False

/-- `LightProc` を持ち、queue に入れるか、poll を始めるか、proc を終わらせる仕事。
走っている `tick` は、SCHEDULED を見て queue に入れる。 -/
def Act.Bears (w : State) : Act R W → Prop
  | .push => True
  | .load l | .attempt l _ => l.Bears w
  | .polling _ | .readyDrop _ _ | .writeOutput _ _ => w.isScheduled = true
  | _ => False

section

variable [DecidableEq W] {sh sh' : Shared R W} {a : Act R W} {new : List (Act R W)}

theorem woken_step (he : Effect sh a sh' new) (hs : a.Seen sh.word) (h : Woken sh) :
    Woken sh' := by
  unfold Woken at h ⊢
  cases he
  case endLoan l =>
    obtain ⟨_, _, _, _, heq⟩ := Shared.endLoan_eq sh l
    rw [heq]
    exact h
  case dropFirst => exact fun _ _ _ => rfl
  case unschedule =>
    intro _ hc
    simp only [Act.Seen, State.isClosed] at hs
    simp [State.isClosed, State.fetchAnd, hs, SCHEDULED] at hc
  all_goals
    simp_all [State.isClosed, State.isCompleted, State.isScheduled, State.fetchOr, State.fetchAnd,
      Shared.touch, Shared.readOutput, lockMask_eq, unlockMask_eq, SCHEDULED, RUNNING, COMPLETED,
      CLOSED, HANDLE]

end

theorem Loop.bears_of_procs {l : Loop W} {w : State} (hl : 0 < l.tally.procs)
    (hw : w.isScheduled = true) : l.Bears w := by
  cases l with
  | wakeByRef via => cases via <;> simp [Loop.tally, Loan.tally] at hl
  | cancel c => cases c <;> simp_all [Loop.tally, Loop.Bears]
  | _ => simp_all [Loop.tally, Loop.Bears]

theorem Act.bears_of_procs {a : Act R W} {w : State} (ha : 0 < a.tally.procs)
    (hw : w.isScheduled = true) : a.Bears w := by
  cases a with
  | load l => exact l.bears_of_procs ha hw
  | attempt l s => exact l.bears_of_procs ha hw
  | lock u | replace u | unlock u old =>
    cases u with
    | register w => simp [Act.tally, Use.tally] at ha
    | notify n => cases n <;> simp [Act.tally, Use.tally, Notifier.tally, Tally.zero_def] at ha
    | notifyUnless w e => cases e <;> simp [Act.tally, Use.tally] at ha
  | clone via => cases via <;> simp [Act.tally, Loan.tally] at ha
  | endLoan l => cases l <;> simp [Act.tally, Loan.tally] at ha
  | _ => simp_all [Act.tally, Act.Bears, Tally.zero_def]

/-- 走っている `tick` の poll が Pending を返し、SCHEDULED が立っていれば、compare-exchange が
通ったときの次の仕事は queue に入れることである。 -/
theorem pending_queues [DecidableEq W] {sh sh' : Shared R W} {s : State} {k : Choice R}
    {rest t' : Thread R W} (hc : sh.word.isClosed = false) (hs : sh.word.isScheduled = true)
    (hn : next sh (.attempt .pending s :: rest) k = some (sh', t')) :
    t' = .attempt .pending sh.word :: rest ∨ t' = .push :: .exitSpan :: rest := by
  obtain ⟨a, r, new, heq, _, he, rfl⟩ := next_eq_some hn
  cases heq
  have he := exec_effect he rfl
  cases he
  case retry => exact Or.inl rfl
  case pendClosed hc' => rw [hc] at hc'; cases hc'
  case pendAgain => exact Or.inr rfl
  case pendIdle hs' => rw [hs] at hs'; cases hs'

theorem woken_run [DecidableEq W] {c : Config (Shared R W) (Thread R W)}
    {ms : List (Move (Op W) (Choice R))} (hrun : (proc R W).run ⟨Shared.init, []⟩ ms = some c)
    (hquiet : (proc R W).Obeys Quiet ⟨Shared.init, []⟩ ms) : Woken c.shared := by
  refine run_seen_invariant (motive := fun sh _ => Woken sh) (fun _ _ _ _ h => h) ?_ ?_ hrun hquiet ?_
  · intro sh sh' ts l hb h
    cases hb <;> exact h
  · intro sh a sh' new l he hs h
    exact woken_step he (hs a (by simp)) h
  · intro h
    cases h

/--
`ProcHandle::cancel` を呼ばないどの実行でも、手元と queue と、進行中の操作が持っているものを
合わせて `LightProc` は高々一つで、future の poll は高々一つずつ、終わっていない proc にだけ
行われる。生きている proc を起こした後で poll がまだ始まっていなければ、proc が終わったか、
`LightProc` が手元か queue にあるか、それを持っている操作が進行中である。
その操作が走っている `tick` なら、Pending の後で `LightProc` を queue に入れる。
-/
theorem single_runner [DecidableEq W] (ms : List (Move (Op W) (Choice R)))
    (hno : ∀ m ∈ ms, m ≠ .spawn .cancelHandle) (c : Config (Shared R W) (Thread R W))
    (hrun : (proc R W).run ⟨Shared.init, []⟩ ms = some c) :
    c.shared.held + c.shared.queued + (total Act.tally c.threads.flatten).procs ≤ 1 ∧
    (total Act.tally c.threads.flatten).polling ≤ 1 ∧
    (0 < (total Act.tally c.threads.flatten).polling →
      c.shared.word.isClosed = false ∧ c.shared.word.isCompleted = false) ∧
    (c.shared.wakeSeen = true →
      c.shared.word.isClosed = true ∨ c.shared.word.isCompleted = true ∨
      0 < c.shared.held + c.shared.queued ∨ ∃ t ∈ c.threads, ∃ a ∈ t, a.Bears c.shared.word) ∧
    (∀ s rest k sh' t', (.attempt .pending s :: rest) ∈ c.threads →
      c.shared.word.isScheduled = true →
      next c.shared (.attempt .pending s :: rest) k = some (sh', t') →
      t' = .attempt .pending c.shared.word :: rest ∨ t' = .push :: .exitSpan :: rest) := by
  have hquiet := quiet_of_not_called hno
  have hcore := core_run hrun hquiet
  have hwoken := woken_run hrun hquiet
  have hfits := fits_total c.threads.flatten
  have hphase := hcore.phased
  have hone := hphase.one
  have hle := hphase.le
  have hpoll := hfits.polling
  refine ⟨hone, by omega, ?_, ?_, ?_⟩
  · intro hpos
    exact ⟨hphase.not_closed (by omega), hphase.not_completed (by omega)⟩
  · intro hseen
    cases hc : c.shared.word.isClosed with
    | true => exact Or.inl rfl
    | false =>
      cases hd : c.shared.word.isCompleted with
      | true => exact Or.inr (Or.inl rfl)
      | false =>
        have hsch := hwoken hseen hc hd
        have hq := hphase.scheduled hc hd
        rw [show c.shared.word.flags.scheduled = true from hsch, Bool.true_or] at hq
        by_cases hheld : 0 < c.shared.held + c.shared.queued
        · exact Or.inr (Or.inr (Or.inl hheld))
        · have hpos : 0 < (total Act.tally c.threads.flatten).procs := by
            rw [Bool.toNat_true] at hq
            omega
          obtain ⟨a, ha, hprocs⟩ := exists_of_total_pos Tally.procs rfl (fun _ _ => rfl) hpos
          obtain ⟨t, ht, hat⟩ := List.mem_flatten.mp ha
          exact Or.inr (Or.inr (Or.inr ⟨t, ht, a, hat, a.bears_of_procs hprocs hsch⟩))
  · intro s rest k sh' t' hmem hsch hn
    refine pending_queues ?_ hsch hn
    refine hphase.not_closed ?_
    exact le_total_of_mem Tally.running (fun _ _ => rfl)
      (List.mem_flatten.mpr ⟨_, hmem, List.mem_cons_self⟩)

/-- waker を二つ残して Pending になった proc を、一つ目の waker が起こしかけ、二つ目の waker が
起こし終わる。 -/
def wakeTwice : List (Move (Op Nat) (Choice Nat)) :=
  [.spawn .run, .exec 0 .go, .exec 0 .go,
   .spawn (.clone .tick), .exec 1 .go, .exec 1 .go, .spawn (.clone .tick), .exec 2 .go, .exec 2 .go,
   .exec 0 .pending, .exec 0 .go, .exec 0 .go, .exec 0 .go, .exec 0 .go,
   .spawn .wake, .exec 3 .go, .exec 3 .go, .spawn .wake, .exec 4 .go, .exec 4 .go, .exec 4 .go]

theorem single_runner_wakeTwice :
    ∃ c, (proc Nat Nat).run ⟨Shared.init, []⟩ wakeTwice = some c ∧ c.shared.wakeSeen = true ∧
      (c.shared.word.isClosed = true ∨ c.shared.word.isCompleted = true ∨
        0 < c.shared.held + c.shared.queued ∨ ∃ t ∈ c.threads, ∃ a ∈ t, a.Bears c.shared.word) := by
  have hseen : ((proc Nat Nat).run ⟨Shared.init, []⟩ wakeTwice).map (fun c => c.shared.wakeSeen) =
      some true := by decide
  obtain ⟨c, hrun, hc⟩ := Option.map_eq_some_iff.mp hseen
  exact ⟨c, hrun, hc, (single_runner wakeTwice (by decide) c hrun).2.2.2.1 hc⟩

/-- 起こし終えた一つ目の `LightProc` を走らせ、poll の途中で起こして Pending を返させる。 -/
def wakeWhilePolling : List (Move (Op Nat) (Choice Nat)) :=
  wakeTwice ++
  [.exec 3 .go, .exec 3 .go, .spawn .pop, .spawn .run, .exec 5 .go, .exec 5 .go,
   .spawn (.wakeByRef .tick), .exec 6 .go, .exec 6 .go, .exec 6 .go,
   .exec 5 .pending, .exec 5 .go, .exec 5 .go, .exec 5 .go, .exec 5 .go]

/-- `wakeTwice` の後では、二つ目の waker は返っているのに、`LightProc` はどこにも無く、
進行中の操作は一つ目の waker の、queue に入れる直前のものだけである。
`wakeWhilePolling` の後では、`LightProc` が queue にあるのに、`tick` がまだ返っていない。 -/
theorem single_runner_overlaps :
    ((proc Nat Nat).run ⟨Shared.init, []⟩ wakeTwice).map
      (fun c => (c.shared.held + c.shared.queued, c.threads, c.shared.wakeSeen,
        c.shared.word.isClosed || c.shared.word.isCompleted)) =
      some (0, [[], [], [], [.push], []], true, false) ∧
    ((proc Nat Nat).run ⟨Shared.init, []⟩ wakeWhilePolling).map
      (fun c => (c.shared.queued, c.threads)) =
      some (1, [[], [], [], [], [], [.exitSpan], []]) := by
  decide

end FabAccess.Lightproc
