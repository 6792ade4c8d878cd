import FabAccess.Lightproc.Core

/-!
# awaiter を消す操作

awaiter を消す `swap_awaiter` は、終わった proc の上でだけ行われる（`Act.clears`）。そのうち
`notify` は、同時には高々一つしか進行していない。`LightProc::cancel` の `notify` の間は `LightProc` が
借りられたままで、ほかの `notify` は `LightProc` を手放した後だからである（`Notifying`）。
-/

namespace FabAccess.Lightproc

open Infra System StateFlags

variable {R W : Type}

/-- 完了したか、閉じられた。 -/
def State.dead (s : State) : Bool := s.isCompleted || s.isClosed

theorem State.dead_of_closed {s : State} (h : s.isClosed = true) : s.dead = true := by
  rw [State.dead, h, Bool.or_true]

theorem State.Le.dead {s w : State} (h : s.Le w) (hs : s.dead = true) : w.dead = true := by
  rw [State.dead, Bool.or_eq_true] at hs ⊢
  exact hs.imp h.2 h.1

theorem State.live_iff {s : State} :
    s.dead = false ↔ s.isCompleted = false ∧ s.isClosed = false := by
  rw [State.dead, Bool.or_eq_false_iff]

def Use.clears : Use W → Bool
  | .register _ => false
  | .notify _ | .notifyUnless _ _ => true

/-- awaiter を消す `swap_awaiter` の途中。 -/
def Act.clears : Act R W → Bool
  | .lock u | .replace u | .unlock u _ => u.clears
  | _ => false

def Use.notifier : Use W → Option Notifier
  | .notify n => some n
  | .register _ | .notifyUnless _ _ => none

/-- `notify` の途中。 -/
def Act.notifier : Act R W → Option Notifier
  | .lock u | .replace u | .unlock u _ => u.notifier
  | _ => none

def Act.notices (a : Act R W) : Nat := a.notifier.isSome.toNat

structure Notifying (sh : Shared R W) (l : Pool R W) : Prop where
  dead : ∀ a ∈ l, a.clears = true → sh.word.dead = true
  one : total Act.notices l ≤ 1
  /-- `LightProc` を手放した後の `notify` -/
  last : ∀ a ∈ l, a.notifier = some .last ∨ a.notifier = some .tick →
    sh.held + sh.queued + (total Act.tally l).procs = 0
  handle : ∀ a ∈ l, a.notifier ≠ some .handle

theorem Act.notifier_of_clears {a : Act R W} (h : a.clears = false) : a.notifier = none := by
  cases a with
  | lock u | replace u | unlock u old =>
    cases u with
    | register w => rfl
    | notify n => cases h
    | notifyUnless w e => rfl
  | _ => rfl

theorem Act.procLoans_of_call {a : Act R W} (h : a.notifier = some .call) :
    0 < a.tally.procLoans := by
  cases a with
  | lock u | replace u | unlock u old =>
    cases u with
    | notify n =>
      cases h
      exact Nat.one_pos
    | _ => cases h
  | _ => cases h

theorem notices_eq_zero_iff {l : Pool R W} :
    total Act.notices l = 0 ↔ ∀ a ∈ l, a.notifier = none := by
  induction l with
  | nil => simp
  | cons a l ih =>
    rw [total_cons, Nat.add_eq_zero_iff, ih, List.forall_mem_cons, Act.notices,
      Bool.toNat_eq_zero, Option.isSome_eq_false_iff, Option.isNone_iff_eq_none]

section

variable [DecidableEq W] {sh sh' : Shared R W} {a : Act R W} {new : List (Act R W)} {C : Tally}

theorem finish_clears (u : Use W) (old : Option W) :
    ∀ b ∈ (u.finish old : List (Act R W)), b.clears = false := by
  cases u with
  | register w => simp [Use.finish, Act.clears]
  | notify n => cases n <;> cases old <;> simp [Use.finish, wakeOld, Notifier.loans, Act.clears]
  | notifyUnless w' e =>
    cases e <;> cases old <;> simp only [Use.finish] <;> split <;>
      simp [PollEnd.act, wakeOld, Act.clears]

/-- awaiter を消し始めるのは、終わった proc を見たものだけである。 -/
theorem clears_new (he : Effect sh a sh' new) (hs : a.Seen sh.word)
    (ha : a.clears = true → sh.word.dead = true) :
    ∀ b ∈ new, b.clears = true → sh'.word.dead = true := by
  have hle := effect_le he hs
  cases he
  case unlock u old =>
    intro b hb hclears
    rw [finish_clears u old b hb] at hclears
    cases hclears
  case lockMore u _ | lockDone u _ | replace u =>
    intro b hb hclears
    rw [List.mem_singleton] at hb
    subst hb
    exact hle.dead (ha hclears)
  case tickClosed s hc | pollClosed s hc =>
    intro b _ _
    exact State.dead_of_closed (hs.1 hc)
  case reloadClosed hc =>
    intro b _ _
    exact State.dead_of_closed hc
  case cancelDead c s _ => cases c <;> simp [Loop.afterCancel, Act.clears]
  case readyKeep | readyAbandon | readyClosed | guardClose | cancelCall | cancelDrop | pollClose =>
    intro b _ _
    simp [State.dead, State.isCompleted, State.isClosed, COMPLETED, CLOSED]
  all_goals
    simp [Act.clears, Use.clears, or_imp, forall_and]

theorem notices_finish (u : Use W) (old : Option W) :
    total Act.notices (u.finish old : List (Act R W)) = 0 :=
  notices_eq_zero_iff.mpr (fun b hb => Act.notifier_of_clears (finish_clears u old b hb))

/-- `notify` を始めるのは、`LightProc` を手放すものか、生きている proc を閉じた `cancel` である。 -/
theorem notices_new (he : Effect sh a sh' new) :
    total Act.notices new ≤ a.notices ∨
    (total Act.notices new ≤ 1 ∧ (sh.word.dead = false ∨ 0 < a.tally.procs)) := by
  cases he
  case unlock u old =>
    left
    rw [notices_finish]
    exact Nat.zero_le _
  case cancelCall hd hc =>
    right
    refine ⟨?_, Or.inl (State.live_iff.mpr ⟨hd, hc⟩)⟩
    split <;> simp [Act.notices, Act.notifier, Use.notifier]
  case tickClosed s _ =>
    right
    refine ⟨?_, Or.inr Nat.one_pos⟩
    cases s.isAwaiter <;> simp [notifyIf, Act.notices, Act.notifier, Use.notifier]
  case readyKeep | readyAbandon | readyClosed | guardClose | cancelDrop =>
    right
    refine ⟨?_, Or.inr Nat.one_pos⟩
    cases sh.word.isAwaiter <;> simp [notifyIf, Act.notices, Act.notifier, Use.notifier]
  case cancelDead c s _ => cases c <;> exact Or.inl (Nat.zero_le _)
  case pollClose =>
    left
    split <;> exact Nat.zero_le _
  case lockMore | lockDone | replace =>
    left
    rw [total_cons, total_nil]
    exact Nat.le_refl _
  all_goals exact Or.inl (Nat.zero_le _)

/-- 終わった proc の `LightProc` は増えない。 -/
theorem effect_procs (he : Effect sh a sh' new) (hdead : sh.word.dead = true) :
    sh'.held + sh'.queued + (total Act.tally new).procs ≤
      sh.held + sh.queued + a.tally.procs := by
  cases he
  case retry l s =>
    rw [total_cons, Act.tally, again_tally]
    exact le_rfl
  case cancelDead c s _ => cases c <;> simp [Act.tally, Loop.tally]
  case unlock u old =>
    rw [total_finish]
    exact le_rfl
  case endLoan l =>
    obtain ⟨_, _, _, _, heq⟩ := Shared.endLoan_eq sh l
    rw [heq]
    exact Nat.le_add_right _ _
  case wakeSchedule hd hc _ _ | refSchedule hd hc _ _ | dropSchedule hd hc _ =>
    rw [State.live_iff.mpr ⟨hd, hc⟩] at hdead
    cases hdead
  all_goals
    simp only [total_cons, total_append, total_nil, Tally.add_def, Tally.zero_def, Act.tally,
      Loop.tally, total_notifyIf_last, total_notifyIf_tick, total_cancelCall, total_pollClose,
      Use.tally, Notifier.tally, Loan.tally, Shared.touch, Shared.readOutput, Nat.zero_add,
      Nat.add_zero]
    omega

/-- 積まれる `notify` は、実行した `notify` の続きか、閉じた `cancel` のものか、`LightProc` を
手放した一歩のものである。 -/
theorem notifier_new (he : Effect sh a sh' new) : ∀ b ∈ new, ∀ n ∈ b.notifier,
    a.notifier = some n ∨ n = .call ∨
    ((n = .last ∨ n = .tick) ∧ 0 < a.tally.procs ∧
      sh'.held + sh'.queued + (total Act.tally new).procs = sh.held + sh.queued) := by
  cases he
  case tickClosed | readyKeep | readyAbandon | readyClosed | guardClose | cancelDrop =>
    intro b hb n hn
    refine Or.inr (Or.inr ⟨?_, Nat.one_pos, ?_⟩)
    · revert b n
      simp [Act.notifier, Use.notifier, or_imp, forall_and]
    · simp only [total_cons, total_append, total_nil, Tally.add_def, Tally.zero_def, Act.tally,
        total_notifyIf_last, total_notifyIf_tick, Shared.touch, Nat.add_zero]
  case cancelCall => split <;> simp [Act.notifier, Use.notifier]
  case lockMore | lockDone | replace =>
    intro b hb n hn
    rw [List.mem_singleton] at hb
    subst hb
    exact Or.inl hn
  case unlock u old =>
    intro b hb n hn
    rw [Act.notifier_of_clears (finish_clears u old b hb)] at hn
    cases hn
  case cancelDead c s _ => cases c <;> simp [Loop.afterCancel, Act.notifier]
  case pollClose => split <;> simp [Act.notifier, Use.notifier]
  all_goals simp [Act.notifier, Use.notifier, or_imp, forall_and]

omit [DecidableEq W] in
theorem Notifying.dead_of_notifier {l : Pool R W} (h : Notifying sh l) {b : Act R W} (hb : b ∈ l)
    {n : Notifier} (hn : b.notifier = some n) : sh.word.dead = true := by
  refine h.dead b hb ?_
  cases hc : b.clears with
  | true => rfl
  | false =>
    rw [Act.notifier_of_clears hc] at hn
    cases hn

omit [DecidableEq W] in
/-- 生きている proc の上でも、`LightProc` を持つものが進むときも、ほかに `notify` は進行していない。 -/
theorem Notifying.alone {l : Pool R W} (h : Notifying sh (a :: l))
    (hcore : Core sh (total Act.tally (a :: l)))
    (ha : sh.word.dead = false ∨ 0 < a.tally.procs) : total Act.notices l = 0 := by
  refine notices_eq_zero_iff.mpr (fun b hb => ?_)
  have hmem : b ∈ a :: l := by simp [hb]
  rcases ha with hlive | hprocs
  · cases hn : b.notifier with
    | none => rfl
    | some n =>
      rw [h.dead_of_notifier hmem hn] at hlive
      cases hlive
  · have hone := hcore.phased.one
    have hle := le_total_of_mem Tally.procs (fun _ _ => rfl) (List.mem_cons_self (a := a) (l := l))
    cases hn : b.notifier with
    | none => rfl
    | some n =>
      cases n with
      | last =>
        have := h.last b hmem (Or.inl hn)
        omega
      | tick =>
        have := h.last b hmem (Or.inr hn)
        omega
      | handle => exact absurd hn (h.handle b hmem)
      | call =>
        -- `LightProc::cancel` が借りている `LightProc` は、`a` の持つものとは別にある
        have hloan : 0 < b.tally.procLoans := b.procLoans_of_call hn
        have hloans := le_total_of_mem Tally.procLoans (fun _ _ => rfl) hmem
        have hheld := hcore.lending.procHeld (by rw [hcore.lending.proc]; omega)
        omega

theorem notifying_step {l : Pool R W} (he : Effect sh a sh' new) (hs : a.Seen sh.word)
    (hcore : Core sh (total Act.tally (a :: l))) (h : Notifying sh (a :: l)) :
    Notifying sh' (new ++ l) := by
  have hle := effect_le he hs
  -- 手放した後の `notify` が一つでもあれば、`LightProc` は無く、一歩で増えることもない
  have hkeep : ∀ b ∈ a :: l, b.notifier = some .last ∨ b.notifier = some .tick →
      sh'.held + sh'.queued + (total Act.tally new + total Act.tally l).procs = 0 := by
    intro b hb hlast
    have hzero := h.last b hb hlast
    have hprocs := effect_procs he (hlast.elim (h.dead_of_notifier hb) (h.dead_of_notifier hb))
    rw [total_cons] at hzero
    simp only [Tally.add_def] at hzero ⊢
    omega
  refine ⟨?_, ?_, ?_, ?_⟩
  · intro b hb hc
    rcases List.mem_append.mp hb with hb | hb
    · exact clears_new he hs (h.dead a (by simp)) b hb hc
    · exact hle.dead (h.dead b (by simp [hb]) hc)
  · rw [total_append]
    have hone := h.one
    rw [total_cons] at hone
    rcases notices_new he with hnew | ⟨hnew, ha⟩
    · omega
    · have := h.alone hcore ha
      omega
  · intro b hb hlast
    rw [total_append]
    rcases List.mem_append.mp hb with hb | hb
    · obtain ⟨n, hn, hcase⟩ : ∃ n, b.notifier = some n ∧ (n = .last ∨ n = .tick) := by
        rcases hlast with hn | hn
        · exact ⟨_, hn, Or.inl rfl⟩
        · exact ⟨_, hn, Or.inr rfl⟩
      rcases notifier_new he b hb n hn with ha | rfl | ⟨_, ha, heq⟩
      · refine hkeep a (by simp) ?_
        rw [ha]
        simpa using hcase
      · rcases hcase with hcase | hcase <;> cases hcase
      · have hone := hcore.phased.one
        rw [total_cons] at hone
        simp only [Tally.add_def] at hone ⊢
        omega
    · exact hkeep b (by simp [hb]) hlast
  · intro b hb hn
    rcases List.mem_append.mp hb with hb | hb
    · rcases notifier_new he b hb _ hn with ha | ha | ⟨ha | ha, _⟩
      · exact h.handle a (by simp) ha
      · cases ha
      · cases ha
      · cases ha
    · exact h.handle b (by simp [hb]) hn

end

theorem notifying_begin {sh sh' : Shared R W} {ts : List (Thread R W)} {l : Pool R W}
    (hb : Begin sh sh' ts) (h : Notifying sh l) : Notifying sh' (ts.flatten ++ l) := by
  have hword := (seen_begin hb).1
  have hclears : ∀ b ∈ ts.flatten, b.clears = false := by
    cases hb <;> simp [Act.clears]
  have hnone : ∀ b ∈ ts.flatten, b.notifier = none := fun b hb =>
    Act.notifier_of_clears (hclears b hb)
  have hprocs : sh'.held + sh'.queued + (total Act.tally ts.flatten).procs =
      sh.held + sh.queued := by
    cases hb <;>
      simp only [List.flatten_cons, List.flatten_nil, List.append_nil, total_cons, total_nil,
        Tally.add_def, Tally.zero_def, Act.tally, Loop.tally, Loan.tally] <;>
      omega
  obtain ⟨h1, h2, h3, h4⟩ := h
  refine ⟨?_, ?_, ?_, ?_⟩
  · intro b hb hc
    rcases List.mem_append.mp hb with hb | hb
    · rw [hclears b hb] at hc
      cases hc
    · rw [hword]
      exact h1 b hb hc
  · rw [total_append, notices_eq_zero_iff.mpr hnone]
    omega
  · intro b hb hlast
    rw [total_append]
    rcases List.mem_append.mp hb with hb | hb
    · rw [hnone b hb] at hlast
      simp at hlast
    · have := h3 b hb hlast
      simp only [Tally.add_def]
      omega
  · intro b hb
    rcases List.mem_append.mp hb with hb | hb
    · rw [hnone b hb]
      simp
    · exact h4 b hb

end FabAccess.Lightproc
