import FabAccess.Lightproc.Properties.RefCount

/-!
# flag の約束

`state.rs` の注釈は、完了した proc に SCHEDULED も RUNNING も立たず、RUNNING が立つのは
future を poll している間だけだと約束している。

`tick` の Ready の loop と `Guard::drop` は、どちらも RUNNING と SCHEDULED を落とすつもりで
`!(RUNNING & SCHEDULED)` を使っている。この mask は空の集合の否定で、何も落とさない
（`and_not_running_and_scheduled`）。閉じられた proc の `Guard::drop` は SCHEDULED だけを落とす。
約束を破るのはこの二か所だけで、Pending の loop も、handle や waker の loop も破らない。
ここでの実行は `ProcHandle::cancel` も含む。
-/

namespace FabAccess.Lightproc

open Infra System StateFlags

variable {R W : Type}

def Loop.isTicking : Loop W → Bool
  | .ready | .pending | .guard => true
  | _ => false

/-- RUNNING を立ててから、poll の結果に応じた loop を抜けるまでの `tick` の仕事。 -/
def Act.isTicking : Act R W → Bool
  | .load l | .attempt l _ => l.isTicking
  | .polling _ | .readyDrop _ _ | .writeOutput _ _ => true
  | _ => false

/-- `state.rs` の注釈の約束。 -/
def FlagsKept (c : Config (Shared R W) (Thread R W)) : Prop :=
  (c.shared.word.isCompleted = true →
    c.shared.word.isScheduled = false ∧ c.shared.word.isRunning = false) ∧
  ((∀ a ∈ c.threads.flatten, a.isTicking = false) → c.shared.word.isRunning = false)

/-- この一歩で、Ready の compare-exchange が通るか、`Guard::drop` が loop を抜ける。 -/
def Act.finishes (sh : Shared R W) (k : Choice R) : Act R W → Bool
  | .attempt .ready s => decide (sh.word = s) && !k.isSpurious
  | .attempt .guard s => s.isClosed || (decide (sh.word = s) && !k.isSpurious)
  | _ => false

/-- この歩で、Ready を返した poll も panic した poll も片付けられない。 -/
def Unfinished (c : Config (Shared R W) (Thread R W)) (m : Move (Op W) (Choice R)) : Prop :=
  ∀ p ∈ acting c m, p.1.finishes c.shared p.2 = false

instance (c : Config (Shared R W) (Thread R W)) (m : Move (Op W) (Choice R)) :
    Decidable (Unfinished c m) :=
  inferInstanceAs (Decidable (∀ p ∈ acting c m, _))

/-! ## 一歩 -/

/-- 完了しておらず、RUNNING が立っていれば `tick` の途中である。 -/
def Marked (sh : Shared R W) (l : Pool R W) : Prop :=
  sh.word.isCompleted = false ∧ (sh.word.isRunning = true → ∃ a ∈ l, a.isTicking = true)

section

variable [DecidableEq W] {sh sh' : Shared R W} {a : Act R W} {new : List (Act R W)} {k : Choice R}

/-- Ready の loop と `Guard::drop` の loop である。 -/
def Act.isFinishing : Act R W → Bool
  | .attempt .ready _ | .attempt .guard _ => true
  | _ => false

/-- weak な compare-exchange が通らなければ、読み直してもう一周する。 -/
theorem exec_missed {l : Loop W} {s : State} (he : exec sh (.attempt l s) k = some (sh', new))
    (hcas : ∃ w acts, (l.attempt s : Attempt R W) = .cas true w acts)
    (hmiss : sh.word ≠ s ∨ k.isSpurious = true) :
    sh'.word = sh.word ∧ new = [.attempt l.again sh.word] := by
  obtain ⟨w, acts, hcas⟩ := hcas
  rcases exec_attempt he with ⟨hl, _⟩ | ⟨rfl, rfl⟩ | ⟨weak, w', hcas', hw, hk, _⟩
  · rw [hcas] at hl
    cases hl
  · exact ⟨rfl, rfl⟩
  · exfalso
    rw [hcas] at hcas'
    cases hcas'
    rcases hmiss with hne | hsp
    · exact hne hw
    · rw [hsp] at hk
      cases hk

/-- 片付けられない poll は、`tick` の途中に留まる。 -/
theorem exec_finishing (he : exec sh a k = some (sh', new)) (ha : a.isFinishing = true)
    (hno : a.finishes sh k = false) : sh'.word = sh.word ∧ ∃ b ∈ new, b.isTicking = true := by
  unfold Act.isFinishing at ha
  split at ha
  · next s =>
    simp only [Act.finishes, Bool.and_eq_false_iff, decide_eq_false_iff_not,
      Bool.not_eq_false'] at hno
    obtain ⟨hw, rfl⟩ := exec_missed he ⟨_, _, rfl⟩ hno
    exact ⟨hw, _, List.mem_singleton.mpr rfl, rfl⟩
  · next s =>
    simp only [Act.finishes, Bool.or_eq_false_iff, Bool.and_eq_false_iff, decide_eq_false_iff_not,
      Bool.not_eq_false'] at hno
    -- 閉じられた proc なら loop を抜けるが、それも仮定が除いている
    have hcas : ∃ w acts, (Loop.guard.attempt s : Attempt R W) = .cas true w acts := by
      simp [Loop.attempt, Loop.attemptGuard, hno.1]
    obtain ⟨hw, rfl⟩ := exec_missed he hcas hno.2
    exact ⟨hw, _, List.mem_singleton.mpr rfl, rfl⟩
  · cases ha

/-- `ProcHandle::cancel` は RUNNING にも COMPLETED にも触らない。 -/
theorem exec_cancels (he : exec sh a k = some (sh', new)) (hc : a.cancels sh k = true) :
    sh'.word.isCompleted = sh.word.isCompleted ∧ sh'.word.isRunning = sh.word.isRunning ∧
      a.isTicking = false := by
  unfold Act.cancels at hc
  split at hc
  · next s =>
    refine ⟨?_, ?_, rfl⟩ <;>
    · rcases exec_attempt he with ⟨_, rfl⟩ | ⟨rfl, _⟩ | ⟨weak, w, hcas, rfl, _, rfl⟩
      · rfl
      · rfl
      · simp only [Loop.attempt, Loop.attemptHandleCancel] at hcas
        split at hcas
        · cases hcas
        · cases hcas
          simp only [Loop.record, Shared.closeBy]
          split <;> simp [State.isCompleted, State.isRunning, SCHEDULED, CLOSED]
  · cases hc

theorem effect_completed (he : Effect sh a sh' new) (ha : a.isFinishing = false)
    (h : sh.word.isCompleted = false) : sh'.word.isCompleted = false := by
  cases he
  case readyKeep | readyAbandon | readyClosed => cases ha
  case dropFirst | dropSchedule => rfl
  case endLoan l =>
    obtain ⟨_, _, _, _, heq⟩ := Shared.endLoan_eq sh l
    rw [heq]
    exact h
  all_goals
    simp_all [State.isCompleted, State.fetchOr, State.fetchAnd, Shared.touch, Shared.readOutput,
      SCHEDULED, RUNNING, CLOSED, HANDLE, lockMask_eq, unlockMask_eq]

/-- RUNNING を立てるのは、future の poll を始める `tick` だけである。 -/
theorem effect_running (he : Effect sh a sh' new) (h : sh'.word.isRunning = true) :
    sh.word.isRunning = true ∨ ∃ b ∈ new, b.isTicking = true := by
  cases he
  case tickRun => exact Or.inr ⟨_, List.mem_singleton.mpr rfl, rfl⟩
  case dropFirst | dropSchedule => cases h
  case endLoan l =>
    obtain ⟨_, _, _, _, heq⟩ := Shared.endLoan_eq sh l
    rw [heq] at h
    exact Or.inl h
  all_goals
    refine Or.inl ?_
    simp_all [State.isRunning, State.fetchOr, State.fetchAnd, Shared.touch, Shared.readOutput,
      SCHEDULED, RUNNING, COMPLETED, CLOSED, HANDLE, lockMask_eq, unlockMask_eq]

/-- `tick` は、RUNNING を落とすまで `tick` の途中のままである。 -/
theorem effect_ticking (he : Effect sh a sh' new) (hf : a.isFinishing = false)
    (ha : a.isTicking = true) (h : sh'.word.isRunning = true) : ∃ b ∈ new, b.isTicking = true := by
  cases he
  case load l | retry l s =>
    refine ⟨_, List.mem_singleton.mpr rfl, ?_⟩
    cases l <;> simp_all [Act.isTicking, Loop.isTicking, Loop.again]
  case pendClosed | pendAgain | pendIdle => simp [State.isRunning, RUNNING] at h
  case pollReady | pollPending | pollPanic | readyDrop | writeOutput =>
    exact ⟨_, List.mem_singleton.mpr rfl, rfl⟩
  case readyKeep | readyAbandon | readyClosed | guardClosed | guardClose => cases hf
  all_goals cases ha

theorem marked_step {l : Pool R W} (he : exec sh a k = some (sh', new))
    (hno : a.finishes sh k = false) (h : Marked sh (a :: l)) : Marked sh' (new ++ l) := by
  obtain ⟨hd, hr⟩ := h
  simp only [List.mem_cons, exists_eq_or_imp] at hr
  -- 前の仕事が `tick` の途中だったときと、ほかの操作がそうだったときとに分ける
  have hkeep : (sh'.word.isRunning = true → a.isTicking = true → ∃ b ∈ new, b.isTicking = true) →
      (sh'.word.isRunning = true → sh.word.isRunning = true ∨ ∃ b ∈ new, b.isTicking = true) →
      sh'.word.isRunning = true → ∃ b ∈ new ++ l, b.isTicking = true := by
    intro htick hrun h
    have hnew : (∃ b ∈ new, b.isTicking = true) → ∃ b ∈ new ++ l, b.isTicking = true :=
      fun ⟨b, hb, hbt⟩ => ⟨b, List.mem_append_left l hb, hbt⟩
    rcases hrun h with hold | hb
    · rcases hr hold with ha | ⟨b, hb, hbt⟩
      · exact hnew (htick h ha)
      · exact ⟨b, List.mem_append_right new hb, hbt⟩
    · exact hnew hb
  cases hf : a.isFinishing with
  | true =>
    obtain ⟨hw, hb⟩ := exec_finishing he hf hno
    rw [← hw] at hd hr
    exact ⟨hd, hkeep (fun _ _ => hb) (fun _ => Or.inr hb)⟩
  | false =>
    cases hc : a.cancels sh k with
    | true =>
      obtain ⟨hd', hr', ha⟩ := exec_cancels he hc
      refine ⟨by rw [hd', hd], hkeep (fun _ ht => ?_) (fun h => Or.inl (by rw [← hr', h]))⟩
      rw [ha] at ht
      cases ht
    | false =>
      have he := exec_effect he hc
      exact ⟨effect_completed he hf hd,
        hkeep (fun h ht => effect_ticking he hf ht h) (effect_running he)⟩

end

/-! ## 実行の全体 -/

theorem marked_run [DecidableEq W] {c : Config (Shared R W) (Thread R W)}
    {ms : List (Move (Op W) (Choice R))} (hrun : (proc R W).run ⟨Shared.init, []⟩ ms = some c)
    (hok : (proc R W).Obeys Unfinished ⟨Shared.init, []⟩ ms) :
    Marked c.shared c.threads.flatten := by
  refine run_invariant_of_obeys (motive := fun sh l => Marked sh l.flatten) ?_ ?_ ?_ hrun hok
    ⟨rfl, fun h => nomatch h⟩
  · intro sh l l' hp h
    refine ⟨h.1, fun hr => ?_⟩
    obtain ⟨a, ha, hat⟩ := h.2 hr
    exact ⟨a, hp.flatten.mem_iff.mp ha, hat⟩
  · intro sh l op sh' ts hs _ h
    have hw : sh'.word = sh.word := (seen_begin (spawn_begin (spawn_eq_some hs).2)).1
    refine ⟨by rw [hw]; exact h.1, fun hr => ?_⟩
    rw [hw] at hr
    obtain ⟨a, ha, hat⟩ := h.2 hr
    exact ⟨a, by simp [ha], hat⟩
  · intro c n t k sh' t' rest hget _ hn hq h
    obtain ⟨a, r, new, rfl, _, he, rfl⟩ := next_eq_some hn
    have hno : a.finishes c.shared k = false := hq (a, k) (by simp [acting, hget])
    simp only [List.flatten_cons, List.cons_append, List.append_assoc] at h ⊢
    exact marked_step he hno h

/--
Ready の compare-exchange が通る歩も、panic の後の `Guard::drop` が loop を抜ける歩も無い
どの実行でも、COMPLETED が立っていれば SCHEDULED も RUNNING も立っておらず、
future を poll している `tick` が無ければ RUNNING は立っていない。
-/
theorem flags_kept [DecidableEq W] (ms : List (Move (Op W) (Choice R)))
    (c : Config (Shared R W) (Thread R W))
    (hrun : (proc R W).run ⟨Shared.init, []⟩ ms = some c)
    (hok : (proc R W).Obeys Unfinished ⟨Shared.init, []⟩ ms) : FlagsKept c := by
  obtain ⟨hd, hr⟩ := marked_run hrun hok
  refine ⟨fun hd' => ?_, fun hnone => ?_⟩
  · rw [hd] at hd'
    cases hd'
  · cases hrunning : c.shared.word.isRunning with
    | false => rfl
    | true =>
      obtain ⟨a, ha, hat⟩ := hr hrunning
      rw [hnone a ha] at hat
      cases hat

/-- poll の途中で handle から cancel され、Pending を返す一回の run。 -/
def cancelPolling : List (Move (Op Nat) (Choice Nat)) :=
  [.spawn .run, .exec 0 .go, .exec 0 .go, .spawn .cancelHandle, .exec 1 .go, .exec 1 .go,
   .exec 0 .pending, .exec 0 .go, .exec 0 .go, .exec 0 .go, .exec 0 .go, .exec 0 .go, .exec 1 .go]

theorem flags_kept_cancelPolling :
    ∃ c, (proc Nat Nat).run ⟨Shared.init, []⟩ cancelPolling = some c ∧ c.threads = [[], []] ∧
      FlagsKept c ∧ c.shared.word.isRunning = false := by
  have hthreads : ((proc Nat Nat).run ⟨Shared.init, []⟩ cancelPolling).map Config.threads =
      some [[], []] := by decide
  obtain ⟨c, hrun, hc⟩ := Option.map_eq_some_iff.mp hthreads
  have hkept := flags_kept cancelPolling c hrun (by decide)
  exact ⟨c, hrun, hc, hkept, hkept.2 (by simp [hc])⟩

/-- 一回の poll で Ready になり、`tick` が返る。 -/
def runReady : List (Move (Op Nat) (Choice Nat)) :=
  [.spawn .run, .exec 0 .go, .exec 0 .go, .exec 0 (.ready 7), .exec 0 .go, .exec 0 .go,
   .exec 0 .go, .exec 0 .go, .exec 0 .go]

/-- 一回の poll が panic し、`Guard` も `tick` も終わる。 -/
def runPanic : List (Move (Op Nat) (Choice Nat)) :=
  [.spawn .run, .exec 0 .go, .exec 0 .go, .exec 0 .panic, .exec 0 .go, .exec 0 .go,
   .exec 0 .go, .exec 0 .go, .exec 0 .go]

/-- どちらの `tick` も返った後で、RUNNING は立ったままである。 -/
theorem tick_leaves_running :
    (∃ c, (proc Nat Nat).run ⟨Shared.init, []⟩ runReady = some c ∧ c.threads = [[]] ∧
      c.shared.word.isCompleted = true ∧ c.shared.word.isRunning = true ∧ ¬ FlagsKept c) ∧
    (∃ c, (proc Nat Nat).run ⟨Shared.init, []⟩ runPanic = some c ∧ c.threads = [[]] ∧
      c.shared.word.isClosed = true ∧ c.shared.word.isRunning = true ∧ ¬ FlagsKept c) := by
  constructor
  · have h : ((proc Nat Nat).run ⟨Shared.init, []⟩ runReady).map
        (fun c => (c.threads, c.shared.word.isCompleted, c.shared.word.isRunning)) =
        some ([[]], true, true) := by decide
    obtain ⟨c, hrun, hc⟩ := Option.map_eq_some_iff.mp h
    obtain ⟨ht, hd, hr⟩ : c.threads = [[]] ∧ c.shared.word.isCompleted = true ∧
        c.shared.word.isRunning = true := by simpa using hc
    refine ⟨c, hrun, ht, hd, hr, fun hkept => ?_⟩
    rw [(hkept.1 hd).2] at hr
    cases hr
  · have h : ((proc Nat Nat).run ⟨Shared.init, []⟩ runPanic).map
        (fun c => (c.threads, c.shared.word.isClosed, c.shared.word.isRunning)) =
        some ([[]], true, true) := by decide
    obtain ⟨c, hrun, hc⟩ := Option.map_eq_some_iff.mp h
    obtain ⟨ht, hcl, hr⟩ : c.threads = [[]] ∧ c.shared.word.isClosed = true ∧
        c.shared.word.isRunning = true := by simpa using hc
    refine ⟨c, hrun, ht, hcl, hr, fun hkept => ?_⟩
    rw [hkept.2 (by simp [ht])] at hr
    cases hr

end FabAccess.Lightproc
