import FabAccess.Lightproc.PollResult

/-!
# handle の poll の結果

完了していて閉じられていない proc の poll は、置き場の output を返す（`Expecting`）。
poll の途中で proc を閉じられるのはその poll 自身だけで、閉じた後の output はその poll のものだから
である。そのような poll は、どの途中からでも、それだけで終わりまで進める（`Delivers`）。
-/

namespace FabAccess.Lightproc

open Infra System StateFlags

variable {R W : Type}

/-! ## output を待つ poll -/

/-- 置き場の `v` を、次の poll が取れる。 -/
def Deliverable (sh : Shared R W) (v : R) : Prop :=
  sh.word.isCompleted = true ∧ sh.word.isClosed = false ∧ sh.output = some v

/-- 置き場の `v` は、閉じた poll のものである。 -/
def Reserved (sh : Shared R W) (v : R) : Prop := sh.word.isCompleted = true ∧ sh.output = some v

def Use.Yields (sh : Shared R W) (v : R) : Use W → Prop
  | .register _ | .notifyUnless _ .closed => False
  | .notifyUnless _ .take => Reserved sh v
  | .notify _ => True

/-- `v` を返すことになっている poll の仕事。poll のほかの仕事には何も求めない。 -/
def Act.Yields (sh : Shared R W) (v : R) : Act R W → Prop
  | .load (.poll _) => Deliverable sh v
  | .attempt (.poll _) s => s.isCompleted = true ∧ Deliverable sh v
  | .lock u | .replace u | .unlock u _ => u.Yields sh v
  | .reload _ => False
  | .pollTake _ => Reserved sh v
  | .pollDone _ r => r = .ready (some v)
  | _ => True

structure Expecting (sh : Shared R W) (l : Pool R W) : Prop where
  acts : sh.handle = .polled → ∀ v ∈ sh.expected, ∀ a ∈ l, a.Yields sh v
  records : ∀ r ∈ sh.polled, ∀ v ∈ r.expected, r.result = .ready (some v)

/-- handle を poll しない仕事は、output について何も言わない。 -/
theorem Act.yields_of_polls {a : Act R W} (sh : Shared R W) (v : R) (h : a.tally.polls = 0) :
    a.Yields sh v := by
  cases a with
  | load l | attempt l s => cases l <;> trivial
  | lock u | replace u | unlock u old =>
    cases u with
    | notifyUnless w e => cases e <;> simp [Act.tally, Use.tally] at h
    | register w => simp [Act.tally, Use.tally] at h
    | notify n => trivial
  | reload | pollTake | pollDone => simp [Act.tally] at h
  | _ => trivial

section

variable [DecidableEq W] {sh sh' : Shared R W} {a : Act R W} {new : List (Act R W)} {C : Tally}

/-- 完了した proc を、ほかの操作は閉じない。 -/
theorem effect_open (he : Effect sh a sh' new) (hcore : Core sh (a.tally + C))
    (hu : sh.handle = .polled) (ha : a.tally.polls = 0) (hd : sh.word.isCompleted = true)
    (hc : sh.word.isClosed = false) : sh'.word.isClosed = false := by
  have hprocs := hcore.phased.completed hd
  have hflag := hcore.handled.flag
  have hle := Bool.toNat_le sh.word.isHandle
  rw [hu] at hflag
  simp only [HandleUse.alive, Tally.add_def] at hflag hprocs
  cases he
  case readyAbandon | guardClose =>
    simp only [Act.tally, Loop.tally] at hprocs
    omega
  case cancelCall hd' _ | cancelDrop hd' _ | dropSchedule hd' _ _ =>
    rw [hd] at hd'
    cases hd'
  case pollClose => simp [Act.tally, Loop.tally] at ha
  case dropClose =>
    simp only [Act.tally, Loop.tally] at hflag
    omega
  case endLoan l =>
    obtain ⟨_, _, _, _, heq⟩ := Shared.endLoan_eq sh l
    rw [heq]
    exact hc
  all_goals
    simp_all [State.isClosed, State.fetchOr, State.fetchAnd, lockMask_eq, unlockMask_eq,
      Shared.touch, Shared.readOutput, SCHEDULED, RUNNING, COMPLETED]

/-- 取る poll のほかに output を読むものは無い。 -/
theorem effect_kept (he : Effect sh a sh' new) (hcore : Core sh (a.tally + C))
    (hkept : OutputKept sh (a.tally + C)) (ha : a.tally.polls = 0)
    (hd : sh.word.isCompleted = true)
    (hC : 0 < C.outputs + (sh.word.isCompleted && !sh.word.isClosed).toNat) :
    sh'.output = sh.output := by
  have hprocs := hcore.phased.completed hd
  have hslot := hkept.slot
  have hle := Bool.toNat_le sh.output.isSome
  simp only [Tally.add_def] at hprocs hslot
  cases he
  case writeOutput =>
    simp only [Act.tally] at hprocs
    omega
  case takeOutput =>
    simp only [Act.tally] at hslot
    omega
  case pollTake => simp [Act.tally] at ha
  case endLoan l =>
    obtain ⟨_, _, _, _, heq⟩ := Shared.endLoan_eq sh l
    rw [heq]
  all_goals rfl

/-- 一歩進んでも、`v` を返すことになっている。 -/
theorem yields_step {v : R} (he : Effect sh a sh' new) (hs : a.Seen sh.word)
    (h : a.Yields sh v) : ∀ b ∈ new, b.Yields sh' v := by
  cases he
  case load l =>
    intro b hb
    rw [List.mem_singleton] at hb
    subst hb
    cases l with
    | poll w => exact ⟨h.1, h⟩
    | _ => trivial
  case retry l s =>
    intro b hb
    rw [List.mem_singleton] at hb
    subst hb
    cases l with
    | poll w => exact ⟨h.2.1, h.2⟩
    | _ => trivial
  -- 取り出せる output がある間、閉じられた word も完了前の word も読まれない
  case pollClosed w s hc =>
    have := hs.1 hc
    rw [h.2.2.1] at this
    cases this
  case pollRegister w s hc hd =>
    rw [h.1] at hd
    cases hd
  -- CLOSED を立てて取り置く。ここから先は `Reserved` が運ぶ
  case pollClose w hc hd =>
    have hr : Reserved sh v := ⟨hd, h.2.2.2⟩
    split <;>
      simpa [Act.Yields, Use.Yields, Reserved, State.isCompleted, CLOSED, Shared.touch] using hr
  case lockMore u _ | lockDone u _ =>
    intro b hb
    rw [List.mem_singleton] at hb
    subst hb
    cases u with
    | notifyUnless w e =>
      cases e with
      | closed => exact h
      | take =>
        simpa [Act.Yields, Use.Yields, Reserved, State.isCompleted, State.fetchOr, lockMask_eq,
          Shared.touch] using h
    | register w => exact h
    | notify n => trivial
  case replace u =>
    intro b hb
    rw [List.mem_singleton] at hb
    subst hb
    exact h
  case unlock u old =>
    cases u with
    | register w => exact h.elim
    | notify n =>
      cases n <;> cases old <;> simp [Use.finish, wakeOld, Notifier.loans, Act.Yields]
    | notifyUnless w e =>
      cases e with
      | closed => exact h.elim
      | take =>
        have hr : Reserved sh v := h
        simp only [Use.finish]
        split <;> cases old <;>
          simpa [PollEnd.act, wakeOld, Act.Yields, Reserved, State.isCompleted, State.fetchAnd,
            unlockMask_eq, Shared.touch] using hr
  case pollTake w v' ho =>
    obtain ⟨_, ho'⟩ := h
    rw [ho] at ho'
    cases ho'
    simp [Act.Yields]
  case pollTakeNone w ho =>
    obtain ⟨_, ho'⟩ := h
    rw [ho] at ho'
    cases ho'
  case reloadClosed | reloadPending | reloadAgain => exact h.elim
  case cancelDead c s _ => cases c <;> simp [Loop.afterCancel, Act.Yields]
  case cancelCall => split <;> simp [Act.Yields, Use.Yields]
  all_goals
    simp [Act.Yields, Use.Yields, or_imp, forall_and]

/-- poll でない一歩は、`v` を返すことになっている poll を妨げない。 -/
theorem yields_stable {v : R} {b : Act R W} {l : Pool R W} (he : Effect sh a sh' new)
    (hs : a.Seen sh.word) (hcore : Core sh (total Act.tally (a :: l)))
    (hkept : OutputKept sh (total Act.tally (a :: l))) (hu : sh.handle = .polled)
    (ha : a.tally.polls = 0) (hb : b ∈ l) (h : b.Yields sh v) : b.Yields sh' v := by
  have hle := effect_le he hs
  rw [total_cons] at hcore hkept
  -- まだ取り置いていない output も、取り置いた output も、ほかの操作には触れられない
  have hdeliver : Deliverable sh v → Deliverable sh' v := by
    rintro ⟨hd, hc, ho⟩
    refine ⟨hle.2 hd, effect_open he hcore hu ha hd hc, ?_⟩
    rw [effect_kept he hcore hkept ha hd (by simp [hd, hc]), ho]
  have hreserve : 0 < b.tally.outputs → Reserved sh v → Reserved sh' v := by
    rintro hpos ⟨hd, ho⟩
    have hmem := le_total_of_mem Tally.outputs (fun _ _ => rfl) hb
    refine ⟨hle.2 hd, ?_⟩
    rw [effect_kept he hcore hkept ha hd (by omega), ho]
  cases b with
  | load l =>
    cases l with
    | poll w => exact hdeliver h
    | _ => trivial
  | attempt l s =>
    cases l with
    | poll w => exact ⟨h.1, hdeliver h.2⟩
    | _ => trivial
  | lock u | replace u | unlock u old =>
    cases u with
    | notifyUnless w e =>
      cases e with
      | closed => exact h
      | take => exact hreserve Nat.one_pos h
    | register w => exact h
    | notify n => trivial
  | reload w => exact h
  | pollTake w => exact hreserve Nat.one_pos h
  | pollDone w r => exact h
  | _ => trivial

/-- 一歩は、取り出せるはずの output が poll の手の届く所にあることを保つ。 -/
theorem expecting_step {l : Pool R W} (he : Effect sh a sh' new) (hs : a.Seen sh.word)
    (hcore : Core sh (total Act.tally (a :: l)))
    (hkept : OutputKept sh (total Act.tally (a :: l))) (h : Expecting sh (a :: l)) :
    Expecting sh' (new ++ l) := by
  have hexp := effect_expected he
  refine ⟨?_, ?_⟩
  · intro hu' v hv b hb
    have hu := effect_polled_handle he hu'
    rw [hexp] at hv
    rcases List.mem_append.mp hb with hb | hb
    · exact yields_step he hs (h.acts hu v hv a (by simp)) b hb
    -- 動いたのが別の poll なら、poll は一つだけなので `b` は poll の仕事ではない
    · by_cases ha : a.tally.polls = 0
      · exact yields_stable he hs hcore hkept hu ha hb (h.acts hu v hv b (by simp [hb]))
      · exact b.yields_of_polls sh' v (hcore.polls_alone (Nat.pos_of_ne_zero ha) hb)
  · intro r hr v hv
    rcases effect_polled he with heq | ⟨w, x, rfl, _, rfl⟩
    · rw [heq] at hr
      exact h.records r hr v hv
    · rcases List.mem_append.mp hr with hr | hr
      · exact h.records r hr v hv
      · rw [List.mem_singleton] at hr
        subst hr
        have hu : sh.handle = .polled := hcore.polled_of_mem List.mem_cons_self Nat.one_pos
        exact h.acts hu v hv _ List.mem_cons_self

end

/-- 操作の始まりも、それを保つ。 -/
theorem expecting_begin {sh sh' : Shared R W} {ts : List (Thread R W)} {l : Pool R W}
    (hb : Begin sh sh' ts) (hcore : Core sh (total Act.tally l)) (h : Expecting sh l) :
    Expecting sh' (ts.flatten ++ l) := by
  cases hb
  case poll w hu =>
    refine ⟨fun _ v hv b hb => ?_, h.records⟩
    simp only [List.flatten_cons, List.flatten_nil, List.append_nil, List.singleton_append,
      List.mem_cons] at hb
    rcases hb with rfl | hb
    · simp only at hv
      split at hv
      · next hd =>
        rw [Bool.and_eq_true, Bool.not_eq_true'] at hd
        exact ⟨hd.1, hd.2, hv⟩
      · cases hv
    · have hpolls := hcore.handled.polls
      have hmem := le_total_of_mem Tally.polls (fun _ _ => rfl) hb
      rw [hu] at hpolls
      simp only [HandleUse.polls] at hpolls
      exact b.yields_of_polls _ v (by omega)
  case cancelHandle | dropHandle =>
    refine ⟨fun hu => ?_, h.records⟩
    cases hu
  all_goals
    refine ⟨fun hu v hv => List.forall_mem_append.mpr ⟨?_, h.acts hu v hv⟩, h.records⟩
    simp [Act.Yields]

/-! ## poll だけが進む実行 -/

/-- 操作は poll でないか、poll の仕事一つか、その前に waker を起こす仕事の付いたものである。 -/
def Tidy (t : Thread R W) : Prop :=
  (total Act.tally t).polls = 0 ∨ (∃ a, t = [a]) ∨ ∃ u w a, t = [.wakeAwaiter u w, a]

section

variable [DecidableEq W] {sh sh' : Shared R W} {a : Act R W} {new : List (Act R W)}

/-- handle を poll する仕事は、poll の続きだけを積む。 -/
theorem tidy_new (he : Effect sh a sh' new) (ha : 0 < a.tally.polls) : Tidy new := by
  cases he
  case unlock u old =>
    cases u with
    | register w => exact Or.inr (Or.inl ⟨_, rfl⟩)
    | notify n => cases n <;> cases ha
    | notifyUnless w e =>
      simp only [Use.finish]
      split
      · exact Or.inr (Or.inl ⟨_, rfl⟩)
      · cases old with
        | none => exact Or.inr (Or.inl ⟨_, rfl⟩)
        | some v => exact Or.inr (Or.inr ⟨_, _, _, rfl⟩)
  case pollClose =>
    right
    left
    split <;> exact ⟨_, rfl⟩
  case pollDone => exact Or.inl rfl
  case cancelDead c s _ => cases c <;> cases ha
  case refSchedule via _ _ _ _ => cases via <;> cases ha
  case endLoan l => cases l <;> cases ha
  all_goals first | exact Or.inr (Or.inl ⟨_, rfl⟩) | cases ha

/-- 一歩の後も、poll する操作に残っているのは poll の仕事だけである。 -/
theorem tidy_step {r : Thread R W} (he : Effect sh a sh' new) (h : Tidy (a :: r)) :
    Tidy (new ++ r) := by
  have hle := polls_step he
  rcases h with h | ⟨b, hb⟩ | ⟨u, w, b, hb⟩
  · rw [total_cons] at h
    left
    rw [total_append]
    simp only [Tally.add_def] at h ⊢
    omega
  · cases hb
    rw [List.append_nil]
    by_cases ha : a.tally.polls = 0
    · exact Or.inl (by omega)
    · exact tidy_new he (by omega)
  · cases hb
    cases he
    exact Or.inr (Or.inl ⟨b, rfl⟩)

end

/-- 始まったばかりの poll に残っているのは、poll の仕事だけである。 -/
theorem tidy_begin {sh sh' : Shared R W} {ts : List (Thread R W)} (hb : Begin sh sh' ts) :
    ∀ t ∈ ts, Tidy t := by
  cases hb <;> simp [Tidy]

/-- handle を poll する loop は `poll` だけである。 -/
theorem Loop.eq_poll (l : Loop W) (h : 0 < l.tally.polls) : ∃ w, l = .poll w := by
  cases l with
  | poll w => exact ⟨w, rfl⟩
  | cancel c => cases c <;> cases h
  | wakeByRef via => cases via <;> cases h
  | _ => cases h

/-- output を渡すことになっている `swap_awaiter` は、取り出しの前のものである。 -/
theorem Use.eq_take {sh : Shared R W} {v : R} (u : Use W) (h : 0 < u.tally.polls)
    (hy : u.Yields sh v) : ∃ w, u = .notifyUnless w .take := by
  cases u with
  | register w => exact hy.elim
  | notify n => cases n <;> cases h
  | notifyUnless w e =>
    cases e with
    | closed => exact hy.elim
    | take => exact ⟨w, rfl⟩

/-- 操作 `t` は、それだけで終わりまで進み、poll が `v` を返したことを記録する。 -/
def Delivers [DecidableEq W] (sh : Shared R W) (t : Thread R W) (v : R) : Prop :=
  ∃ sh' w, (proc R W).Solo .go (sh, t) (sh', []) ∧
    sh'.polled = sh.polled ++ [⟨w, sh.expected, .ready (some v)⟩]

section

variable [DecidableEq W] {sh sh' : Shared R W} {t t' : Thread R W} {v : R} {w : W}

/-- 一歩を先に踏む。 -/
theorem Delivers.cons (sh' : Shared R W) (t' : Thread R W) (hn : next sh t .go = some (sh', t'))
    (hp : sh'.polled = sh.polled) (he : sh'.expected = sh.expected) (h : Delivers sh' t' v) :
    Delivers sh t v := by
  obtain ⟨sh₁, w, hsolo, hrec⟩ := h
  exact ⟨sh₁, w, Solo.cons (S := proc R W) hn hsolo, by rw [hrec, hp, he]⟩

/-- 取り出した output は、次の一歩で返される。 -/
theorem delivers_done (hh : sh.halted = false) : Delivers sh [.pollDone w (.ready (some v))] v := by
  refine ⟨{ sh with handle := .shared 0, polled := sh.polled ++ [⟨w, sh.expected, _⟩] }, w,
    Solo.cons (S := proc R W) ?_ (Solo.refl _), rfl⟩
  simp [proc, next, hh, exec]

/-- 置き場に output があれば、取り出して返す。 -/
theorem delivers_take (hh : sh.halted = false) (ho : sh.output = some v) :
    Delivers sh [.pollTake w] v := by
  refine Delivers.cons sh.readOutput [.pollDone w (.ready (some v))] ?_ rfl rfl
    (delivers_done hh)
  simp [next, hh, exec, ho]

/-- 間に誰かを起こしても、返すものは変わらない。 -/
theorem delivers_wake {u : Use W} {x : W} (hh : sh.halted = false)
    (h : Delivers { sh with woken := x :: sh.woken } t v) :
    Delivers sh (.wakeAwaiter u x :: t) v := by
  refine Delivers.cons { sh with woken := x :: sh.woken } _ ?_ rfl rfl h
  simp [next, hh, exec]

/-- awaiter の lock を離してから、取り出して返す。 -/
theorem delivers_unlock {old : Option W} (hh : sh.halted = false) (ho : sh.output = some v) :
    Delivers sh [.unlock (.notifyUnless w .take) old] v := by
  refine Delivers.cons
    { sh.touch with word := sh.word.fetchAnd (unlockMask (none : Option W)) }
    ((Use.notifyUnless w .take).finish old) ?_ rfl rfl ?_
  · simp [next, hh, exec, Use.new]
  · simp only [Use.finish]
    split
    · exact delivers_take hh ho
    · cases old with
      | none => exact delivers_take hh ho
      | some x => exact delivers_wake hh (delivers_take hh ho)

/-- awaiter を入れ替えてから、取り出して返す。 -/
theorem delivers_replace (hh : sh.halted = false) (ho : sh.output = some v) :
    Delivers sh [.replace (.notifyUnless w .take)] v := by
  refine Delivers.cons { sh.touch with awaiter := none }
    [.unlock (.notifyUnless w .take) sh.awaiter] ?_ rfl rfl (delivers_unlock hh ho)
  simp [next, hh, exec, Use.new]

/-- awaiter の lock を取る所からでも、取り出して返す。 -/
theorem delivers_lock (hh : sh.halted = false) (ho : sh.output = some v) :
    Delivers sh [.lock (.notifyUnless w .take)] v := by
  have hlocked : ∀ sh : Shared R W, sh.halted = false → sh.output = some v →
      sh.word.isLocked = true → Delivers sh [.lock (.notifyUnless w .take)] v := by
    intro sh hh ho hl
    refine Delivers.cons
      { sh.touch with word := sh.word.fetchOr (lockMask (none : Option W)) }
      [.replace (.notifyUnless w .take)] ?_ rfl rfl (delivers_replace hh ho)
    simp [next, hh, exec, Use.new, hl]
  cases hl : sh.word.isLocked with
  | true => exact hlocked sh hh ho hl
  | false =>
    refine Delivers.cons
      { sh.touch with word := sh.word.fetchOr (lockMask (none : Option W)) }
      [.lock (.notifyUnless w .take)] ?_ rfl rfl (hlocked _ hh ho ?_)
    · simp [next, hh, exec, Use.new, hl]
    · simp [State.isLocked, State.fetchOr, lockMask_eq]

/-- いまの word を手元に持つ poll は、CLOSED を立てて取り出す。 -/
theorem delivers_attempt_now (hh : sh.halted = false) (h : Deliverable sh v) :
    Delivers sh [.attempt (.poll w) sh.word] v := by
  obtain ⟨hd, hc, ho⟩ := h
  refine Delivers.cons
    { sh.touch with
      word := ⟨sh.word.flags ||| CLOSED, sh.word.refcount⟩, closedBy := some .take }
    (if sh.word.isAwaiter then [.lock (.notifyUnless w .take)] else [.pollTake w])
    ?_ rfl rfl ?_
  · simp [next, hh, exec, Loop.attempt, Loop.attemptPoll, hc, hd, Loop.record, Shared.closeBy]
  · split
    · exact delivers_lock hh ho
    · exact delivers_take hh ho

/-- 完了を見た word が古くても、読み直して取り出す。 -/
theorem delivers_attempt {s : State} (hh : sh.halted = false) (hs : s.isCompleted = true)
    (hle : s.Le sh.word) (h : Deliverable sh v) : Delivers sh [.attempt (.poll w) s] v := by
  by_cases hw : sh.word = s
  · subst hw
    exact delivers_attempt_now hh h
  · -- 手元の word が古ければ、読み直してもう一周する
    have hc : s.isClosed = false := by
      cases hc : s.isClosed with
      | false => rfl
      | true =>
        have := hle.1 hc
        rw [h.2.1] at this
        cases this
    refine Delivers.cons sh.touch [.attempt (.poll w) sh.word] ?_ rfl rfl
      (delivers_attempt_now hh h)
    simp [next, hh, exec, Loop.attempt, Loop.attemptPoll, hc, hs, hw, Loop.again]

/-- poll の初めからでも、取り出して返す。 -/
theorem delivers_load (hh : sh.halted = false) (h : Deliverable sh v) :
    Delivers sh [.load (.poll w)] v := by
  refine Delivers.cons sh.touch [.attempt (.poll w) sh.word] ?_ rfl rfl
    (delivers_attempt_now hh h)
  simp [next, hh, exec]

/-- `v` を返すことになっている poll は、それだけで終わりまで進む。 -/
theorem delivers_act {a : Act R W} (hh : sh.halted = false) (hs : a.Seen sh.word)
    (ha : 0 < a.tally.polls) (h : a.Yields sh v) : Delivers sh [a] v := by
  cases a with
  | load l =>
    obtain ⟨w, rfl⟩ := l.eq_poll ha
    exact delivers_load hh h
  | attempt l s =>
    obtain ⟨w, rfl⟩ := l.eq_poll ha
    exact delivers_attempt hh h.1 hs h.2
  | lock u =>
    obtain ⟨w, rfl⟩ := u.eq_take ha h
    exact delivers_lock hh h.2
  | replace u =>
    obtain ⟨w, rfl⟩ := u.eq_take ha h
    exact delivers_replace hh h.2
  | unlock u old =>
    obtain ⟨w, rfl⟩ := u.eq_take ha h
    exact delivers_unlock hh h.2
  | reload w => exact h.elim
  | pollTake w => exact delivers_take hh h.2
  | pollDone w r =>
    simp only [Act.Yields] at h
    subst h
    exact delivers_done hh
  | clone via | endLoan via => cases via <;> cases ha
  | _ => cases ha

/-- poll のどこからでも、その操作だけを進めれば output が返る。 -/
theorem delivers_thread (hh : sh.halted = false) (ht : Tidy t) (hs : ∀ a ∈ t, a.Seen sh.word)
    (hpolls : 0 < (total Act.tally t).polls) (h : ∀ a ∈ t, a.Yields sh v) : Delivers sh t v := by
  rcases ht with hz | ⟨a, rfl⟩ | ⟨u, x, a, rfl⟩
  · omega
  · rw [total_cons, total_nil, add_zero] at hpolls
    exact delivers_act hh (hs a (by simp)) hpolls (h a (by simp))
  · simp only [total_cons, total_nil, add_zero, Act.tally, zero_add] at hpolls
    refine delivers_wake hh (delivers_act hh (hs a (by simp)) hpolls ?_)
    exact h a (by simp)

end

/-! ## 実行の全体 -/

structure Answering (sh : Shared R W) (l : List (Thread R W)) : Prop where
  output : OutputKept sh (total Act.tally l.flatten)
  valued : Valued sh l.flatten
  taken : Taken sh l.flatten
  reasoned : Reasoned sh l.flatten
  expecting : Expecting sh l.flatten
  tidy : ∀ t ∈ l, Tidy t

/-- 不変条件は、進行中の操作の並び順によらない。 -/
theorem answering_symm : Symm (Answering : Shared R W → List (Thread R W) → Prop) := by
  intro sh l l' hp h
  have hmem : ∀ a, a ∈ l'.flatten → a ∈ l.flatten := fun a => hp.flatten.mem_iff.mpr
  obtain ⟨h1, ⟨h2, ho, hr⟩, h3, ⟨hc, ha, ht, hrec⟩, ⟨h5, he⟩, h6⟩ := h
  rw [total_perm _ hp.flatten] at h1 ht
  refine ⟨h1, ⟨fun a ha => h2 a (hmem a ha), ho, hr⟩, ?_, ⟨hc, fun a h => ha a (hmem a h), ht, hrec⟩,
    ⟨fun hu v hv a ha => h5 hu v hv a (hmem a ha), he⟩, fun t ht => h6 t (hp.mem_iff.mpr ht)⟩
  rw [Taken, ← total_perm _ hp.flatten]
  exact h3

/-- 操作の始まりは、poll の返す値についての不変条件を合わせて保つ。 -/
theorem answering_begin {sh sh' : Shared R W} {ts l : List (Thread R W)} (hb : Begin sh sh' ts)
    (h : CoreWith Answering sh l) : Answering sh' (ts ++ l) := by
  obtain ⟨h1, h2, h3, h4, h5, h6⟩ := h.inv
  refine ⟨?_, ?_, ?_, ?_, ?_, ?_⟩ <;> try rw [List.flatten_append]
  · rw [total_append]
    exact outputKept_begin hb h1
  · exact valued_begin hb h2
  · exact taken_begin hb h3
  · exact reasoned_begin hb h4
  · exact expecting_begin hb h.core h5
  · exact List.forall_mem_append.mpr ⟨tidy_begin hb, h6⟩

/-- 一歩は、poll の返す値についての不変条件を合わせて保つ。 -/
theorem answering_step [DecidableEq W] {sh sh' : Shared R W} {a : Act R W} {new : List (Act R W)}
    {r : Thread R W} {rest : List (Thread R W)} (he : Effect sh a sh' new)
    (h : CoreWith Answering sh ((a :: r) :: rest)) : Answering sh' ((new ++ r) :: rest) := by
  have hseen : a.Seen sh.word := h.seen a (by simp)
  have hcore := h.core
  obtain ⟨h1, h2, h3, h4, h5, h6⟩ := h.inv
  rw [List.flatten_cons, List.cons_append] at hcore h1 h2 h3 h4 h5
  refine ⟨?_, ?_, ?_, ?_, ?_, ?_⟩ <;> try rw [List.flatten_cons, List.append_assoc]
  · rw [total_cons] at hcore h1
    rw [total_append]
    exact outputKept_step he hseen (fits_total _) hcore h1
  · exact valued_step he h2
  · exact taken_step he h3
  · exact reasoned_step he hseen hcore h4
  · exact expecting_step he hseen hcore h1 h5
  · exact List.forall_mem_cons.mpr ⟨tidy_step he (h6 _ (by simp)), fun t ht => h6 t (by simp [ht])⟩

theorem answering_init : Answering (Shared.init : Shared R W) [] := by
  refine ⟨outputKept_init, ⟨?_, ?_, ?_⟩, le_rfl, ⟨?_, ?_, ?_, ?_⟩, ⟨?_, ?_⟩, ?_⟩ <;>
    simp [Shared.init, Closing, State.isClosed, SCHEDULED, HANDLE]

/-- `ProcHandle::cancel` が閉じることの無いどの実行でも、poll の返す値についての不変条件は成り立つ。 -/
theorem answering_run [DecidableEq W] {c : Config (Shared R W) (Thread R W)}
    {ms : List (Move (Op W) (Choice R))} (hrun : (proc R W).run ⟨Shared.init, []⟩ ms = some c)
    (hquiet : (proc R W).Obeys Quiet ⟨Shared.init, []⟩ ms) :
    CoreWith Answering c.shared c.threads :=
  run_coreWith (fun _ _ h => h) answering_symm (fun _ _ _ _ hb h => answering_begin hb h)
    (fun _ _ _ _ _ _ _ _ _ _ _ he h => answering_step he h) hrun hquiet answering_init

/-- 書かれた output は高々一つである。 -/
theorem CoreWith.writes_le {sh : Shared R W} {l : List (Thread R W)} (h : CoreWith Answering sh l) :
    sh.outputWrites ≤ 1 ∧ sh.readies.length ≤ 1 := by
  have hfits := fits_total l.flatten
  have hcompl := hfits.completing
  have hphase := h.core.phased
  have hle := hphase.le
  have hone := hphase.one
  obtain ⟨_, _, hwrites, hreadies, _, _⟩ := h.inv.output
  have hd : sh.word.isCompleted = true → (total Act.tally l.flatten).running = 0 := by
    intro hd
    have := hphase.completed hd
    omega
  cases hd' : sh.word.isCompleted with
  | false =>
    rw [hd', Bool.toNat_false] at hwrites
    omega
  | true =>
    have := hd hd'
    rw [hd', Bool.toNat_true] at hwrites
    omega

/-- output を取った poll は高々一つである。 -/
theorem CoreWith.takes_le {sh : Shared R W} {l : List (Thread R W)} (h : CoreWith Answering sh l) :
    sh.polled.countP PollRecord.isTake ≤ 1 := by
  have hwrites := h.writes_le.1
  have hreads := h.inv.output.reads
  have htaken := h.inv.taken
  rw [Taken] at htaken
  omega

/-- 完了した後で始まった poll は、それだけで終わりまで進めて output を返す。 -/
theorem CoreWith.delivers [DecidableEq W] {c : Config (Shared R W) (Thread R W)} {v : R}
    (h : CoreWith Answering c.shared c.threads) (hh : c.shared.halted = false)
    (hu : c.shared.handle = .polled) (hv : c.shared.expected = some v) :
    ∃ n m c' w, (proc R W).run c (List.replicate m (.exec n .go)) = some c' ∧
      c'.shared.polled = c.shared.polled ++ [⟨w, some v, .ready (some v)⟩] := by
  have hpolls := h.core.handled.polls
  rw [hu] at hpolls
  simp only [HandleUse.polls] at hpolls
  -- 途中の poll を見つけ、その操作だけを最後まで進める
  obtain ⟨a, ha, hpos⟩ := exists_of_total_pos Tally.polls rfl (fun _ _ => rfl)
    (l := c.threads.flatten) (by omega)
  obtain ⟨t, ht, hat⟩ := List.mem_flatten.mp ha
  obtain ⟨n, hn⟩ := List.mem_iff_getElem?.mp ht
  have hle := le_total_of_mem Tally.polls (fun _ _ => rfl) hat
  have hin : ∀ b ∈ t, b ∈ c.threads.flatten := fun b hb => List.mem_flatten.mpr ⟨t, ht, hb⟩
  obtain ⟨sh', w, hsolo, hrec⟩ := delivers_thread hh (h.inv.tidy t ht)
    (fun b hb => h.seen b (hin b hb)) (by omega)
    (fun b hb => h.inv.expecting.acts hu v hv b (hin b hb))
  obtain ⟨m, hm⟩ := hsolo.run hn
  rw [hv] at hrec
  exact ⟨n, m, _, w, hm, hrec⟩

/--
`ProcHandle::cancel` を呼ばないどの実行でも、

* `Ready(Some v)` を返した poll の `v` は future の poll が返したもので、そのような poll は高々一つ、
  output が読まれるのも高々一度で、初期化されていない output は読まれない
* `Ready(None)` を返した poll があれば、proc は cancel されたか、走らずに捨てられたか、panic したか、
  それより前の poll が output を取っている
* 完了していて閉じられていない proc には、future の返したただ一つの値が output としてある
* そのときに始まった poll は、返ったなら `Ready(Some v)` を返しており、途中であれば、
  それだけで進んで `Ready(Some v)` を返す
-/
theorem handle_result [DecidableEq W] (ms : List (Move (Op W) (Choice R)))
    (hno : ∀ m ∈ ms, m ≠ .spawn .cancelHandle) (c : Config (Shared R W) (Thread R W))
    (hrun : (proc R W).run ⟨Shared.init, []⟩ ms = some c) :
    (∀ r ∈ c.shared.polled, ∀ v, r.result = .ready (some v) → v ∈ c.shared.readies) ∧
    c.shared.polled.countP PollRecord.isTake ≤ 1 ∧
    c.shared.outputReads ≤ 1 ∧ c.shared.badRead = false ∧
    (∀ i r, c.shared.polled[i]? = some r → r.result = .ready none → Refused c.shared i) ∧
    (c.shared.word.isCompleted = true → c.shared.word.isClosed = false →
      ∃ v, c.shared.readies = [v] ∧ c.shared.output = some v) ∧
    (∀ r ∈ c.shared.polled, ∀ v ∈ r.expected, r.result = .ready (some v)) ∧
    (c.shared.halted = false → c.shared.handle = .polled → ∀ v ∈ c.shared.expected,
      ∃ n m c' w, (proc R W).run c (List.replicate m (.exec n .go)) = some c' ∧
        c'.shared.polled = c.shared.polled ++ [⟨w, some v, .ready (some v)⟩]) := by
  have h := answering_run hrun (quiet_of_not_called hno)
  obtain ⟨hwrites, hlen⟩ := h.writes_le
  have hreads := h.inv.output.reads
  refine ⟨h.inv.valued.records, h.takes_le, by omega, h.inv.output.good, ?_, ?_,
    h.inv.expecting.records, ?_⟩
  · intro i r hi hres
    exact (h.inv.reasoned.records i r hi hres).2
  -- output は置き場にあり、future の返した値は一つしか無い
  · intro hd hc
    have hslot := h.inv.output.slot
    rw [hd, hc] at hslot
    obtain ⟨v, hv⟩ : ∃ v, c.shared.output = some v := by
      refine Option.isSome_iff_exists.mp ?_
      cases ho : c.shared.output.isSome with
      | true => rfl
      | false =>
        rw [ho] at hslot
        simp at hslot
    have hmem := h.inv.valued.output v hv
    refine ⟨v, ?_, hv⟩
    obtain ⟨x, hx⟩ := List.length_eq_one_iff.mp
      (Nat.le_antisymm hlen (List.length_pos_of_mem hmem))
    rw [hx, List.mem_singleton] at hmem
    rw [hx, hmem]
  · exact fun hh hu v hv => h.delivers hh hu hv

/-- future が 7 を返し、その後で始まった poll が word を読んだところまで。 -/
def readyThenPoll : List (Move (Op Nat) (Choice Nat)) :=
  [.spawn .run, .exec 0 .go, .exec 0 .go, .exec 0 (.ready 7), .exec 0 .go, .exec 0 .go, .exec 0 .go,
   .spawn (.poll 3), .exec 1 .go]

theorem handle_result_readyThenPoll :
    ∃ c, (proc Nat Nat).run ⟨Shared.init, []⟩ readyThenPoll = some c ∧
      ∃ n m c' w, (proc Nat Nat).run c (List.replicate m (.exec n .go)) = some c' ∧
        c'.shared.polled = c.shared.polled ++ [⟨w, some 7, .ready (some 7)⟩] := by
  have hstate : ((proc Nat Nat).run ⟨Shared.init, []⟩ readyThenPoll).map
      (fun c => (c.shared.halted, c.shared.handle, c.shared.expected)) =
      some (false, .polled, some 7) := by decide
  obtain ⟨c, hrun, hc⟩ := Option.map_eq_some_iff.mp hstate
  simp only [Prod.mk.injEq] at hc
  obtain ⟨hh, hu, hv⟩ := hc
  exact ⟨c, hrun, (handle_result readyThenPoll (by decide) c hrun).2.2.2.2.2.2.2 hh hu 7 hv⟩

end FabAccess.Lightproc
