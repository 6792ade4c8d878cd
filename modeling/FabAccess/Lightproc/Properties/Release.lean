import FabAccess.Lightproc.Contents

/-!
# 中身はちょうど一度だけ手放される

destroy は、参照も handle も無くなった一歩がちょうど一つだけ積む（`DestroyKept`）。
進行中の操作が proc に触れるのは、参照か handle を、後で手放すために持っている間だけで
（`Guarded`）、例外は span から出ることと、`LightProc` を入れた後の schedule 関数の残りだけである。

`destroy` 自身は future も output も捨てない。休んでいる proc の最後の参照と handle が無くなると、
future は捨てられないまま memory が解放される。また `tick` の Ready でない終わり方では、
span の guard が `decrement` より後に落ちるので、解放された memory に触る（`dropThenIdle`）。
schedule 関数の閉包は proc の中にあるのに、入れた `LightProc` は関数が戻る前に走り終えうるので、そのときも
解放された memory に触る（`dropThenOvertaken`）。
-/

namespace FabAccess.Lightproc

open Infra System StateFlags

variable {R W : Type}

/-! ## 参照か handle を持っている間 -/

/-- 数えられた参照、handle、借りている参照の数。 -/
def Tally.grip (T : Tally) : Nat :=
  T.refs + T.drops + T.polls + T.procLoans + T.wakerLoans + T.tickLoans + T.handleLoans

theorem Tally.grip_add (S T : Tally) : (S + T).grip = S.grip + T.grip := by
  simp only [Tally.grip, Tally.add_def]
  omega

theorem Loan.grip_pos (l : Loan) : 0 < l.tally.grip := by
  cases l <;> decide

/-- 誰かが参照か handle を持っている。 -/
def State.held (s : State) : Bool := !(s.refcount == 0 && !s.isHandle)

/-- 誰かが握っている間は、参照か handle がある。 -/
theorem Core.held {sh : Shared R W} {T : Tally} (h : Core sh T) (hT : T.Fits) (hg : 0 < T.grip) :
    sh.word.held = true := by
  obtain ⟨hcount, hphase, hlend, hhand⟩ := h
  obtain ⟨h1, h2, h3, h4, h5, h6, h7⟩ := hlend
  obtain ⟨k1, k2, k3⟩ := hhand
  obtain ⟨f1, f2, f3, f4⟩ := hT
  simp only [Counted] at hcount
  cases hh : sh.word.isHandle with
  | true => simp [State.held, hh]
  | false =>
    rw [hh, Bool.toNat_false] at k1
    rw [HandleUse.eq_gone (u := sh.handle) (by omega)] at k2 k3
    simp only [HandleUse.polls, HandleUse.loans] at k2 k3
    have hpos : sh.word.refcount ≠ 0 := by
      simp only [Tally.grip] at hg
      omega
    simp [State.held, hpos]

/-- 参照も handle も無ければ、`LightProc` も waker も無く、進行中の操作も何も持っていない。 -/
theorem Core.gone {sh : Shared R W} {T : Tally} (h : Core sh T) (hT : T.Fits)
    (hgone : sh.word.held = false) : T.grip = 0 ∧ sh.held + sh.queued + sh.wakers = 0 := by
  constructor
  · by_contra hg
    rw [h.held hT (by omega)] at hgone
    cases hgone
  · have hcount := h.counted
    simp only [State.held, Bool.not_eq_false', Bool.and_eq_true, beq_iff_eq] at hgone
    simp only [Counted] at hcount
    omega

/-- 何も持っていなくてもよい仕事。 -/
def Act.bare : Act R W → Bool
  | .destroy | .exitSpan | .endSchedule | .wakeAwaiter _ _ => true
  | _ => false

def Act.grip (a : Act R W) : Nat := a.tally.grip

theorem total_grip (l : Pool R W) : (total Act.tally l).grip = total Act.grip l := by
  induction l with
  | nil => rfl
  | cons a l ih => rw [total_cons, total_cons, Tally.grip_add, ih, Act.grip]

/-- 仕事の残りのどこから見ても、`bare` でない仕事は、参照か handle を持つ間に行われる。 -/
def Guarded : Thread R W → Prop
  | [] => True
  | a :: r => (a.bare = false → 0 < a.grip + total Act.grip r) ∧ Guarded r

/-- `swap_awaiter` の後の仕事も、握ったまま行われる。 -/
theorem guarded_finish [DecidableEq W] {u : Use W} {old : Option W} {r : Thread R W}
    (hr : Guarded r) : Guarded (u.finish old ++ r) := by
  cases u with
  | register w => exact ⟨fun _ => by simp [Act.grip, Act.tally, Tally.grip], hr⟩
  | notify n =>
    cases n <;> cases old <;>
      simp [Use.finish, wakeOld, Notifier.loans, Guarded, Act.bare, Act.grip, Act.tally,
        Loan.tally, Tally.grip, hr]
  | notifyUnless w e =>
    have hend : Guarded (e.act w :: r) := by
      cases e <;> exact ⟨fun _ => by simp [PollEnd.act, Act.grip, Act.tally, Tally.grip], hr⟩
    simp only [Use.finish]
    split
    · exact hend
    · cases old with
      | none => exact hend
      | some v =>
        refine ⟨fun h => ?_, hend⟩
        cases h

/-- 何も持っていない操作に残っているのは `bare` な仕事だけである。 -/
theorem Guarded.bare {t : Thread R W} (h : Guarded t) (hg : total Act.grip t = 0) :
    ∀ a ∈ t, a.bare = true := by
  induction t with
  | nil => simp
  | cons a r ih =>
    rw [total_cons] at hg
    intro b hb
    rcases List.mem_cons.mp hb with rfl | hb
    · cases hbare : b.bare with
      | true => rfl
      | false =>
        have := h.1 hbare
        omega
    · exact ih h.2 (by omega) b hb

/-- 誰も何も握っていなければ、残っているのは `bare` な仕事だけである。 -/
theorem bare_of_grip {l : List (Thread R W)} (h : ∀ t ∈ l, Guarded t)
    (hg : total Act.grip l.flatten = 0) : ∀ a ∈ l.flatten, a.bare = true := by
  induction l with
  | nil => simp
  | cons t l ih =>
    rw [List.flatten_cons, total_append] at hg
    intro a ha
    rw [List.flatten_cons, List.mem_append] at ha
    rcases ha with ha | ha
    · exact (h t (by simp)).bare (by omega) a ha
    · exact ih (fun t' ht' => h t' (by simp [ht'])) (by omega) a ha

/-- `bare` な仕事は、future も output も預かっていない。 -/
theorem Act.bare_tally {a : Act R W} (h : a.bare = true) : a.tally.duty = 0 ∧ a.tally.outputs = 0 := by
  cases a <;> first | exact ⟨rfl, rfl⟩ | cases h

/-- 始まったばかりの操作は、初めから終わりまで握ったままである。 -/
theorem guarded_begin {sh sh' : Shared R W} {ts : List (Thread R W)} (hb : Begin sh sh' ts) :
    ∀ t ∈ ts, Guarded t := by
  cases hb <;> simp [Guarded, Act.grip, Act.tally, Loop.tally, Loan.tally, Tally.grip]

section

variable [DecidableEq W] {sh sh' : Shared R W} {a : Act R W} {new : List (Act R W)} {C : Tally}

/-- 一歩の後に残る仕事も、握ったまま行われる。 -/
theorem guarded_step {r : Thread R W} (he : Effect sh a sh' new) (h : Guarded (a :: r)) :
    Guarded (new ++ r) := by
  obtain ⟨ha, hr⟩ := h
  cases he
  case retry l s =>
    refine ⟨fun _ => ?_, hr⟩
    rw [Act.grip, Act.tally, again_tally]
    exact ha rfl
  case load | lockMore | lockDone | replace => exact ⟨fun _ => ha rfl, hr⟩
  case unlock u old => exact guarded_finish hr
  case cancelDead c s hd =>
    cases c <;>
      simp [Loop.afterCancel, Guarded, Act.grip, Act.tally, Loan.tally, Tally.grip, hr]
  case refDead via _ _ | refPublish via _ _ _ | refSchedule via _ _ _ _ | refMark via _ _ _ _ |
      clone via _ | cloneAbort via _ =>
    cases via <;> simp [Guarded, Act.grip, Act.tally, Loan.tally, Tally.grip, hr]
  case tickClosed s _ =>
    cases s.isAwaiter <;>
      simp [notifyIf, Guarded, Act.bare, Act.grip, Act.tally, Use.tally, Notifier.tally,
        Tally.grip, Tally.zero_def, hr]
  case readyKeep | readyAbandon | readyClosed | guardClose | cancelDrop | cancelCall | pollClose =>
    cases sh.word.isAwaiter <;>
      simp [notifyIf, Guarded, Act.bare, Act.grip, Act.tally, Use.tally, Notifier.tally,
        Loan.tally, Tally.grip, Tally.zero_def, hr]
  all_goals
    simp [Guarded, Act.bare, Act.grip, Act.tally, Loop.tally, Use.tally, Loan.tally, Tally.grip,
      hr]

end

/-! ## destroy -/

def DestroyKept (sh : Shared R W) (T : Tally) : Prop :=
  sh.destroys + T.destroys = (!sh.word.held).toNat

section

variable [DecidableEq W] {sh sh' : Shared R W} {a : Act R W} {new : List (Act R W)} {C : Tally}

/-- 一歩は、destroy の数と、参照も handle も無いこととの対応を保つ。 -/
theorem destroyKept_step (he : Effect sh a sh' new) (hs : a.Seen sh.word) (hC : C.Fits)
    (hcore : Core sh (a.tally + C)) (h : DestroyKept sh (a.tally + C)) :
    DestroyKept sh' (total Act.tally new + C) := by
  -- 参照か handle を握っている仕事がある間は、destroy の条件は揃わない
  have hheld : 0 < a.tally.grip → sh.word.held = true := by
    intro hg
    refine hcore.held (a.fits.add hC) ?_
    rw [Tally.grip_add]
    omega
  unfold DestroyKept at h ⊢
  cases he
  case retry l s =>
    rw [total_cons, Act.tally, again_tally]
    exact h
  case cancelDead c s hd => cases c <;> exact h
  case unlock u old =>
    rw [total_finish]
    simpa [State.held, State.isHandle, State.fetchAnd, unlockMask_eq, Shared.touch, Act.tally] using h
  case lockMore u hl | lockDone u hl =>
    simpa [State.held, State.isHandle, State.fetchOr, lockMask_eq, Shared.touch, Act.tally] using h
  case endLoan l =>
    obtain ⟨_, _, _, _, hl⟩ := l.tally_eq
    obtain ⟨_, _, _, _, heq⟩ := Shared.endLoan_eq sh l
    simp only [Act.tally, hl, Tally.add_def, Nat.zero_add] at h
    rw [heq, total_nil, zero_add]
    exact h
  all_goals
    simp only [total_cons, total_append, total_nil, Tally.add_def, Tally.zero_def, Act.tally,
      Loop.tally, total_notifyIf_last, total_notifyIf_tick, total_cancelCall, total_pollClose,
      Use.tally, Notifier.tally, Loan.tally, Shared.touch, Nat.zero_add, Nat.add_zero,
      Shared.readOutput] at h ⊢
  case dropFirst =>
    simp only [Act.Seen] at hs
    rw [hs] at h
    exact h
  case refSchedule via _ _ _ _ | clone via _ =>
    rw [hheld via.grip_pos] at h
    simpa [State.held] using h
  -- 条件が揃う歩は二つで、どちらも destroy を一つ積む
  case decrementLast hr hh =>
    have hheld' : State.held { sh.word with refcount := 0 } = false := by
      simpa [State.held, State.isHandle] using hh
    rw [hheld']
    simp only [State.held, hr] at h
    simp only [Bool.not_false, Bool.toNat_true]
    simp only [Nat.reduceBEq, Bool.false_and, Bool.not_false, Bool.not_true, Bool.toNat_false] at h
    omega
  case decrement n hr hh =>
    have hheld' : State.held { sh.word with refcount := n } = true := by
      by_cases hn : n = 0
      · have := hh hn
        simp only [State.isHandle] at this
        simp [State.held, State.isHandle, this]
      · simp [State.held, hn]
    rw [hheld']
    simpa [State.held, hr] using h
  case dropSchedule =>
    rw [hheld (by simp [Act.tally, Loop.tally, Tally.grip])] at h
    simpa [State.held] using h
  case dropLeave hd hr =>
    rw [hheld (by simp [Act.tally, Loop.tally, Tally.grip])] at h
    have hr' : (sh.word.refcount == 0) = false := by simpa using hr
    simpa [State.held, hr'] using h
  case dropDestroy hc hr =>
    rw [hheld (by simp [Act.tally, Loop.tally, Tally.grip])] at h
    simp [State.held, State.isHandle, hr, HANDLE] at h ⊢
    omega
  case destroy =>
    omega
  all_goals
    simpa [State.held, State.isHandle, State.fetchAnd, SCHEDULED, RUNNING, COMPLETED, CLOSED] using h

end

/-- 操作の始まりも、その対応を保つ。 -/
theorem destroyKept_begin {sh sh' : Shared R W} {ts : List (Thread R W)} {C : Tally}
    (hb : Begin sh sh' ts) (h : DestroyKept sh C) :
    DestroyKept sh' (total Act.tally ts.flatten + C) := by
  unfold DestroyKept at h ⊢
  cases hb <;>
    simp only [List.flatten_cons, List.flatten_nil, List.append_nil, total_cons, total_nil,
      Tally.add_def, Tally.zero_def, Act.tally, Loop.tally, Loan.tally, Nat.zero_add] <;>
    exact h

/-! ## 実行の全体 -/

/-- この歩が destroy なら、proc は終わっていて、どの `tick` も span の中になく、どの schedule 関数の呼び出しも
戻っている。 -/
def SafeRelease (c : Config (Shared R W) (Thread R W)) (m : Move (Op W) (Choice R)) : Prop :=
  ∀ p ∈ acting c m, p.1 = .destroy →
    (c.shared.word.isCompleted = true ∨ c.shared.word.isClosed = true) ∧
    (total Act.tally c.threads.flatten).exits = 0

instance [DecidableEq R] [DecidableEq W] (c : Config (Shared R W) (Thread R W))
    (m : Move (Op W) (Choice R)) : Decidable (SafeRelease c m) :=
  inferInstanceAs (Decidable (∀ p ∈ acting c m, _ → _ ∧ _))

/-- 一歩が保つものの全体。 -/
structure Kept (sh : Shared R W) (l : List (Thread R W)) : Prop where
  future : FutureKept sh (total Act.tally l.flatten)
  output : OutputKept sh (total Act.tally l.flatten)
  destroy : DestroyKept sh (total Act.tally l.flatten)
  guarded : ∀ t ∈ l, Guarded t
  tails : 0 < sh.destroys → (total Act.tally l.flatten).exits = 0
  access : sh.badAccess = false

/-- 不変条件は、進行中の操作の並び順によらない。 -/
theorem kept_symm : Symm (Kept : Shared R W → List (Thread R W) → Prop) := by
  intro sh l l' hp h
  obtain ⟨h1, h2, h3, h4, h5, h6⟩ := h
  rw [total_perm _ hp.flatten] at h1 h2 h3 h5
  exact ⟨h1, h2, h3, fun t ht => h4 t (hp.mem_iff.mpr ht), h5, h6⟩

/-- 操作の始まりは、不変条件の全体を保つ。 -/
theorem kept_begin {sh sh' : Shared R W} {ts l : List (Thread R W)} (hb : Begin sh sh' ts)
    (h : Kept sh l) : Kept sh' (ts ++ l) := by
  obtain ⟨h1, h2, h3, h4, h5, h6⟩ := h
  refine ⟨?_, ?_, ?_, ?_, ?_, ?_⟩
  · rw [List.flatten_append, total_append]
    exact futureKept_begin hb h1
  · rw [List.flatten_append, total_append]
    exact outputKept_begin hb h2
  · rw [List.flatten_append, total_append]
    exact destroyKept_begin hb h3
  · intro t ht
    rcases List.mem_append.mp ht with ht | ht
    · exact guarded_begin hb t ht
    · exact h4 t ht
  · rw [List.flatten_append, total_append]
    cases hb <;>
      simpa [Act.tally, Loop.tally, Loan.tally, Tally.add_def, Tally.zero_def] using h5
  · cases hb <;> exact h6

section

variable [DecidableEq W] {sh sh' : Shared R W} {a : Act R W} {new : List (Act R W)}

/-- destroy が行われるのは、積まれた destroy の仕事によってだけである。 -/
theorem effect_destroys (he : Effect sh a sh' new) :
    sh'.destroys = sh.destroys ∨ (a = .destroy ∧ new = []) := by
  cases he
  case destroy => exact Or.inr ⟨rfl, rfl⟩
  case endLoan l =>
    obtain ⟨_, _, _, _, heq⟩ := Shared.endLoan_eq sh l
    rw [heq]
    exact Or.inl rfl
  all_goals exact Or.inl rfl

/-- 解放される前の一歩は、解放された memory に触らない。 -/
theorem effect_access (he : Effect sh a sh' new) (hd : sh.destroys = 0)
    (h : sh.badAccess = false) : sh'.badAccess = false := by
  cases he
  case endLoan l =>
    obtain ⟨_, _, _, _, heq⟩ := Shared.endLoan_eq sh l
    rw [heq]
    exact h
  all_goals simp [Shared.touch, Shared.readOutput, hd, h]

omit [DecidableEq W] in
/-- destroy が積まれているか行われた後は、参照も handle も無く、`bare` な仕事しか残っていない。 -/
theorem CoreWith.gone {l : List (Thread R W)} (h : CoreWith Kept sh l)
    (hd : 0 < sh.destroys + (total Act.tally l.flatten).destroys) :
    sh.word.held = false ∧ (total Act.tally l.flatten).grip = 0 ∧ sh.held + sh.queued = 0 ∧
      ∀ a ∈ l.flatten, a.bare = true := by
  have hkept := h.inv.destroy
  have hgone : sh.word.held = false := by
    cases hh : sh.word.held with
    | false => rfl
    | true =>
      rw [DestroyKept, hh, Bool.not_true, Bool.toNat_false] at hkept
      omega
  obtain ⟨hg, hprocs⟩ := h.core.gone (fits_total _) hgone
  exact ⟨hgone, hg, by omega, bare_of_grip h.inv.guarded (by rw [← total_grip, hg])⟩

omit [DecidableEq W] in
/-- 解放された proc の上で進む操作は、awaiter を起こすことしか残していない。 -/
theorem acts_after_destroy {r : Thread R W} {rest : List (Thread R W)}
    (h : CoreWith Kept sh ((a :: r) :: rest)) (hd : 0 < sh.destroys) :
    ∃ u w, a = .wakeAwaiter u w := by
  have hkept := h.inv.destroy
  have htails := h.inv.tails hd
  have hle := Bool.toNat_le (!sh.word.held)
  obtain ⟨_, _, _, hbare⟩ := h.gone (by omega)
  have ha : a.bare = true := hbare a (by simp)
  rw [List.flatten_cons, List.cons_append, total_cons] at htails
  rw [DestroyKept, List.flatten_cons, List.cons_append, total_cons] at hkept
  cases a with
  | destroy =>
    simp only [Act.tally, Tally.add_def] at hkept
    omega
  | exitSpan | endSchedule =>
    simp only [Act.tally, Tally.add_def] at htails
    omega
  | wakeAwaiter u w => exact ⟨u, w, rfl⟩
  | _ => cases ha

/-- 条件を守る一歩は、不変条件の全体を保つ。 -/
theorem kept_step {c : Config (Shared R W) (Thread R W)} {n : Nat} {k : Choice R}
    {r : Thread R W} {rest : List (Thread R W)} (hact : acting c (.exec n k) = some (a, k))
    (hperm : c.threads.Perm ((a :: r) :: rest)) (hsafe : SafeRelease c (.exec n k))
    (he : Effect c.shared a sh' new) (h : CoreWith Kept c.shared ((a :: r) :: rest)) :
    Kept sh' ((new ++ r) :: rest) := by
  have hseen : a.Seen c.shared.word := h.seen a (by simp)
  have hcore := h.core
  have hfits := fits_total (r ++ rest.flatten)
  have hafter := acts_after_destroy h
  obtain ⟨h1, h2, h3, h4, h5, h6⟩ := h.inv
  rw [List.flatten_cons, List.cons_append, total_cons] at hcore h1 h2 h3 h5
  have hflat : total Act.tally ((new ++ r) :: rest).flatten =
      total Act.tally new + total Act.tally (r ++ rest.flatten) := by
    rw [List.flatten_cons, List.append_assoc, total_append]
  refine ⟨?_, ?_, ?_, ?_, ?_, ?_⟩
  · rw [hflat]
    exact futureKept_step he hseen hfits hcore h1
  · rw [hflat]
    exact outputKept_step he hseen hfits hcore h2
  · rw [hflat]
    exact destroyKept_step he hseen hfits hcore h3
  · intro t ht
    rcases List.mem_cons.mp ht with rfl | ht
    · exact guarded_step he (h4 _ (by simp))
    · exact h4 t (by simp [ht])
  · rw [hflat]
    intro hd
    -- destroy の後で動けるのは、ほかの task を起こす歩だけである
    rcases effect_destroys he with heq | ⟨rfl, rfl⟩
    · rw [heq] at hd
      obtain ⟨u, w, rfl⟩ := hafter hd
      cases he
      exact h5 hd
    · have hexits := (hsafe (.destroy, k) hact rfl).2
      rw [total_perm _ hperm.flatten, List.flatten_cons, List.cons_append, total_cons] at hexits
      simpa [Act.tally, Tally.add_def, Tally.zero_def] using hexits
  · by_cases hd : 0 < c.shared.destroys
    · obtain ⟨u, w, rfl⟩ := hafter hd
      cases he
      exact h6
    · exact effect_access he (by omega) h6

end

theorem kept_init : Kept (Shared.init : Shared R W) [] := by
  refine ⟨rfl, outputKept_init, rfl, by simp, fun h => ?_, rfl⟩
  cases h

/-- この歩が destroy なら、future はちょうど一度捨てられていて、future が返した output は、
あればちょうど一度取り出されている。 -/
def Released (c : Config (Shared R W) (Thread R W)) (m : Move (Op W) (Choice R)) : Prop :=
  ∀ p ∈ acting c m, p.1 = .destroy →
    c.shared.futureDrops = 1 ∧ c.shared.outputReads = c.shared.readies.length ∧
    c.shared.readies.length ≤ 1

instance [DecidableEq R] [DecidableEq W] (c : Config (Shared R W) (Thread R W))
    (m : Move (Op W) (Choice R)) : Decidable (Released c m) :=
  inferInstanceAs (Decidable (∀ p ∈ acting c m, _ → _ ∧ _))

/-- 条件を守る destroy では、future も output も手放し終わっている。 -/
theorem released_of_kept {c : Config (Shared R W) (Thread R W)} {m : Move (Op W) (Choice R)}
    (h : CoreWith Kept c.shared c.threads) (hsafe : SafeRelease c m) : Released c m := by
  rintro ⟨a, k⟩ hp rfl
  have hpos : 1 ≤ (total Act.tally c.threads.flatten).destroys :=
    le_total_of_mem Tally.destroys (fun _ _ => rfl) (mem_of_acting hp)
  obtain ⟨hgone, hg, hprocs, hbare⟩ := h.gone (by omega)
  obtain ⟨hdead, _⟩ := hsafe _ hp rfl
  have hfits := fits_total c.threads.flatten
  have hduty : (total Act.tally c.threads.flatten).duty = 0 :=
    total_eq_zero Tally.duty rfl (fun _ _ => rfl) (fun b hb => (Act.bare_tally (hbare b hb)).1)
  have houtputs : (total Act.tally c.threads.flatten).outputs = 0 :=
    total_eq_zero Tally.outputs rfl (fun _ _ => rfl) (fun b hb => (Act.bare_tally (hbare b hb)).2)
  -- 終わった proc は idle でないので、future は捨てられている
  have hidle : c.shared.word.flags.idle = false := by
    rcases hdead with hd | hc
    · simp only [State.isCompleted] at hd
      simp [StateFlags.idle, hd]
    · simp only [State.isClosed] at hc
      simp [StateFlags.idle, hc]
  have hhandle : c.shared.word.isHandle = false := by
    simp only [State.held, Bool.not_eq_false', Bool.and_eq_true, Bool.not_eq_true'] at hgone
    exact hgone.2
  -- handle の無い完了した proc は閉じられているので、output は取り出されている
  have hopen : (c.shared.word.isCompleted && !c.shared.word.isClosed) = false := by
    have hout := h.inv.output.handle
    rw [hhandle] at hout
    cases hd : c.shared.word.isCompleted with
    | false => rfl
    | true => simpa using hout hd
  have hfuture := h.inv.future
  rw [FutureKept, hidle, Bool.toNat_false] at hfuture
  obtain ⟨hslot, hreads, hwrites, hreadies, _, _⟩ := h.inv.output
  rw [hopen, Bool.toNat_false, houtputs] at hslot
  have hle := Bool.toNat_le c.shared.word.isCompleted
  have hcompl := hfits.completing
  have hrun := hfits.running
  have hprocs' := hfits.procs
  simp only [Tally.grip] at hg
  refine ⟨?_, ?_, ?_⟩ <;> omega

/--
`ProcHandle::cancel` を呼ばず、destroy がいつも、終わった proc に対して、どの `tick` も span の
中になく、schedule 関数の呼び出しがどれも戻ったときに行われる実行では、destroy は高々一度で、その後で
proc の memory に触る歩は無く、destroy のときには future はちょうど一度捨てられ、output はあれば
ちょうど一度取り出されている。
-/
theorem release_once [DecidableEq W] (ms : List (Move (Op W) (Choice R)))
    (hno : ∀ m ∈ ms, m ≠ .spawn .cancelHandle)
    (hsafe : (proc R W).Obeys SafeRelease ⟨Shared.init, []⟩ ms)
    (c : Config (Shared R W) (Thread R W))
    (hrun : (proc R W).run ⟨Shared.init, []⟩ ms = some c) :
    c.shared.destroys ≤ 1 ∧ c.shared.badAccess = false ∧
    (proc R W).Obeys Released ⟨Shared.init, []⟩ ms := by
  have hobeys := (quiet_of_not_called hno).and hsafe
  have hkept := run_coreWith (fun _ _ h => h.1) kept_symm
    (fun _ _ _ _ hb h => kept_begin hb h.inv)
    (fun _ _ _ _ _ _ _ _ hact hperm hm he h => kept_step hact hperm hm.2 he h)
    hrun hobeys kept_init
  refine ⟨?_, hkept.inv.access, ?_⟩
  · have hdestroy := hkept.inv.destroy
    have hle := Bool.toNat_le (!c.shared.word.held)
    rw [DestroyKept] at hdestroy
    omega
  · exact obeys_coreWith (fun _ _ h => h.1) kept_symm
      (fun _ _ _ _ hb h => kept_begin hb h.inv)
      (fun _ _ _ _ _ _ _ _ hact hperm hm he h => kept_step hact hperm hm.2 he h)
      (fun _ _ h hm => released_of_kept h hm.2) hobeys kept_init

/-- handle を捨ててから走らせ、future が 7 を返す。 -/
def dropThenReady : List (Move (Op Nat) (Choice Nat)) :=
  [.spawn .dropHandle, .exec 0 .go, .spawn .run, .exec 1 .go, .exec 1 .go, .exec 1 (.ready 7),
   .exec 1 .go, .exec 1 .go, .exec 1 .go, .exec 1 .go, .exec 1 .go, .exec 1 .go, .exec 1 .go]

theorem release_once_dropThenReady :
    ∃ c, (proc Nat Nat).run ⟨Shared.init, []⟩ dropThenReady = some c ∧ c.shared.destroys = 1 ∧
      c.shared.badAccess = false ∧ (proc Nat Nat).Obeys Released ⟨Shared.init, []⟩ dropThenReady := by
  have hdestroys : ((proc Nat Nat).run ⟨Shared.init, []⟩ dropThenReady).map
      (fun c => c.shared.destroys) = some 1 := by decide
  obtain ⟨c, hrun, hc⟩ := Option.map_eq_some_iff.mp hdestroys
  obtain ⟨_, haccess, hreleased⟩ := release_once dropThenReady (by decide) (by decide) c hrun
  exact ⟨c, hrun, hc, haccess, hreleased⟩

/-- handle を捨ててから走らせ、future が waker を残さずに Pending を返す。 -/
def dropThenIdle : List (Move (Op Nat) (Choice Nat)) :=
  [.spawn .dropHandle, .exec 0 .go, .spawn .run, .exec 1 .go, .exec 1 .go, .exec 1 .pending,
   .exec 1 .go, .exec 1 .go, .exec 1 .go, .exec 1 .go]

/-- handle を捨ててから schedule 関数に渡す。関数が `LightProc` を入れて戻る前に、ほかの thread がそれを
走らせ、future が 7 を返す。 -/
def dropThenOvertaken : List (Move (Op Nat) (Choice Nat)) :=
  [.spawn .dropHandle, .exec 0 .go, .spawn .schedule, .exec 1 .go, .spawn .pop, .spawn .run,
   .exec 2 .go, .exec 2 .go, .exec 2 (.ready 7), .exec 2 .go, .exec 2 .go, .exec 2 .go, .exec 2 .go,
   .exec 2 .go, .exec 2 .go, .exec 2 .go, .exec 1 .go]

/-- 一つ目では、future は一度も捨てられないまま destroy が行われ、その後で `tick` が span から出る。
二つ目では、destroy の後で schedule 関数の残りが proc の中の閉包を読む。 -/
theorem dropThenIdle_not_released :
    (∀ m ∈ dropThenIdle, m ≠ .spawn .cancelHandle) ∧
    ((proc Nat Nat).run ⟨Shared.init, []⟩ dropThenIdle).map
      (fun c => (c.threads, c.shared.destroys, c.shared.futureDrops, c.shared.badAccess)) =
      some ([[], []], 1, 0, true) ∧
    ¬ (proc Nat Nat).Obeys Released ⟨Shared.init, []⟩ dropThenIdle ∧
    ((proc Nat Nat).run ⟨Shared.init, []⟩ dropThenOvertaken).map
      (fun c => (c.threads, c.shared.destroys, c.shared.futureDrops, c.shared.badAccess)) =
      some ([[], [], []], 1, 1, true) := by
  decide

end FabAccess.Lightproc
