import FabAccess.Infra.Trace
import FabAccess.Lightproc.Contents

/-!
# poll の結果の出どころ

* `Valued` — output と、poll が返す値は、future の poll が返した値である
* `Taken` — output を返した poll は、output を読んだ回数より多くない
* `Reasoned` — handle があるうちに閉じた proc は、cancel されたか、捨てられたか、panic したか、
  output を取られたかのどれかである。`Ready(None)` を返した poll は、その後に始まったものである
-/

namespace FabAccess.Lightproc

open Infra System StateFlags

variable {R W : Type}

/-! ## 値の出どころ -/

/-- 仕事が運んでいる値。 -/
def Act.value : Act R W → Option R
  | .readyDrop v _ | .writeOutput v _ => some v
  | .pollDone _ (.ready v) => v
  | _ => none

structure Valued (sh : Shared R W) (l : Pool R W) : Prop where
  acts : ∀ a ∈ l, ∀ v ∈ a.value, v ∈ sh.readies
  output : ∀ v ∈ sh.output, v ∈ sh.readies
  records : ∀ r ∈ sh.polled, ∀ v, r.result = .ready (some v) → v ∈ sh.readies

/-- `swap_awaiter` の後の仕事は、output を預からない。 -/
theorem finish_value [DecidableEq W] (u : Use W) (old : Option W) :
    ∀ b ∈ (u.finish old : List (Act R W)), b.value = none := by
  cases u with
  | register w => simp [Use.finish, Act.value]
  | notify n => cases n <;> cases old <;> simp [Use.finish, wakeOld, Notifier.loans, Act.value]
  | notifyUnless w' e =>
    cases e <;> cases old <;> simp only [Use.finish] <;> split <;>
      simp [PollEnd.act, wakeOld, Act.value]

section

variable [DecidableEq W] {sh sh' : Shared R W} {a : Act R W} {new : List (Act R W)} {l : Pool R W}

/-- future の返した値の記録は、伸びるだけである。 -/
theorem effect_readies (he : Effect sh a sh' new) : ∃ vs, sh'.readies = sh.readies ++ vs := by
  cases he
  case pollReady v s _ => exact ⟨[v], rfl⟩
  case endLoan l =>
    obtain ⟨_, _, _, _, heq⟩ := Shared.endLoan_eq sh l
    rw [heq]
    exact ⟨[], by simp⟩
  all_goals exact ⟨[], by simp [Shared.touch, Shared.readOutput]⟩

/-- 仕事が預かる値は、future の返したものである。 -/
theorem effect_value (he : Effect sh a sh' new) (hv : ∀ v ∈ a.value, v ∈ sh.readies)
    (ho : ∀ v ∈ sh.output, v ∈ sh.readies) : ∀ b ∈ new, ∀ v ∈ b.value, v ∈ sh'.readies := by
  cases he
  case unlock u old =>
    intro b hb v hv
    rw [finish_value u old b hb] at hv
    cases hv
  case cancelDead c s _ => cases c <;> simp [Loop.afterCancel, Act.value]
  case cancelCall | pollClose => split <;> simp [Act.value]
  case pollReady v s _ => simp [Act.value]
  case readyDrop v s => simpa [Act.value, Shared.touch] using hv
  case pollTake w v hout => simpa [Act.value, hout, Shared.readOutput, Shared.touch] using ho
  all_goals
    simp [Act.value, or_imp, forall_and]

/-- 置き場にあるのは、future の返した値である。 -/
theorem effect_output (he : Effect sh a sh' new) (hv : ∀ v ∈ a.value, v ∈ sh.readies)
    (ho : ∀ v ∈ sh.output, v ∈ sh.readies) : ∀ v ∈ sh'.output, v ∈ sh'.readies := by
  cases he
  case writeOutput => simpa [Act.value, Shared.touch] using hv
  case pollReady v s _ =>
    intro x hx
    exact List.mem_append_left _ (ho x hx)
  case endLoan l =>
    obtain ⟨_, _, _, _, heq⟩ := Shared.endLoan_eq sh l
    rw [heq]
    exact ho
  case takeOutput | pollTake => simp [Shared.readOutput]
  all_goals exact ho

/-- 一歩は、預かる値も置き場の値も future の返したものであることを保つ。 -/
theorem valued_step (he : Effect sh a sh' new) (h : Valued sh (a :: l)) : Valued sh' (new ++ l) := by
  obtain ⟨hacts, hout, hrec⟩ := h
  obtain ⟨vs, hvs⟩ := effect_readies he
  have ha : ∀ v ∈ a.value, v ∈ sh.readies := hacts a (by simp)
  refine ⟨?_, effect_output he ha hout, ?_⟩
  · intro b hb v hv
    rcases List.mem_append.mp hb with hb | hb
    · exact effect_value he ha hout b hb v hv
    · rw [hvs]
      exact List.mem_append_left _ (hacts b (by simp [hb]) v hv)
  · intro r hr v hv
    rw [hvs]
    refine List.mem_append_left _ ?_
    rcases effect_polled he with heq | ⟨w, x, rfl, _, rfl⟩
    · rw [heq] at hr
      exact hrec r hr v hv
    · rcases List.mem_append.mp hr with hr | hr
      · exact hrec r hr v hv
      · rw [List.mem_singleton] at hr
        subst hr
        simp only at hv
        exact ha v (by simp [Act.value, hv])

end

/-- 操作の始まりも、それを保つ。 -/
theorem valued_begin {sh sh' : Shared R W} {ts : List (Thread R W)} {l : Pool R W}
    (hb : Begin sh sh' ts) (h : Valued sh l) : Valued sh' (ts.flatten ++ l) := by
  obtain ⟨hacts, hout, hrec⟩ := h
  cases hb <;> refine ⟨?_, hout, hrec⟩ <;> simpa [Act.value] using hacts

/-! ## 高々一度 -/

def Poll.isTake : Poll R → Bool
  | .ready (some _) => true
  | .ready none | .pending => false

/-- output を読み、まだ返していない poll。 -/
def Act.reading : Act R W → Nat
  | .pollDone _ r => r.isTake.toNat
  | _ => 0

def PollRecord.isTake (r : PollRecord R W) : Bool := r.result.isTake

theorem countP_record (r : PollRecord R W) : [r].countP PollRecord.isTake = r.isTake.toNat := by
  cases h : r.isTake <;> simp [h]

def Taken (sh : Shared R W) (l : Pool R W) : Prop :=
  sh.polled.countP PollRecord.isTake + total Act.reading l ≤ sh.outputReads

section

variable [DecidableEq W] {sh sh' : Shared R W} {a : Act R W} {new : List (Act R W)} {l : Pool R W}

theorem finish_reading (u : Use W) (old : Option W) :
    total Act.reading (u.finish old : List (Act R W)) = 0 := by
  cases u with
  | register w => rfl
  | notify n => cases n <;> cases old <;> rfl
  | notifyUnless w' e =>
    cases e <;> cases old <;> simp only [Use.finish] <;> split <;> rfl

/-- 一歩は、取り出した回数と、poll の記録との対応を保つ。 -/
theorem taken_step (he : Effect sh a sh' new) (h : Taken sh (a :: l)) : Taken sh' (new ++ l) := by
  unfold Taken at h ⊢
  rw [total_append]
  rw [total_cons] at h
  cases he
  case unlock u old =>
    rw [finish_reading]
    exact h
  case endLoan l =>
    obtain ⟨_, _, _, _, heq⟩ := Shared.endLoan_eq sh l
    rw [heq]
    exact h
  case cancelDead c s _ => cases c <;> exact h
  case tickClosed s _ => cases s.isAwaiter <;> exact h
  case readyKeep | readyAbandon | readyClosed | guardClose | cancelCall | cancelDrop | pollClose =>
    cases sh.word.isAwaiter <;> exact h
  case pollDone w r =>
    rw [List.countP_append, countP_record]
    simp only [Act.reading, PollRecord.isTake, total_nil] at h ⊢
    omega
  case takeOutput | pollTake =>
    simp [Act.reading, Poll.isTake, Shared.readOutput, Shared.touch] at h ⊢
    omega
  all_goals exact h

end

/-- 操作の始まりも、その対応を保つ。 -/
theorem taken_begin {sh sh' : Shared R W} {ts : List (Thread R W)} {l : Pool R W}
    (hb : Begin sh sh' ts) (h : Taken sh l) : Taken sh' (ts.flatten ++ l) := by
  unfold Taken at h ⊢
  rw [total_append]
  cases hb <;> simpa [Act.reading] using h

/-! ## 閉じた理由 -/

/-- handle の poll が `Ready(None)` を返してよい理由。 -/
def Closer.voids : Closer → Bool
  | .cancel | .drop | .panic | .take => true
  | .abandoned | .handleDrop | .handleCancel => false

def Closing (sh : Shared R W) : Prop :=
  sh.word.isClosed = true → ∃ cl, sh.closedBy = some cl ∧ (sh.handle ≠ .gone → cl.voids = true)

section

variable [DecidableEq W] {sh sh' : Shared R W} {a : Act R W} {new : List (Act R W)} {C : Tally}

/-- 閉じた後は、閉じたものは変わらない。 -/
theorem effect_closedBy (he : Effect sh a sh' new) (hp : Phased sh (a.tally + C))
    (hc : sh.word.isClosed = true) : sh'.closedBy = sh.closedBy := by
  cases he
  case endLoan l =>
    obtain ⟨_, _, _, _, heq⟩ := Shared.endLoan_eq sh l
    rw [heq]
  case readyAbandon hh =>
    have := hp.closed hc
    simp only [Act.tally, Loop.tally, Tally.add_def] at this
    omega
  case guardClose hc' | cancelCall hc' | cancelDrop hc' | pollClose hc' _ | dropClose hc' |
      dropSchedule hc' _ =>
    rw [hc] at hc'
    cases hc'
  all_goals rfl

/-- 閉じる一歩。 -/
theorem effect_close (he : Effect sh a sh' new) (hh : Handled sh (a.tally + C))
    (hc : sh.word.isClosed = false) (hc' : sh'.word.isClosed = true) :
    ∃ cl, sh'.closedBy = some cl ∧ (sh'.handle ≠ .gone → cl.voids = true) := by
  have hflag := hh.flag
  cases he
  case readyAbandon hn =>
    rw [hn, Bool.toNat_false] at hflag
    have hgone : sh.handle = .gone := HandleUse.eq_gone (by omega)
    exact ⟨.abandoned, rfl, absurd hgone⟩
  case dropClose | dropSchedule =>
    have hle := Bool.toNat_le sh.word.isHandle
    simp only [Act.tally, Loop.tally, Tally.add_def] at hflag
    have hgone : sh.handle = .gone := HandleUse.eq_gone (by omega)
    exact ⟨.handleDrop, rfl, absurd hgone⟩
  case guardClose | cancelCall | cancelDrop | pollClose => exact ⟨_, rfl, fun _ => rfl⟩
  case endLoan l =>
    obtain ⟨_, _, _, _, heq⟩ := Shared.endLoan_eq sh l
    rw [heq] at hc'
    rw [hc] at hc'
    cases hc'
  all_goals
    simp_all [State.isClosed, State.fetchOr, State.fetchAnd, lockMask_eq, unlockMask_eq, Shared.touch,
      Shared.readOutput, SCHEDULED, RUNNING, COMPLETED, HANDLE]

/-- 一歩は、CLOSED と、それを立てたものの記録との対応を保つ。 -/
theorem closing_step (he : Effect sh a sh' new) (hcore : Core sh (a.tally + C)) (h : Closing sh) :
    Closing sh' := by
  intro hc'
  cases hc : sh.word.isClosed with
  | false => exact effect_close he hcore.handled hc hc'
  | true =>
    obtain ⟨cl, hcl, hv⟩ := h hc
    refine ⟨cl, ?_, fun hg => hv (fun hg' => hg (effect_gone he hcore.handled hg'))⟩
    rw [effect_closedBy he hcore.phased hc, hcl]

end

/-- 操作の始まりも、その対応を保つ。 -/
theorem closing_begin {sh sh' : Shared R W} {ts : List (Thread R W)} (hb : Begin sh sh' ts)
    (h : Closing sh) : Closing sh' := by
  cases hb
  case poll w hu | cancelHandle n hu =>
    intro hc
    obtain ⟨cl, hcl, hv⟩ := h hc
    exact ⟨cl, hcl, fun _ => hv (by rw [hu]; simp)⟩
  case dropHandle hu =>
    intro hc
    obtain ⟨cl, hcl, _⟩ := h hc
    exact ⟨cl, hcl, absurd rfl⟩
  all_goals exact h

/-! ## `Ready(None)` -/

/-- 閉じた proc を見て `Ready(None)` を返そうとしている poll。 -/
def Act.refusing : Act R W → Bool
  | .lock (.notifyUnless _ .closed) | .replace (.notifyUnless _ .closed)
  | .unlock (.notifyUnless _ .closed) _ | .pollDone _ (.ready none) => true
  | _ => false

/-- output を取ろうとしているか、取った poll。 -/
def Act.taking : Act R W → Nat
  | .lock (.notifyUnless _ .take) | .replace (.notifyUnless _ .take)
  | .unlock (.notifyUnless _ .take) _ | .pollTake _ | .pollDone _ (.ready (some _)) => 1
  | _ => 0

/-- `i` 番目の poll が `Ready(None)` を返した理由。 -/
def Refused (sh : Shared R W) (i : Nat) : Prop :=
  ∃ cl, sh.closedBy = some cl ∧ cl.voids = true ∧
    (cl = .take → ∃ j < i, ∃ r, sh.polled[j]? = some r ∧ r.isTake = true)

structure Reasoned (sh : Shared R W) (l : Pool R W) : Prop where
  closing : Closing sh
  acts : ∀ a ∈ l, a.refusing = true → sh.word.isClosed = true
  take : sh.closedBy = some .take → 0 < total Act.taking l ∨ ∃ r ∈ sh.polled, r.isTake = true
  records : ∀ i r, sh.polled[i]? = some r → r.result = .ready none →
    sh.word.isClosed = true ∧ Refused sh i

theorem Act.taking_le (a : Act R W) : a.taking ≤ a.tally.polls := by
  unfold Act.taking
  split <;> simp [Act.tally, Use.tally]

/-- output を取り出すのは、handle を poll する仕事だけである。 -/
theorem total_taking_le (l : Pool R W) : total Act.taking l ≤ (total Act.tally l).polls := by
  induction l with
  | nil => exact le_rfl
  | cons a l ih =>
    rw [total_cons, total_cons]
    exact Nat.add_le_add a.taking_le ih

/-- いま `Ready(None)` を返す poll。poll は一度に一つなので、output を取った poll は
もう終わっている。 -/
theorem refused_now {sh : Shared R W} {l : Pool R W} {w : W}
    (hcore : Core sh ((Act.pollDone w (.ready none) : Act R W).tally + total Act.tally l))
    (h : Reasoned sh (.pollDone w (.ready none) :: l)) :
    sh.word.isClosed = true ∧
      Refused { sh with
        handle := .shared 0, polled := sh.polled ++ [⟨w, sh.expected, .ready none⟩] }
        sh.polled.length := by
  have hpolled : sh.handle = .polled := by
    refine hcore.handled.polled ?_
    simp only [Act.tally, Tally.add_def]
    omega
  have hpolls := hcore.handled.polls
  rw [hpolled] at hpolls
  simp only [Act.tally, Tally.add_def, HandleUse.polls] at hpolls
  have hc : sh.word.isClosed = true := h.acts _ List.mem_cons_self rfl
  obtain ⟨cl, hcl, hv⟩ := h.closing hc
  refine ⟨hc, cl, hcl, hv (by rw [hpolled]; simp), fun ht => ?_⟩
  subst ht
  rcases h.take hcl with hpos | ⟨r, hr, hres⟩
  · have hle := total_taking_le l
    rw [total_cons] at hpos
    simp only [Act.taking] at hpos
    omega
  · obtain ⟨j, hj⟩ := List.mem_iff_getElem?.mp hr
    have hlt := (List.getElem?_eq_some_iff.mp hj).1
    exact ⟨j, hlt, r, getElem?_append_of_some hj, hres⟩

section

variable [DecidableEq W] {sh sh' : Shared R W} {a : Act R W} {new : List (Act R W)} {l : Pool R W}

/-- None を返すことになるのは、CLOSED を見た poll だけである。 -/
theorem refusing_step (he : Effect sh a sh' new) (hs : a.Seen sh.word)
    (ha : a.refusing = true → sh.word.isClosed = true) :
    ∀ b ∈ new, b.refusing = true → sh.word.isClosed = true := by
  cases he
  case pollClosed w s h => simpa [Act.refusing] using hs.1 h
  case reloadClosed w h => simpa [Act.refusing] using h
  case lockMore u _ | lockDone u _ | replace u =>
    intro b hb
    rw [List.mem_singleton] at hb
    subst hb
    cases u with
    | notifyUnless w e => cases e <;> exact ha
    | _ => simp [Act.refusing]
  case unlock u old =>
    cases u with
    | register w => simp [Use.finish, Act.refusing]
    | notify n => cases n <;> cases old <;> simp [Use.finish, wakeOld, Notifier.loans, Act.refusing]
    | notifyUnless w' e =>
      cases e with
      | closed =>
        intro b _ _
        exact ha rfl
      | take =>
        cases old <;> simp only [Use.finish] <;> split <;>
          simp [PollEnd.act, wakeOld, Act.refusing]
  case cancelDead c s _ => cases c <;> simp [Loop.afterCancel, Act.refusing]
  case cancelCall | pollClose => split <;> simp [Act.refusing]
  all_goals
    simp [Act.refusing, or_imp, forall_and]

/-- output を取ろうとしている poll は、返すまで取ろうとしている。 -/
theorem taking_step (he : Effect sh a sh' new) :
    a.taking ≤ total Act.taking new ∨ ∃ w v, a = .pollDone w (.ready (some v)) := by
  cases he
  case pollDone w r =>
    cases r with
    | pending => exact Or.inl le_rfl
    | ready v =>
      cases v with
      | none => exact Or.inl le_rfl
      | some v => exact Or.inr ⟨w, v, rfl⟩
  case unlock u old =>
    left
    cases u with
    | register w => rfl
    | notify n => exact Nat.zero_le _
    | notifyUnless w' e =>
      simp only [Use.finish, total_append]
      cases e with
      | closed => exact Nat.zero_le _
      | take => simp [PollEnd.act, Act.taking]
  case lockMore u _ | lockDone u _ | replace u =>
    left
    cases u with
    | notifyUnless w e => cases e <;> exact le_rfl
    | _ => exact Nat.zero_le _
  case pollTake | pollTakeNone => exact Or.inl le_rfl
  all_goals exact Or.inl (Nat.zero_le _)

/-- output を取るために閉じるのは poll である。 -/
theorem take_step (he : Effect sh a sh' new) (h : sh'.closedBy = some .take) :
    sh.closedBy = some .take ∨ 0 < total Act.taking new := by
  cases he
  case pollClose w _ _ =>
    right
    split <;> simp [Act.taking]
  case endLoan l =>
    obtain ⟨_, _, _, _, heq⟩ := Shared.endLoan_eq sh l
    rw [heq] at h
    exact Or.inl h
  all_goals first | exact Or.inl h | cases h

omit [DecidableEq W] in
/-- 記録が後ろに増えても、理由は変わらない。 -/
theorem Refused.mono {sh sh' : Shared R W} {i : Nat} (h : Refused sh i)
    (hc : sh'.closedBy = sh.closedBy) (hi : i ≤ sh.polled.length)
    (hp : ∃ rs, sh'.polled = sh.polled ++ rs) : Refused sh' i := by
  obtain ⟨cl, hcl, hv, ht⟩ := h
  obtain ⟨rs, hrs⟩ := hp
  refine ⟨cl, by rw [hc, hcl], hv, fun htake => ?_⟩
  obtain ⟨j, hj, r, hr, hres⟩ := ht htake
  refine ⟨j, hj, r, ?_, hres⟩
  rw [hrs, List.getElem?_append_left (by omega), hr]

/-- 一歩は、poll が None を返す訳の記録を保つ。 -/
theorem reasoned_step (he : Effect sh a sh' new) (hs : a.Seen sh.word)
    (hcore : Core sh (total Act.tally (a :: l))) (h : Reasoned sh (a :: l)) :
    Reasoned sh' (new ++ l) := by
  rw [total_cons] at hcore
  obtain ⟨hclosing, hacts, htake, hrec⟩ := h
  have hle := effect_le he hs
  have ha := hacts a (by simp)
  refine ⟨closing_step he hcore hclosing, ?_, ?_, ?_⟩
  · intro b hb hr
    rcases List.mem_append.mp hb with hb | hb
    · exact hle.1 (refusing_step he hs ha b hb hr)
    · exact hle.1 (hacts b (by simp [hb]) hr)
  · intro hc
    rw [total_append]
    rcases take_step he hc with hc | hc
    · rcases htake hc with hpos | ⟨r, hr, hres⟩
      · rw [total_cons] at hpos
        rcases taking_step he with hle | ⟨w, v, rfl⟩
        · exact Or.inl (by omega)
        · cases he
          exact Or.inr ⟨_, List.mem_append_right _ (List.mem_singleton_self _), rfl⟩
      · refine Or.inr ⟨r, ?_, hres⟩
        rcases effect_polled he with heq | ⟨w, x, _, _, rfl⟩
        · rw [heq]
          exact hr
        · exact List.mem_append_left _ hr
    · exact Or.inl (by omega)
  · intro i r hi hres
    rcases effect_polled he with heq | ⟨w, x, rfl, rfl, rfl⟩
    · rw [heq] at hi
      obtain ⟨hc, href⟩ := hrec i r hi hres
      exact ⟨hle.1 hc, href.mono (effect_closedBy he hcore.phased hc)
        (List.getElem?_eq_some_iff.mp hi).1.le ⟨[], by simp [heq]⟩⟩
    · simp only at hi
      rcases getElem?_append_singleton hi with hold | ⟨rfl, rfl⟩
      · obtain ⟨hc, href⟩ := hrec i r hold hres
        exact ⟨hc, href.mono rfl (List.getElem?_eq_some_iff.mp hold).1.le ⟨_, rfl⟩⟩
      · simp only at hres
        subst hres
        exact refused_now hcore ⟨hclosing, hacts, htake, hrec⟩

end

/-- 操作の始まりも、それを保つ。 -/
theorem reasoned_begin {sh sh' : Shared R W} {ts : List (Thread R W)} {l : Pool R W}
    (hb : Begin sh sh' ts) (h : Reasoned sh l) : Reasoned sh' (ts.flatten ++ l) := by
  obtain ⟨hclosing, hacts, htake, hrec⟩ := h
  refine ⟨closing_begin hb hclosing, ?_, ?_, ?_⟩
  · cases hb <;> simpa [Act.refusing] using hacts
  · rw [total_append]
    intro hc
    have htake' : 0 < total Act.taking l ∨ ∃ r ∈ sh.polled, r.isTake = true := by
      cases hb <;> exact htake hc
    rcases htake' with hpos | hr
    · exact Or.inl (by omega)
    · right
      cases hb <;> exact hr
  · cases hb <;> exact hrec

end FabAccess.Lightproc
