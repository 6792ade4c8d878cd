import FabAccess.Lightproc.Notify
import Mathlib.Data.List.Induction

/-!
# 完了の知らせは失われない

poll は awaiter を置いてから word を読み直す。読み直したときに生きている proc では、それまでに
awaiter を消したものは無く、AWAITER も立ったままなので（`Registering`）、後から proc を終わらせる
compare-exchange は必ず AWAITER を見る。その操作は、終わらせた一歩のすぐ後に `notify` を行う。

置かれた waker は、起こされたか、proc を終わらせた操作が返るまでの間に起こされる（`Noticed`）。
-/

namespace FabAccess.Lightproc

open Infra System StateFlags

variable {R W : Type}

/-! ## awaiter を置く -/

/-- 置かれた waker が `w` で、AWAITER が立っている。 -/
def Awaiting (sh : Shared R W) (w : W) : Prop :=
  sh.word.isAwaiter = true ∧ sh.awaiter = some w

/-- awaiter を置く poll が、生きている proc で当てにしてよいこと。 -/
def Act.Registers (sh : Shared R W) : Act R W → Prop
  | .replace (.register _) => sh.word.isAwaiter = true
  | .unlock (.register w) _ | .reload w => Awaiting sh w
  | _ => True

structure Registering (sh : Shared R W) (l : Pool R W) : Prop where
  acts : sh.word.dead = false → ∀ a ∈ l, a.Registers sh
  /-- Pending と決めた poll には、返ることだけが残っている -/
  done : ∀ w ∈ sh.registered, ∀ a ∈ l, 0 < a.tally.polls → a = .pollDone w .pending
  pending : ∀ w, .pollDone w .pending ∈ l → sh.registered = some w
  /-- 最後の poll が Pending を返していれば、その waker が置かれている -/
  last : ∀ n, sh.handle = .shared n → ∀ r ∈ sh.polled.getLast?, r.result = .pending →
    sh.registered = some r.waker
  awaiting : ∀ w ∈ sh.registered, sh.handle ≠ .gone → sh.word.dead = false → Awaiting sh w

/-- handle を poll しない仕事は、登録について何も言わない。 -/
theorem Act.registers_of_polls {a : Act R W} (sh : Shared R W) (h : a.tally.polls = 0) :
    a.Registers sh := by
  cases a with
  | replace u =>
    cases u with
    | register w => cases h
    | _ => trivial
  | unlock u old =>
    cases u with
    | register w => cases h
    | _ => trivial
  | reload w => cases h
  | _ => trivial

/-- 登録は、AWAITER が下りず awaiter が変わらない間は保たれる。 -/
theorem Act.Registers.mono {sh sh' : Shared R W} {a : Act R W} (h : a.Registers sh)
    (hflag : sh.word.isAwaiter = true → sh'.word.isAwaiter = true)
    (hw : sh'.awaiter = sh.awaiter) : a.Registers sh' := by
  have hawait : ∀ w, Awaiting sh w → Awaiting sh' w := fun w h => ⟨hflag h.1, hw.trans h.2⟩
  cases a with
  | replace u =>
    cases u with
    | register w => exact hflag h
    | _ => trivial
  | unlock u old =>
    cases u with
    | register w => exact hawait w h
    | _ => trivial
  | reload w => exact hawait w h
  | _ => trivial

/-- handle があれば、それを手放す操作は進行していない。 -/
theorem drops_eq_zero {sh : Shared R W} {l : Pool R W} (h : Handled sh (total Act.tally l))
    (hu : sh.handle ≠ .gone) {a : Act R W} (ha : a ∈ l) : a.tally.drops = 0 := by
  have hflag := h.flag
  have hle := Bool.toNat_le sh.word.isHandle
  have hmem := le_total_of_mem Tally.drops (fun _ _ => rfl) ha
  have hpos : sh.handle.alive ≠ 0 := fun h0 => hu (HandleUse.eq_gone h0)
  omega

section

variable [DecidableEq W] {sh sh' : Shared R W} {a : Act R W} {new : List (Act R W)} {C : Tally}

/-- 登録の記録が変わるのは、生きている proc を見た `reload` だけである。 -/
theorem effect_registered (he : Effect sh a sh' new) :
    sh'.registered = sh.registered ∨
    ∃ w, a = .reload w ∧ sh.word.dead = false ∧ new = [.pollDone w .pending] ∧
      sh' = { sh.touch with registered := some w } := by
  cases he
  case reloadPending w hc hd => exact Or.inr ⟨w, rfl, State.live_iff.mpr ⟨hd, hc⟩, rfl, rfl⟩
  case endLoan l =>
    obtain ⟨_, _, _, _, heq⟩ := Shared.endLoan_eq sh l
    rw [heq]
    exact Or.inl rfl
  all_goals exact Or.inl rfl

/-- 終わった proc が生き返ることはない。 -/
theorem live_of_effect (he : Effect sh a sh' new) (hs : a.Seen sh.word)
    (h : sh'.word.dead = false) : sh.word.dead = false := by
  cases hd : sh.word.dead with
  | false => rfl
  | true =>
    rw [(effect_le he hs).dead hd] at h
    cases h

/-- 生きている proc の awaiter は、poll と handle の drop のほかには変えられない。 -/
theorem effect_awaiter (he : Effect sh a sh' new) (hs : a.Seen sh.word)
    (hclears : a.clears = true → sh.word.dead = true) (hpolls : a.tally.polls = 0)
    (hdrops : a.tally.drops = 0) (hlive : sh'.word.dead = false) :
    (sh.word.isAwaiter = true → sh'.word.isAwaiter = true) ∧ sh'.awaiter = sh.awaiter := by
  have hlive' := live_of_effect he hs hlive
  cases he
  case endLoan l =>
    obtain ⟨_, _, _, _, heq⟩ := Shared.endLoan_eq sh l
    rw [heq]
    exact ⟨id, rfl⟩
  case replace u =>
    cases u with
    | register w => cases hpolls
    | _ =>
      rw [hclears rfl] at hlive'
      cases hlive'
  case unlock u old =>
    cases u with
    | register w => cases hpolls
    | _ =>
      rw [hclears rfl] at hlive'
      cases hlive'
  case dropFirst | dropSchedule => cases hdrops
  all_goals
    refine ⟨fun hflag => ?_, rfl⟩
    simp only [State.isAwaiter] at hflag
    simp [State.isAwaiter, State.fetchOr, State.fetchAnd, Shared.touch, Shared.readOutput, hflag,
      SCHEDULED, RUNNING, COMPLETED, CLOSED, HANDLE]

/-- 積まれる仕事も、登録した waker を置いたままにする。 -/
theorem registers_new (he : Effect sh a sh' new) (h : a.Registers sh) :
    ∀ b ∈ new, b.Registers sh' := by
  cases he
  case lockDone u _ =>
    cases u with
    | register w => simp [Act.Registers, State.isAwaiter, State.fetchOr, lockMask_eq, Use.new]
    | _ => simp [Act.Registers]
  case replace u =>
    cases u with
    | register w => simpa [Act.Registers, Awaiting, Use.new, Shared.touch] using h
    | _ => simp [Act.Registers]
  case unlock u old =>
    cases u with
    | register w =>
      simpa [Use.finish, Act.Registers, Awaiting, State.isAwaiter, State.fetchAnd, unlockMask_eq,
        Use.new, Shared.touch] using h
    | notify n =>
      cases n <;> cases old <;> simp [Use.finish, wakeOld, Notifier.loans, Act.Registers]
    | notifyUnless w' e =>
      cases e <;> cases old <;> simp only [Use.finish] <;> split <;>
        simp [PollEnd.act, wakeOld, Act.Registers]
  case cancelDead c s _ => cases c <;> simp [Loop.afterCancel, Act.Registers]
  case cancelCall | pollClose => split <;> simp [Act.Registers]
  all_goals
    simp [Act.Registers, or_imp, forall_and]

/-- Pending と決める一歩。 -/
theorem pending_new (he : Effect sh a sh' new) {w : W} (h : .pollDone w .pending ∈ new) :
    sh'.registered = some w := by
  revert h
  cases he
  case reloadPending => simpa using Eq.symm
  case unlock u old =>
    cases u with
    | register w => simp [Use.finish]
    | notify n => cases n <;> cases old <;> simp [Use.finish, wakeOld, Notifier.loans]
    | notifyUnless w' e =>
      cases e <;> cases old <;> simp only [Use.finish] <;> split <;>
        simp [PollEnd.act, wakeOld]
  case cancelDead c s _ => cases c <;> simp [Loop.afterCancel]
  case cancelCall | pollClose => split <;> simp
  all_goals simp

/-- handle が poll から戻るのは `pollDone` だけである。 -/
theorem shared_of_effect (he : Effect sh a sh' new) {n : Nat} (h : sh'.handle = .shared n) :
    (∃ m, sh.handle = .shared m) ∨ ∃ w r, a = .pollDone w r := by
  cases he
  case pollDone w r => exact Or.inr ⟨w, r, rfl⟩
  case endLoan l =>
    cases l with
    | handle =>
      simp only [Shared.endLoan] at h
      split at h
      · next m hm => exact Or.inl ⟨m, hm⟩
      · exact Or.inl ⟨n, h⟩
    | proc | waker | tick => exact Or.inl ⟨n, h⟩
  all_goals exact Or.inl ⟨n, h⟩

/-- 一歩は、登録された waker が awaiter に置かれていることを保つ。 -/
theorem registering_step {l : Pool R W} (he : Effect sh a sh' new) (hs : a.Seen sh.word)
    (hcore : Core sh (total Act.tally (a :: l)))
    (hclears : a.clears = true → sh.word.dead = true) (h : Registering sh (a :: l)) :
    Registering sh' (new ++ l) := by
  have hidle : sh.handle ≠ .polled → a.tally.polls = 0 := by
    intro hu
    by_contra hne
    exact hu (hcore.polled_of_mem List.mem_cons_self (Nat.pos_of_ne_zero hne))
  have hdrops : sh.handle ≠ .gone → a.tally.drops = 0 :=
    fun hu => drops_eq_zero hcore.handled hu (by simp)
  have hsame : ∀ b ∈ l, 0 < b.tally.polls → sh'.registered = sh.registered := by
    intro b hb hpos
    rcases effect_registered he with heq | ⟨w, rfl, _⟩
    · exact heq
    · have := hcore.polls_alone Nat.one_pos hb
      omega
  refine ⟨?_, ?_, ?_, ?_, ?_⟩
  -- 途中の poll の言い分。動いたのがほかの操作なら、awaiter は変わっていない
  · intro hlive
    refine List.forall_mem_append.mpr ⟨?_, fun b hb => ?_⟩
    · exact registers_new he (h.acts (live_of_effect he hs hlive) a (by simp))
    · by_cases hpos : b.tally.polls = 0
      · exact b.registers_of_polls sh' hpos
      · have hu : sh.handle = .polled :=
          hcore.polled_of_mem (List.mem_cons_of_mem a hb) (Nat.pos_of_ne_zero hpos)
        have ha : a.tally.polls = 0 := by
          by_contra hne
          exact hpos (hcore.polls_alone (Nat.pos_of_ne_zero hne) hb)
        obtain ⟨hflag, hw⟩ :=
          effect_awaiter he hs hclears ha (hdrops (by rw [hu]; simp)) hlive
        exact (h.acts (live_of_effect he hs hlive) b (by simp [hb])).mono hflag hw
  -- 登録し終えた poll に残るのは Pending を返す仕事だけである
  · intro w hw
    refine List.forall_mem_append.mpr ⟨fun b hb hpos => ?_, fun b hb hpos => ?_⟩
    · rcases effect_registered he with heq | ⟨w', rfl, _, rfl, rfl⟩
      · rw [heq] at hw
        by_cases ha : a.tally.polls = 0
        · have := polls_of_mem_new he ha hb
          omega
        · have := h.done w hw a (by simp) (by omega)
          subst this
          cases he
          cases hb
      · cases hw
        exact List.mem_singleton.mp hb
    · rw [hsame b hb hpos] at hw
      exact h.done w hw b (by simp [hb]) hpos
  · intro w hw
    rcases List.mem_append.mp hw with hw | hw
    · exact pending_new he hw
    · rw [hsame _ hw Nat.one_pos]
      exact h.pending w (by simp [hw])
  -- 返った poll の記録。handle が返るのは `pollDone` の歩に限る
  · intro n hn r hr hres
    rcases shared_of_effect he hn with ⟨m, hm⟩ | ⟨w, x, rfl⟩
    · have ha := hidle (by rw [hm]; simp)
      rcases effect_polled he with hp | ⟨w, x, rfl, _⟩
      · rcases effect_registered he with heq | ⟨w, rfl, _⟩
        · rw [hp] at hr
          rw [heq]
          exact h.last m hm r hr hres
        · cases ha
      · cases ha
    · cases he
      simp only [List.getLast?_concat, Option.mem_def, Option.some.injEq] at hr
      subst hr
      simp only at hres
      subst hres
      exact h.pending w (by simp)
  -- 登録された waker は、proc が生きていて handle がある限り置かれたままである
  · intro w hw hg hlive
    have hlive' := live_of_effect he hs hlive
    rcases effect_registered he with heq | ⟨w', rfl, _, _, rfl⟩
    · rw [heq] at hw
      have hg' : sh.handle ≠ .gone := fun hgone => by
        rw [total_cons] at hcore
        exact hg (effect_gone he hcore.handled hgone)
      have hold := h.awaiting w hw hg' hlive'
      by_cases ha : a.tally.polls = 0
      · obtain ⟨hflag, haw⟩ := effect_awaiter he hs hclears ha (hdrops hg') hlive
        exact ⟨hflag hold.1, haw.trans hold.2⟩
      · have := h.done w hw a (by simp) (by omega)
        subst this
        cases he
        exact hold
    · cases hw
      exact h.acts hlive' _ List.mem_cons_self

end

/-- 操作の始まりも、それを保つ。 -/
theorem registering_begin {sh sh' : Shared R W} {ts : List (Thread R W)} {l : Pool R W}
    (hb : Begin sh sh' ts) (hcore : Core sh (total Act.tally l)) (h : Registering sh l) :
    Registering sh' (ts.flatten ++ l) := by
  obtain ⟨h1, h2, h3, h4, h5⟩ := h
  cases hb
  case poll w hu =>
    have hpolls := hcore.handled.polls
    rw [hu] at hpolls
    simp only [HandleUse.polls] at hpolls
    refine ⟨fun hlive => List.forall_mem_append.mpr ⟨by simp [Act.Registers], h1 hlive⟩, ?_,
      fun w' hw' => ?_, ?_, ?_⟩
    · intro w' hw'
      cases hw'
    · simp only [List.flatten_cons, List.flatten_nil, List.append_nil, List.mem_append,
        List.mem_singleton, reduceCtorEq, false_or] at hw'
      have := le_total_of_mem Tally.polls (fun _ _ => rfl) hw'
      simp only [Act.tally] at this
      omega
    · intro n hn
      cases hn
    · intro w' hw'
      cases hw'
  case dropHandle hu =>
    refine ⟨fun hlive => List.forall_mem_append.mpr ⟨by simp [Act.Registers], h1 hlive⟩,
      fun w hw => List.forall_mem_append.mpr ⟨by simp [Act.tally, Loop.tally], h2 w hw⟩,
      by simpa using h3, ?_, ?_⟩
    · intro n hn
      cases hn
    · intro w _ hg
      exact absurd rfl hg
  case cancelHandle n hu =>
    refine ⟨fun hlive => List.forall_mem_append.mpr ⟨by simp [Act.Registers], h1 hlive⟩,
      fun w hw => List.forall_mem_append.mpr ⟨by simp [Act.tally, Loop.tally], h2 w hw⟩,
      by simpa using h3, fun _ _ => h4 n hu, fun w hw _ => h5 w hw (by rw [hu]; simp)⟩
  all_goals
    refine ⟨fun hlive => List.forall_mem_append.mpr ⟨by simp [Act.Registers], h1 hlive⟩,
      fun w hw => List.forall_mem_append.mpr
        ⟨by simp [Act.tally, Loop.tally, Loan.tally], h2 w hw⟩, by simpa using h3, h4, h5⟩

/-! ## 知らせる操作 -/

/-- proc を終わらせた操作の `notify`。 -/
def Notifier.ends : Notifier → Bool
  | .call | .last => true
  | .tick | .handle => false

def Use.ends : Use W → Bool
  | .notify n => n.ends
  | .register _ | .notifyUnless _ _ => false

/-- proc を終わらせた操作が、その一歩の後に行う `notify` の仕事。 -/
def Act.ends : Act R W → Bool
  | .lock u | .replace u | .unlock u _ | .wakeAwaiter u _ => u.ends
  | _ => false

/-- proc を終わらせた操作の、これから `w` を起こす仕事。 -/
def Act.Owes (sh : Shared R W) (w : W) : Act R W → Prop
  | .lock (.notify n) | .replace (.notify n) => n.ends = true ∧ sh.awaiter = some w
  | .unlock (.notify n) old => n.ends = true ∧ old = some w
  | .wakeAwaiter (.notify n) x => n.ends = true ∧ x = w
  | _ => False

/-- proc を終わらせた操作の残りで、`w` を起こす。その前に残りうるのは future を捨てることだけである。 -/
def Owing (sh : Shared R W) (w : W) : Thread R W → Prop
  | [] => False
  | a :: r => a.Owes sh w ∨ (a = .dropFuture ∧ Owing sh w r)

/-- 知らせる借りのある操作には、proc を終わらせた仕事が残っている。 -/
theorem Owing.ends {sh : Shared R W} {w : W} {t : Thread R W} (h : Owing sh w t) :
    ∃ a ∈ t, a.ends = true := by
  induction t with
  | nil => exact h.elim
  | cons a r ih =>
    rcases h with ha | ⟨_, hr⟩
    · refine ⟨a, List.mem_cons_self, ?_⟩
      cases a with
      | lock u | replace u | unlock u old | wakeAwaiter u x =>
        cases u with
        | notify n => exact ha.1
        | _ => exact ha.elim
      | _ => exact ha.elim
    · obtain ⟨b, hb, hends⟩ := ih hr
      exact ⟨b, List.mem_cons_of_mem _ hb, hends⟩

/-- 置かれた waker は、終わった proc では、起こされたか、終わらせた操作が起こす。 -/
def Noticed (sh : Shared R W) (l : List (Thread R W)) : Prop :=
  ∀ w ∈ sh.registered, sh.handle ≠ .gone → sh.word.dead = true →
    w ∈ sh.woken ∨ ∃ t ∈ l, Owing sh w t

/-- 借りは、awaiter が変わらなければ変わらない。 -/
theorem Owing.congr {sh sh' : Shared R W} {w : W} {t : Thread R W} (h : Owing sh w t)
    (hw : sh'.awaiter = sh.awaiter) : Owing sh' w t := by
  induction t with
  | nil => exact h
  | cons a r ih =>
    refine h.imp (fun ha => ?_) (fun hr => ⟨hr.1, ih hr.2⟩)
    cases a with
    | lock u | replace u =>
      cases u with
      | notify n => exact ⟨ha.1, hw.trans ha.2⟩
      | _ => exact ha
    | unlock u old => cases u <;> exact ha
    | wakeAwaiter u x => cases u <;> exact ha
    | _ => exact ha

/-- `notify` の途中でない操作が `w` を起こすのは、awaiter によらない。 -/
theorem Owing.of_none {sh sh' : Shared R W} {w : W} {t : Thread R W} (h : Owing sh w t)
    (ht : ∀ a ∈ t, a.notifier = none) : Owing sh' w t := by
  induction t with
  | nil => exact h
  | cons a r ih =>
    have hn := ht a (by simp)
    refine h.imp (fun ha => ?_) (fun hr => ⟨hr.1, ih hr.2 (fun b hb => ht b (by simp [hb]))⟩)
    cases a with
    | lock u | replace u =>
      cases u with
      | notify n => cases hn
      | _ => exact ha
    | unlock u old => cases u <;> exact ha
    | wakeAwaiter u x => cases u <;> exact ha
    | _ => exact ha

section

variable [DecidableEq W] {sh sh' : Shared R W} {a : Act R W} {new : List (Act R W)}

/-- 起こされた記録は消えない。 -/
theorem effect_woken (he : Effect sh a sh' new) {w : W} (h : w ∈ sh.woken) : w ∈ sh'.woken := by
  cases he
  case wakeAwaiter => exact List.mem_cons_of_mem _ h
  case endLoan l =>
    obtain ⟨_, _, _, _, heq⟩ := Shared.endLoan_eq sh l
    rw [heq]
    exact h
  all_goals exact h

/-- awaiter が変わるのは、lock を取った入れ替えだけである。 -/
theorem effect_replace (he : Effect sh a sh' new) :
    sh'.awaiter = sh.awaiter ∨ ∃ u, a = .replace u := by
  cases he
  case replace u => exact Or.inr ⟨u, rfl⟩
  case endLoan l =>
    obtain ⟨_, _, _, _, heq⟩ := Shared.endLoan_eq sh l
    rw [heq]
    exact Or.inl rfl
  all_goals exact Or.inl rfl

/-- `w` を起こす操作は、一歩進むと `w` を起こしたか、まだ起こす途中である。 -/
theorem owing_step {w : W} {r : Thread R W} (he : Effect sh a sh' new) (h : Owing sh w (a :: r)) :
    w ∈ sh'.woken ∨ Owing sh' w (new ++ r) := by
  rcases h with ha | ⟨rfl, hr⟩
  · cases he
    case lockMore u _ | lockDone u _ =>
      cases u with
      | notify n => exact Or.inr (Or.inl ha)
      | _ => exact ha.elim
    case replace u =>
      cases u with
      | notify n => exact Or.inr (Or.inl ha)
      | _ => exact ha.elim
    case unlock u old =>
      cases u with
      | notify n =>
        obtain ⟨hn, rfl⟩ := ha
        exact Or.inr (Or.inl ⟨hn, rfl⟩)
      | _ => exact ha.elim
    case wakeAwaiter u x =>
      cases u with
      | notify n =>
        obtain ⟨_, rfl⟩ := ha
        exact Or.inl List.mem_cons_self
      | _ => exact ha.elim
    all_goals exact ha.elim
  · cases he
    exact Or.inr (hr.congr rfl)

/-- 終わらせた操作の `notify` は、その続きか、生きている proc を終わらせる一歩が積む。 -/
theorem ends_new {C : Tally} (he : Effect sh a sh' new) (hp : Phased sh (a.tally + C)) {b : Act R W}
    (hb : b ∈ new) (hends : b.ends = true) :
    a.ends = true ∨ (sh.word.dead = false ∧ sh'.word.dead = true) := by
  revert b
  cases he
  case lockMore | lockDone | replace =>
    intro b hb hends
    rw [List.mem_singleton] at hb
    subst hb
    exact Or.inl hends
  case unlock u old =>
    cases u with
    | register w => simp [Use.finish, Act.ends]
    | notify n =>
      cases n <;> cases old <;>
        simp [Use.finish, wakeOld, Notifier.loans, Act.ends, Use.ends, Notifier.ends]
    | notifyUnless w' e =>
      cases e <;> cases old <;> simp only [Use.finish] <;> split <;>
        simp [PollEnd.act, wakeOld, Act.ends, Use.ends]
  case tickClosed s _ =>
    simp [Act.ends, Use.ends, Notifier.ends, or_imp, forall_and]
  -- 走っている `tick` が終わらせる歩では、proc はその直前まで生きている
  case readyKeep | readyAbandon | readyClosed | guardClose =>
    intro b _ _
    refine Or.inr ⟨State.live_iff.mpr ⟨hp.not_completed ?_, hp.not_closed ?_⟩, ?_⟩
    · simp only [Act.tally, Loop.tally, Tally.add_def]
      omega
    · simp only [Act.tally, Loop.tally, Tally.add_def]
      omega
    · simp [State.dead, State.isCompleted, State.isClosed, COMPLETED, CLOSED]
  case cancelCall hd hc | cancelDrop hd hc =>
    intro b _ _
    refine Or.inr ⟨State.live_iff.mpr ⟨hd, hc⟩, ?_⟩
    simp [State.dead, State.isClosed, CLOSED]
  case cancelDead c s _ => cases c <;> simp [Loop.afterCancel, Act.ends]
  case pollClose => split <;> simp [Act.ends, Use.ends]
  all_goals simp [Act.ends, Use.ends, or_imp, forall_and]

/-- 置かれた waker がある生きた proc を終わらせる一歩は、それを起こす仕事を積む。 -/
theorem owing_end {w : W} {r : Thread R W} (he : Effect sh a sh' new)
    (hh : sh.word.isHandle = true) (hdrops : a.tally.drops = 0) (hlive : sh.word.dead = false)
    (hdead : sh'.word.dead = true) (h : Awaiting sh w) : Owing sh' w (new ++ r) := by
  obtain ⟨hflag, hw⟩ := h
  obtain ⟨hd, hc⟩ := State.live_iff.mp hlive
  cases he
  -- 終わらせる歩は AWAITER を見て `notify` を積む。handle がある限り、残りの歩は起こらない
  case readyKeep | cancelDrop =>
    rw [hflag]
    exact Or.inl ⟨rfl, hw⟩
  case cancelCall =>
    rw [hflag]
    exact Or.inl ⟨rfl, hw⟩
  case guardClose =>
    rw [hflag]
    exact Or.inr ⟨rfl, Or.inl ⟨rfl, hw⟩⟩
  case readyAbandon hh' =>
    rw [hh] at hh'
    cases hh'
  case readyClosed hc' =>
    rw [hc] at hc'
    cases hc'
  case pollClose hd' | dropClose hd' _ =>
    rw [hd] at hd'
    cases hd'
  case dropFirst | dropSchedule => cases hdrops
  case endLoan l =>
    obtain ⟨_, _, _, _, heq⟩ := Shared.endLoan_eq sh l
    rw [heq, hlive] at hdead
    cases hdead
  all_goals
    simp_all [State.dead, State.isCompleted, State.isClosed, State.fetchOr, State.fetchAnd,
      lockMask_eq, unlockMask_eq, Shared.touch, Shared.readOutput, SCHEDULED, RUNNING, HANDLE]

/-- 一歩は、登録した waker が起こされたか、知らせる操作が残っていることを保つ。 -/
theorem noticed_step {r : Thread R W} {rest : List (Thread R W)} (he : Effect sh a sh' new)
    (hcore : Core sh (total Act.tally ((a :: r) :: rest).flatten))
    (hnot : Notifying sh ((a :: r) :: rest).flatten)
    (hreg : Registering sh ((a :: r) :: rest).flatten) (h : Noticed sh ((a :: r) :: rest)) :
    Noticed sh' ((new ++ r) :: rest) := by
  intro w hw hg hdead
  rw [List.flatten_cons, List.cons_append] at hcore hnot hreg
  have hhand := hcore.handled
  rw [total_cons] at hhand
  have hg' : sh.handle ≠ .gone := fun hgone => hg (effect_gone he hhand hgone)
  rcases effect_registered he with heq | ⟨_, rfl, hlive, _, rfl⟩
  · rw [heq] at hw
    cases hd : sh.word.dead with
    | false =>
      -- いま終わった。置かれた waker は残っている
      have hh : sh.word.isHandle = true := by
        have hflag := hcore.handled.flag
        cases hh : sh.word.isHandle with
        | true => rfl
        | false =>
          rw [hh, Bool.toNat_false] at hflag
          exact absurd (HandleUse.eq_gone (by omega)) hg'
      exact Or.inr ⟨_, List.mem_cons_self, owing_end he hh (drops_eq_zero hcore.handled hg' (by simp))
        hd hdead (hreg.awaiting w hw hg' hd)⟩
    | true =>
      rcases h w hw hg' hd with hwoken | ⟨t, ht, ho⟩
      · exact Or.inl (effect_woken he hwoken)
      · rcases List.mem_cons.mp ht with rfl | hmem
        · exact (owing_step he ho).imp id (fun h => ⟨_, List.mem_cons_self, h⟩)
        · refine Or.inr ⟨t, List.mem_cons_of_mem _ hmem, ?_⟩
          rcases effect_replace he with haw | ⟨u, rfl⟩
          · exact ho.congr haw
          · -- 入れ替えたのは、ただ一つの `notify` である
            refine ho.of_none (fun b hb => ?_)
            have hone := hnot.one
            have ha : (Act.replace u : Act R W).notices = 1 := by
              cases u with
              | notify n => rfl
              | register w' => cases hreg.done w hw _ List.mem_cons_self Nat.one_pos
              | notifyUnless w' e =>
                cases e <;> cases hreg.done w hw _ List.mem_cons_self Nat.one_pos
            rw [total_cons, total_append] at hone
            have hrest : total Act.notices rest.flatten = 0 := by omega
            exact notices_eq_zero_iff.mp hrest b (List.mem_flatten.mpr ⟨t, hmem, hb⟩)
  · have hdead' : sh.word.dead = true := hdead
    rw [hlive] at hdead'
    cases hdead'

end

/-- 操作の始まりも、それを保つ。 -/
theorem noticed_begin {sh sh' : Shared R W} {ts l : List (Thread R W)} (hb : Begin sh sh' ts)
    (h : Noticed sh l) : Noticed sh' (ts ++ l) := by
  have hweak : Noticed sh (ts ++ l) := fun w hw hg hd =>
    (h w hw hg hd).imp id (fun ⟨t, ht, ho⟩ => ⟨t, List.mem_append_right _ ht, ho⟩)
  cases hb
  case poll w hu =>
    intro w' hw'
    cases hw'
  case dropHandle hu =>
    intro w _ hg
    exact absurd rfl hg
  case cancelHandle n hu =>
    intro w hw _ hd
    exact (hweak w hw (by rw [hu]; simp) hd).imp id (fun ⟨t, ht, ho⟩ => ⟨t, ht, ho.congr rfl⟩)
  all_goals
    intro w hw hg hd
    exact (hweak w hw hg hd).imp id (fun ⟨t, ht, ho⟩ => ⟨t, ht, ho.congr rfl⟩)

/-! ## 終わらせた操作 -/

/-- 生きていた proc は、実行 `ms` の中の `k` 番目の操作の一歩で終わった。 -/
def EndedBy [DecidableEq W] (ms : List (Move (Op W) (Choice R))) (k : Nat) : Prop :=
  ∃ ms₁ ch ms₂ c₁ c₂, ms = ms₁ ++ .exec k ch :: ms₂ ∧
    (proc R W).run ⟨Shared.init, []⟩ ms₁ = some c₁ ∧
    (proc R W).step c₁ (.exec k ch) = some c₂ ∧
    c₁.shared.word.dead = false ∧ c₂.shared.word.dead = true

theorem EndedBy.concat [DecidableEq W] {ms : List (Move (Op W) (Choice R))} {k : Nat}
    (h : EndedBy ms k) (m : Move (Op W) (Choice R)) : EndedBy (ms ++ [m]) k := by
  obtain ⟨ms₁, ch, ms₂, c₁, c₂, rfl, h1, h2, h3, h4⟩ := h
  exact ⟨ms₁, ch, ms₂ ++ [m], c₁, c₂, by simp, h1, h2, h3, h4⟩

/-- 始まったばかりの操作は、まだ何も終わらせていない。 -/
theorem ends_spawn {sh sh' : Shared R W} {ts : List (Thread R W)} (hb : Begin sh sh' ts) :
    ∀ t ∈ ts, ∀ a ∈ t, a.ends = false := by
  cases hb <;> simp [Act.ends]

theorem endedBy_of_ends [DecidableEq W] (ms : List (Move (Op W) (Choice R)))
    {c : Config (Shared R W) (Thread R W)} (hrun : (proc R W).run ⟨Shared.init, []⟩ ms = some c)
    (hquiet : (proc R W).Obeys Quiet ⟨Shared.init, []⟩ ms) {k : Nat} {t : Thread R W}
    (ht : c.threads[k]? = some t) {a : Act R W} (ha : a ∈ t) (hends : a.ends = true) :
    EndedBy ms k := by
  -- 最後の一歩から遡る。`notify` の仕事は、その操作の前の仕事から続いたか、いま終わらせて積まれた
  induction ms using List.reverseRecOn generalizing c t a with
  | nil =>
    cases hrun
    simp at ht
  | append_singleton ms m ih =>
    obtain ⟨d, hd, hstep⟩ := run_concat hrun
    obtain ⟨hquiet', hm⟩ := hquiet.of_concat hd
    cases m with
    | spawn op =>
      obtain ⟨sh, ts, hs, rfl⟩ := step_spawn hstep
      simp only at ht
      rcases Nat.lt_or_ge k d.threads.length with hlt | hge
      · rw [List.getElem?_append_left hlt] at ht
        exact (ih hd hquiet' ht ha hends).concat _
      · rw [List.getElem?_append_right hge] at ht
        rw [ends_spawn (spawn_begin (spawn_eq_some hs).2) t (List.mem_of_getElem? ht) a ha] at hends
        cases hends
    | exec n ch =>
      obtain ⟨t₀, sh, t', rest, hget, hn, rfl, hperm, _⟩ := step_exec hstep
      obtain ⟨a₀, r, new, rfl, _, he, rfl⟩ := next_eq_some hn
      have heff := exec_effect he (hm (a₀, ch) (by simp [acting, hget]))
      by_cases hk : n = k
      · subst hk
        have hlt := (List.getElem?_eq_some_iff.mp hget).1
        simp only [List.getElem?_set_self hlt, Option.some.injEq] at ht
        subst ht
        rcases List.mem_append.mp ha with ha | ha
        · have hcore := core_run hd hquiet'
          rw [total_perm _ hperm.flatten, List.flatten_cons, List.cons_append, total_cons] at hcore
          rcases ends_new heff hcore.phased ha hends with hends | ⟨hlive, hdead⟩
          · exact (ih hd hquiet' hget List.mem_cons_self hends).concat _
          · exact ⟨ms, ch, [], d, _, rfl, hd, hstep, hlive, hdead⟩
        · exact (ih hd hquiet' hget (List.mem_cons_of_mem _ ha) hends).concat _
      · simp only [List.getElem?_set_ne hk] at ht
        exact (ih hd hquiet' ht ha hends).concat _

/-! ## 知らせる操作だけが進む実行 -/

/-- 操作 `t` は、それだけで進んで `w` を起こす。 -/
def Wakes [DecidableEq W] (sh : Shared R W) (t : Thread R W) (w : W) : Prop :=
  ∃ sh' t', (proc R W).Solo .go (sh, t) (sh', t') ∧ w ∈ sh'.woken

section

variable [DecidableEq W] {sh sh' : Shared R W} {t t' r : Thread R W} {w : W} {n : Notifier}

/-- 一歩を先に踏む。 -/
theorem Wakes.cons (sh' : Shared R W) (t' : Thread R W) (hn : next sh t .go = some (sh', t'))
    (h : Wakes sh' t' w) : Wakes sh t w := by
  obtain ⟨sh₁, t₁, hsolo, hw⟩ := h
  exact ⟨sh₁, t₁, Solo.cons (S := proc R W) hn hsolo, hw⟩

/-- 取り出した waker は、次の一歩で起こされる。 -/
theorem wakes_wake {u : Use W} (hh : sh.halted = false) : Wakes sh (.wakeAwaiter u w :: r) w := by
  refine ⟨{ sh with woken := w :: sh.woken }, r, Solo.cons (S := proc R W) ?_ (Solo.refl _),
    List.mem_cons_self⟩
  simp [proc, next, hh, exec]

/-- 入れ替えて取り出した waker は、lock を離してから起こされる。 -/
theorem wakes_unlock (hh : sh.halted = false) : Wakes sh (.unlock (.notify n) (some w) :: r) w := by
  refine Wakes.cons
    { sh.touch with word := sh.word.fetchAnd (unlockMask (none : Option W)) }
    (.wakeAwaiter (.notify n) w :: (n.loans ++ r)) ?_ (wakes_wake hh)
  simp [next, hh, exec, Use.new, Use.finish, wakeOld]

/-- lock を取れば、登録された waker を取り出して起こす。 -/
theorem wakes_replace (hh : sh.halted = false) (hw : sh.awaiter = some w) :
    Wakes sh (.replace (.notify n) :: r) w := by
  refine Wakes.cons { sh.touch with awaiter := none }
    (.unlock (.notify n) (some w) :: r) ?_ (wakes_unlock hh)
  simp [next, hh, exec, Use.new, hw]

/-- lock を待つ所からでも、ほかに誰も動かなければ起こす。 -/
theorem wakes_lock (hh : sh.halted = false) (hw : sh.awaiter = some w) :
    Wakes sh (.lock (.notify n) :: r) w := by
  have hlocked : ∀ sh : Shared R W, sh.halted = false → sh.awaiter = some w →
      sh.word.isLocked = true → Wakes sh (.lock (.notify n) :: r) w := by
    intro sh hh hw hl
    refine Wakes.cons
      { sh.touch with word := sh.word.fetchOr (lockMask (none : Option W)) }
      (.replace (.notify n) :: r) ?_ (wakes_replace hh hw)
    simp [next, hh, exec, Use.new, hl]
  cases hl : sh.word.isLocked with
  | true => exact hlocked sh hh hw hl
  | false =>
    refine Wakes.cons
      { sh.touch with word := sh.word.fetchOr (lockMask (none : Option W)) }
      (.lock (.notify n) :: r) ?_ (hlocked _ hh hw ?_)
    · simp [next, hh, exec, Use.new, hl]
    · simp [State.isLocked, State.fetchOr, lockMask_eq]

/-- 借りのある操作だけを進めれば、登録した waker は起こされる。 -/
theorem Owing.wakes (h : Owing sh w t) (hh : sh.halted = false) : Wakes sh t w := by
  -- `notify` の四つの歩のどこにいても、そこからだけで起こすところまで進める
  induction t generalizing sh with
  | nil => exact h.elim
  | cons a r ih =>
    rcases h with ha | ⟨rfl, hr⟩
    · cases a with
      | lock u =>
        cases u with
        | notify n => exact wakes_lock hh ha.2
        | _ => exact ha.elim
      | replace u =>
        cases u with
        | notify n => exact wakes_replace hh ha.2
        | _ => exact ha.elim
      | unlock u old =>
        cases u with
        | notify n =>
          obtain ⟨_, rfl⟩ := ha
          exact wakes_unlock hh
        | _ => exact ha.elim
      | wakeAwaiter u x =>
        cases u with
        | notify n =>
          obtain ⟨_, rfl⟩ := ha
          exact wakes_wake hh
        | _ => exact ha.elim
      | _ => exact ha.elim
    · refine Wakes.cons { sh.touch with futureDrops := sh.futureDrops + 1 } r ?_
        (ih (hr.congr rfl) hh)
      simp [next, hh, exec]

end

/-! ## 実行の全体 -/

structure Announcing (sh : Shared R W) (l : List (Thread R W)) : Prop where
  notifying : Notifying sh l.flatten
  registering : Registering sh l.flatten
  noticed : Noticed sh l

/-- 不変条件は、進行中の操作の並び順によらない。 -/
theorem announcing_symm : Symm (Announcing : Shared R W → List (Thread R W) → Prop) := by
  intro sh l l' hp h
  have hmem : ∀ a, a ∈ l'.flatten → a ∈ l.flatten := fun a => hp.flatten.mem_iff.mpr
  obtain ⟨⟨h1, h2, h3, h4⟩, ⟨k1, k2, k3, k4, k5⟩, hn⟩ := h
  rw [total_perm _ hp.flatten] at h2 h3
  refine ⟨⟨fun a ha => h1 a (hmem a ha), h2, fun a ha => h3 a (hmem a ha),
    fun a ha => h4 a (hmem a ha)⟩, ⟨fun hl a ha => k1 hl a (hmem a ha),
    fun w hw a ha => k2 w hw a (hmem a ha), fun w hw => k3 w (hmem _ hw), k4, k5⟩, ?_⟩
  intro w hw hg hd
  exact (hn w hw hg hd).imp id (fun ⟨t, ht, ho⟩ => ⟨t, hp.mem_iff.mp ht, ho⟩)

/-- 操作の始まりは、登録と知らせの不変条件を合わせて保つ。 -/
theorem announcing_begin {sh sh' : Shared R W} {ts l : List (Thread R W)} (hb : Begin sh sh' ts)
    (h : CoreWith Announcing sh l) : Announcing sh' (ts ++ l) := by
  obtain ⟨h1, h2, h3⟩ := h.inv
  refine ⟨?_, ?_, noticed_begin hb h3⟩ <;> rw [List.flatten_append]
  · exact notifying_begin hb h1
  · exact registering_begin hb h.core h2

/-- 一歩は、登録と知らせの不変条件を合わせて保つ。 -/
theorem announcing_step [DecidableEq W] {sh sh' : Shared R W} {a : Act R W} {new : List (Act R W)}
    {r : Thread R W} {rest : List (Thread R W)} (he : Effect sh a sh' new)
    (h : CoreWith Announcing sh ((a :: r) :: rest)) : Announcing sh' ((new ++ r) :: rest) := by
  have hseen : a.Seen sh.word := h.seen a (by simp)
  have hcore := h.core
  obtain ⟨h1, h2, h3⟩ := h.inv
  refine ⟨?_, ?_, noticed_step he hcore h1 h2 h3⟩ <;>
    rw [List.flatten_cons, List.cons_append] at hcore h1 h2 <;>
    rw [List.flatten_cons, List.append_assoc]
  · exact notifying_step he hseen hcore h1
  · exact registering_step he hseen hcore (h1.dead a (by simp)) h2

theorem announcing_init : Announcing (Shared.init : Shared R W) [] := by
  refine ⟨⟨?_, ?_, ?_, ?_⟩, ⟨?_, ?_, ?_, ?_, ?_⟩, ?_⟩ <;> simp [Shared.init, Noticed]

/--
`ProcHandle::cancel` を呼ばないどの実行でも、handle がまだあり、poll の途中でなく、
最後の poll が waker `w` を置いて Pending を返していれば、その後で proc が完了するか閉じられたとき、
`w` は起こされたか、proc を終わらせた操作がまだ進行中で、それだけで進んで `w` を起こす。
-/
theorem notice_not_lost [DecidableEq W] (ms : List (Move (Op W) (Choice R)))
    (hno : ∀ m ∈ ms, m ≠ .spawn .cancelHandle) (c : Config (Shared R W) (Thread R W))
    (hrun : (proc R W).run ⟨Shared.init, []⟩ ms = some c)
    (n : Nat) (hu : c.shared.handle = .shared n) (r : PollRecord R W)
    (hlast : c.shared.polled.getLast? = some r) (hr : r.result = .pending)
    (hdead : c.shared.word.isCompleted = true ∨ c.shared.word.isClosed = true) :
    r.waker ∈ c.shared.woken ∨
    ∃ k t, c.threads[k]? = some t ∧ t ≠ [] ∧ EndedBy ms k ∧
      (c.shared.halted = false → ∃ m c',
        (proc R W).run c (List.replicate m (.exec k .go)) = some c' ∧
        r.waker ∈ c'.shared.woken) := by
  have hquiet := quiet_of_not_called hno
  have h := run_coreWith (fun _ _ h => h) announcing_symm (fun _ _ _ _ hb h => announcing_begin hb h)
    (fun _ _ _ _ _ _ _ _ _ _ _ he h => announcing_step he h) hrun hquiet announcing_init
  have hreg := h.inv.registering.last n hu r hlast hr
  have hd : c.shared.word.dead = true := by
    rw [State.dead, Bool.or_eq_true]
    exact hdead
  rcases h.inv.noticed r.waker hreg (by rw [hu]; simp) hd with hw | ⟨t, ht, ho⟩
  · exact Or.inl hw
  · obtain ⟨k, hk⟩ := List.mem_iff_getElem?.mp ht
    obtain ⟨a, ha, hends⟩ := ho.ends
    refine Or.inr ⟨k, t, hk, List.ne_nil_of_mem ha, endedBy_of_ends ms hrun hquiet hk ha hends,
      fun hh => ?_⟩
    obtain ⟨sh', t', hsolo, hw⟩ := ho.wakes hh
    obtain ⟨m, hm⟩ := hsolo.run hk
    exact ⟨m, _, hm, hw⟩

/-- waker 3 を置いて poll が Pending を返した後で、`LightProc::cancel` が閉じたところまで。 -/
def pollThenCancel : List (Move (Op Nat) (Choice Nat)) :=
  [.spawn (.poll 3), .exec 0 .go, .exec 0 .go, .exec 0 .go, .exec 0 .go, .exec 0 .go, .exec 0 .go,
   .exec 0 .go, .exec 0 .go, .spawn .cancel, .exec 1 .go, .exec 1 .go]

theorem notice_not_lost_pollThenCancel :
    ∃ c, (proc Nat Nat).run ⟨Shared.init, []⟩ pollThenCancel = some c ∧
      (3 ∈ c.shared.woken ∨
      ∃ k t, c.threads[k]? = some t ∧ t ≠ [] ∧ EndedBy pollThenCancel k ∧
        (c.shared.halted = false → ∃ m c',
          (proc Nat Nat).run c (List.replicate m (.exec k .go)) = some c' ∧
          3 ∈ c'.shared.woken)) := by
  have hstate : ((proc Nat Nat).run ⟨Shared.init, []⟩ pollThenCancel).map
      (fun c => (c.shared.handle, c.shared.polled.getLast?, c.shared.word.isClosed)) =
      some (.shared 0, some ⟨3, none, .pending⟩, true) := by decide
  obtain ⟨c, hrun, hc⟩ := Option.map_eq_some_iff.mp hstate
  simp only [Prod.mk.injEq] at hc
  obtain ⟨hu, hlast, hclosed⟩ := hc
  exact ⟨c, hrun, notice_not_lost pollThenCancel (by decide) c hrun 0 hu ⟨3, none, .pending⟩ hlast rfl
    (Or.inr hclosed)⟩

end FabAccess.Lightproc
