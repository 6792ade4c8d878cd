import FabAccess.Lightproc.Effect
import FabAccess.Lightproc.Tally

/-!
# 実行の全体で成り立つこと

進行中の操作をすべて平らに並べたもの（`Pool`）の上で不変条件を述べる。一歩は、その中の
一つの仕事を、`Effect` の積む仕事で置き換える。

どの実行も `Quiet`、すなわち `ProcHandle::cancel` が proc を閉じることの無いものとする。
-/

namespace FabAccess.Lightproc

open Infra System StateFlags

variable {R W : Type}

/-- 平らに並べた仕事。 -/
abbrev Pool (R W : Type) := List (Act R W)

/-- この歩で実行される仕事。 -/
def acting (c : Config (Shared R W) (Thread R W)) : Move (Op W) (Choice R) →
    Option (Act R W × Choice R)
  | .spawn _ => none
  | .exec n k => (c.threads[n]?.bind List.head?).map (fun a => (a, k))

/-- 進む仕事は、進行中の仕事の一つである。 -/
theorem mem_of_acting {c : Config (Shared R W) (Thread R W)} {m : Move (Op W) (Choice R)}
    {a : Act R W} {k : Choice R} (h : (a, k) ∈ acting c m) : a ∈ c.threads.flatten := by
  cases m with
  | spawn op => simp [acting] at h
  | exec n k' =>
    simp only [acting, Option.mem_def, Option.map_eq_some_iff, Option.bind_eq_some_iff] at h
    obtain ⟨_, ⟨t, ht, hhead⟩, heq⟩ := h
    cases heq
    exact List.mem_flatten.mpr ⟨t, List.mem_of_getElem? ht, List.mem_of_mem_head? hhead⟩

/-- この歩で `ProcHandle::cancel` が proc を閉じることはない。 -/
def Quiet (c : Config (Shared R W) (Thread R W)) (m : Move (Op W) (Choice R)) : Prop :=
  ∀ p ∈ acting c m, p.1.cancels c.shared p.2 = false

instance (c : Config (Shared R W) (Thread R W)) (m : Move (Op W) (Choice R)) :
    Decidable (Quiet c m) :=
  inferInstanceAs (Decidable (∀ p ∈ acting c m, _))

section Run

variable [DecidableEq W]

/-- 操作の一歩は、先頭の仕事の一歩である。 -/
theorem next_eq_some {sh sh' : Shared R W} {t t' : Thread R W} {k : Choice R}
    (h : next sh t k = some (sh', t')) :
    ∃ a rest new, t = a :: rest ∧ sh.halted = false ∧ exec sh a k = some (sh', new) ∧
      t' = new ++ rest := by
  cases t with
  | nil => cases h
  | cons a rest =>
    simp only [next] at h
    split at h
    · cases h
    · next hh =>
      rw [Option.map_eq_some_iff] at h
      obtain ⟨⟨sh₁, new⟩, he, heq⟩ := h
      cases heq
      exact ⟨a, rest, new, rfl, by simpa using hh, he, rfl⟩

/-- 操作が始まるのは、止まっていないときである。 -/
theorem spawn_eq_some {sh sh' : Shared R W} {op : Op W} {ts : List (Thread R W)}
    (h : (proc R W).spawn sh op = some (sh', ts)) :
    sh.halted = false ∧ spawn sh op = some (sh', ts) := by
  simp only [proc] at h
  split at h
  · cases h
  · next hh => exact ⟨by simpa using hh, h⟩

/-- 平らな不変条件の規則。始まりと一歩が保つものは、`Quiet` な実行の全体で成り立つ。 -/
theorem run_pool_invariant {motive : Shared R W → Pool R W → Prop}
    (hperm : ∀ sh l l', l.Perm l' → motive sh l → motive sh l')
    (hbegin : ∀ sh sh' ts l, Begin sh sh' ts → motive sh l → motive sh' (ts.flatten ++ l))
    (hstep : ∀ sh a sh' new l, Effect sh a sh' new → motive sh (a :: l) → motive sh' (new ++ l))
    {c c' : Config (Shared R W) (Thread R W)} {ms : List (Move (Op W) (Choice R))}
    (hrun : (proc R W).run c ms = some c') (hquiet : (proc R W).Obeys Quiet c ms)
    (hc : motive c.shared c.threads.flatten) : motive c'.shared c'.threads.flatten := by
  refine run_invariant_of_obeys (motive := fun sh l => motive sh l.flatten) ?_ ?_ ?_ hrun hquiet hc
  · intro sh l l' hp h
    exact hperm sh _ _ hp.flatten h
  · intro sh l op sh' ts hs _ h
    rw [List.flatten_append]
    exact hbegin sh sh' ts _ (spawn_begin (spawn_eq_some hs).2) h
  · intro c n t k sh' t' rest hget _ hn hq h
    obtain ⟨a, r, new, rfl, _, he, rfl⟩ := next_eq_some hn
    have hno : a.cancels c.shared k = false := hq (a, k) (by simp [acting, hget])
    simp only [List.flatten_cons, List.cons_append, List.append_assoc] at h ⊢
    exact hstep _ _ _ _ _ (exec_effect he hno) h

end Run

/-! ## `ProcHandle::cancel` を呼ばない実行 -/

/-- `ProcHandle::cancel` の仕事である。 -/
def Act.isHandleCancel : Act R W → Bool
  | .load .handleCancel | .attempt .handleCancel _ => true
  | _ => false

/-- `ProcHandle::cancel` の仕事は、ほかの仕事からは積まれない。 -/
theorem isHandleCancel_step [DecidableEq W] {sh sh' : Shared R W} {a : Act R W}
    {new : List (Act R W)} (he : Effect sh a sh' new) (ha : a.isHandleCancel = false) :
    ∀ b ∈ new, b.isHandleCancel = false := by
  cases he
  case load l | retry l s => cases l <;> simp_all [Act.isHandleCancel, Loop.again]
  case cancelDead c s _ => cases c <;> simp [Loop.afterCancel, Act.isHandleCancel]
  case cancelCall | pollClose => split <;> simp [Act.isHandleCancel]
  case unlock u old =>
    cases u with
    | register w => simp [Use.finish, Act.isHandleCancel]
    | notify n =>
      cases n <;> cases old <;> simp [Use.finish, wakeOld, Notifier.loans, Act.isHandleCancel]
    | notifyUnless w e =>
      cases e <;> cases old <;> simp only [Use.finish] <;> split <;>
        simp [PollEnd.act, wakeOld, Act.isHandleCancel]
  all_goals
    simp [Act.isHandleCancel, or_imp, forall_and]

/-- `ProcHandle::cancel` の仕事は、その呼び出しだけが始める。 -/
theorem isHandleCancel_spawn {sh sh' : Shared R W} {op : Op W} {ts : List (Thread R W)}
    (h : spawn sh op = some (sh', ts)) (hop : op ≠ .cancelHandle) :
    ∀ a ∈ ts.flatten, a.isHandleCancel = false := by
  cases op <;> simp only [spawn] at h
  case cancelHandle => exact absurd rfl hop
  case cancel =>
    obtain ⟨_, _, heq⟩ := Option.map_eq_some_iff.mp h
    cases heq
    simp [Act.isHandleCancel]
  case clone via | wakeByRef via =>
    split at h
    · obtain ⟨_, _, heq⟩ := Option.map_eq_some_iff.mp h
      cases heq
      simp [Act.isHandleCancel]
    · cases h
  all_goals
    split at h <;> cases h
    simp [Act.isHandleCancel]

/-- `ProcHandle::cancel` の仕事が無ければ、それが閉じることも無い。 -/
theorem quiet_of_isHandleCancel {c : Config (Shared R W) (Thread R W)}
    {m : Move (Op W) (Choice R)} (hc : ∀ a ∈ c.threads.flatten, a.isHandleCancel = false) :
    Quiet c m := by
  rintro ⟨a, k⟩ hp
  have hno := hc a (mem_of_acting hp)
  show a.cancels c.shared k = false
  unfold Act.cancels
  split
  · cases hno
  · rfl

/-- `ProcHandle::cancel` を呼ばない実行は `Quiet` である。 -/
theorem quiet_of_not_called [DecidableEq W] {ms : List (Move (Op W) (Choice R))}
    (h : ∀ m ∈ ms, m ≠ .spawn .cancelHandle) : (proc R W).Obeys Quiet ⟨Shared.init, []⟩ ms := by
  have hcall : (proc R W).Obeys (fun _ m => m ≠ .spawn .cancelHandle) ⟨Shared.init, []⟩ ms :=
    obeys_of_forall (fun m hm _ => h m hm) _
  refine Obeys.of_invariant (motive := fun _ l => ∀ a ∈ l.flatten, a.isHandleCancel = false)
    ?_ ?_ ?_ (fun c m hc _ => quiet_of_isHandleCancel hc) hcall (by simp)
  · intro _ l l' hp hl a ha
    exact hl a (hp.flatten.mem_iff.mpr ha)
  · intro sh l op sh' ts hs hop hl a ha
    rw [List.flatten_append, List.mem_append] at ha
    rcases ha with ha | ha
    · exact isHandleCancel_spawn (spawn_eq_some hs).2 (fun heq => hop (by rw [heq])) a ha
    · exact hl a ha
  · intro c n t k sh' t' rest hget hperm hn _ hl b hb
    obtain ⟨a, r, new, rfl, _, he, rfl⟩ := next_eq_some hn
    simp only [List.flatten_cons, List.cons_append, List.append_assoc, List.mem_append,
      List.mem_cons, forall_eq_or_imp] at hl hb
    have hq : Quiet c (.exec n k) := by
      refine quiet_of_isHandleCancel (fun x hx => ?_)
      have hx' := hperm.flatten.mem_iff.mp hx
      simp only [List.flatten_cons, List.cons_append, List.mem_cons, List.mem_append] at hx'
      rcases hx' with rfl | hx'
      · exact hl.1
      · exact hl.2 x hx'
    rcases hb with hb | hb
    · exact isHandleCancel_step (exec_effect he (hq (a, k) (by simp [acting, hget]))) hl.1 b hb
    · exact hl.2 b hb

/-! ## 手元の word は古いだけである -/

/-- COMPLETED と CLOSED は一度立つと下りない。 -/
def State.Le (s w : State) : Prop :=
  (s.isClosed = true → w.isClosed = true) ∧ (s.isCompleted = true → w.isCompleted = true)

theorem State.Le.refl (s : State) : s.Le s := ⟨id, id⟩

/-- 下りないことは、続けてもそうである。 -/
theorem State.Le.trans {s w v : State} (h : s.Le w) (h' : w.Le v) : s.Le v :=
  ⟨fun hc => h'.1 (h.1 hc), fun hd => h'.2 (h.2 hd)⟩

/-- 仕事が持つ word は、いまの word か、その前のものである。 -/
def Act.Seen (w : State) : Act R W → Prop
  | .load l => l ≠ .handleDropFirst
  | .attempt .handleDropFirst s => s = ⟨SCHEDULED ||| HANDLE, 1⟩
  | .attempt _ s | .polling s | .readyDrop _ s | .writeOutput _ s => s.Le w
  | .unschedule => w.isClosed = true
  | _ => True

/-- 手元の word が古くなっても、見たことは変わらない。 -/
theorem Act.Seen.mono {a : Act R W} {w v : State} (h : a.Seen w) (hle : w.Le v) : a.Seen v := by
  cases a with
  | attempt l s =>
    cases l with
    | handleDropFirst => exact h
    | _ => exact State.Le.trans h hle
  | polling | readyDrop | writeOutput => exact State.Le.trans h hle
  | load => exact h
  | unschedule => exact hle.1 h
  | _ => trivial

theorem seen_attempt {l : Loop W} (w : State) (hl : l ≠ .handleDropFirst) :
    (Act.attempt l w : Act R W).Seen w := by
  cases l <;> first | exact State.Le.refl w | exact absurd rfl hl

theorem again_ne (l : Loop W) : l.again ≠ .handleDropFirst := by
  cases l <;> simp [Loop.again]

/-- 操作の始まりは word に触らず、見ていないものを見たことにしない。 -/
theorem seen_begin {sh sh' : Shared R W} {ts : List (Thread R W)} (h : Begin sh sh' ts) :
    sh'.word = sh.word ∧ ∀ b ∈ ts.flatten, b.Seen sh'.word := by
  cases h <;> refine ⟨rfl, ?_⟩ <;> simp [Act.Seen]

section

variable [DecidableEq W] {sh sh' : Shared R W} {a : Act R W} {new : List (Act R W)}

/-- COMPLETED と CLOSED は、一歩で下りない。 -/
theorem effect_le (he : Effect sh a sh' new) (hs : a.Seen sh.word) : sh.word.Le sh'.word := by
  cases he
  case dropFirst =>
    simp only [Act.Seen] at hs
    constructor <;> intro h <;> rw [hs] at h <;> cases h
  case dropSchedule hd hc hr =>
    constructor <;> intro h
    · rfl
    · rw [hd] at h; cases h
  case endLoan l =>
    obtain ⟨p, w, t, h, heq⟩ := Shared.endLoan_eq sh l
    rw [heq]
    exact State.Le.refl _
  all_goals
    constructor <;> intro h <;>
      simp_all [State.isClosed, State.isCompleted, State.fetchOr, State.fetchAnd, Shared.touch,
        Shared.readOutput, RUNNING, SCHEDULED, COMPLETED, CLOSED, HANDLE, unlockMask_eq]

/-- `swap_awaiter` の後の仕事は、古い word を持たない。 -/
theorem finish_seen (u : Use W) (old : Option W) (w : State) :
    ∀ b ∈ (u.finish old : List (Act R W)), b.Seen w := by
  cases u with
  | register w => simp [Use.finish, Act.Seen]
  | notify n => cases n <;> cases old <;> simp [Use.finish, wakeOld, Notifier.loans, Act.Seen]
  | notifyUnless w' e =>
    cases e <;> cases old <;> simp only [Use.finish] <;> split <;>
      simp [PollEnd.act, wakeOld, Act.Seen]

/-- 積まれる仕事の手元の word は、いまの word か、それより古い。 -/
theorem seen_step (he : Effect sh a sh' new) (hs : a.Seen sh.word) :
    ∀ b ∈ new, b.Seen sh'.word := by
  have hle := effect_le he hs
  cases he
  case load l =>
    intro b hb
    rw [List.mem_singleton] at hb
    subst hb
    exact seen_attempt _ hs
  case retry l s =>
    intro b hb
    rw [List.mem_singleton] at hb
    subst hb
    exact seen_attempt _ (again_ne l)
  case unlock u old => exact finish_seen u old _
  case guardClosed s h => simp [Act.Seen, hs.1 h]
  case cancelDead c s h => cases c <;> simp [Loop.afterCancel, Act.Seen]
  case tickRun | dropClose | reloadAgain => simp [Act.Seen, State.Le.refl, Shared.touch]
  case pollReady | pollPending | readyDrop | writeOutput =>
    intro b hb
    rw [List.mem_singleton] at hb
    subst hb
    exact State.Le.trans hs hle
  case cancelCall | pollClose => split <;> simp [Act.Seen]
  all_goals
    simp [Act.Seen, or_imp, forall_and]

/-- `run_pool_invariant` に、手元の word が古いだけであることを足した規則。 -/
theorem run_seen_invariant {motive : Shared R W → Pool R W → Prop}
    (hperm : ∀ sh l l', l.Perm l' → motive sh l → motive sh l')
    (hbegin : ∀ sh sh' ts l, Begin sh sh' ts → motive sh l → motive sh' (ts.flatten ++ l))
    (hstep : ∀ sh a sh' new l, Effect sh a sh' new → (∀ b ∈ a :: l, b.Seen sh.word) →
      motive sh (a :: l) → motive sh' (new ++ l))
    {c : Config (Shared R W) (Thread R W)} {ms : List (Move (Op W) (Choice R))}
    (hrun : (proc R W).run ⟨Shared.init, []⟩ ms = some c)
    (hquiet : (proc R W).Obeys Quiet ⟨Shared.init, []⟩ ms) (hinit : motive Shared.init []) :
    motive c.shared c.threads.flatten := by
  refine (run_pool_invariant (motive := fun sh l => (∀ b ∈ l, b.Seen sh.word) ∧ motive sh l)
    ?_ ?_ ?_ hrun hquiet ⟨by simp, hinit⟩).2
  · intro sh l l' hp h
    exact ⟨fun b hb => h.1 b (hp.mem_iff.mpr hb), hperm sh l l' hp h.2⟩
  · intro sh sh' ts l hb h
    obtain ⟨hw, hts⟩ := seen_begin hb
    refine ⟨fun b hmem => ?_, hbegin sh sh' ts l hb h.2⟩
    rcases List.mem_append.mp hmem with hmem | hmem
    · exact hts b hmem
    · rw [hw]
      exact h.1 b hmem
  · intro sh a sh' new l he h
    have ha : a.Seen sh.word := h.1 a (by simp)
    refine ⟨fun b hmem => ?_, hstep sh a sh' new l he h.1 h.2⟩
    rcases List.mem_append.mp hmem with hmem | hmem
    · exact seen_step he ha b hmem
    · exact (h.1 b (by simp [hmem])).mono (effect_le he ha)

end

end FabAccess.Lightproc
