import FabAccess.Lightproc.Invariant

/-!
# 参照の数は合っている

state word の参照の数は、`LightProc` と `Waker` の数に、進行中の操作が持っている参照を
足したものに等しい（`Counted`）。どの loop も、参照を作るか渡すか捨てるかを
一回の compare-exchange と同時に行うからである。

例外は `ProcHandle::cancel` で、schedule しないときに参照を足し、schedule するときに足さない。
閉じるのに成功すると、参照が余るか（`cancelFresh`）足りなくなる（`cancelIdle`）。
-/

namespace FabAccess.Lightproc

open Infra System StateFlags

variable {R W : Type}

/-- 参照の数の式。 -/
def Counted (sh : Shared R W) (T : Tally) : Prop :=
  sh.word.refcount = sh.wakers + sh.held + sh.queued + T.refs

section

variable [DecidableEq W] {sh sh' : Shared R W}

theorem counted_step {a : Act R W} {new : List (Act R W)} {C : Tally} (he : Effect sh a sh' new)
    (hs : a.Seen sh.word) (h : Counted sh (a.tally + C)) :
    Counted sh' (total Act.tally new + C) := by
  unfold Counted at h ⊢
  cases he
  case retry l s =>
    rw [total_cons, Act.tally, again_tally]
    simpa [Act.tally, Tally.add_def, Tally.zero_def, Shared.touch] using h
  case cancelDead c s _ =>
    cases c <;> simp only [total_afterCancel_call, total_afterCancel_drop, Act.tally, Loop.tally,
      Tally.add_def] at h ⊢ <;> omega
  case dropFirst =>
    simp only [Act.Seen] at hs
    rw [hs] at h
    exact h
  case endLoan l =>
    obtain ⟨_, _, _, _, hl⟩ := l.tally_eq
    obtain ⟨p, w, t, hu, heq⟩ := Shared.endLoan_eq sh l
    simp only [Act.tally, hl, Tally.add_def] at h
    rw [heq]
    simpa using h
  all_goals
    simp only [total_cons, total_append, total_nil, Tally.add_def, Tally.zero_def, Act.tally,
      Loop.tally, total_notifyIf_last, total_notifyIf_tick, total_finish, total_cancelCall,
      total_pollClose, Use.tally, Notifier.tally, Loan.tally, Shared.touch,
      Shared.readOutput, State.fetchOr, State.fetchAnd] at h ⊢
    omega

end

theorem counted_begin {sh sh' : Shared R W} {ts : List (Thread R W)} {C : Tally}
    (hb : Begin sh sh' ts) (h : Counted sh C) : Counted sh' (total Act.tally ts.flatten + C) := by
  unfold Counted at h ⊢
  cases hb <;>
    simp only [List.flatten_cons, List.flatten_nil, List.append_nil, total_cons, total_nil,
      Tally.add_def, Tally.zero_def, Act.tally, Loop.tally, Loan.tally] at h ⊢ <;>
    omega

/-- 参照を引く一歩では、数は 0 でない。 -/
theorem counted_no_underflow [DecidableEq W] {sh sh' : Shared R W} {a : Act R W}
    {new : List (Act R W)} {C : Tally} (he : Effect sh a sh' new)
    (h : Counted sh (a.tally + C)) (hu : sh.underflow = false) : sh'.underflow = false := by
  cases he
  case underflow hr =>
    simp only [Counted, Act.tally, Tally.add_def] at h
    omega
  case endLoan l =>
    obtain ⟨p, w, t, hh, heq⟩ := Shared.endLoan_eq sh l
    rw [heq]
    exact hu
  all_goals exact hu

theorem counted_run [DecidableEq W] {c : Config (Shared R W) (Thread R W)}
    {ms : List (Move (Op W) (Choice R))} (hrun : (proc R W).run ⟨Shared.init, []⟩ ms = some c)
    (hquiet : (proc R W).Obeys Quiet ⟨Shared.init, []⟩ ms) :
    Counted c.shared (total Act.tally c.threads.flatten) ∧ c.shared.underflow = false := by
  refine run_seen_invariant
    (motive := fun sh l => Counted sh (total Act.tally l) ∧ sh.underflow = false)
    ?_ ?_ ?_ hrun hquiet ⟨rfl, rfl⟩
  · intro sh l l' hp h
    rw [← total_perm _ hp]
    exact h
  · intro sh sh' ts l hb h
    rw [total_append]
    refine ⟨counted_begin hb h.1, ?_⟩
    cases hb <;> exact h.2
  · intro sh a sh' new l he hs h
    rw [total_cons] at h
    rw [total_append]
    exact ⟨counted_step he (hs a (by simp)) h.1, counted_no_underflow he h.1 h.2⟩

/--
`ProcHandle::cancel` が proc を閉じることの無いどの実行でも、参照の数が 0 のときに
`decrement` が行われることはなく、進行中の操作がすべて終わった状態では、参照の数は
手元と queue にある `LightProc` と、`Waker` の数に等しい。
-/
theorem refcount_exact [DecidableEq W] (ms : List (Move (Op W) (Choice R)))
    (c : Config (Shared R W) (Thread R W))
    (hrun : (proc R W).run ⟨Shared.init, []⟩ ms = some c)
    (hquiet : (proc R W).Obeys Quiet ⟨Shared.init, []⟩ ms) :
    c.shared.underflow = false ∧
    ((∀ t ∈ c.threads, t = []) →
      c.shared.word.refcount = c.shared.held + c.shared.queued + c.shared.wakers) := by
  obtain ⟨hcount, hu⟩ := counted_run hrun hquiet
  refine ⟨hu, fun hdone => ?_⟩
  rw [List.flatten_eq_nil_iff.mpr hdone] at hcount
  simp only [Counted, total_nil, Tally.zero_def] at hcount
  omega

/-- 起こしてもらう waker を残して Pending になる一回の run。 -/
def runPending : List (Move (Op Nat) (Choice Nat)) :=
  [.spawn .run, .exec 0 .go, .exec 0 .go, .spawn (.clone .tick), .exec 1 .go, .exec 1 .go,
   .exec 0 .pending, .exec 0 .go, .exec 0 .go, .exec 0 .go, .exec 0 .go]

theorem refcount_exact_runPending :
    ∃ c, (proc Nat Nat).run ⟨Shared.init, []⟩ runPending = some c ∧ c.threads = [[], []] ∧
      c.shared.underflow = false ∧
      c.shared.word.refcount = c.shared.held + c.shared.queued + c.shared.wakers := by
  have hthreads : ((proc Nat Nat).run ⟨Shared.init, []⟩ runPending).map Config.threads =
      some [[], []] := by decide
  obtain ⟨c, hrun, hc⟩ := Option.map_eq_some_iff.mp hthreads
  obtain ⟨hu, hcount⟩ := refcount_exact runPending c hrun (by decide)
  exact ⟨c, hrun, hc, hu, hcount (by simp [hc])⟩

/-- 作られたばかりの proc を handle から cancel する。 -/
def cancelFresh : List (Move (Op Nat) (Choice Nat)) :=
  [.spawn .cancelHandle, .exec 0 .go, .exec 0 .go, .exec 0 .go]

/-- waker を残さず Pending になった proc を handle から cancel し、schedule された `LightProc` を
走らせる。 -/
def cancelIdle : List (Move (Op Nat) (Choice Nat)) :=
  [.spawn .run, .exec 0 .go, .exec 0 .go, .exec 0 .pending, .exec 0 .go, .exec 0 .go, .exec 0 .go,
   .spawn .cancelHandle, .exec 1 .go, .exec 1 .go, .exec 1 .go, .exec 1 .go,
   .spawn .pop, .spawn .run, .exec 2 .go, .exec 2 .go, .exec 2 .go, .exec 2 .go]

/-- 一方では、すべての操作が終わったのに参照が一つ余り、他方では 0 から引かれる。 -/
theorem cancelHandle_miscounts :
    ((proc Nat Nat).run ⟨Shared.init, []⟩ cancelFresh).map
      (fun c => (c.threads, c.shared.word.refcount,
        c.shared.held + c.shared.queued + c.shared.wakers)) = some ([[]], 2, 1) ∧
    ((proc Nat Nat).run ⟨Shared.init, []⟩ cancelIdle).map (fun c => c.shared.underflow) =
      some true := by
  decide

end FabAccess.Lightproc
