import FabAccess.Lightproc.Properties.HandleResult
import FabAccess.Lightproc.Recoverable

/-!
# panic は handle に届く

* `run_proc` — recoverable な proc の実行は、proc の実行に写る
* `unguarded_run` — future が panic しない実行では、`Guard` は働かない
* `Reported` — `RecoverableHandle` の記録と `ProcHandle` の記録との関係
* `panic_recovered` — panic は高々一度、登録された callback に届く
-/

namespace FabAccess.Lightproc

open Infra System StateFlags

variable {R E W C : Type}

/-! ## proc の実行 -/

/-- proc に対する歩。 -/
def innerMove : Move (RecoverableOp W C) (RecoverableChoice R E) →
    Option (Move (Op W) (Choice (Except E R)))
  | .spawn (.proc op) => some (.spawn op)
  | .spawn (.onPanic _) => none
  | .exec n k => some (.exec n k.inner)

/-- `ProcHandle::cancel` を呼ばない実行は、proc の `ProcHandle::cancel` も呼ばない。 -/
theorem innerMoves_quiet {ms : List (Move (RecoverableOp W C) (RecoverableChoice R E))}
    (hno : .spawn (.proc .cancelHandle) ∉ ms) :
    ∀ m ∈ ms.filterMap innerMove, m ≠ .spawn .cancelHandle := by
  rintro m hm rfl
  obtain ⟨m', hm', heq⟩ := List.mem_filterMap.mp hm
  rcases m' with (op | callback) | ⟨n, k⟩
  · cases heq
    exact hno hm'
  · cases heq
  · cases heq

/-- `CatchUnwind` が包むので、proc の future は panic しない。 -/
theorem innerMoves_caught (ms : List (Move (RecoverableOp W C) (RecoverableChoice R E))) :
    ∀ n, .exec n .panic ∉ ms.filterMap innerMove := by
  intro n hm
  obtain ⟨m', _, heq⟩ := List.mem_filterMap.mp hm
  rcases m' with (op | callback) | ⟨n', k⟩
  · cases heq
  · cases heq
  · rcases k with _ | _ | inner
    · cases heq
    · cases heq
    · cases inner <;> cases heq

def innerConfig (c : Config (RecoverableShared R E W C) (Thread (Except E R) W)) :
    Config (Shared (Except E R) W) (Thread (Except E R) W) := ⟨c.shared.proc, c.threads⟩

section

variable [DecidableEq W] {c d : Config (RecoverableShared R E W C) (Thread (Except E R) W)}
  {ms : List (Move (RecoverableOp W C) (RecoverableChoice R E))}

/-- 包まれた一歩は、中の proc の一歩か、proc に触らない歩である。 -/
theorem step_proc {m : Move (RecoverableOp W C) (RecoverableChoice R E)}
    (hstep : (recoverable R E W C).step c m = some d) :
    match innerMove m with
    | some m' => (proc (Except E R) W).step (innerConfig c) m' = some (innerConfig d)
    | none => innerConfig d = innerConfig c := by
  cases m with
  | spawn i =>
    obtain ⟨sh, ts, hspawn, rfl⟩ := step_spawn hstep
    cases i with
    | proc op =>
      obtain ⟨p, hp, heq⟩ := Option.map_eq_some_iff.mp hspawn
      cases heq
      simp only [innerMove, System.step, innerConfig, hp]
    | onPanic callback =>
      simp only [recoverable] at hspawn
      split at hspawn
      · cases hspawn
        simp [innerMove, innerConfig]
      · cases hspawn
  | exec n k =>
    obtain ⟨t, sh, t', _, hget, hnext, rfl, _, _⟩ := step_exec hstep
    obtain ⟨p, hp, heq⟩ := Option.map_eq_some_iff.mp hnext
    cases heq
    exact step_exec_of_next hget hp

/-- 包まれた実行は、中の proc の実行である。 -/
theorem run_proc (hrun : (recoverable R E W C).run c ms = some d) :
    (proc (Except E R) W).run (innerConfig c) (ms.filterMap innerMove) = some (innerConfig d) := by
  induction ms generalizing c with
  | nil =>
    cases hrun
    rfl
  | cons m ms ih =>
    obtain ⟨e, he, hrest⟩ := run_cons hrun
    have hstep := step_proc he
    cases hm : innerMove m with
    | none =>
      rw [hm] at hstep
      rw [List.filterMap_cons_none hm, ← hstep]
      exact ih hrest
    | some m' =>
      rw [hm] at hstep
      rw [List.filterMap_cons_some hm]
      rw [run_cons_of_step hstep]
      exact ih hrest

end

/-! ## `Guard` は働かない -/

/-- panic の後始末である。 -/
def Act.isGuard : Act R W → Bool
  | .load .guard | .attempt .guard _ => true
  | _ => false

section

variable [DecidableEq W] {sh sh' : Shared R W} {a : Act R W} {new : List (Act R W)} {k : Choice R}

/-- 後始末は、future の panic からしか始まらない。 -/
theorem exec_isGuard (he : exec sh a k = some (sh', new)) (hno : a.cancels sh k = false)
    (hk : k ≠ .panic) (ha : a.isGuard = false) : ∀ b ∈ new, b.isGuard = false := by
  have heff := exec_effect he hno
  cases heff
  case pollPanic s hl =>
    cases k with
    | panic => exact absurd rfl hk
    | _ => simp [exec, hl] at he
  case load l | retry l s => cases l <;> simp_all [Act.isGuard, Loop.again]
  case cancelDead c s _ => cases c <;> simp [Loop.afterCancel, Act.isGuard]
  case cancelCall | pollClose => split <;> simp [Act.isGuard]
  case unlock u old =>
    cases u with
    | register w => simp [Use.finish, Act.isGuard]
    | notify n => cases n <;> cases old <;> simp [Use.finish, wakeOld, Notifier.loans, Act.isGuard]
    | notifyUnless w e =>
      cases e <;> cases old <;> simp only [Use.finish] <;> split <;>
        simp [PollEnd.act, wakeOld, Act.isGuard]
  all_goals simp [Act.isGuard, or_imp, forall_and]

/-- guard の仕事でなければ、panic による CLOSED は立たない。 -/
theorem effect_unguarded (he : Effect sh a sh' new) (ha : a.isGuard = false)
    (h : sh.closedBy ≠ some .panic) : sh'.closedBy ≠ some .panic := by
  cases he
  case guardClose => cases ha
  case endLoan l =>
    obtain ⟨_, _, _, _, heq⟩ := Shared.endLoan_eq sh l
    rw [heq]
    exact h
  case readyAbandon | cancelCall | cancelDrop | pollClose | dropClose | dropSchedule => simp
  all_goals exact h

def Unguarded (sh : Shared R W) (l : List (Thread R W)) : Prop :=
  (∀ a ∈ l.flatten, a.isGuard = false) ∧ sh.closedBy ≠ some .panic

omit [DecidableEq W] in
/-- 操作の始まりは、guard の仕事を積まない。 -/
theorem unguarded_begin {ts l : List (Thread R W)} (hb : Begin sh sh' ts) (h : Unguarded sh l) :
    Unguarded sh' (ts ++ l) := by
  have hnew : (∀ a ∈ ts.flatten, a.isGuard = false) ∧ sh'.closedBy = sh.closedBy := by
    cases hb <;> exact ⟨by simp [Act.isGuard], rfl⟩
  refine ⟨fun b hb => ?_, hnew.2 ▸ h.2⟩
  rw [List.flatten_append, List.mem_append] at hb
  exact hb.elim (hnew.1 b) (h.1 b)

/-- **panic しない future の proc は、panic によって閉じられない。** -/
theorem unguarded_run {c : Config (Shared R W) (Thread R W)} {ms : List (Move (Op W) (Choice R))}
    (hrun : (proc R W).run ⟨Shared.init, []⟩ ms = some c)
    (hno : ∀ m ∈ ms, m ≠ .spawn .cancelHandle) (hpanic : ∀ n, .exec n .panic ∉ ms) :
    Unguarded c.shared c.threads := by
  have hcaught : (proc R W).Obeys (fun _ m => ∀ n, m ≠ .exec n .panic) ⟨Shared.init, []⟩ ms :=
    obeys_of_forall (fun m hm _ n heq => hpanic n (by rw [← heq]; exact hm)) _
  refine run_invariant_of_obeys (motive := Unguarded) ?_ ?_ ?_ hrun
    ((quiet_of_not_called hno).and hcaught) ⟨by simp, by simp [Shared.init]⟩
  · intro sh l l' hp h
    exact ⟨fun a ha => h.1 a (hp.flatten.mem_iff.mpr ha), h.2⟩
  · intro sh l op sh' ts hs _ h
    exact unguarded_begin (spawn_begin (spawn_eq_some hs).2) h
  · intro c n t k sh' t' rest hget _ hn hok h
    obtain ⟨a, r, new, rfl, _, he, rfl⟩ := next_eq_some hn
    have hquiet : a.cancels c.shared k = false := hok.1 (a, k) (by simp [acting, hget])
    have hk : k ≠ .panic := fun heq => hok.2 n (by rw [heq])
    obtain ⟨hall, hclosed⟩ := h
    rw [List.flatten_cons, List.cons_append] at hall
    have ha := hall a (List.mem_cons_self ..)
    refine ⟨fun b hb => ?_, effect_unguarded (exec_effect he hquiet) ha hclosed⟩
    rw [List.flatten_cons, List.append_assoc, List.mem_append] at hb
    rcases hb with hb | hb
    · exact exec_isGuard he hquiet hk ha b hb
    · exact hall b (List.mem_cons_of_mem _ hb)

/-! ## handle の記録 -/

omit [DecidableEq W] in
/-- compare-exchange の記録は、poll の結果に触らない。 -/
theorem record_polled (l : Loop W) (s : State) (sh : Shared R W) :
    (l.record s sh).polled = sh.polled := by
  cases l with
  | cancel c => cases c <;> rfl
  | ready =>
    simp only [Loop.record]
    split <;> rfl
  | handleDrop =>
    simp only [Loop.record]
    split
    · rfl
    · split <;> rfl
  | _ => rfl

/-- poll の記録が増えるのは、poll が返る歩だけである。 -/
theorem exec_polled (he : exec sh a k = some (sh', new)) :
    (∃ w r, a = .pollDone w r ∧ sh'.polled = sh.polled ++ [⟨w, sh.expected, r⟩]) ∨
      (∀ w r, a ≠ .pollDone w r) ∧ sh'.polled = sh.polled := by
  cases a
  case pollDone w r =>
    cases he
    exact Or.inl ⟨w, r, rfl, rfl⟩
  case attempt l s =>
    refine Or.inr ⟨by simp, ?_⟩
    rcases exec_attempt he with ⟨_, rfl⟩ | ⟨rfl, _⟩ | ⟨_, w, _, _, _, rfl⟩
    · rfl
    · rfl
    · rw [record_polled]
      rfl
  case polling s =>
    refine Or.inr ⟨by simp, ?_⟩
    simp only [exec] at he
    split at he
    · cases he
    · cases k <;> cases he <;> rfl
  case endLoan l =>
    refine Or.inr ⟨by simp, ?_⟩
    cases he
    obtain ⟨_, _, _, _, heq⟩ := Shared.endLoan_eq sh l
    rw [heq]
  case decrement | clone | pollTake =>
    refine Or.inr ⟨by simp, ?_⟩
    simp only [exec] at he
    split at he <;> cases he <;> rfl
  case reload w =>
    refine Or.inr ⟨by simp, ?_⟩
    simp only [exec] at he
    split at he
    · cases he
      rfl
    · split at he <;> cases he <;> rfl
  all_goals
    refine Or.inr ⟨by simp, ?_⟩
    cases he
    rfl

end

/-- `RecoverableHandle` の poll が返すもの。 -/
def recover : Poll (Except E R) → Poll R
  | .ready (some (.ok v)) => .ready (some v)
  | .ready (some (.error _)) | .ready none => .ready none
  | .pending => .pending

/-- 届いた panic の理由。 -/
def reason : Poll (Except E R) → Option E
  | .ready (some (.error reason)) => some reason
  | _ => none

/-- poll の終わりでない歩は、handle に触らない。 -/
theorem RecoverableHandle.after_of_ne (handle : RecoverableHandle R E C) {a : Act (Except E R) W}
    {t : Thread (Except E R) W} (h : ∀ w r, a ≠ .pollDone w r) : handle.after (a :: t) = handle := by
  cases a with
  | pollDone w r => exact absurd rfl (h w r)
  | _ => rfl

/-- `inner` の poll が返る歩で handle も poll を返し、ほかの歩では何もしない。 -/
theorem next_polled [DecidableEq W] {sh sh' : Shared (Except E R) W} {t t' : Thread (Except E R) W}
    {k : Choice (Except E R)} (hnext : next sh t k = some (sh', t')) :
    (∃ record, sh'.polled = sh.polled ++ [record] ∧
      ∀ handle : RecoverableHandle R E C, handle.after t = handle.poll record.result) ∨
    sh'.polled = sh.polled ∧ ∀ handle : RecoverableHandle R E C, handle.after t = handle := by
  obtain ⟨a, rest, new, rfl, _, he, rfl⟩ := next_eq_some hnext
  rcases exec_polled he with ⟨w, r, rfl, hpolled⟩ | ⟨hne, hpolled⟩
  · exact Or.inl ⟨_, hpolled, fun _ => rfl⟩
  · exact Or.inr ⟨hpolled, fun handle => handle.after_of_ne hne⟩

/-- 記録は、`ProcHandle` の poll の記録を読み替えたものである。 -/
structure Reported (sh : Shared (Except E R) W) (handle : RecoverableHandle R E C) : Prop where
  polled : handle.polled = sh.polled.map fun r => recover r.result
  called : (handle.called.map Prod.snd).Sublist (sh.polled.filterMap fun r => reason r.result)

/-- poll の結果は、panic の理由を除いて記録される。 -/
theorem RecoverableHandle.poll_polled (handle : RecoverableHandle R E C) (r : Poll (Except E R)) :
    (handle.poll r).polled = handle.polled ++ [recover r] := by
  rcases r with _ | _ | _ | _ <;> rfl

/-- callback に渡されるのは、poll の結果の持つ理由だけである。 -/
theorem RecoverableHandle.poll_called (handle : RecoverableHandle R E C) (r : Poll (Except E R)) :
    ∃ new, (handle.poll r).called = handle.called ++ new ∧
      (new.map Prod.snd).Sublist (reason r).toList := by
  rcases r with _ | _ | reason | v
  · exact ⟨[], (List.append_nil _).symm, List.nil_sublist _⟩
  · exact ⟨[], (List.append_nil _).symm, List.nil_sublist _⟩
  · cases hcallback : handle.panicked with
    | none =>
      refine ⟨[], ?_, List.nil_sublist _⟩
      simp [RecoverableHandle.poll, hcallback]
    | some callback =>
      refine ⟨[(callback, reason)], ?_, List.Sublist.refl _⟩
      simp [RecoverableHandle.poll, hcallback]
  · exact ⟨[], (List.append_nil _).symm, List.nil_sublist _⟩

/-- poll の記録が変わらなければ、対応も変わらない。 -/
theorem Reported.of_polled {sh sh' : Shared (Except E R) W} {handle : RecoverableHandle R E C}
    (h : Reported sh handle) (hpolled : sh'.polled = sh.polled) : Reported sh' handle := by
  refine ⟨?_, ?_⟩
  · rw [hpolled]
    exact h.polled
  · rw [hpolled]
    exact h.called

/-- poll が終わると、結果は handle を通して一度だけ伝わる。 -/
theorem Reported.poll {sh sh' : Shared (Except E R) W} {handle : RecoverableHandle R E C}
    {record : PollRecord (Except E R) W} (h : Reported sh handle)
    (hpolled : sh'.polled = sh.polled ++ [record]) : Reported sh' (handle.poll record.result) := by
  obtain ⟨new, hcalled, hnew⟩ := handle.poll_called record.result
  refine ⟨?_, ?_⟩
  · rw [handle.poll_polled, h.polled, hpolled, List.map_append]
    rfl
  · rw [hcalled, List.map_append, hpolled, List.filterMap_append]
    refine h.called.append ?_
    cases hreason : reason record.result <;> simpa [hreason] using hnew

/-- callback に渡された理由は、中の poll の結果である。 -/
theorem Reported.mem_of_called {sh : Shared (Except E R) W} {handle : RecoverableHandle R E C}
    (h : Reported sh handle) {p : C × E} (hp : p ∈ handle.called) :
    ∃ r ∈ sh.polled, r.result = .ready (some (.error p.2)) := by
  obtain ⟨r, hr, hreason⟩ := List.mem_filterMap.mp (h.called.subset (List.mem_map_of_mem hp))
  refine ⟨r, hr, ?_⟩
  unfold reason at hreason
  split at hreason
  · next hresult =>
    cases hreason
    exact hresult
  · cases hreason

/-- poll が返した値は、中の poll の結果である。 -/
theorem Reported.mem_of_polled {sh : Shared (Except E R) W} {handle : RecoverableHandle R E C}
    (h : Reported sh handle) {v : R} (hv : .ready (some v) ∈ handle.polled) :
    ∃ r ∈ sh.polled, r.result = .ready (some (.ok v)) := by
  rw [h.polled] at hv
  obtain ⟨r, hr, hrecover⟩ := List.mem_map.mp hv
  refine ⟨r, hr, ?_⟩
  unfold recover at hrecover
  split at hrecover
  · next hresult =>
    cases hrecover
    exact hresult
  all_goals cases hrecover

/-- 届いた panic と output は、合わせても、output を取った poll より多くない。 -/
theorem reasons_add_takes (l : List (PollRecord (Except E R) W)) :
    (l.filterMap fun r => reason r.result).length +
      (l.map fun r => recover r.result).countP Poll.isTake = l.countP PollRecord.isTake := by
  induction l with
  | nil => rfl
  | cons record l ih =>
    obtain ⟨w, expected, result⟩ := record
    rw [List.map_cons, List.countP_cons, List.countP_cons, ← ih]
    rcases result with _ | _ | _ | _ <;>
      simp [reason, recover, Poll.isTake, PollRecord.isTake] <;> omega

section

variable [DecidableEq W] {c d : Config (RecoverableShared R E W C) (Thread (Except E R) W)}
  {ms : List (Move (RecoverableOp W C) (RecoverableChoice R E))}

/-- どの実行でも、伝わったものと中の poll の結果との対応は成り立つ。 -/
theorem reported_run (hrun : (recoverable R E W C).run ⟨RecoverableShared.init, []⟩ ms = some c) :
    Reported c.shared.proc c.shared.handle := by
  have hfree : (recoverable R E W C).Obeys (fun _ _ => True) ⟨RecoverableShared.init, []⟩ ms :=
    obeys_of_forall (fun _ _ _ => trivial) _
  refine run_invariant_of_obeys
    (motive := fun (sh : RecoverableShared R E W C) _ => Reported sh.proc sh.handle)
    (fun _ _ _ _ h => h) ?_ ?_ hrun hfree ⟨rfl, List.Sublist.refl _⟩
  · intro sh l i sh' ts hspawn _ h
    cases i with
    | proc op =>
      obtain ⟨⟨proc', ts'⟩, hp, heq⟩ := Option.map_eq_some_iff.mp hspawn
      cases heq
      have hpolled : proc'.polled = sh.proc.polled := by
        have hb := spawn_begin (spawn_eq_some hp).2
        cases hb <;> rfl
      exact h.of_polled hpolled
    | onPanic callback =>
      simp only [recoverable] at hspawn
      split at hspawn
      · cases hspawn
        exact ⟨h.polled, h.called⟩
      · cases hspawn
  · intro c n t k sh' t' rest _ _ hnext _ h
    obtain ⟨p, hp, heq⟩ := Option.map_eq_some_iff.mp hnext
    cases heq
    show Reported p.1 (c.shared.handle.after t)
    rcases next_polled (C := C) hp with ⟨record, hpolled, hafter⟩ | ⟨hpolled, hafter⟩
    · rw [hafter]
      exact h.poll hpolled
    · rw [hafter]
      exact h.of_polled hpolled

/-- 一つの手続きだけの proc の実行は、handle を含めた実行になる。 -/
theorem run_lift (n m : Nat) {c' : Config (Shared (Except E R) W) (Thread (Except E R) W)}
    (hrun : (proc (Except E R) W).run (innerConfig c) (List.replicate m (.exec n .go)) = some c') :
    ∃ d new, (recoverable R E W C).run c (List.replicate m (.exec n .go)) = some d ∧
      innerConfig d = c' ∧ c'.shared.polled = c.shared.proc.polled ++ new ∧
      d.shared.handle = (new.map PollRecord.result).foldl RecoverableHandle.poll c.shared.handle := by
  induction m generalizing c with
  | zero =>
    cases hrun
    exact ⟨c, [], rfl, rfl, (List.append_nil _).symm, rfl⟩
  | succ m ih =>
    rw [List.replicate_succ] at hrun
    obtain ⟨e, hstep, hrest⟩ := run_cons hrun
    obtain ⟨t, sh, t', _, hget, hnext, rfl, _, _⟩ := step_exec hstep
    have hget' : c.threads[n]? = some t := hget
    have hnext' : (recoverable R E W C).next c.shared t .go =
        some (⟨sh, c.shared.handle.after t⟩, t') := by
      show (next c.shared.proc t .go).map _ = _
      rw [show next c.shared.proc t .go = some (sh, t') from hnext]
      rfl
    obtain ⟨d, new, hd, hinner, hpolled, hhandle⟩ :=
      ih (c := ⟨⟨sh, c.shared.handle.after t⟩, c.threads.set n t'⟩) hrest
    refine ⟨d, ?_⟩
    rw [List.replicate_succ, run_cons_of_step (step_exec_of_next hget' hnext')]
    rcases next_polled (C := C) hnext with ⟨record, hrecord, hafter⟩ | ⟨hsame, hafter⟩
    · refine ⟨record :: new, hd, hinner, ?_, ?_⟩
      · rw [hpolled]
        simp [hrecord, innerConfig]
      · rw [hhandle, hafter]
        rfl
    · refine ⟨new, hd, hinner, ?_, ?_⟩
      · rw [hpolled]
        simp [hsame, innerConfig]
      · rw [hhandle, hafter]

end

section

variable [DecidableEq W]

/--
**`ProcHandle::cancel` を呼ばないどの割り込みの実行でも、future の panic は proc を閉じず、handle に高々
一度届く。**

届くのは future が panic した理由で、それを受け取るのは登録された callback である。future が panic して
完了した後に始まった poll は、それだけで進んで callback を呼ぶ。
-/
theorem panic_recovered (ms : List (Move (RecoverableOp W C) (RecoverableChoice R E)))
    (hno : .spawn (.proc .cancelHandle) ∉ ms)
    (c : Config (RecoverableShared R E W C) (Thread (Except E R) W))
    (hrun : (recoverable R E W C).run ⟨RecoverableShared.init, []⟩ ms = some c) :
    c.shared.proc.closedBy ≠ some .panic ∧
    c.shared.handle.called.length + c.shared.handle.polled.countP Poll.isTake ≤ 1 ∧
    (∀ p ∈ c.shared.handle.called, .error p.2 ∈ c.shared.proc.readies) ∧
    (∀ v, .ready (some v) ∈ c.shared.handle.polled → .ok v ∈ c.shared.proc.readies) ∧
    (c.shared.proc.halted = false → c.shared.proc.handle = .polled →
      ∀ e, c.shared.proc.expected = some (.error e) → ∀ callback ∈ c.shared.handle.panicked,
        ∃ n m d, (recoverable R E W C).run c (List.replicate m (.exec n .go)) = some d ∧
          d.shared.handle.called = c.shared.handle.called ++ [(callback, e)]) := by
  have hinner := run_proc hrun
  have hquiet := innerMoves_quiet hno
  have h := answering_run hinner (quiet_of_not_called hquiet)
  have hreported := reported_run hrun
  refine ⟨(unguarded_run hinner hquiet (innerMoves_caught ms)).2, ?_, ?_, ?_, ?_⟩
  · have htakes : c.shared.proc.polled.countP PollRecord.isTake ≤ 1 := h.takes_le
    have hlen := hreported.called.length_le
    have hsum := reasons_add_takes c.shared.proc.polled
    rw [List.length_map] at hlen
    rw [hreported.polled]
    omega
  · intro p hp
    obtain ⟨r, hr, hresult⟩ := hreported.mem_of_called hp
    exact h.inv.valued.records r hr _ hresult
  · intro v hv
    obtain ⟨r, hr, hresult⟩ := hreported.mem_of_polled hv
    exact h.inv.valued.records r hr _ hresult
  · intro hh hu e he callback hcallback
    obtain ⟨n, m, c', w, hrun', hpolled⟩ := h.delivers hh hu he
    obtain ⟨d, new, hd, rfl, hnew, hhandle⟩ := run_lift n m hrun'
    refine ⟨n, m, d, hd, ?_⟩
    rw [hnew] at hpolled
    rw [hhandle, List.append_cancel_left hpolled]
    show (c.shared.handle.poll (.ready (some (.error e)))).called = _
    rw [Option.mem_def] at hcallback
    simp only [RecoverableHandle.poll, hcallback]

/-- callback が登録され、future が panic し、その後で始まった poll が word を読んだところまで。 -/
def panicThenPoll : List (Move (RecoverableOp Nat String) (RecoverableChoice Nat String)) :=
  [.spawn (.onPanic "log"), .spawn (.proc .run), .exec 0 .go, .exec 0 .go,
   .exec 0 (.future (.panic "index out of bounds")), .exec 0 .go, .exec 0 .go, .exec 0 .go,
   .spawn (.proc (.poll 3)), .exec 1 .go]

theorem panic_recovered_panicThenPoll :
    ∃ c, (recoverable Nat String Nat String).run ⟨RecoverableShared.init, []⟩ panicThenPoll = some c ∧
      ∃ n m d, (recoverable Nat String Nat String).run c (List.replicate m (.exec n .go)) = some d ∧
        d.shared.handle.called = c.shared.handle.called ++ [("log", "index out of bounds")] := by
  have hstate : ((recoverable Nat String Nat String).run ⟨RecoverableShared.init, []⟩
      panicThenPoll).map (fun c => (c.shared.proc.halted, c.shared.proc.handle,
        c.shared.proc.expected, c.shared.handle.panicked)) =
      some (false, .polled, some (.error "index out of bounds"), some "log") := by decide
  obtain ⟨c, hrun, hc⟩ := Option.map_eq_some_iff.mp hstate
  simp only [Prod.mk.injEq] at hc
  obtain ⟨hh, hu, he, hcallback⟩ := hc
  exact ⟨c, hrun, (panic_recovered panicThenPoll (by decide) c hrun).2.2.2.2 hh hu
    "index out of bounds" he "log" hcallback⟩

end

end FabAccess.Lightproc
