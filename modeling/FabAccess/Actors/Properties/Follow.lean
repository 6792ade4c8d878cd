import FabAccess.Actors
import FabAccess.Infra.Trace
import FabAccess.Resources.Resource

/-!
# actor は resource に従う

* `Logged` — 記録と driver の対応。`future` にあるのは、まだ終わっていない `apply` である
* `Following` — それに signal を加えた不変条件
* `actor_follows` — poll と状態の変化のどんな順序でも成り立つこと
-/

namespace FabAccess

open Infra

variable {V : Type} {sig : Signals V}

/-! ## 記録の読み方 -/

/-- signal が渡した値の列。 -/
def handedValues (tr : List (ActorEvent V)) : List V :=
  tr.filterMap fun
    | .handed state => some state
    | _ => none

/-- `apply` の引数の列。 -/
def appliedValues (tr : List (ActorEvent V)) : List V :=
  tr.filterMap fun
    | .applied _ state => some state
    | _ => none

theorem handedValues_append (tr tr' : List (ActorEvent V)) :
    handedValues (tr ++ tr') = handedValues tr ++ handedValues tr' :=
  List.filterMap_append

theorem appliedValues_append (tr tr' : List (ActorEvent V)) :
    appliedValues (tr ++ tr') = appliedValues tr ++ appliedValues tr' :=
  List.filterMap_append

/-- `k` 番目の `apply` の future は、作られたがまだ終わっていない。 -/
def Unfinished (tr : List (ActorEvent V)) (k : Nat) : Prop :=
  (∃ state, .applied k state ∈ tr) ∧ .futureReady k ∉ tr

/-- `poll` の始まり。 -/
def ActorEvent.isPolled : ActorEvent V → Bool
  | .polled => true
  | _ => false

/--
記録 `tr` の次に起きてよいこと。

* `apply` は、終わっていない future が無いときに呼ばれる
* `Poll::Ready` は、signal が終わり、終わっていない future が無いときに返る
* `Poll::Pending` は、その poll の中で、終わっていない future を poll したか、
  それが無くて signal を poll して `Pending` を得たときに返る
-/
def Allowed (tr : List (ActorEvent V)) : ActorEvent V → Prop
  | .applied _ _ => ∀ k, ¬ Unfinished tr k
  | .completed => .closed ∈ tr ∧ ∀ k, ¬ Unfinished tr k
  | .pending =>
    (∃ k, Unfinished tr k ∧ .futurePending k ∈ since ActorEvent.isPolled tr) ∨
    ((∀ k, ¬ Unfinished tr k) ∧ .signalPending ∈ since ActorEvent.isPolled tr)
  | _ => True

/-- 終わっていない future の無いまま `Poll::Pending` を返し、それから状態は変わっていない。 -/
def Quiet (tr : List (ActorEvent V)) : Prop :=
  ∃ pre post, tr = pre ++ .pending :: post ∧ (∀ k, ¬ Unfinished pre k) ∧
    ∀ state, .changed state ∉ post

theorem quiet_append_singleton {tr : List (ActorEvent V)} {e : ActorEvent V} (h : Quiet (tr ++ [e])) :
    ((∀ state, e ≠ .changed state) ∧ Quiet tr) ∨ (e = .pending ∧ ∀ k, ¬ Unfinished tr k) := by
  obtain ⟨pre, post, heq, hun, hch⟩ := h
  rcases append_singleton_split heq with ⟨rfl, rfl, _⟩ | ⟨post', rfl, rfl⟩
  · exact Or.inr ⟨rfl, hun⟩
  · refine Or.inl ⟨?_, pre, post', rfl, hun, ?_⟩
    · rintro state rfl
      exact hch state (by simp)
    · intro state hmem
      exact hch state (by simp [hmem])

/-! ## 記録と driver の対応 -/

/-- 列にも future にも関わらない項。 -/
def ActorEvent.isNote : ActorEvent V → Bool
  | .handed _ | .applied _ _ | .futureReady _ => false
  | _ => true

structure Logged (tr : List (ActorEvent V)) (actor : List V) (future : Option Nat) : Prop where
  handed : handedValues tr = actor
  applied : appliedValues tr = actor
  unfinished : ∀ k, Unfinished tr k ↔ future = some k
  below : ∀ k, (∃ state, .applied k state ∈ tr) ∨ .futureReady k ∈ tr → k < actor.length
  orderly : Orderly Allowed tr

variable {tr : List (ActorEvent V)} {actor : List V} {future : Option Nat}

theorem logged_nil : Logged ([] : List (ActorEvent V)) [] none where
  handed := rfl
  applied := rfl
  unfinished := by simp [Unfinished]
  below := by simp
  orderly := orderly_nil

theorem Logged.note (h : Logged tr actor future) {e : ActorEvent V} (he : e.isNote = true)
    (hok : Allowed tr e) : Logged (tr ++ [e]) actor future := by
  have happ : ∀ k state, ActorEvent.applied k state ≠ e := by
    rintro k state rfl
    cases he
  have hready : ∀ k, ActorEvent.futureReady k ≠ e := by
    rintro k rfl
    cases he
  have hnew : handedValues [e] = [] ∧ appliedValues [e] = [] := by
    cases e with
    | handed _ | applied _ _ | futureReady _ => cases he
    | _ => exact ⟨rfl, rfl⟩
  refine ⟨?_, ?_, fun k => ?_, fun k => ?_, orderly_append_singleton h.orderly hok⟩
  · rw [handedValues_append, h.handed, hnew.1, List.append_nil]
  · rw [appliedValues_append, h.applied, hnew.2, List.append_nil]
  · rw [← h.unfinished k]
    simp [Unfinished, happ, hready]
  · intro hk
    exact h.below k (by simpa [happ, hready] using hk)

/-- future が終わる。 -/
theorem Logged.ready {k : Nat} (h : Logged tr actor (some k)) :
    Logged (tr ++ [.futureReady k]) actor none := by
  have hk : k < actor.length := h.below k (Or.inl ((h.unfinished k).mpr rfl).1)
  refine ⟨?_, ?_, fun j => ?_, fun j => ?_, orderly_append_singleton h.orderly trivial⟩
  · rw [handedValues_append, h.handed]
    exact List.append_nil _
  · rw [appliedValues_append, h.applied]
    exact List.append_nil _
  · have hj := h.unfinished j
    simp only [Unfinished, Option.some.injEq] at hj
    simp only [Unfinished, List.mem_append, List.mem_singleton, reduceCtorEq, or_false,
      ActorEvent.futureReady.injEq, iff_false]
    rintro ⟨happ, hnot⟩
    exact hnot (Or.inr (hj.mp ⟨happ, fun hr => hnot (Or.inl hr)⟩).symm)
  · intro hj
    simp only [List.mem_append, List.mem_singleton, reduceCtorEq, or_false,
      ActorEvent.futureReady.injEq] at hj
    rcases hj with hj | hj | rfl
    · exact h.below j (Or.inl hj)
    · exact h.below j (Or.inr hj)
    · exact hk

/-- 渡された値で `apply` を呼ぶ。 -/
theorem Logged.apply (h : Logged tr actor none) (state : V) :
    Logged (tr ++ [.handed state, .applied actor.length state]) (actor ++ [state])
      (some actor.length) := by
  -- 新しい `apply` の番号は、これまでのどの future の番号とも違う
  have hnone : ∀ k, ¬ Unfinished (tr ++ [ActorEvent.handed state]) k := by
    intro k hk
    simpa using (h.unfinished k).mp (by simpa [Unfinished] using hk)
  have hfresh : ActorEvent.futureReady actor.length ∉ tr := by
    intro hmem
    exact absurd (h.below _ (Or.inr hmem)) (Nat.lt_irrefl _)
  refine ⟨?_, ?_, fun k => ?_, fun k hk => ?_, ?_⟩
  · rw [handedValues_append, h.handed]
    rfl
  · rw [appliedValues_append, h.applied]
    rfl
  · have hk := h.unfinished k
    simp only [Unfinished, reduceCtorEq, iff_false, not_and, not_not] at hk
    simp only [Unfinished, List.mem_append, List.mem_cons, reduceCtorEq, List.not_mem_nil, or_false,
      ActorEvent.applied.injEq, false_or, Option.some.injEq]
    constructor
    · rintro ⟨⟨state', hold | ⟨rfl, _⟩⟩, hno⟩
      · exact absurd (hk ⟨state', hold⟩) hno
      · rfl
    · rintro rfl
      exact ⟨⟨state, Or.inr ⟨rfl, rfl⟩⟩, hfresh⟩
  · rw [List.length_append, List.length_singleton]
    simp only [List.mem_append, List.mem_cons, reduceCtorEq, List.not_mem_nil, or_false,
      ActorEvent.applied.injEq, false_or] at hk
    rcases hk with ⟨state', hold | ⟨rfl, _⟩⟩ | hr
    · exact Nat.lt_succ_of_lt (h.below k (Or.inl ⟨state', hold⟩))
    · exact Nat.lt_succ_self _
    · exact Nat.lt_succ_of_lt (h.below k (Or.inr hr))
  · rw [List.append_cons]
    exact orderly_append_singleton (orderly_append_singleton h.orderly trivial) hnone

/-! ## signal -/

/-- 実行が保つこと。 -/
structure Following (w : ActorWorld sig) : Prop where
  logged : Logged w.trace w.driver.actor w.driver.future
  signal : w.pc = .signal → w.driver.future = none
  closed : sig.ended w.driver.signal = true → .closed ∈ w.trace
  /-- 渡していない変化が無ければ、最後に `apply` した値がいまの値である -/
  caught : sig.due w.driver.signal = false →
    w.driver.actor.getLast? = some (sig.value w.driver.signal)
  quiet : Quiet w.trace → w.driver.future = none ∧ sig.due w.driver.signal = false

theorem following_new (sig : Signals V) (v : V) : Following (ActorWorld.new sig v) where
  logged := logged_nil
  signal := by simp [ActorWorld.new]
  closed := by simp [ActorWorld.new, ActorDriver.new, sig.start_spec]
  caught := by simp [ActorWorld.new, ActorDriver.new, sig.start_spec]
  quiet := by
    rintro ⟨pre, post, heq, _⟩
    simp [ActorWorld.new] at heq

variable {w w' : ActorWorld sig}

theorem following_pollFuture (h : Following w) (ready : Bool) :
    Following (w.advance (w.driver.pollFuture ready)) := by
  cases hf : w.driver.future with
  | none =>
    simp only [ActorDriver.pollFuture, hf, ActorWorld.advance, List.append_nil]
    exact ⟨h.logged, fun _ => hf, h.closed, h.caught, h.quiet⟩
  | some k =>
    have hrec := h.logged
    rw [hf] at hrec
    -- future が残っているうちは静かではない
    have hnot : ¬ Quiet w.trace := by
      intro hq
      simp [(h.quiet hq).1] at hf
    cases ready with
    | true =>
      simp only [ActorDriver.pollFuture, hf, ActorWorld.advance, if_true]
      refine ⟨hrec.ready, fun _ => rfl, fun he => ?_, h.caught, fun hq => ?_⟩
      · exact List.mem_append_left _ (h.closed he)
      · rcases quiet_append_singleton hq with ⟨_, hq⟩ | ⟨heq, _⟩
        · exact absurd hq hnot
        · cases heq
    | false =>
      have hnote := hrec.note (e := .futurePending k) rfl trivial
      have hun : Unfinished (w.trace ++ [.futurePending k]) k := (hnote.unfinished k).mpr rfl
      simp only [ActorDriver.pollFuture, hf, ActorWorld.advance, Bool.false_eq_true, if_false]
      rw [List.append_cons]
      refine ⟨?_, by simp, fun he => ?_, h.caught, fun hq => ?_⟩
      · rw [hf]
        exact hnote.note rfl (Or.inl ⟨k, hun, mem_since_append_singleton rfl⟩)
      · exact List.mem_append_left _ (List.mem_append_left _ (h.closed he))
      · rcases quiet_append_singleton hq with ⟨_, hq⟩ | ⟨_, hno⟩
        · rcases quiet_append_singleton hq with ⟨_, hq⟩ | ⟨heq, _⟩
          · exact absurd hq hnot
          · cases heq
        · exact absurd hun (hno k)

theorem following_pollSignal (h : Following w) (hpc : w.pc = .signal) :
    Following (w.advance w.driver.pollSignal) := by
  have hf : w.driver.future = none := h.signal hpc
  have hrec := h.logged
  rw [hf] at hrec
  rcases hpoll : sig.pollChange w.driver.signal with ⟨change, s⟩
  have hsame := sig.poll_same w.driver.signal
  rw [hpoll] at hsame
  -- 渡していない変化があるか、無くて終わっているか、無くて終わっていないか
  cases hdue : sig.due w.driver.signal with
  | true =>
    have hlaw := sig.poll_due _ hdue
    rw [hpoll] at hlaw
    obtain ⟨rfl, hdue'⟩ := hlaw
    simp only [ActorDriver.pollSignal, hpoll, ActorDriver.apply, ActorWorld.advance]
    refine ⟨hrec.apply _, by simp, fun he => ?_, fun _ => ?_, fun hq => ?_⟩
    · rw [hsame.2] at he
      exact List.mem_append_left _ (h.closed he)
    · simp [hsame.1]
    · dsimp only at hq
      rw [List.append_cons] at hq
      rcases quiet_append_singleton hq with ⟨_, hq⟩ | ⟨heq, _⟩
      · rcases quiet_append_singleton hq with ⟨_, hq⟩ | ⟨heq, _⟩
        · simp [(h.quiet hq).2] at hdue
        · cases heq
      · cases heq
  | false =>
    have hnone : ∀ e : ActorEvent V, e.isNote = true → Allowed w.trace e →
        ∀ k, ¬ Unfinished (w.trace ++ [e]) k := by
      intro e he hok k hk
      simpa using ((hrec.note he hok).unfinished k).mp hk
    have hcaught : w.driver.actor.getLast? = some (sig.value s) := by
      rw [h.caught hdue, hsame.1]
    cases hend : sig.ended w.driver.signal with
    | true =>
      have hlaw := sig.poll_ended _ hdue hend
      rw [hpoll] at hlaw
      obtain ⟨rfl, hdue'⟩ := hlaw
      have hclosed : .closed ∈ w.trace ++ [ActorEvent.signalEnded] :=
        List.mem_append_left _ (h.closed hend)
      simp only [ActorDriver.pollSignal, hpoll, ActorWorld.advance]
      rw [List.append_cons]
      refine ⟨?_, by simp, fun _ => List.mem_append_left _ hclosed, fun _ => hcaught,
        fun _ => ⟨hf, hdue'⟩⟩
      rw [hf]
      exact (hrec.note (e := .signalEnded) rfl trivial).note rfl ⟨hclosed, hnone _ rfl trivial⟩
    | false =>
      have hlaw := sig.poll_pending _ hdue hend
      rw [hpoll] at hlaw
      obtain ⟨rfl, hdue'⟩ := hlaw
      simp only [ActorDriver.pollSignal, hpoll, ActorWorld.advance]
      rw [List.append_cons]
      refine ⟨?_, by simp, fun he => ?_, fun _ => hcaught, fun _ => ⟨hf, hdue'⟩⟩
      · rw [hf]
        exact (hrec.note (e := .signalPending) rfl trivial).note rfl
          (Or.inr ⟨hnone _ rfl trivial, mem_since_append_singleton rfl⟩)
      · rw [hsame.2, hend] at he
        cases he

/-- 一歩は不変条件を保つ。 -/
theorem following_step (h : Following w) {m : ActorMove V} (hs : w.step m = some w') :
    Following w' := by
  cases m with
  | poll =>
    simp only [ActorWorld.step] at hs
    split at hs
    · cases hs
      refine ⟨h.logged.note rfl trivial, by simp [ActorWorld.advance], fun he => ?_, h.caught,
        fun hq => ?_⟩
      · exact List.mem_append_left _ (h.closed he)
      · rcases quiet_append_singleton hq with ⟨_, hq⟩ | ⟨heq, _⟩
        · exact h.quiet hq
        · cases heq
    · cases hs
  | future ready =>
    simp only [ActorWorld.step] at hs
    split at hs
    · cases hs
      exact following_pollFuture h ready
    · cases hs
  | signal =>
    simp only [ActorWorld.step] at hs
    split at hs
    · next hpc =>
      cases hs
      exact following_pollSignal h hpc
    · cases hs
  | set state =>
    cases hs
    obtain ⟨hvalue, hended, hdue⟩ := sig.set_spec w.driver.signal state
    refine ⟨h.logged.note rfl trivial, h.signal, fun he => ?_, fun hd => ?_, fun hq => ?_⟩
    · rw [ActorWorld.advance, hended] at he
      exact List.mem_append_left _ (h.closed he)
    -- 値の変わらない `set` は、渡すべき変化を作らない
    · rcases hdue with hdue | ⟨heq, hdue⟩
      · rw [ActorWorld.advance, hdue] at hd
        cases hd
      · rw [ActorWorld.advance, hdue] at hd
        simp only [ActorWorld.advance]
        rw [hvalue, heq]
        exact h.caught hd
    · rcases quiet_append_singleton hq with ⟨hne, _⟩ | ⟨heq, _⟩
      · exact absurd rfl (hne state)
      · cases heq
  | close =>
    cases hs
    obtain ⟨hvalue, hdue, hended⟩ := sig.close_spec w.driver.signal
    refine ⟨h.logged.note rfl trivial, h.signal, fun _ => ?_, fun hd => ?_, fun hq => ?_⟩
    · simp [ActorWorld.advance]
    · rw [ActorWorld.advance, hdue] at hd
      simp only [ActorWorld.advance, hvalue]
      exact h.caught hd
    · rcases quiet_append_singleton hq with ⟨_, hq⟩ | ⟨heq, _⟩
      · rw [ActorWorld.advance, hdue]
        exact h.quiet hq
      · cases heq

theorem following_run {ms : List (ActorMove V)} (h : Following w) (hrun : w.run ms = some w') :
    Following w' := by
  induction ms generalizing w with
  | nil =>
    cases hrun
    exact h
  | cons m ms ih =>
    rw [ActorWorld.run] at hrun
    split at hrun
    · cases hrun
    · next w₁ hs => exact ih (following_step h hs) hrun

/--
poll の歩、future の終わり方、状態の変化のどんな順序でも、次が成り立つ。

* `apply` は、signal が渡した値のそれぞれについて一度ずつ、その順に呼ばれる
* 記録のどの項も許される（`Allowed`）
* 終わっていない future の無いまま `Poll::Pending` を返し、それから状態が変わっていなければ、
  最後に `apply` した状態は signal のいまの値である
-/
theorem actor_follows (sig : Signals V) (v : V) (ms : List (ActorMove V)) (w : ActorWorld sig)
    (hrun : (ActorWorld.new sig v).run ms = some w) :
    appliedValues w.trace = handedValues w.trace ∧ Orderly Allowed w.trace ∧
    (Quiet w.trace → (appliedValues w.trace).getLast? = some (sig.value w.driver.signal)) := by
  have h : Following w := following_run (following_new sig v) hrun
  refine ⟨?_, h.logged.orderly, fun hq => ?_⟩
  · rw [h.logged.applied, h.logged.handed]
  · rw [h.logged.applied]
    exact h.caught (h.quiet hq).2

/-- `Mutable::signal_cloned`。`set` は同じ値でも変わったと見なす。 -/
def Signals.cloned (V : Type) : Signals V where
  State := V × Bool × Bool
  start v := (v, true, false)
  value s := s.1
  due s := s.2.1
  ended s := s.2.2
  pollChange s :=
    if s.2.1 then (.ready (some s.1), (s.1, false, s.2.2))
    else if s.2.2 then (.ready none, s)
    else (.pending, s)
  set s v := (v, true, s.2.2)
  close s := (s.1, s.2.1, true)
  start_spec _ := ⟨rfl, rfl, rfl⟩
  poll_due s h := by simp [h]
  poll_pending s h he := by simp [h, he]
  poll_ended s h he := by simp [h, he]
  poll_same s := by
    split
    · exact ⟨rfl, rfl⟩
    · split <;> exact ⟨rfl, rfl⟩
  set_spec _ _ := ⟨rfl, rfl, Or.inl rfl⟩
  close_spec _ := ⟨rfl, rfl, rfl⟩

/-- 最初の `apply` が終わらないうちに、`alice` が使い始める。 -/
def powerOn : List (ActorMove MachineState) :=
  [.poll, .future true, .signal, .future false, .set ⟨.inUse ⟨"alice"⟩, none⟩, .poll, .future true,
    .signal, .future true, .signal]

theorem actor_follows_powerOn :
    ∃ w, (ActorWorld.new (Signals.cloned MachineState) (.free none)).run powerOn = some w ∧
      Quiet w.trace ∧ appliedValues w.trace = [.free none, ⟨.inUse ⟨"alice"⟩, none⟩] ∧
      appliedValues w.trace = handedValues w.trace ∧ Orderly Allowed w.trace ∧
      (appliedValues w.trace).getLast? = some ((Signals.cloned _).value w.driver.signal) := by
  have h : ((ActorWorld.new (Signals.cloned MachineState) (.free none)).run powerOn).map (·.trace) =
      some [.polled, .handed (.free none), .applied 0 (.free none), .futurePending 0, .pending,
        .changed ⟨.inUse ⟨"alice"⟩, none⟩, .polled, .futureReady 0,
        .handed ⟨.inUse ⟨"alice"⟩, none⟩, .applied 1 ⟨.inUse ⟨"alice"⟩, none⟩, .futureReady 1,
        .signalPending, .pending] := by decide
  obtain ⟨w, hrun, htrace⟩ := Option.map_eq_some_iff.mp h
  obtain ⟨heq, horderly, hlast⟩ := actor_follows _ _ powerOn w hrun
  have hquiet : Quiet w.trace := by
    refine ⟨w.trace.dropLast, [], by rw [htrace]; rfl, fun k hk => ?_, by simp⟩
    rw [htrace] at hk
    simp only [Unfinished, List.dropLast_cons_cons, List.dropLast_singleton, List.mem_cons,
      reduceCtorEq, ActorEvent.applied.injEq, ActorEvent.futureReady.injEq, List.not_mem_nil,
      or_false, false_or, not_or] at hk
    obtain ⟨⟨state, hk0 | hk1⟩, hne0, hne1⟩ := hk
    · exact hne0 hk0.1
    · exact hne1 hk1.1
  exact ⟨w, hrun, hquiet, by rw [htrace]; rfl, heq, horderly, hlast hquiet⟩

end FabAccess
