import Mathlib.Algebra.Order.Ring.Nat
import Mathlib.Algebra.BigOperators.Group.List.Basic
import FabAccess.Console.Updates
import FabAccess.Infra.Trace

/-!
# 捨てられた event の数は、誰に伝わるか

三つの数は、新しい client の最初の update を作るときにも 0 に戻る。その分は、前からいる client には
伝わらない（`second_client_hides_drop`）。

不変条件は二つに分かれる。`Accounted` は数の帳尻、`Attended` は誰がどの update を受け取ったかである。

* `step_accounted`、`step_attended` — 一歩
* `told_iff` — client に伝わった数が、その間に捨てられた数に等しいための必要十分条件
-/

namespace FabAccess.Console

open Infra

/-- 最初の update より後、`j` 番目までの update。 -/
def after (log : List InstrumentUpdate) (client j : Nat) : List InstrumentUpdate :=
  (log.drop (client + 1)).take (j - client)

/-- 最初の update より後、`j` 番目までに受け取った update の数の和。 -/
def told (log : List InstrumentUpdate) (client j : Nat) (kind : Dropped) : Nat :=
  (((after log client j).filter fun update => client ∈ update.delivered).map
    fun update => update.dropped.count kind).sum

/-- 別の client の最初の update と、その一つ前の update との間には、何も捨てられなかった。 -/
def Quiet (log : List InstrumentUpdate) (client j : Nat) (kind : Dropped) : Prop :=
  ∀ i prev update, client ≤ i → i < j → log[i]? = some prev → log[i + 1]? = some update →
    update.what = .all → update.total.count kind = prev.total.count kind

/-! ## 一歩 -/

/-- 一歩は、event を捨てるか、update を作り始めるか、数を一つ読むか、update を送る。 -/
theorem Feed.step_cases {feed feed' : Feed} {s : FeedStep} (hs : feed.step s = some feed') :
    (∃ kind, feed' = { feed with
      shared := feed.shared.fetchAdd kind, total := feed.total.fetchAdd kind }) ∨
    (∃ what, feed.sending = .idle ∧ feed' = feed.begin what) ∨
    (∃ kind update, feed.sending = .swap kind update ∧ feed' = { feed with
      shared := feed.shared.put 0 kind
      sending := swapped kind { update with
        dropped := update.dropped.put (feed.shared.count kind) kind
        total := update.total.put (feed.total.count kind) kind } }) ∨
    ∃ update delivers, feed.sending = .send update ∧ feed' = feed.deliver update delivers := by
  cases s with
  | fetchAdd kind => exact Or.inl ⟨kind, (Option.some.inj hs).symm⟩
  | instrument =>
    obtain ⟨hidle, heq⟩ := Option.ite_none_right_eq_some.mp hs
    exact Or.inr (Or.inl ⟨.all, hidle, (Option.some.inj heq).symm⟩)
  | publish =>
    obtain ⟨⟨hidle, _⟩, heq⟩ := Option.ite_none_right_eq_some.mp hs
    exact Or.inr (Or.inl ⟨.updatedOnly, hidle, (Option.some.inj heq).symm⟩)
  | swap =>
    unfold step at hs
    cases hsending : feed.sending with
    | swap kind update =>
      rw [hsending] at hs
      exact Or.inr (Or.inr (Or.inl ⟨kind, update, rfl, (Option.some.inj hs).symm⟩))
    | idle | send update =>
      rw [hsending] at hs
      cases hs
  | update delivers =>
    unfold step at hs
    cases hsending : feed.sending with
    | send update =>
      rw [hsending] at hs
      exact Or.inr (Or.inr (Or.inr ⟨update, delivers, rfl, (Option.some.inj hs).symm⟩))
    | idle | swap kind update =>
      rw [hsending] at hs
      cases hs

/-! ## 数の帳尻 -/

/-- 最後に作られた update までに捨てられた数。 -/
def lastTotal (log : List InstrumentUpdate) (kind : Dropped) : Nat :=
  match log.getLast? with
  | none => 0
  | some update => update.total.count kind

/-- 作りかけの update のうち、`kind` の数がもう読まれたもの。 -/
def Sending.read (kind : Dropped) : Sending → Option InstrumentUpdate
  | .idle => none
  | .swap .tasks _ => none
  | .swap .resources update => if kind = .tasks then some update else none
  | .swap .asyncOps update => if kind = .asyncOps then none else some update
  | .send update => some update

/-- `swap` の前に捨てられた数は、update に載るか、まだ `Shared` にある。 -/
def Pending (feed : Feed) (kind : Dropped) : Prop :=
  match feed.sending.read kind with
  | none => lastTotal feed.log kind + feed.shared.count kind = feed.total.count kind
  | some update =>
    update.total.count kind = lastTotal feed.log kind + update.dropped.count kind ∧
      update.total.count kind + feed.shared.count kind = feed.total.count kind

structure Accounted (feed : Feed) : Prop where
  pending : ∀ kind, Pending feed kind
  chain : ∀ i prev update kind, feed.log[i]? = some prev → feed.log[i + 1]? = some update →
    update.total.count kind = prev.total.count kind + update.dropped.count kind

section Accounts

variable {feed feed' : Feed} {update : InstrumentUpdate} {log : List InstrumentUpdate}
  {kind kind' : Dropped}

/-- 最後の update の総数が、最後に読まれた総数である。 -/
@[simp] theorem lastTotal_concat (log : List InstrumentUpdate) (update : InstrumentUpdate)
    (kind : Dropped) : lastTotal (log ++ [update]) kind = update.total.count kind := by
  simp [lastTotal]

theorem lastTotal_of_getElem? {i : Nat} (h : log[i]? = some update) (hlen : log.length = i + 1) :
    lastTotal log kind = update.total.count kind := by
  rw [lastTotal, List.getLast?_eq_getElem?, hlen, Nat.add_sub_cancel, h]

/-- 数を読むと、その数はもう読み終えた側になる。 -/
theorem read_swapped_self (kind : Dropped) (update : InstrumentUpdate) :
    (Feed.swapped kind update).read kind = some update := by
  cases kind <;> rfl

/-- ほかの数がもう読まれたかどうかは、`swap` では変わらない。 -/
theorem read_swapped_ne (h : kind' ≠ kind) (update update' : InstrumentUpdate) :
    (Feed.swapped kind update').read kind' =
      ((Sending.swap kind update).read kind').map fun _ => update' := by
  cases kind <;> cases kind' <;> first | rfl | exact absurd rfl h

/-- 読み終えた数は、作りかけの update のものである。 -/
theorem read_swap_of_eq (h : (Sending.swap kind update).read kind' = some update') :
    update' = update := by
  cases kind <;> cases kind' <;> simp [Sending.read] at h <;> exact h.symm

/-- `swap` は、まだ伝わっていない数の勘定を保つ。 -/
theorem pending_swap (h : Pending feed kind') (hs : feed.sending = .swap kind update) :
    Pending { feed with
      shared := feed.shared.put 0 kind
      sending := Feed.swapped kind { update with
        dropped := update.dropped.put (feed.shared.count kind) kind
        total := update.total.put (feed.total.count kind) kind } } kind' := by
  unfold Pending at h ⊢
  rw [hs] at h
  dsimp only
  by_cases hk : kind' = kind
  · -- いま読む数
    subst hk
    have hnone : (Sending.swap kind' update).read kind' = none := by cases kind' <;> rfl
    rw [hnone] at h
    rw [read_swapped_self]
    simp only [Shared.count_put_self]
    exact ⟨h.symm, Nat.add_zero _⟩
  · rw [read_swapped_ne hk update, Shared.count_put_ne hk]
    cases hr : (Sending.swap kind update).read kind' with
    | none =>
      rw [hr] at h
      exact h
    | some update' =>
      rw [hr] at h
      obtain rfl := read_swap_of_eq hr
      rw [Option.map_some]
      simp only [Shared.count_put_ne hk]
      exact h

/-- update を送っても、数は合ったままである。 -/
theorem accounted_deliver (h : Accounted feed) (hs : feed.sending = .send update)
    (delivers : Nat → Bool) : Accounted (feed.deliver update delivers) := by
  -- 受け手によらず、update は記録の最後に加わる
  obtain ⟨delivered, hdeliver⟩ : ∃ delivered, (feed.deliver update delivers).sending = .idle ∧
      (feed.deliver update delivers).log = feed.log ++ [{ update with delivered }] ∧
      (feed.deliver update delivers).shared = feed.shared ∧
      (feed.deliver update delivers).total = feed.total := by
    unfold Feed.deliver
    split
    · exact ⟨_, rfl, rfl, rfl, rfl⟩
    · exact ⟨_, rfl, rfl, rfl, rfl⟩
  obtain ⟨hidle, hlog, hshared, htotal⟩ := hdeliver
  have hpending : ∀ kind,
      update.total.count kind = lastTotal feed.log kind + update.dropped.count kind ∧
        update.total.count kind + feed.shared.count kind = feed.total.count kind := by
    intro kind
    have hk := h.pending kind
    unfold Pending at hk
    rw [hs] at hk
    exact hk
  refine ⟨fun kind => ?_, fun i prev next kind hi hi' => ?_⟩
  · unfold Pending
    rw [hidle, hlog, hshared, htotal]
    simp only [Sending.read, lastTotal_concat]
    exact (hpending kind).2
  · rw [hlog] at hi hi'
    have hprev : i + 1 ≤ feed.log.length → feed.log[i]? = some prev := by
      intro hle
      rwa [List.getElem?_append_left hle] at hi
    rcases getElem?_append_singleton hi' with hold | ⟨hlen, rfl⟩
    · exact h.chain i prev next kind (hprev (List.getElem?_eq_some_iff.mp hold).1.le) hold
    · rw [← lastTotal_of_getElem? (hprev hlen.le) hlen.symm]
      exact (hpending kind).1

/-- update を作り始めても、数は合ったままである。 -/
theorem accounted_begin (h : Accounted feed) (hidle : feed.sending = .idle) (what : Include) :
    Accounted (feed.begin what) := by
  refine ⟨fun kind => ?_, h.chain⟩
  have hk := h.pending kind
  unfold Pending at hk
  rw [hidle] at hk
  exact hk

/-- event を捨てると、まだ読まれていない数と総数とが、ともに一つ増える。 -/
theorem accounted_fetchAdd (h : Accounted feed) (kind : Dropped) :
    Accounted { feed with
      shared := feed.shared.fetchAdd kind, total := feed.total.fetchAdd kind } := by
  refine ⟨fun kind' => ?_, h.chain⟩
  have hk := h.pending kind'
  unfold Pending at hk ⊢
  dsimp only
  rw [Shared.count_fetchAdd, Shared.count_fetchAdd]
  split
  · next hread =>
    rw [hread] at hk
    dsimp only at hk
    omega
  · next update hread =>
    rw [hread] at hk
    dsimp only at hk
    omega

/-- **どの一歩でも、数の帳尻は合う。** -/
theorem step_accounted {s : FeedStep} (h : Accounted feed) (hs : feed.step s = some feed') :
    Accounted feed' := by
  rcases Feed.step_cases hs with ⟨kind, rfl⟩ | ⟨what, hidle, rfl⟩ | ⟨kind, update, hswap, rfl⟩ |
    ⟨update, delivers, hsend, rfl⟩
  · exact accounted_fetchAdd h kind
  · exact accounted_begin h hidle what
  · exact ⟨fun kind' => pending_swap (h.pending kind') hswap, h.chain⟩
  · exact accounted_deliver h hsend delivers

end Accounts

/-! ## 受け手 -/

/-- `client` は最初の update を受け取り、`i` 番目までの `publish` をすべて受け取った。 -/
def Heard (log : List InstrumentUpdate) (client i : Nat) : Prop :=
  (∃ first, log[client]? = some first ∧ first.what = .all ∧ client ∈ first.delivered) ∧
  ∀ i' update, client < i' → i' ≤ i → log[i']? = some update → update.what = .updatedOnly →
    client ∈ update.delivered

structure Attended (feed : Feed) : Prop where
  watchers : ∀ client ∈ feed.watchers, Heard feed.log client feed.log.length
  delivered : ∀ (i : Nat) update client, feed.log[i]? = some update → client ∈ update.delivered →
    client ≤ i ∧ (update.what = .all → client = i) ∧ Heard feed.log client i

section Audience

variable {feed feed' : Feed} {update : InstrumentUpdate} {log : List InstrumentUpdate}
  {client i : Nat}

/-- update を受け取った client は、もう加わっている。 -/
theorem Heard.lt (h : Heard log client i) : client < log.length := by
  obtain ⟨⟨first, hfirst, -⟩, -⟩ := h
  exact (List.getElem?_eq_some_iff.mp hfirst).1

/-- 一つ加わった update を受け取ったなら、そこまでもそのまま受け取っている。 -/
theorem Heard.concat (h : Heard log client i)
    (hnew : log.length ≤ i → update.what = .updatedOnly → client ∈ update.delivered) :
    Heard (log ++ [update]) client i := by
  obtain ⟨⟨first, hfirst, hall⟩, hpub⟩ := h
  refine ⟨⟨first, getElem?_append_of_some hfirst, hall⟩, ?_⟩
  intro i' update' hi' hle hget hwhat
  rcases getElem?_append_singleton hget with hold | ⟨rfl, rfl⟩
  · exact hpub i' update' hi' hle hold hwhat
  · exact hnew hle hwhat

/-- 前からの記録は、update が加わっても変わらない。 -/
theorem attended_concat {watchers : List Nat} {sending : Sending} (h : Attended feed)
    (hwatch : ∀ client ∈ watchers, Heard (feed.log ++ [update]) client (feed.log.length + 1))
    (hnew : ∀ client ∈ update.delivered, client ≤ feed.log.length ∧
      (update.what = .all → client = feed.log.length) ∧
      Heard (feed.log ++ [update]) client feed.log.length) :
    Attended { feed with watchers, sending, log := feed.log ++ [update] } := by
  refine ⟨fun client hc => ?_, fun i update' client hget hc => ?_⟩
  · dsimp only
    rw [List.length_append, List.length_singleton]
    exact hwatch client hc
  · rcases getElem?_append_singleton hget with hold | ⟨rfl, rfl⟩
    · obtain ⟨hle, hall, hheard⟩ := h.delivered i update' client hold hc
      have hlt := (List.getElem?_eq_some_iff.mp hold).1
      exact ⟨hle, hall, hheard.concat (fun hle => absurd hle (by omega))⟩
    · exact hnew client hc

/-- 記録の後の `i` については、何も言うことがない。 -/
theorem Heard.extend (h : Heard log client i) (hle : log.length ≤ i + 1) {i' : Nat} :
    Heard log client i' := by
  refine ⟨h.1, fun j update hj _ hget hwhat => h.2 j update hj ?_ hget hwhat⟩
  have hbound := (List.getElem?_eq_some_iff.mp hget).1
  omega

/-- update を送っても、client の加わった順は崩れない。 -/
theorem attended_deliver (h : Attended feed) (delivers : Nat → Bool) :
    Attended (feed.deliver update delivers) := by
  unfold Feed.deliver
  split
  · next hall =>
    have hnew : ∀ client ∈ (if delivers feed.log.length then [feed.log.length] else []), ∀ i,
        client = feed.log.length ∧ Heard (feed.log ++ [{ update with
          delivered := if delivers feed.log.length then [feed.log.length] else [] }]) client i := by
      intro client hc i
      have hlast : client = feed.log.length := by
        split at hc
        · exact List.mem_singleton.mp hc
        · cases hc
      subst hlast
      refine ⟨rfl, ⟨_, List.getElem?_concat_length, hall, hc⟩, fun i' update' hi' _ hget _ => ?_⟩
      rcases getElem?_append_singleton hget with hold | ⟨rfl, rfl⟩
      · exact absurd (List.getElem?_eq_some_iff.mp hold).1 (by omega)
      · exact hc
    refine attended_concat h (fun client hc => ?_) fun client hc => ?_
    · rcases List.mem_append.mp hc with hc | hc
      · refine ((h.watchers client hc).extend (Nat.le_succ _)).concat fun _ hwhat => ?_
        rw [hall] at hwhat
        cases hwhat
      · exact (hnew client hc _).2
    · exact ⟨Nat.le_of_eq (hnew client hc 0).1, fun _ => (hnew client hc 0).1, (hnew client hc _).2⟩
  · next hpub =>
    -- 届いた client だけが残る
    have hkept : ∀ client ∈ feed.watchers.filter delivers, ∀ i, Heard
        (feed.log ++ [{ update with delivered := feed.watchers.filter delivers }]) client i :=
      fun client hc i => ((h.watchers client (List.mem_filter.mp hc).1).extend
        (Nat.le_succ _)).concat fun _ _ => hc
    refine attended_concat h (fun client hc => hkept client hc _) fun client hc => ?_
    refine ⟨(h.watchers client (List.mem_filter.mp hc).1).lt.le, fun hwhat => ?_,
      hkept client hc _⟩
    rw [hpub] at hwhat
    cases hwhat

/-- **どの一歩でも、前からの client は `publish` をすべて受け取っている。** -/
theorem step_attended {s : FeedStep} (h : Attended feed) (hs : feed.step s = some feed') :
    Attended feed' := by
  rcases Feed.step_cases hs with ⟨kind, rfl⟩ | ⟨what, _, rfl⟩ | ⟨kind, update, _, rfl⟩ |
    ⟨update, delivers, _, rfl⟩
  · exact ⟨h.watchers, h.delivered⟩
  · exact ⟨h.watchers, h.delivered⟩
  · exact ⟨h.watchers, h.delivered⟩
  · exact attended_deliver h delivers

end Audience

/-! ## 伝わった数 -/

section Sums

variable {log : List InstrumentUpdate} {client j : Nat} {kind : Dropped}

/-- 加わった update より後には、まだ何も無い。 -/
@[simp] theorem after_self (log : List InstrumentUpdate) (client : Nat) :
    after log client client = [] := by
  simp [after]

/-- 次の update が、後ろに一つ加わる。 -/
theorem after_succ {update : InstrumentUpdate} (hle : client ≤ j)
    (hget : log[j + 1]? = some update) :
    after log client (j + 1) = after log client j ++ [update] := by
  unfold after
  rw [Nat.succ_sub hle, List.take_add_one, List.getElem?_drop]
  have hidx : client + 1 + (j - client) = j + 1 := by omega
  rw [hidx, hget, Option.toList_some]

/-- 次の update が届けば、それに載った数だけ増える。 -/
theorem told_succ {update : InstrumentUpdate} (hle : client ≤ j)
    (hget : log[j + 1]? = some update) :
    told log client (j + 1) kind = told log client j kind +
      if client ∈ update.delivered then update.dropped.count kind else 0 := by
  unfold told
  rw [after_succ hle hget, List.filter_append, List.map_append, List.sum_append]
  by_cases hc : client ∈ update.delivered <;> simp [hc]

/-- 次の update が誰かの最初のものなら、その前に捨てられたものがあってはならない。 -/
theorem quiet_succ {prev update : InstrumentUpdate} (hle : client ≤ j) (hprev : log[j]? = some prev)
    (hget : log[j + 1]? = some update) :
    Quiet log client (j + 1) kind ↔ Quiet log client j kind ∧
      (update.what = .all → update.total.count kind = prev.total.count kind) := by
  constructor
  · intro h
    exact ⟨fun i p u hi hij => h i p u hi (by omega), h j prev update hle (by omega) hprev hget⟩
  · rintro ⟨h, hlast⟩ i p u hi hij hp hu
    by_cases hlt : i < j
    · exact h i p u hi hlt hp hu
    · obtain rfl : i = j := by omega
      rw [hprev] at hp
      rw [hget] at hu
      cases hp
      cases hu
      exact hlast

/-- 伝わる数は、捨てられた数より多くはならない。等しいのは、間が静かなとき、そのときに限る。 -/
theorem told_spec {feed : Feed} {first : InstrumentUpdate} (kind : Dropped) (h : Accounted feed)
    (hfirst : feed.log[client]? = some first) (hle : client ≤ j) :
    ∀ update, feed.log[j]? = some update → Heard feed.log client j →
      (∀ i u, client < i → i ≤ j → feed.log[i]? = some u → u.what = .all →
        client ∉ u.delivered) →
      told feed.log client j kind + first.total.count kind ≤ update.total.count kind ∧
      (told feed.log client j kind + first.total.count kind = update.total.count kind ↔
        Quiet feed.log client j kind) := by
  induction j, hle using Nat.le_induction with
  | base =>
    intro update hget _ _
    rw [hfirst] at hget
    cases hget
    have hzero : told feed.log client client kind = 0 := by simp [told]
    rw [hzero, Nat.zero_add]
    exact ⟨Nat.le_refl _, fun _ i _ _ hi hij => absurd hij (by omega), fun _ => rfl⟩
  | succ j hle ih =>
    intro update hget hheard hother
    obtain ⟨prev, hprev⟩ : ∃ prev, feed.log[j]? = some prev :=
      ⟨_, List.getElem?_eq_getElem
        (Nat.lt_of_succ_lt (List.getElem?_eq_some_iff.mp hget).1)⟩
    have hchain := h.chain j prev update kind hprev hget
    obtain ⟨hprevle, hiff⟩ := ih prev hprev ⟨hheard.1, fun i u hi hij => hheard.2 i u hi (by omega)⟩
      (fun i u hi hij => hother i u hi (by omega))
    rw [told_succ hle hget, quiet_succ hle hprev hget, ← hiff]
    cases hwhat : update.what with
    | all =>
      rw [if_neg (hother (j + 1) update (by omega) (Nat.le_refl _) hget hwhat)]
      refine ⟨by omega, fun heq => ⟨by omega, fun _ => by omega⟩, fun ⟨heq, hquiet⟩ => ?_⟩
      have hsame := hquiet rfl
      omega
    | updatedOnly =>
      rw [if_pos (hheard.2 (j + 1) update (by omega) (Nat.le_refl _) hget hwhat)]
      refine ⟨by omega, fun heq => ⟨by omega, fun hall => by cases hall⟩, fun ⟨heq, _⟩ => by omega⟩

/--
**client に伝わった数の和が、最初に受け取った update から後に捨てられた event の数に等しいのは、
その間に作られた別の client の最初の update の直前に、何も捨てられていないとき、そのときに限る。**
-/
theorem told_iff (steps : List FeedStep) (feed : Feed) (client j : Nat) (latest : InstrumentUpdate)
    (hrun : Feed.start.run steps = some feed) (hj : feed.log[j]? = some latest)
    (hc : client ∈ latest.delivered) :
    ∃ first, feed.log[client]? = some first ∧ first.what = .all ∧ client ∈ first.delivered ∧
      client ≤ j ∧ ∀ kind,
        (told feed.log client j kind = latest.total.count kind - first.total.count kind ↔
          Quiet feed.log client j kind) := by
  have haccounted : Accounted feed := run_invariant (fun _ _ _ => step_accounted)
    ⟨(fun kind => by cases kind <;> rfl), (fun i _ _ _ hi => by cases i <;> cases hi)⟩ hrun
  have hattended : Attended feed := run_invariant (fun _ _ _ => step_attended)
    ⟨(fun _ hc => by cases hc), (fun i _ _ hi => by cases i <;> cases hi)⟩ hrun
  obtain ⟨hle, hall, hheard⟩ := hattended.delivered j latest client hj hc
  obtain ⟨first, hfirst, hwhat, hin⟩ := hheard.1
  refine ⟨first, hfirst, hwhat, hin, hle, fun kind => ?_⟩
  have hother : ∀ i u, client < i → i ≤ j → feed.log[i]? = some u → u.what = .all →
      client ∉ u.delivered := by
    intro i u hi _ hget hwhat' hmem
    have hsame := (hattended.delivered i u client hget hmem).2.1 hwhat'
    omega
  obtain ⟨hbound, hiff⟩ := told_spec kind haccounted hfirst hle latest hj hheard hother
  rw [← hiff]
  omega

/-- 一人だけのところに、捨てられた event が二つと、`publish` が一つ。 -/
def aloneSteps : List FeedStep :=
  [.instrument, .swap, .swap, .swap, .update fun _ => true, .fetchAdd .tasks, .publish, .swap,
   .fetchAdd .tasks, .swap, .swap, .update fun _ => true]

/-- 二つ目は、数が読まれた後に捨てられたので、まだ伝わっていない。 -/
def aloneFeed : Feed where
  shared := ⟨1, 0, 0⟩
  watchers := [0]
  sending := .idle
  total := ⟨2, 0, 0⟩
  log := [⟨.all, .taken, .taken, [0]⟩, ⟨.updatedOnly, ⟨1, 0, 0⟩, ⟨1, 0, 0⟩, [0]⟩]

theorem told_iff_alone :
    Feed.start.run aloneSteps = some aloneFeed ∧ told aloneFeed.log 0 1 .tasks = 1 := by
  have hrun : Feed.start.run aloneSteps = some aloneFeed := by decide
  obtain ⟨first, hfirst, -, -, -, hiff⟩ :=
    told_iff aloneSteps aloneFeed 0 1 ⟨.updatedOnly, ⟨1, 0, 0⟩, ⟨1, 0, 0⟩, [0]⟩ hrun rfl (by decide)
  cases hfirst
  refine ⟨hrun, (hiff .tasks).mpr fun i prev update _ hi _ hget hwhat => ?_⟩
  obtain rfl : i = 0 := by omega
  cases hget
  cases hwhat

/-- 捨てられてから `publish` までの間に、二人目が加わる。 -/
def secondClientSteps : List FeedStep :=
  [.instrument, .swap, .swap, .swap, .update fun _ => true, .fetchAdd .tasks,
   .instrument, .swap, .swap, .swap, .update fun _ => true,
   .publish, .swap, .swap, .swap, .update fun _ => true]

/-- 初めからいる client は、捨てられた event を知らされない。 -/
theorem second_client_hides_drop :
    (Feed.start.run secondClientSteps).map (fun feed => (feed.watchers, told feed.log 0 2 .tasks)) =
      some ([0, 1], 0) ∧
    (Feed.start.run secondClientSteps).map (fun feed =>
        feed.log.map fun update => (update.delivered, update.total.count .tasks)) =
      some [([0], 0), ([1], 1), ([0, 1], 1)] := by decide

end Sums

end FabAccess.Console
