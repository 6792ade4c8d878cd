import FabAccess.Console.Aggregate

/-!
# event が失われるとき

`run` は一周のうちに channel を二箇所で読む。drain のループで読んだ event は `update_state` に渡るが、
切断を確かめる `try_recv` が event を取り出してしまうと、その event はどこにも渡らない。
drain が空を見てから確かめるまでの間に producer が入れた event がそうなる。

* `World.step_effect` — 一歩が三つの列（受け取った・渡った・残っている）にすること
* `no_event_lost_iff` — 何も失われないのは、確かめるときの channel がいつも空のとき、そのときに限る
-/

namespace FabAccess.Console

open Infra

variable {P : Type} {w w' : World P} {a : Action P}

namespace World

/-- 受け取った event のすべてが、受け取った順に、渡ったか残っている。 -/
def Complete (w : World P) : Prop := w.accepted = w.applied ++ w.channel.queue

/-- 切断を確かめる `try_recv` が、event を取り出してしまう。 -/
def Loses (w : World P) (a : Action P) : Prop :=
  (∃ delivers, a = .tick delivers) ∧ w.agg.pc = .test ∧ w.channel.queue ≠ []

/-! ## 一歩 -/

/-- 三つの列が変わらない。 -/
def SameLists (w w' : World P) : Prop :=
  w'.accepted = w.accepted ∧ w'.applied = w.applied ∧ w'.channel.queue = w.channel.queue

theorem tick_cases {delivers : Nat → Bool} (h : w.tick delivers = some w') :
    (∃ event rest, w.channel.queue = event :: rest ∧ w'.channel.queue = rest ∧
      w'.accepted = w.accepted ∧
      (w.agg.pc = .drain ∧ w'.applied = w.applied ++ [event] ∨
        w.agg.pc = .test ∧ w'.applied = w.applied)) ∨
    (SameLists w w' ∧ ¬ (w.agg.pc = .test ∧ w.channel.queue ≠ [])) := by
  unfold tick at h
  split at h
  · cases h
  · cases h
  · next hpc =>
    unfold EventChannel.tryRecv at h
    cases hq : w.channel.queue with
    | nil =>
      simp only [hq] at h
      cases hs : w.channel.senders <;> simp only [hs] at h <;> cases h <;>
        exact Or.inr ⟨⟨rfl, rfl, rfl⟩, by simp [hpc]⟩
    | cons event rest =>
      simp only [hq] at h
      cases h
      exact Or.inl ⟨event, rest, rfl, rfl, rfl, Or.inl ⟨hpc, rfl⟩⟩
  · next hpc =>
    unfold EventChannel.tryRecv at h
    cases hq : w.channel.queue with
    | nil =>
      simp only [hq] at h
      cases hs : w.channel.senders <;> simp only [hs] at h <;> cases h <;>
        exact Or.inr ⟨⟨rfl, rfl, by simp [returned, hq]⟩, by simp⟩
    | cons event rest =>
      simp only [hq] at h
      cases h
      exact Or.inl ⟨event, rest, rfl, rfl, rfl, Or.inr ⟨hpc, rfl⟩⟩
  · next hpc =>
    split at h <;> cases h <;> exact Or.inr ⟨⟨rfl, rfl, rfl⟩, by simp [hpc]⟩

/-- 一歩が三つの列にすること。末尾に受け取るか、先頭を渡すか、先頭を捨てるか、何もしない。 -/
inductive Effect (w w' : World P) (a : Action P) : Prop where
  | accepts (event : Event P) (hno : ¬ w.Loses a) (hacc : w'.accepted = w.accepted ++ [event])
      (happ : w'.applied = w.applied) (hq : w'.channel.queue = w.channel.queue ++ [event])
  | applies (event : Event P) (rest : List (Event P)) (hno : ¬ w.Loses a)
      (hq : w.channel.queue = event :: rest) (hacc : w'.accepted = w.accepted)
      (happ : w'.applied = w.applied ++ [event]) (hq' : w'.channel.queue = rest)
  | loses (event : Event P) (rest : List (Event P)) (hl : w.Loses a)
      (hq : w.channel.queue = event :: rest) (hacc : w'.accepted = w.accepted)
      (happ : w'.applied = w.applied) (hq' : w'.channel.queue = rest)
  | keeps (hno : ¬ w.Loses a) (hsame : SameLists w w')

theorem step_effect (h : w.step a = some w') : Effect w w' a := by
  have hother : (∀ delivers, a ≠ .tick delivers) → ¬ w.Loses a := by
    rintro hne ⟨⟨delivers, rfl⟩, _⟩
    exact hne delivers rfl
  cases a with
  | isFull dropped =>
    simp only [step] at h
    split at h <;> cases h <;> exact .keeps (hother (by simp)) ⟨rfl, rfl, rfl⟩
  | trySend dropped event =>
    simp only [step, EventChannel.trySend] at h
    by_cases hr : w.channel.receiver = true
    · by_cases hf : w.channel.isFull = true
      · simp only [hr, hf] at h
        cases h
        exact .keeps (hother (by simp)) ⟨rfl, rfl, rfl⟩
      · simp only [hr, hf] at h
        cases h
        exact .accepts event (hother (by simp)) rfl rfl rfl
    · simp only [hr] at h
      cases h
      exact .keeps (hother (by simp)) ⟨rfl, rfl, rfl⟩
  | dropLayer =>
    cases h
    exact .keeps (hother (by simp)) ⟨rfl, rfl, rfl⟩
  | wake cmd =>
    simp only [step] at h
    split at h <;> cases h <;> exact .keeps (hother (by simp)) ⟨rfl, rfl, rfl⟩
  | tick delivers =>
    rcases tick_cases h with ⟨event, rest, hq, hq', hacc, ⟨hpc, happ⟩ | ⟨hpc, happ⟩⟩ | ⟨hsame, hno⟩
    · refine .applies event rest ?_ hq hacc happ hq'
      rintro ⟨_, htest, _⟩
      rw [hpc] at htest
      cases htest
    · exact .loses event rest ⟨⟨delivers, rfl⟩, hpc, by simp [hq]⟩ hq hacc happ hq'
    · exact .keeps (fun hl => hno hl.2) hsame

theorem Complete.step (hc : w.Complete) (hno : ¬ w.Loses a) (h : w.step a = some w') :
    w'.Complete := by
  unfold Complete at hc ⊢
  cases step_effect h with
  | accepts event _ hacc happ hq => rw [hacc, happ, hq, hc, List.append_assoc]
  | applies event rest _ hq hacc happ hq' =>
    rw [hacc, happ, hq', hc, hq, List.append_assoc, List.singleton_append]
  | loses event rest hl => exact absurd hl hno
  | keeps _ hsame =>
    obtain ⟨hacc, happ, hq⟩ := hsame
    rw [hacc, happ, hq, hc]

/-- 渡ったものと残っているものは、受け取ったものを順に並べたものから、いくつか抜けたものである。 -/
def Ordered (w : World P) : Prop := (w.applied ++ w.channel.queue).Sublist w.accepted

theorem Ordered.step (hs : w.Ordered) (h : w.step a = some w') : w'.Ordered := by
  unfold Ordered at hs ⊢
  cases step_effect h with
  | accepts event _ hacc happ hq =>
    rw [hacc, happ, hq, ← List.append_assoc]
    exact hs.append (List.Sublist.refl _)
  | applies event rest _ hq hacc happ hq' =>
    rw [hacc, happ, hq', List.append_assoc, List.singleton_append, ← hq]
    exact hs
  | loses event rest _ hq hacc happ hq' =>
    rw [hacc, happ, hq']
    rw [hq] at hs
    exact List.Sublist.trans (List.Sublist.append_left (List.sublist_cons_self event rest) _) hs
  | keeps _ hsame =>
    obtain ⟨hacc, happ, hq⟩ := hsame
    rw [hacc, happ, hq]
    exact hs

/-- 行方の分からない event の数。 -/
def missing (w : World P) : Nat :=
  w.accepted.length - (w.applied.length + w.channel.queue.length)

theorem missing_step (hs : w.Ordered) (h : w.step a = some w') :
    w.missing ≤ w'.missing ∧ (w.Loses a → 0 < w'.missing) := by
  have hle := hs.length_le
  rw [List.length_append] at hle
  unfold missing
  cases step_effect h with
  | accepts event hno hacc happ hq =>
    refine ⟨?_, fun hl => absurd hl hno⟩
    rw [hacc, happ, hq, List.length_append, List.length_append, List.length_singleton]
    omega
  | applies event rest hno hq hacc happ hq' =>
    refine ⟨?_, fun hl => absurd hl hno⟩
    rw [hacc, happ, hq', hq, List.length_append, List.length_singleton, List.length_cons]
    omega
  | loses event rest _ hq hacc happ hq' =>
    rw [hq, List.length_cons] at hle ⊢
    rw [hacc, happ, hq']
    omega
  | keeps hno hsame =>
    obtain ⟨hacc, happ, hq⟩ := hsame
    refine ⟨Nat.le_of_eq ?_, fun hl => absurd hl hno⟩
    rw [hacc, happ, hq]

theorem Complete.missing_eq (hc : w.Complete) : w.missing = 0 := by
  unfold Complete at hc
  unfold missing
  rw [hc, List.length_append, Nat.sub_self]

/-- 順に並んでいて、行方の分からない event が無ければ、すべてが揃っている。 -/
theorem Ordered.complete_iff (hs : w.Ordered) : w.Complete ↔ w.missing = 0 := by
  constructor
  · exact Complete.missing_eq
  · intro hzero
    unfold missing at hzero
    refine (hs.eq_of_length_le ?_).symm
    rw [List.length_append]
    omega

theorem start_complete (capacity : Nat) : (start capacity : World P).Complete := rfl

theorem start_ordered (capacity : Nat) : (start capacity : World P).Ordered :=
  List.Sublist.refl []

theorem Complete.ordered (hc : w.Complete) : w.Ordered := by
  unfold Ordered
  rw [← hc]

/-- 最後にすべてが揃っているのは、途中で一つも捨てなかったときである。 -/
theorem run_complete_iff {capacity : Nat} {actions : List (Action P)}
    (h : (start capacity).run actions = some w) :
    w.Complete ↔ ∀ v a, StepsFrom World.step (start capacity) actions v a → ¬ v.Loses a := by
  refine final_iff (I := Ordered) (fun _ _ _ hs hstep => hs.step hstep)
    (fun _ _ _ hc hno hstep => hc.step hno hstep) ?_ ?_ (start_ordered capacity)
    (start_complete capacity) h
  · intro v a v' hc hl hstep hc'
    have hpos := (missing_step hc.ordered hstep).2 hl
    rw [hc'.missing_eq] at hpos
    exact absurd hpos (Nat.lt_irrefl 0)
  · -- 一度捨てた event は、後でどう進んでも戻らない
    intro v a v' hs hno hstep hc'
    have hle := (missing_step hs hstep).1
    rw [hc'.missing_eq] at hle
    exact hno (hs.complete_iff.mpr (Nat.le_zero.mp hle))

end World

/--
producer と `run` の歩みをどう混ぜても、受け取った event のすべてがちょうど一度ずつ順に渡ったか
残っているのは、切断を確かめる `try_recv` のときに channel がいつも空であるとき、そのときに限る。
捨てられたもののほかは、いつでも順に並んでいて、二度渡ることは無い。
-/
theorem no_event_lost_iff (capacity : Nat) (actions : List (Action P)) (w : World P)
    (hrun : (World.start capacity).run actions = some w) :
    (w.accepted = w.applied ++ w.channel.queue ↔
      ∀ v delivers, StepsFrom World.step (World.start capacity) actions v (.tick delivers) →
        v.agg.pc = .test → v.channel.queue = []) ∧
    (w.applied ++ w.channel.queue).Sublist w.accepted := by
  refine ⟨?_, run_invariant (P := World.Ordered) (fun _ _ _ hs hstep => hs.step hstep)
    (World.start_ordered capacity) hrun⟩
  refine (World.run_complete_iff hrun).trans ?_
  constructor
  · intro h v delivers hstep hpc
    by_contra hq
    exact h v _ hstep ⟨⟨delivers, rfl⟩, hpc, hq⟩
  · rintro h v a hstep ⟨⟨delivers, rfl⟩, hpc, hq⟩
    exact hq (h v delivers hstep hpc)

/-- task が一つ生まれる。 -/
def spawnOf (id : Nat) : Event Unit := .spawn id () () [] none

/-- 一周のうちに、drain の前に一つ、確かめた後に一つ届く。 -/
def calm : List (Action Unit) :=
  [.trySend .tasks (spawnOf 1), .wake .timer, .tick fun _ => true, .tick fun _ => true,
   .tick fun _ => true, .trySend .tasks (spawnOf 2), .tick fun _ => true]

theorem no_event_lost_iff_calm :
    ∃ w : World Unit, (World.start 1024).run calm = some w ∧
      (w.applied ++ w.channel.queue).Sublist w.accepted ∧
      w.accepted = [spawnOf 1, spawnOf 2] ∧ w.applied ++ w.channel.queue = w.accepted := by
  have hproj : ((World.start 1024).run calm).map (fun w => (w.accepted, w.applied ++ w.channel.queue))
      = some ([spawnOf 1, spawnOf 2], [spawnOf 1, spawnOf 2]) := by decide
  obtain ⟨w, hrun, hw⟩ := Option.map_eq_some_iff.mp hproj
  have hacc := congrArg Prod.fst hw
  have hall := congrArg Prod.snd hw
  exact ⟨w, hrun, (no_event_lost_iff 1024 calm w hrun).2, hacc, hall.trans hacc.symm⟩

/-- drain が空を見た後、確かめる前に届いた task は、どこにも現れない。 -/
def unlucky : List (Action Unit) :=
  [.wake .timer, .tick fun _ => true, .trySend .tasks (spawnOf 7), .tick fun _ => true]

theorem event_lost_in_test :
    ((World.start 1024).run unlucky).map
      (fun w => (w.accepted, w.applied, w.channel.queue, w.agg.tables.tasks 7)) =
        some ([spawnOf 7], [], [], none) := by
  decide

end FabAccess.Console
