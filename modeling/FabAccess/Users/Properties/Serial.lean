import Mathlib.Data.List.Permutation
import FabAccess.Users.Api

/-!
# user の更新の直列性

`get_user` と `put_user` は別の transaction なので、その間にほかの呼び出しが書くと更新が失われる。

* `updates_serial` — 書くときに record が読んだままであるどの実行も、呼び出しを一つずつ
  順に行ったのと同じ database と返事になる
* `twoRoles_not_serial` — 二つの `add_role` が割り込み合うと、片方の role が失われる

順序は、それぞれの呼び出しが database への最後の書き込み（書かないなら読み）を行った順である。
-/

namespace FabAccess

open FabAccess.Infra FabAccess.Infra.System

variable (x : Codec) (toml : Toml) (rules : Rules)

/-! ## 一つずつ行う実行 -/

/-- 割り込まれずに `n` 歩まで進む。 -/
def Pending.drive : Nat → Users → Pending → Users × Pending
  | 0, users, t => (users, t)
  | n + 1, users, t =>
    match t.next x toml rules users with
    | some (users', t') => Pending.drive n users' t'
    | none => (users, t)

/-- 一つの呼び出しを、始めから終わりまで行う。歩は多くても四つである。 -/
def UserCall.alone (call : UserCall) (users : Users) : Users × Pending :=
  (call.begin rules).drive x toml rules 4 users

/-- 呼び出しをこの順に一つずつ行うと、database は `users` から `users'` になり、
それぞれがこのように終わる。 -/
inductive Serial (users : Users) : List Pending → Users → Prop where
  | nil : Serial users [] users
  | snoc {ts : List Pending} {t : Pending} {users₁ users₂ : Users} (h : Serial users ts users₁)
    (ht : t.call.alone x toml rules users₁ = (users₂, t)) : Serial users (ts ++ [t]) users₂

/-! ## 割り込みの条件 -/

/-- 次の歩が当てにしている record。書くときは読んだ record、返事を作る間は呼んだ user の record である。 -/
def Pending.expects (t : Pending) : Option (String × Option User) :=
  match t.call, t.progress with
  | call, .put seen _ => some (call.target, seen)
  | .addUserFallible caller _ _ _, .fillInfo seen => some (caller, seen)
  | .addUserFallible caller _ _ _, .fillAdmin seen _ => some (caller, seen)
  | _, _ => none

/-- 当てにしている record は変わっていない。 -/
def Pending.Fresh (users : Users) (t : Pending) : Prop :=
  ∀ p ∈ t.expects, users.getUser p.1 = p.2

/-- 進む呼び出し。 -/
def moving (c : Config Users Pending) : Move UserCall Unit → Option Pending
  | .exec n _ => c.threads[n]?
  | .spawn _ => none

/-- 進む呼び出しは `Fresh` である。 -/
def Undisturbed (c : Config Users Pending) (m : Move UserCall Unit) : Prop :=
  ∀ t ∈ moving c m, t.Fresh c.shared

instance Pending.Fresh.decidable (users : Users) (t : Pending) : Decidable (t.Fresh users) :=
  inferInstanceAs (Decidable (∀ p ∈ t.expects, _))

instance (c : Config Users Pending) (m : Move UserCall Unit) : Decidable (Undisturbed c m) :=
  inferInstanceAs (Decidable (∀ t ∈ moving c m, _))

/-! ## 終わり方の決まった呼び出し -/

/-- 書き終えた呼び出しは、返事も決まっている。 -/
def Pending.settled : Pending → Option Pending
  | ⟨call, .done r⟩ => some ⟨call, .done r⟩
  | ⟨.addUserFallible caller username password salt, .fillInfo seen⟩ =>
    some ⟨.addUserFallible caller username password salt,
      .done (.added (fillsInfo rules caller username seen) (caller = username)
        (fillsAdmin rules seen))⟩
  | ⟨.addUserFallible caller username password salt, .fillAdmin seen info⟩ =>
    some ⟨.addUserFallible caller username password salt,
      .done (.added info (caller = username) (fillsAdmin rules seen))⟩
  | _ => none

/-- 途中の呼び出しが覚えているもの。 -/
def Pending.Checked (t : Pending) : Prop :=
  match t.progress with
  | .start => t.call.begin rules = ⟨t.call, .start⟩
  | .put seen user => t.call.begin rules = ⟨t.call, .start⟩ ∧ t.call.reads = true ∧
      t.call.edit x seen = .put user
  | _ => True

variable {x toml rules}

theorem drive_of_next {users users' : Users} {t t' : Pending}
    (h : t.next x toml rules users = some (users', t')) (n : Nat) :
    t.drive x toml rules (n + 1) users = t'.drive x toml rules n users' := by
  rw [Pending.drive, h]

theorem drive_done (n : Nat) (users : Users) (call : UserCall) (r : Reply) :
    (⟨call, .done r⟩ : Pending).drive x toml rules n users = (users, ⟨call, .done r⟩) := by
  cases n <;> rfl

theorem next_prepare {users : Users} {call : UserCall} {user : User} (hr : call.reads = true)
    (h : call.edit x (users.getUser call.target) = .put user) :
    (⟨call, .start⟩ : Pending).next x toml rules users =
      some (users, ⟨call, .put (users.getUser call.target) user⟩) := by
  cases call with
  | removeUser who => cases hr
  | loadFile file salt => cases hr
  | _ => simp only [Pending.next, h]

/-- 読んでから書くまでに record が変わっていなければ、割り込まれなかったのと同じである。 -/
theorem alone_put {users users' : Users} {call : UserCall} {seen : Option User} {user : User}
    {t' : Pending} (hc : (⟨call, .put seen user⟩ : Pending).Checked x rules)
    (hf : (⟨call, .put seen user⟩ : Pending).Fresh users)
    (hn : (⟨call, .put seen user⟩ : Pending).next x toml rules users = some (users', t')) :
    call.alone x toml rules users = t'.drive x toml rules 2 users' := by
  obtain ⟨hbegin, hr, hedit⟩ := hc
  have hseen : users.getUser call.target = seen := by
    refine hf (call.target, seen) ?_
    cases call <;> rfl
  rw [← hseen] at hedit
  rw [UserCall.alone, hbegin, drive_of_next (next_prepare hr hedit), hseen, drive_of_next hn]

/-! ## 一歩 -/

variable (x toml rules) in
/-- 終わり方の決まった呼び出しを、ある順に一つずつ行ったのと同じである。 -/
def Ordered (users₀ users : Users) (l : List Pending) : Prop :=
  ∃ order, order.Perm (l.filterMap (Pending.settled rules)) ∧ Serial x toml rules users₀ order users

theorem Ordered.settle {users₀ users users' : Users} {t t' u : Pending} {rest : List Pending}
    (h : Ordered x toml rules users₀ users (t :: rest)) (ht : t.settled rules = none)
    (ht' : t'.settled rules = some u) (hu : u.call.alone x toml rules users = (users', u)) :
    Ordered x toml rules users₀ users' (t' :: rest) := by
  obtain ⟨order, hperm, hser⟩ := h
  rw [List.filterMap_cons_none ht] at hperm
  refine ⟨order ++ [u], ?_, .snoc hser hu⟩
  rw [List.filterMap_cons_some ht']
  exact (List.perm_append_singleton u order).trans (hperm.cons u)

theorem Ordered.keep {users₀ users : Users} {t t' : Pending} {rest : List Pending}
    (h : Ordered x toml rules users₀ users (t :: rest)) (ht : t'.settled rules = t.settled rules) :
    Ordered x toml rules users₀ users (t' :: rest) := by
  obtain ⟨order, hperm, hser⟩ := h
  refine ⟨order, ?_, hser⟩
  rw [List.filterMap_cons, ht, ← List.filterMap_cons]
  exact hperm

/-- 始めの一歩で終わった呼び出し。 -/
theorem alone_start {users users' : Users} {call : UserCall} {r : Reply}
    (hc : (⟨call, .start⟩ : Pending).Checked x rules)
    (hn : (⟨call, .start⟩ : Pending).next x toml rules users = some (users', ⟨call, .done r⟩)) :
    call.alone x toml rules users = (users', ⟨call, .done r⟩) := by
  have hbegin : call.begin rules = ⟨call, .start⟩ := hc
  rw [UserCall.alone, hbegin, drive_of_next hn, drive_done]

theorem turn_serial {users₀ users users' : Users} {t t' : Pending} {rest : List Pending}
    (hn : t.next x toml rules users = some (users', t')) (hf : t.Fresh users)
    (hc : t.Checked x rules) (h : Ordered x toml rules users₀ users (t :: rest)) :
    Ordered x toml rules users₀ users' (t' :: rest) ∧ t'.Checked x rules := by
  cases next_turn hn with
  | remove who => exact ⟨h.settle rfl rfl (alone_start hc hn), trivial⟩
  | load hload => exact ⟨h.settle rfl rfl (alone_start hc hn), trivial⟩
  | loadFailed hload => exact ⟨h.settle rfl rfl (alone_start hc hn), trivial⟩
  | @settle call r hr he =>
    have hnone : (⟨call, .start⟩ : Pending).settled rules = none := by cases call <;> rfl
    exact ⟨h.settle hnone rfl (alone_start hc hn), trivial⟩
  -- 読むだけの歩は順序に加わらない。加わるのは、書いて終わり方の決まった歩である
  | @prepare call user hr he =>
    refine ⟨h.keep ?_, hc, hr, he⟩
    cases call <;> rfl
  | @refused call seen user hput =>
    have hnone : (⟨call, .put seen user⟩ : Pending).settled rules = none := by cases call <;> rfl
    have halone := alone_put hc hf hn
    rw [drive_done] at halone
    exact ⟨h.settle hnone rfl halone, trivial⟩
  | @wrote call seen user _ hadd hput =>
    have hnone : (⟨call, .put seen user⟩ : Pending).settled rules = none := by cases call <;> rfl
    have halone := alone_put hc hf hn
    rw [drive_done] at halone
    exact ⟨h.settle hnone rfl halone, trivial⟩
  | added hput => exact ⟨h.settle rfl rfl (alone_put hc hf hn), trivial⟩
  -- 書いた後の読み直し。呼んだ user の record は、書いたときのままである
  | fillInfo caller username password salt seen =>
    have hseen : users.getUser caller = seen := hf (caller, seen) rfl
    refine ⟨h.keep ?_, trivial⟩
    rw [hseen]
    rfl
  | fillAdmin caller username password salt seen info =>
    have hseen : users.getUser caller = seen := hf (caller, seen) rfl
    refine ⟨h.keep ?_, trivial⟩
    rw [hseen]
    rfl

theorem begin_cases (rules : Rules) (call : UserCall) :
    call.begin rules = ⟨call, .start⟩ ∨ ∃ r, call.begin rules = ⟨call, .done r⟩ := by
  cases call with
  | addRole uid rolename | removeRole uid rolename =>
    simp only [UserCall.begin]
    split
    · exact Or.inl rfl
    · exact Or.inr ⟨.ok, rfl⟩
  | addUserFallible caller username password salt =>
    simp only [UserCall.begin]
    split
    · exact Or.inr ⟨_, rfl⟩
    · split
      · exact Or.inr ⟨_, rfl⟩
      · exact Or.inl rfl
  | _ => exact Or.inl rfl

/-- 始まった呼び出し。database に触れないものは、すぐに終わり方が決まる。 -/
theorem begin_serial {users₀ users : Users} {l : List Pending} (call : UserCall)
    (h : Ordered x toml rules users₀ users l) :
    Ordered x toml rules users₀ users (call.begin rules :: l) ∧
      (call.begin rules).Checked x rules := by
  obtain ⟨order, hperm, hser⟩ := h
  rcases begin_cases rules call with hb | ⟨r, hb⟩
  · have hnone : (⟨call, .start⟩ : Pending).settled rules = none := by cases call <;> rfl
    rw [hb]
    refine ⟨⟨order, ?_, hser⟩, hb⟩
    rw [List.filterMap_cons_none hnone]
    exact hperm
  · have hsome : (⟨call, .done r⟩ : Pending).settled rules = some ⟨call, .done r⟩ := rfl
    rw [hb]
    refine ⟨⟨order ++ [⟨call, .done r⟩], ?_, .snoc hser ?_⟩, trivial⟩
    · rw [List.filterMap_cons_some hsome]
      exact (List.perm_append_singleton _ _).trans (hperm.cons _)
    · rw [UserCall.alone, hb, drive_done]

/-! ## 実行 -/

/--
どの呼び出しが書くときにも、record が読んだときのままである実行では、終わったときの database と
それぞれの返事は、同じ呼び出しをある順に一つずつ行ったのと同じである。
-/
theorem updates_serial (x : Codec) (toml : Toml) (rules : Rules) (users : Users)
    (ms : List (Move UserCall Unit)) (c : Config Users Pending)
    (hrun : (userApi x toml rules).run ⟨users, []⟩ ms = some c)
    (hfresh : (userApi x toml rules).Obeys Undisturbed ⟨users, []⟩ ms)
    (hdone : ∀ t ∈ c.threads, ∃ r, t.progress = .done r) :
    ∃ order, order.Perm c.threads ∧ Serial x toml rules users order c.shared := by
  have hinv : Ordered x toml rules users c.shared c.threads ∧
      ∀ t ∈ c.threads, t.Checked x rules := by
    refine run_invariant_of_obeys
      (motive := fun users' l => Ordered x toml rules users users' l ∧ ∀ t ∈ l, t.Checked x rules)
      ?_ ?_ ?_ hrun hfresh ⟨⟨[], List.Perm.refl _, .nil⟩, by simp⟩
    · intro users' l l' hp h
      obtain ⟨⟨order, hperm, hser⟩, hall⟩ := h
      exact ⟨⟨order, hperm.trans (hp.filterMap _), hser⟩,
        fun t ht => hall t (hp.mem_iff.mpr ht)⟩
    · intro users' l call users'' ts hs _ h
      cases hs
      obtain ⟨hord, hcheck⟩ := begin_serial call h.1
      refine ⟨hord, fun t ht => ?_⟩
      rcases List.mem_cons.mp ht with rfl | ht
      · exact hcheck
      · exact h.2 t ht
    · intro c n t k users' t' rest hget _ hn hok h
      obtain ⟨hord, hcheck⟩ := turn_serial hn (hok t hget) (h.2 t (by simp)) h.1
      refine ⟨hord, fun u hu => ?_⟩
      rcases List.mem_cons.mp hu with rfl | hu
      · exact hcheck
      · exact h.2 u (List.mem_cons_of_mem _ hu)
  obtain ⟨⟨order, hperm, hser⟩, _⟩ := hinv
  -- 終わった呼び出しは、どれも終わり方が決まっている
  have hall : c.threads.filterMap (Pending.settled rules) = c.threads := by
    rw [List.filterMap_congr (g := some) (fun t ht => ?_), List.filterMap_some]
    obtain ⟨call, progress⟩ := t
    obtain ⟨r, rfl⟩ := hdone _ ht
    rfl
  rw [hall] at hperm
  exact ⟨order, hperm, hser⟩

def noToml : Toml := ⟨fun _ => none, fun _ => ByteArray.empty⟩

def noCodec : Codec := ⟨fun _ _ => "", fun _ _ => none, fun _ => "", fun _ => none⟩

def anyRole : Rules := ⟨fun _ => true, fun _ => false, fun _ => false⟩

def aliceAlone : Users := ⟨Finmap.singleton "alice" ⟨"alice", ⟨[], none, ∅⟩⟩⟩

def addLaser : UserCall := .addRole "alice" "laser"

def addMill : UserCall := .addRole "alice" "mill"

/-- 二つの `add_role` を一つずつ行う。 -/
def laserThenMill : List (Move UserCall Unit) :=
  [.spawn addLaser, .exec 0 (), .exec 0 (), .spawn addMill, .exec 1 (), .exec 1 ()]

theorem updates_serial_laserThenMill :
    ∃ c, (userApi noCodec noToml anyRole).run ⟨aliceAlone, []⟩ laserThenMill = some c ∧
      (c.shared.getUser "alice").map (·.userdata.roles) = some ["laser", "mill"] ∧
      ∃ order, order.Perm c.threads ∧ Serial noCodec noToml anyRole aliceAlone order c.shared := by
  have h : ((userApi noCodec noToml anyRole).run ⟨aliceAlone, []⟩ laserThenMill).map
      (fun c => ((c.shared.getUser "alice").map (·.userdata.roles), c.threads.map (·.progress))) =
      some (some ["laser", "mill"], [.done .ok, .done .ok]) := by decide
  obtain ⟨c, hrun, hc⟩ := Option.map_eq_some_iff.mp h
  rw [Prod.mk.injEq] at hc
  refine ⟨c, hrun, hc.1, updates_serial noCodec noToml anyRole aliceAlone laserThenMill c hrun
    (by decide) (fun t ht => ?_)⟩
  have hmem : t.progress ∈ c.threads.map (·.progress) := List.mem_map_of_mem ht
  rw [hc.2] at hmem
  exact ⟨.ok, by simpa using hmem⟩

/-- 列の最後の呼び出しを取り出す。 -/
theorem serial_concat {users users' : Users} (ts : List Pending) {t : Pending}
    (h : Serial x toml rules users (ts ++ [t]) users') :
    ∃ users₁, Serial x toml rules users ts users₁ ∧
      t.call.alone x toml rules users₁ = (users', t) := by
  generalize hl : ts ++ [t] = l at h
  cases h with
  | nil => simp at hl
  | @snoc ts' t' users₁ _ h ht =>
    obtain ⟨rfl, heq⟩ := List.append_inj' hl rfl
    cases heq
    exact ⟨users₁, h, ht⟩

theorem serial_nil {users users' : Users} (h : Serial x toml rules users [] users') :
    users' = users := by
  generalize hl : ([] : List Pending) = l at h
  cases h with
  | nil => rfl
  | snoc h ht => simp at hl

theorem serial_pair {users users' : Users} {a b : Pending}
    (h : Serial x toml rules users [a, b] users') :
    users' = (b.call.alone x toml rules (a.call.alone x toml rules users).1).1 := by
  obtain ⟨users₁, h, hb⟩ := serial_concat [a] h
  obtain ⟨users₀, h, ha⟩ := serial_concat [] h
  rw [← serial_nil h, ha, hb]

/-- どちらも読んでから、どちらも書く。 -/
def twoRoles : List (Move UserCall Unit) :=
  [.spawn addLaser, .spawn addMill, .exec 0 (), .exec 1 (), .exec 0 (), .exec 1 ()]

theorem twoRoles_not_serial :
    ∃ c, (userApi noCodec noToml anyRole).run ⟨aliceAlone, []⟩ twoRoles = some c ∧
      (∀ t ∈ c.threads, ∃ r, t.progress = .done r) ∧
      ¬ ∃ order, order.Perm c.threads ∧
        Serial noCodec noToml anyRole aliceAlone order c.shared := by
  have h : ((userApi noCodec noToml anyRole).run ⟨aliceAlone, []⟩ twoRoles).map (·.threads) =
      some [⟨addLaser, .done .ok⟩, ⟨addMill, .done .ok⟩] := rfl
  obtain ⟨c, hrun, hthreads⟩ := Option.map_eq_some_iff.mp h
  have hroles : ((userApi noCodec noToml anyRole).run ⟨aliceAlone, []⟩ twoRoles).map
      (fun c => (c.shared.getUser "alice").map (·.userdata.roles)) = some (some ["mill"]) := by decide
  rw [hrun, Option.map_some, Option.some.injEq] at hroles
  refine ⟨c, hrun, by simp [hthreads], ?_⟩
  rintro ⟨order, hperm, hser⟩
  rw [hthreads, List.perm_pair] at hperm
  -- どちらの順でも、role は二つになる
  rcases hperm with rfl | rfl
  · rw [serial_pair hser] at hroles
    revert hroles
    decide
  · rw [serial_pair hser] at hroles
    revert hroles
    decide

end FabAccess
