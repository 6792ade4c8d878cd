import FabAccess.Authorization.Properties.Termination

/-!
# 集めた rule と早期の return

`is_permitted` は当たる rule が見つかったところで止まり、`collect_permrules` は rule を全部集める。
二つは覚え書きの持ち方も挿入の時機も違うが、どちらも user の role から届く定義済みの role を調べる。

* `collectPermrules_eq_some` — 集めた rule は、届く role の rule を一度ずつ並べたものである
* `isPermitted_iff_collected` — 二つの答えが一致する
-/

namespace FabAccess

open Infra Relation

namespace Roles

variable {this : Roles} {user : UserData} {perm : Permission}

/-- user の role から親を辿って届く、定義済みの role。 -/
def ReachedBy (this : Roles) (user : UserData) (roleid : String) : Prop :=
  ∃ start ∈ user.roles, ReflTransGen this.ParentStep start roleid ∧ (this.get roleid).isSome

/-- role の id が指す rule。定義されていなければ空である。 -/
def rulesOf (this : Roles) (roleid : String) : Multiset PermRule :=
  ((this.get roleid).map Role.permissions).getD []

/-! ## 集めた role -/

/-- 集めた表の entry は、もとの表のものである。 -/
def Copied (this : Roles) (roles : Finmap (fun _ : String => Role)) : Prop :=
  ∀ roleid role, roles.lookup roleid = some role → this.get roleid = some role

theorem copied_empty (this : Roles) : this.Copied ∅ := by
  intro roleid role h
  simp at h

theorem Copied.insert {roles : Finmap (fun _ : String => Role)} {roleId : String} {role : Role}
    (h : this.Copied roles) (hget : this.get roleId = some role) :
    this.Copied (roles.insert roleId role) := by
  intro id role' hid
  by_cases heq : id = roleId
  · subst heq
    rw [Finmap.lookup_insert] at hid
    cases hid
    exact hget
  · rw [Finmap.lookup_insert_of_ne _ heq] at hid
    exact h id role' hid

theorem tallyAll_copied
    {tally : Finmap (fun _ : String => Role) → String → Option (Finmap fun _ : String => Role)}
    (ht : ∀ roles roleId roles', this.Copied roles → tally roles roleId = some roles' →
      this.Copied roles') :
    ∀ (l : List String) roles roles', this.Copied roles → tallyAll tally roles l = some roles' →
      this.Copied roles' := by
  intro l
  induction l with
  | nil =>
    intro roles roles' h hl
    cases hl
    exact h
  | cons roleId rest ih =>
    intro roles roles' h hl
    simp only [tallyAll] at hl
    split at hl
    · cases hl
    · next mid hmid => exact ih mid roles' (ht roles roleId mid h hmid) hl

theorem tallyRole_copied : ∀ fuel roles roleId roles', this.Copied roles →
    this.tallyRole fuel roles roleId = some roles' → this.Copied roles' := by
  intro fuel
  induction fuel with
  | zero => intro roles roleId roles' _ h; cases h
  | succ fuel ih =>
    intro roles roleId roles' hc h
    simp only [tallyRole] at h
    split at h
    · cases h
      exact hc
    · next role hget =>
      split at h
      · cases h
        exact hc
      · split at h
        · cases h
        · next mid hmid =>
          cases h
          exact (tallyAll_copied ih role.parents roles mid hc hmid).insert hget

theorem reaches_tallyGraph {child roleid : String} : this.tallyGraph.Reaches child roleid ↔
    ReflTransGen this.ParentStep child roleid ∧ (this.get roleid).isSome := by
  have hedge : this.tallyGraph.Edge = this.ParentStep :=
    (edge_eq_parentStep : (this.graph ⟨""⟩).Edge = this.ParentStep)
  rw [Graph.Reaches, hedge]
  simp [tallyGraph]

/-- 集めた role の id は、届く定義済みの role の id である。 -/
theorem mem_keys_tallyAll {fuel : Nat} {roleset : Finmap (fun _ : String => Role)}
    (h : tallyAll (this.tallyRole fuel) ∅ user.roles = some roleset) (roleid : String) :
    roleid ∈ roleset.keys ↔ this.ReachedBy user roleid := by
  have hsearch : Graph.firstHit (this.tallyGraph.search fuel) ∅ user.roles =
      some (false, roleset.keys) := by
    rw [← Finmap.keys_empty, firstHit_tallyAll (search_tallyGraph fuel), h]
    rfl
  have hadds := Graph.firstHit_seen (Graph.search_seen fuel) user.roles ∅ roleset.keys
    (by intro a ha; simp at ha) hsearch
  rw [hadds roleid]
  simp [ReachedBy, reaches_tallyGraph]

theorem bind_entries {roles : Finmap (fun _ : String => Role)} (h : this.Copied roles) :
    (roles.entries.bind fun e => (e.2.permissions : Multiset PermRule)) =
      ∑ roleid ∈ roles.keys, this.rulesOf roleid := by
  have hkeys : roles.keys.val = roles.entries.map Sigma.fst := rfl
  rw [Finset.sum, hkeys, Multiset.map_map]
  refine congrArg Multiset.sum (Multiset.map_congr rfl fun e he => ?_)
  have hget : this.get e.1 = some e.2 := h e.1 e.2 (Finmap.mem_lookup_iff.mpr he)
  simp [rulesOf, hget]

/-- **集めた rule は、届く定義済みの role の rule を、role ごとに一度ずつ並べたものである。** -/
theorem collectPermrules_eq_some {fuel : Nat} {rules : Multiset PermRule}
    (h : this.collectPermrules fuel user = some rules) :
    ∃ roleids : Finset String, (∀ roleid, roleid ∈ roleids ↔ this.ReachedBy user roleid) ∧
      rules = ∑ roleid ∈ roleids, this.rulesOf roleid := by
  obtain ⟨roleset, hset, rfl⟩ := Option.map_eq_some_iff.mp h
  have hcopied := tallyAll_copied (tallyRole_copied fuel) user.roles ∅ roleset
    (copied_empty this) hset
  exact ⟨roleset.keys, mem_keys_tallyAll hset, bind_entries hcopied⟩

theorem grants_iff_reachedBy : this.Grants user perm ↔
    ∃ roleid, this.ReachedBy user roleid ∧
      ∃ permRule ∈ this.rulesOf roleid, permRule.matchPerm perm = true := by
  constructor
  · rintro ⟨start, hs, roleid, role, hreach, hget, permRule, hmem, hmatch⟩
    refine ⟨roleid, ⟨start, hs, hreach, by simp [hget]⟩, permRule, ?_, hmatch⟩
    simpa [rulesOf, hget] using hmem
  · rintro ⟨roleid, ⟨start, hs, hreach, hdef⟩, permRule, hmem, hmatch⟩
    obtain ⟨role, hget⟩ := Option.isSome_iff_exists.mp hdef
    refine ⟨start, hs, roleid, role, hreach, hget, permRule, ?_, hmatch⟩
    simpa [rulesOf, hget] using hmem

theorem answers_false_iff (hac : this.Acyclic) :
    this.Answers user perm false ↔ ¬ this.Grants user perm := by
  rw [← answers_iff hac]
  constructor
  · intro hf ht
    cases hf.unique ht
  · intro hno
    obtain ⟨b, hb⟩ := exists_answers hac user perm
    cases b with
    | true => exact absurd hb hno
    | false => exact hb

end Roles

/--
循環しない表では、`collect_permrules` は、user から届く定義済みの role の rule を
role ごとにちょうど一度ずつ集めて返し、`is_permitted` が許すのは、集めた rule のどれかが当たるとき、
そのときに限る。
-/
theorem isPermitted_iff_collected {this : Roles} (hac : this.Acyclic) (user : UserData) :
    ∃ (rules : Multiset PermRule) (roleids : Finset String) (n : Nat),
      (∀ fuel, n ≤ fuel → this.collectPermrules fuel user = some rules) ∧
      (∀ roleid, roleid ∈ roleids ↔ this.ReachedBy user roleid) ∧
      rules = ∑ roleid ∈ roleids, this.rulesOf roleid ∧
      ∀ perm, (this.Answers user perm true ↔ ∃ permRule ∈ rules, permRule.matchPerm perm = true) ∧
        (this.Answers user perm false ↔ ∀ permRule ∈ rules, permRule.matchPerm perm = false) := by
  obtain ⟨n, hn⟩ := Roles.collectPermrules_returns_iff.mpr
    (fun start (_ : start ∈ user.roles) roleid _ => hac roleid)
  obtain ⟨rules, hrules⟩ := Option.isSome_iff_exists.mp (hn n le_rfl)
  obtain ⟨roleids, hmem, hsum⟩ := Roles.collectPermrules_eq_some hrules
  refine ⟨rules, roleids, n, fun fuel hfuel => ?_, hmem, hsum, fun perm => ?_⟩
  · obtain ⟨rules', hrules'⟩ := Option.isSome_iff_exists.mp (hn fuel hfuel)
    obtain ⟨roleids', hmem', hsum'⟩ := Roles.collectPermrules_eq_some hrules'
    have heq : roleids' = roleids := by
      ext roleid
      rw [hmem', hmem]
    rw [hrules', hsum', hsum, heq]
  · have hsome : this.Grants user perm ↔ ∃ permRule ∈ rules, permRule.matchPerm perm = true := by
      simp only [Roles.grants_iff_reachedBy, hsum, Multiset.mem_sum, hmem]
      constructor
      · rintro ⟨roleid, hreach, permRule, hrule, hmatch⟩
        exact ⟨permRule, ⟨roleid, hreach, hrule⟩, hmatch⟩
      · rintro ⟨permRule, ⟨roleid, hreach, hrule⟩, hmatch⟩
        exact ⟨roleid, hreach, permRule, hrule, hmatch⟩
    rw [Roles.answers_iff hac, Roles.answers_false_iff hac, hsome]
    simp

/-- 菱形の上では、二つの道から届く role の rule も一度しか集められない。 -/
theorem isPermitted_iff_collected_diamond :
    diamondRoles.collectPermrules 4 ⟨["ghost", "top"], none, ∅⟩ =
      some (↑[PermRule.subtree ⟨"lab.laser"⟩, .base ⟨"lab.saw.write"⟩]) ∧
    ∃ (rules : Multiset PermRule) (n : Nat),
      (∀ fuel, n ≤ fuel →
        diamondRoles.collectPermrules fuel ⟨["ghost", "top"], none, ∅⟩ = some rules) ∧
      (diamondRoles.Answers ⟨["ghost", "top"], none, ∅⟩ ⟨"lab.laser.write"⟩ true ↔
        ∃ permRule ∈ rules, permRule.matchPerm ⟨"lab.laser.write"⟩ = true) := by
  obtain ⟨rules, _, n, hn, _, _, hiff⟩ :=
    isPermitted_iff_collected diamondRoles_acyclic ⟨["ghost", "top"], none, ∅⟩
  exact ⟨by decide, rules, n, hn, (hiff _).1⟩

end FabAccess
