import FabAccess.Authorization.Properties.RoleReach
import FabAccess.Infra.FiniteMap

/-!
# role の解決が返るとき

`permitted_tally` も `tally_role` も、親をすべて調べ終えてから role を集合に入れる。
だから循環の途中でもう一度同じ role に出会っても気づかず、再帰は終わらない（`ouroboros_never_returns`）。

* `resolution_returns_iff` — 二つの再帰が返る条件。循環に届かないことである。
  `permitted_tally` は許可が出たところで止まるので、その手前の循環だけが問題になる
-/

namespace FabAccess

open Infra Relation

namespace Roles

variable {this : Roles} {user : UserData} {perm : Permission}

/-- 順に調べる列の中で `roleid` の番が来る。それより前の role だけでは許可が出ない。 -/
def Reached (this : Roles) (perm : Permission) (l : List String) (roleid : String) : Prop :=
  ∃ pre post, l = pre ++ roleid :: post ∧ ¬ this.Grants ⟨pre, none, ∅⟩ perm

/-- `permitted_tally` が、当たる rule の無い `child` から `parent` へ進む。 -/
def TallyStep (this : Roles) (perm : Permission) (child parent : String) : Prop :=
  ∃ role, this.get child = some role ∧
    (∀ permRule ∈ role.permissions, permRule.matchPerm perm = false) ∧
    this.Reached perm role.parents parent

/-! ## `permitted_tally` -/

theorem called_iff_reached {l : List String} {roleid : String} :
    (this.graph perm).Called l roleid ↔ this.Reached perm l roleid := by
  simp only [Graph.Called, Reached, grants_iff_finds, not_exists, not_and]

theorem visits_eq_tallyStep : (this.graph perm).Visits = this.TallyStep perm := by
  funext child parent
  refine propext ?_
  simp only [Graph.Visits, TallyStep, called_iff_reached]
  constructor
  · rintro ⟨children, hch, hhit, hcalled⟩
    simp only [graph, Option.map_eq_some_iff] at hch
    obtain ⟨role, hget, rfl⟩ := hch
    rw [graph_hit hget, List.any_eq_false] at hhit
    exact ⟨role, hget, by simpa using hhit, hcalled⟩
  · rintro ⟨role, hget, hno, hreached⟩
    refine ⟨role.parents, graph_next hget, ?_, hreached⟩
    rw [graph_hit hget, List.any_eq_false]
    simpa using hno

theorem isPermitted_returns_iff :
    (∃ n, ∀ fuel, n ≤ fuel → (this.isPermitted fuel user perm).isSome) ↔
      ∀ start, this.Reached perm user.roles start →
        ∀ roleid, ReflTransGen (this.TallyStep perm) start roleid →
          ¬ TransGen (this.TallyStep perm) roleid roleid := by
  simp only [isPermitted, anyPermitted_eq_firstHit, permittedTally_eq_search, Option.isSome_map,
    Graph.firstHit_returns_iff, Graph.stops_iff (graph_finite this perm), called_iff_reached,
    visits_eq_tallyStep]

/-! ## `tally_role` -/

/-- 当たりの無い、親を辿るだけのグラフ。 -/
def tallyGraph (this : Roles) : Graph String where
  next roleId := (this.get roleId).map Role.parents
  hit _ := false

theorem firstHit_tallyAll {fuel : Nat}
    (hf : ∀ roles roleId, this.tallyGraph.search fuel roles.keys roleId =
      (this.tallyRole fuel roles roleId).map fun roles' => (false, roles'.keys)) :
    ∀ (l : List String) roles, Graph.firstHit (this.tallyGraph.search fuel) roles.keys l =
      (tallyAll (this.tallyRole fuel) roles l).map fun roles' => (false, roles'.keys) := by
  intro l
  induction l with
  | nil => intro roles; rfl
  | cons roleId rest ih =>
    intro roles
    simp only [Graph.firstHit, tallyAll, hf]
    cases this.tallyRole fuel roles roleId with
    | none => rfl
    | some roles' => exact ih roles'

/-- `tally_role` は、集めた role の id を `seen` とする探索である。 -/
theorem search_tallyGraph : ∀ fuel (roles : Finmap (fun _ : String => Role)) roleId,
    this.tallyGraph.search fuel roles.keys roleId =
      (this.tallyRole fuel roles roleId).map fun roles' => (false, roles'.keys) := by
  intro fuel
  induction fuel with
  | zero => intro roles roleId; rfl
  | succ fuel ih =>
    intro roles roleId
    simp only [Graph.search, tallyRole, firstHit_tallyAll ih]
    cases hg : this.get roleId with
    | none => simp [tallyGraph, hg]
    | some role =>
      by_cases hmem : roleId ∈ roles
      · simp [tallyGraph, hg, hmem, Finmap.mem_keys]
      · simp only [tallyGraph, hg, Option.map_some, Finmap.mem_keys, if_neg hmem]
        cases tallyAll (this.tallyRole fuel) roles role.parents with
        | none => simp
        | some roles' => simp [keys_insert]

theorem tallyGraph_not_finds (roleId : String) : ¬ this.tallyGraph.Finds roleId := by
  rintro ⟨_, _, _, hhit⟩
  cases hhit

theorem tallyGraph_called {l : List String} {roleid : String} :
    this.tallyGraph.Called l roleid ↔ roleid ∈ l := by
  constructor
  · rintro ⟨pre, post, rfl, _⟩
    simp
  · intro h
    obtain ⟨pre, post, rfl⟩ := List.append_of_mem h
    exact ⟨pre, post, rfl, fun c _ => tallyGraph_not_finds c⟩

theorem tallyGraph_visits : this.tallyGraph.Visits = this.ParentStep := by
  funext child parent
  refine propext ?_
  simp only [Graph.Visits, tallyGraph_called, ParentStep]
  constructor
  · rintro ⟨children, hch, _, hmem⟩
    simp only [tallyGraph, Option.map_eq_some_iff] at hch
    obtain ⟨role, hget, rfl⟩ := hch
    exact ⟨role, hget, hmem⟩
  · rintro ⟨role, hget, hmem⟩
    exact ⟨role.parents, by simp [tallyGraph, hget], rfl, hmem⟩

theorem collectPermrules_returns_iff :
    (∃ n, ∀ fuel, n ≤ fuel → (this.collectPermrules fuel user).isSome) ↔
      ∀ start ∈ user.roles, ∀ roleid, ReflTransGen this.ParentStep start roleid →
        ¬ TransGen this.ParentStep roleid roleid := by
  have hfin : {a | (this.tallyGraph.next a).isSome}.Finite := graph_finite this ⟨""⟩
  have hsome : ∀ fuel, (this.collectPermrules fuel user).isSome =
      (Graph.firstHit (this.tallyGraph.search fuel) ∅ user.roles).isSome := by
    intro fuel
    rw [← Finmap.keys_empty, firstHit_tallyAll (search_tallyGraph fuel), collectPermrules,
      Option.isSome_map, Option.isSome_map]
  simp only [hsome, Graph.firstHit_returns_iff, Graph.stops_iff hfin, tallyGraph_called,
    tallyGraph_visits]

end Roles

/--
`is_permitted` が返るのは、その探索が進む先に循環が無いとき、そのときに限る。
探索は、許可が出れば残りの role を見ない。
`collect_permrules` が返るのは、user の role から親を辿って届く role のどれも自分の先祖でないとき、
そのときに限る。
-/
theorem resolution_returns_iff (this : Roles) (user : UserData) (perm : Permission) :
    ((∃ n, ∀ fuel, n ≤ fuel → (this.isPermitted fuel user perm).isSome) ↔
      ∀ start, this.Reached perm user.roles start →
        ∀ roleid, ReflTransGen (this.TallyStep perm) start roleid →
          ¬ TransGen (this.TallyStep perm) roleid roleid) ∧
    ((∃ n, ∀ fuel, n ≤ fuel → (this.collectPermrules fuel user).isSome) ↔
      ∀ start ∈ user.roles, ∀ roleid, ReflTransGen this.ParentStep start roleid →
        ¬ TransGen this.ParentStep roleid roleid) :=
  ⟨Roles.isPermitted_returns_iff, Roles.collectPermrules_returns_iff⟩

/-- 互いに親である二つの role。 -/
def ouroboros : Roles where
  roles := ((∅ : Finmap (fun _ : String => Role)).insert "head"
      { parents := ["tail"], permissions := [] }).insert "tail"
      { parents := ["head"], permissions := [.base ⟨"lab.saw.write"⟩] }

theorem ouroboros_permittedTally (fuel : Nat) :
    ouroboros.permittedTally ⟨"lab.laser.write"⟩ fuel ∅ "head" = none ∧
      ouroboros.permittedTally ⟨"lab.laser.write"⟩ fuel ∅ "tail" = none := by
  induction fuel with
  | zero => exact ⟨rfl, rfl⟩
  | succ fuel ih =>
    have hhead : ouroboros.get "head" = some ⟨["tail"], []⟩ := by decide
    have htail : ouroboros.get "tail" = some ⟨["head"], [.base ⟨"lab.saw.write"⟩]⟩ := by decide
    constructor
    · simp [Roles.permittedTally, hhead, Roles.anyPermitted, ih.2]
    · simp [Roles.permittedTally, htail, PermRule.matchPerm, Roles.anyPermitted, ih.1]

theorem ouroboros_tallyRole (fuel : Nat) :
    ouroboros.tallyRole fuel ∅ "head" = none ∧ ouroboros.tallyRole fuel ∅ "tail" = none := by
  induction fuel with
  | zero => exact ⟨rfl, rfl⟩
  | succ fuel ih =>
    have hhead : ouroboros.get "head" = some ⟨["tail"], []⟩ := by decide
    have htail : ouroboros.get "tail" = some ⟨["head"], [.base ⟨"lab.saw.write"⟩]⟩ := by decide
    constructor
    · simp [Roles.tallyRole, hhead, Roles.tallyAll, ih.2, Finmap.notMem_empty]
    · simp [Roles.tallyRole, htail, Roles.tallyAll, ih.1, Finmap.notMem_empty]

/-- 循環した表では、どれだけ深く再帰しても答えは返らない。 -/
theorem ouroboros_never_returns :
    (¬ ∃ fuel, (ouroboros.isPermitted fuel ⟨["head"], none, ∅⟩ ⟨"lab.laser.write"⟩).isSome) ∧
      ¬ ∃ fuel, (ouroboros.collectPermrules fuel ⟨["head"], none, ∅⟩).isSome := by
  constructor
  · rintro ⟨fuel, h⟩
    simp [Roles.isPermitted, Roles.anyPermitted, ouroboros_permittedTally fuel] at h
  · rintro ⟨fuel, h⟩
    simp [Roles.collectPermrules, Roles.tallyAll, ouroboros_tallyRole fuel] at h

end FabAccess
