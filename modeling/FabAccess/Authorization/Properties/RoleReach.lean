import FabAccess.Infra.Search
import FabAccess.Authorization.Roles

/-!
# role の解決は到達可能性である

`is_permitted` が一つの集合を引き回しながら行う探索は、`FabAccess/Infra/Search.lean` の探索の例である
（`permittedTally_eq_search`）。そこから次が出る。

* `Roles.answers_iff` — 循環しない表では必ず答えが返り、答えは到達可能性に一致する
* `Roles.Grants.mono` — 権限は足し算である。role・親・rule を足しても、得ていた権限は失われない
* `isPermitted_iff_reachable` — 以上と、並び順・重複・未定義の role によらないこと
-/

namespace FabAccess

open Infra Relation

namespace Roles

/-- `perm` を探すグラフ。頂点は role の id、辺は親への一歩、当たりは `perm` に当たる rule を持つこと。 -/
def graph (this : Roles) (perm : Permission) : Graph String where
  next roleId := (this.get roleId).map Role.parents
  hit roleId := ((this.get roleId).map
    (fun role => role.permissions.any (fun permRule => permRule.matchPerm perm))).getD false

/-- 親を順に調べる loop は、一般の探索の loop である。 -/
theorem anyPermitted_eq_firstHit
    (tally : Finset String → String → Option (Bool × Finset String)) (l : List String) :
    ∀ roles, anyPermitted tally roles l = Graph.firstHit tally roles l := by
  induction l with
  | nil => intro roles; rfl
  | cons roleId rest ih =>
    intro roles
    simp only [anyPermitted, Graph.firstHit, ih]
    rcases tally roles roleId with _ | ⟨_ | _, _⟩ <;> rfl

/-- 表にある role の辺は、その親である。 -/
theorem graph_next {this : Roles} {perm : Permission} {roleId : String} {role : Role}
    (h : this.get roleId = some role) : (this.graph perm).next roleId = some role.parents := by
  simp [graph, h]

/-- role が当たりなのは、自分の規則が許すときである。 -/
theorem graph_hit {this : Roles} {perm : Permission} {roleId : String} {role : Role}
    (h : this.get roleId = some role) : (this.graph perm).hit roleId =
      role.permissions.any (fun permRule => permRule.matchPerm perm) := by
  simp [graph, h]

/-- 表に無い role に、辺は無い。 -/
theorem graph_undefined {this : Roles} {perm : Permission} {roleId : String}
    (h : this.get roleId = none) : (this.graph perm).next roleId = none := by
  simp [graph, h]

/-- `permitted_tally` は、一般の探索である。 -/
theorem permittedTally_eq_search (this : Roles) (perm : Permission) :
    ∀ fuel, this.permittedTally perm fuel = (this.graph perm).search fuel := by
  intro fuel
  induction fuel with
  | zero => rfl
  | succ fuel ih =>
    funext roles roleId
    simp only [permittedTally, Graph.search, ih, anyPermitted_eq_firstHit]
    cases hg : this.get roleId with
    | none => simp only [graph_undefined hg]
    | some role =>
      simp only [graph_next hg, graph_hit hg]
      rcases Graph.firstHit ((this.graph perm).search fuel) roles role.parents with
        _ | ⟨_ | _, _⟩ <;> rfl

variable {this other : Roles} {user user' : UserData} {perm : Permission}

/-- 辺は、親への一歩である。 -/
theorem edge_iff {child parent : String} :
    (this.graph perm).Edge child parent ↔ this.ParentStep child parent := by
  simp only [Graph.Edge, graph, ParentStep, Option.map_eq_some_iff]
  constructor
  · rintro ⟨_, ⟨role, hr, rfl⟩, hp⟩
    exact ⟨role, hr, hp⟩
  · rintro ⟨role, hr, hp⟩
    exact ⟨_, ⟨role, hr, rfl⟩, hp⟩

theorem edge_eq_parentStep : (this.graph perm).Edge = this.ParentStep := by
  funext child parent
  exact propext edge_iff

/-- 許されるのは、user の role のどれかから当たりが見つかるときである。 -/
theorem grants_iff_finds :
    this.Grants user perm ↔ ∃ start ∈ user.roles, (this.graph perm).Finds start := by
  simp only [Grants, Graph.Finds, edge_eq_parentStep]
  constructor
  · rintro ⟨start, hs, roleid, role, hreach, hget, permRule, hmem, hmatch⟩
    refine ⟨start, hs, roleid, hreach, by simp [graph, hget], ?_⟩
    rw [graph_hit hget, List.any_eq_true]
    exact ⟨permRule, hmem, hmatch⟩
  · rintro ⟨start, hs, roleid, hreach, hdef, hhit⟩
    obtain ⟨role, hget⟩ : ∃ role, this.get roleid = some role := by
      simpa [graph, Option.isSome_iff_exists] using hdef
    rw [graph_hit hget, List.any_eq_true] at hhit
    obtain ⟨permRule, hmem, hmatch⟩ := hhit
    exact ⟨start, hs, roleid, role, hreach, hget, permRule, hmem, hmatch⟩

/-- 表にある role は有限個である。 -/
theorem graph_finite (this : Roles) (perm : Permission) :
    {a | ((this.graph perm).next a).isSome}.Finite := by
  refine (this.roles.keys.finite_toSet).subset ?_
  intro roleid hdef
  have hget : (this.roles.lookup roleid).isSome := by simpa [graph, Roles.get] using hdef
  exact Finset.mem_coe.mpr (Finmap.mem_keys.mpr (Finmap.lookup_isSome.mp hget))

/-- 輪の無い role の表は、輪の無い graph である。 -/
theorem acyclic_graph (h : this.Acyclic) (perm : Permission) : (this.graph perm).Acyclic where
  finite := graph_finite this perm
  irrefl := by
    intro roleid
    rw [edge_eq_parentStep]
    exact h roleid

/-- 親へ進むたびに減る番号が振れれば循環しない。具体的な表では、前提はそのまま計算で確かめられる。 -/
theorem acyclic_of_rank (rank : String → Nat)
    (h : ∀ child ∈ this.roles.keys, (this.get child).all
      (fun role => role.parents.all (fun parent => rank parent < rank child)) = true) :
    this.Acyclic := by
  have hstep : ∀ a b, this.ParentStep a b → rank b < rank a := by
    rintro a b ⟨role, hget, hb⟩
    have hmem : a ∈ this.roles.keys :=
      Finmap.mem_keys.mpr (Finmap.lookup_isSome.mp (by rw [← Roles.get, hget]; rfl))
    have hall := h a hmem
    rw [hget, Option.all_some, List.all_eq_true] at hall
    exact of_decide_eq_true (hall b hb)
  have hdec : ∀ a b, TransGen this.ParentStep a b → rank b < rank a := by
    intro a b hab
    induction hab with
    | single hs => exact hstep _ _ hs
    | tail _ hs ih => exact lt_trans (hstep _ _ hs) ih
  intro roleid hc
  exact lt_irrefl _ (hdec roleid roleid hc)

/-- 返った答えは到達可能性に一致する。循環の有無によらない。 -/
theorem isPermitted_eq_some {fuel : Nat} {b : Bool} (h : this.isPermitted fuel user perm = some b) :
    b = true ↔ this.Grants user perm := by
  simp only [isPermitted, anyPermitted_eq_firstHit, permittedTally_eq_search,
    Option.map_eq_some_iff] at h
  obtain ⟨r, hr, rfl⟩ := h
  have hspec := Graph.firstHit_spec (g := this.graph perm) (Graph.search_spec fuel) user.roles ∅ r
    (by intro a ha; simp at ha) hr
  rw [hspec.1, grants_iff_finds]

/-- 循環しない表では、どの user のどの権限についても答えが返る。 -/
theorem exists_answers (h : this.Acyclic) (user : UserData) (perm : Permission) :
    ∃ b, this.Answers user perm b := by
  classical
  obtain ⟨n, hn⟩ := Graph.search_returns (acyclic_graph h perm) user.roles
  refine ⟨decide (this.Grants user perm), n, fun fuel hfuel => ?_⟩
  have hsome : (this.isPermitted fuel user perm).isSome := by
    simp only [isPermitted, anyPermitted_eq_firstHit, permittedTally_eq_search, Option.isSome_map]
    exact hn fuel hfuel
  obtain ⟨b, hb⟩ := Option.isSome_iff_exists.mp hsome
  have hiff := isPermitted_eq_some hb
  rw [hb]
  by_cases hg : this.Grants user perm <;> simp_all

/-- 答えは一つである。 -/
theorem Answers.unique {b b' : Bool} (h : this.Answers user perm b)
    (h' : this.Answers user perm b') : b = b' := by
  obtain ⟨n, hn⟩ := h
  obtain ⟨m, hm⟩ := h'
  have h1 := hn (max n m) (le_max_left _ _)
  rw [hm (max n m) (le_max_right _ _)] at h1
  exact (Option.some.inj h1).symm

/-- 輪が無ければ、答えが `true` なのは、届く role のどれかが許すときである。 -/
theorem answers_iff (h : this.Acyclic) : this.Answers user perm true ↔ this.Grants user perm := by
  obtain ⟨b, hb⟩ := exists_answers h user perm
  obtain ⟨n, hn⟩ := id hb
  have hiff := isPermitted_eq_some (hn n le_rfl)
  rw [← hiff]
  constructor
  · intro ht
    exact hb.unique ht
  · rintro rfl
    exact hb

/-- **権限は足し算である。** -/
theorem Grants.mono (hle : this.Le other)
    (hroles : ∀ roleid ∈ user.roles, (this.get roleid).isSome → roleid ∈ user'.roles)
    (h : this.Grants user perm) : other.Grants user' perm := by
  rw [grants_iff_finds] at h ⊢
  obtain ⟨start, hs, hfinds⟩ := h
  have hdef : (this.get start).isSome := by
    by_contra hc
    have hnone : this.get start = none := by simpa using hc
    exact Graph.not_finds_of_undefined (graph_undefined hnone) hfinds
  refine ⟨start, hroles start hs hdef, Graph.Finds.mono ?_ hfinds⟩
  intro roleid children hch
  simp only [graph, Option.map_eq_some_iff] at hch
  obtain ⟨role, hget, rfl⟩ := hch
  obtain ⟨role', hget', hpar, hrules⟩ := hle roleid role hget
  refine ⟨role'.parents, graph_next hget', ?_, ?_⟩
  · intro parent hp hpdef
    exact hpar parent hp (by simpa [graph] using hpdef)
  · rw [graph_hit hget, graph_hit hget', List.any_eq_true, List.any_eq_true]
    rintro ⟨permRule, hmem, hmatch⟩
    exact ⟨permRule, hrules permRule hmem, hmatch⟩

end Roles

/--
`is_permitted` は循環しない表の上で必ず答えを返し、その答えは定義済みの role だけを通る
到達可能性である。したがって表と user を大きくしても許可は取り消されず、
並び順・重複・未定義の role を変えても答えは変わらない。
-/
theorem isPermitted_iff_reachable {this : Roles} (hac : this.Acyclic) (user : UserData)
    (perm : Permission) :
    (this.Answers user perm true ∨ this.Answers user perm false) ∧
    (this.Answers user perm true ↔ this.Grants user perm) ∧
    (∀ (other : Roles) (user' : UserData), other.Acyclic → this.Le other →
      (∀ roleid ∈ user.roles, (this.get roleid).isSome → roleid ∈ user'.roles) →
      this.Answers user perm true → other.Answers user' perm true) ∧
    (∀ (other : Roles) (user' : UserData), other.Acyclic → this.Le other → other.Le this →
      (∀ roleid ∈ user.roles, (this.get roleid).isSome → roleid ∈ user'.roles) →
      (∀ roleid ∈ user'.roles, (other.get roleid).isSome → roleid ∈ user.roles) →
      ∀ b, this.Answers user perm b ↔ other.Answers user' perm b) := by
  refine ⟨?_, Roles.answers_iff hac, ?_, ?_⟩
  · obtain ⟨b, hb⟩ := Roles.exists_answers hac user perm
    cases b with
    | true => exact Or.inl hb
    | false => exact Or.inr hb
  · intro other user' hac' hle hroles ht
    rw [Roles.answers_iff hac] at ht
    rw [Roles.answers_iff hac']
    exact ht.mono hle hroles
  · intro other user' hac' hle hge hroles hroles' b
    have hsame : this.Grants user perm ↔ other.Grants user' perm :=
      ⟨Roles.Grants.mono hle hroles, Roles.Grants.mono hge hroles'⟩
    rw [← Roles.answers_iff hac, ← Roles.answers_iff hac'] at hsame
    obtain ⟨c, hc⟩ := Roles.exists_answers hac user perm
    obtain ⟨c', hc'⟩ := Roles.exists_answers hac' user' perm
    have hcc : c = c' := by
      cases c with
      | true => exact (hc'.unique (hsame.mp hc)).symm
      | false =>
        cases c' with
        | true => exact hc.unique (hsame.mpr hc')
        | false => rfl
    constructor
    · intro hb
      rw [hb.unique hc, hcc]
      exact hc'
    · intro hb
      rw [hb.unique hc', ← hcc]
      exact hc

/-- 菱形の継承。`base` には二つの道から届き、`ghost` は定義されていない。 -/
def diamondRoles : Roles where
  roles := (((∅ : Finmap (fun _ : String => Role)).insert "base"
      { parents := [], permissions := [.subtree ⟨"lab.laser"⟩] }).insert "left"
      { parents := ["base"], permissions := [] }).insert "right"
      { parents := ["ghost", "base"], permissions := [.base ⟨"lab.saw.write"⟩] } |>.insert "top"
      { parents := ["left", "right"], permissions := [] }

theorem diamondRoles_acyclic : diamondRoles.Acyclic :=
  Roles.acyclic_of_rank
    (fun roleid => if roleid = "top" then 2 else if roleid = "left" ∨ roleid = "right" then 1 else 0)
    (by decide)

theorem isPermitted_iff_reachable_diamond :
    diamondRoles.Acyclic ∧
    diamondRoles.isPermitted 4 ⟨["ghost", "top"], none, ∅⟩ ⟨"lab.laser.write"⟩ = some true ∧
    diamondRoles.Answers ⟨["ghost", "top"], none, ∅⟩ ⟨"lab.laser.write"⟩ true := by
  have hp : diamondRoles.isPermitted 4 ⟨["ghost", "top"], none, ∅⟩ ⟨"lab.laser.write"⟩
      = some true := by decide
  exact ⟨diamondRoles_acyclic, hp, (isPermitted_iff_reachable diamondRoles_acyclic _ _).2.1.mpr
    ((Roles.isPermitted_eq_some hp).mp rfl)⟩

end FabAccess
