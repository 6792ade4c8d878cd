import FabAccess.Resources.Properties.Ownership
import FabAccess.Resources.Machine

/-!
# read の無い session に見えるもの

read の無い session には状態を見せないはずだが、返事には capability も入っている。
`use` が渡されるのは write があって機械が空いているときなので、その有無から空きかどうかが分かる。

* `buildInto_eq_iff` — 自分が名指されていない二つの状態で、一つの返事が等しいとき
* `silence_iff` — 三つの問い合わせのすべてについて
-/

namespace FabAccess

variable {roles : Roles} {fuel : Nat} {users : Users} {session : SessionHandle} {res : Resource}

/-- resource の状態が、database でも signal でも session の user を名指さない。 -/
def SessionHandle.Unnamed (session : SessionHandle) (inner : Inner) : Prop :=
  inner.db.state.user ≠ some session.user ∧ inner.signal.state.user ≠ some session.user

/-! ## 一つの resource -/

theorem usable_of_unnamed {user : UserRef} {s : Status} (h : s.user ≠ some user) :
    Machine.usable user s = decide (s = .free) := by
  cases s with
  | reserved reserver =>
    have hne : ¬ reserver = user := by simpa [Status.user] using h
    simp [Machine.usable, hne]
  | _ => rfl

theorem inUseBy_of_unnamed {user : UserRef} {s : Status} (h : s.user ≠ some user) :
    Machine.inUseBy user s = false := by
  cases s with
  | inUse owner =>
    have hne : ¬ owner = user := by simpa [Status.user] using h
    simp [Machine.inUseBy, hne]
  | _ => rfl

/-- 名指されていない user には、見えるかどうかは disclose だけで決まる。 -/
theorem visible_of_unnamed {inner : Inner} (h : session.Unnamed inner) :
    res.visible roles fuel users inner session = session.hasDisclose roles fuel users res := by
  have howned : inner.isOwnedBy session.user = false := by
    simpa [Inner.isOwnedBy, Inner.getState] using h.1
  unfold Resource.visible
  rw [howned]
  cases session.hasDisclose roles fuel users res with
  | none => rfl
  | some disclose => cases disclose <;> rfl

/-- 名指されていない user への返事は、read が無ければ、空きかどうかのほかは状態によらない。 -/
theorem buildInto_eq_iff {i₁ i₂ : Inner} (hread : session.hasRead roles fuel users res = some false)
    (h₁ : session.Unnamed i₁) (h₂ : session.Unnamed i₂) :
    Machine.buildInto ⟨session, res⟩ roles fuel users i₁ =
        Machine.buildInto ⟨session, res⟩ roles fuel users i₂ ↔
      ¬ (session.hasWrite roles fuel users res = some true ∧
        (session.hasManage roles fuel users res).isSome ∧
        ¬ (i₁.signal.state = .free ↔ i₂.signal.state = .free)) := by
  unfold Machine.buildInto
  simp only [Inner.getStateRef, usable_of_unnamed h₁.2, usable_of_unnamed h₂.2,
    inUseBy_of_unnamed h₁.2, inUseBy_of_unnamed h₂.2, hread]
  cases session.hasWrite roles fuel users res with
  | none => simp
  | some write =>
    cases session.hasManage roles fuel users res with
    | none => simp
    | some manage =>
      cases write with
      | false => simp
      | true =>
        by_cases hf₁ : i₁.signal.state = .free <;> by_cases hf₂ : i₂.signal.state = .free <;>
          simp [hf₁, hf₂]

theorem optionalBuild_of_disclosed (inner : Inner)
    (h : session.hasDisclose roles fuel users res = some true) :
    Machine.optionalBuild session res roles fuel users inner =
      (Machine.buildInto ⟨session, res⟩ roles fuel users inner).map some := by
  simp only [Machine.optionalBuild, Resource.visible, h]

/-! ## 三つの問い合わせ -/

/-- 二つの状態の上で、三つの問い合わせの返事がすべて等しい。 -/
def SameReplies (session : SessionHandle) (resources : ResourcesHandle) (roles : Roles) (fuel : Nat)
    (users : Users) (inners₁ inners₂ : String → Inner) : Prop :=
  getMachineList session resources roles fuel users inners₁ =
      getMachineList session resources roles fuel users inners₂ ∧
    (∀ id, getMachine session resources roles fuel users inners₁ id =
      getMachine session resources roles fuel users inners₂ id) ∧
    ∀ urn, getMachineURN session resources roles fuel users inners₁ urn =
      getMachineURN session resources roles fuel users inners₂ urn

/-- 一つの resource の見え方が、一覧でも個別の問い合わせでも等しい。 -/
def SameView (session : SessionHandle) (roles : Roles) (fuel : Nat) (users : Users)
    (r : Resource) (i₁ i₂ : Inner) : Prop :=
  r.visible roles fuel users i₁ session = r.visible roles fuel users i₂ session ∧
    (r.visible roles fuel users i₁ session = some true →
      Machine.buildInto ⟨session, r⟩ roles fuel users i₁ =
        Machine.buildInto ⟨session, r⟩ roles fuel users i₂) ∧
    Machine.optionalBuild session r roles fuel users i₁ =
      Machine.optionalBuild session r roles fuel users i₂

theorem SameView.refl (session : SessionHandle) (roles : Roles) (fuel : Nat) (users : Users)
    (r : Resource) (inner : Inner) : SameView session roles fuel users r inner inner :=
  ⟨rfl, fun _ => rfl, rfl⟩

theorem buildVisible_congr {inners₁ inners₂ : String → Inner} {l : List Resource}
    (h : ∀ r ∈ l, SameView session roles fuel users r (inners₁ r.id) (inners₂ r.id)) :
    buildVisible session roles fuel users inners₁ l =
      buildVisible session roles fuel users inners₂ l := by
  induction l with
  | nil => rfl
  | cons r rest ih =>
    obtain ⟨hvis, hbuild, _⟩ := h r (by simp)
    have hrest := ih fun r' hr' => h r' (by simp [hr'])
    simp only [buildVisible, ← hvis, hrest]
    cases hv : r.visible roles fuel users (inners₁ r.id) session with
    | none => rfl
    | some visible =>
      cases visible with
      | false => rfl
      | true => simp only [hbuild hv]

theorem sameReplies_of_sameView {resources : ResourcesHandle} {inners₁ inners₂ : String → Inner}
    (h : ∀ r ∈ resources.resources,
      SameView session roles fuel users r (inners₁ r.id) (inners₂ r.id)) :
    SameReplies session resources roles fuel users inners₁ inners₂ := by
  refine ⟨buildVisible_congr h, fun id => ?_, fun urn => ?_⟩
  · unfold getMachine
    cases hr : resources.getById id with
    | none => rfl
    | some r => exact (h r (ResourcesHandle.mem_of_getById hr)).2.2
  · unfold getMachineURN
    cases hr : resources.getByUrn urn with
    | none => rfl
    | some r => exact (h r (ResourcesHandle.mem_of_getByUrn hr)).2.2

/-- 見えて write があり、一方の状態だけが空きである。 -/
def Distinguishes (session : SessionHandle) (roles : Roles) (fuel : Nat) (users : Users)
    (res : Resource) (i₁ i₂ : Inner) : Prop :=
  session.hasDisclose roles fuel users res = some true ∧
    session.hasWrite roles fuel users res = some true ∧
    (session.hasManage roles fuel users res).isSome ∧
    ¬ (i₁.signal.state = .free ↔ i₂.signal.state = .free)

theorem sameView_of_not_distinguishes {i₁ i₂ : Inner}
    (hread : session.hasRead roles fuel users res = some false) (h₁ : session.Unnamed i₁)
    (h₂ : session.Unnamed i₂) (h : ¬ Distinguishes session roles fuel users res i₁ i₂) :
    SameView session roles fuel users res i₁ i₂ := by
  have hbuild : session.hasDisclose roles fuel users res = some true →
      Machine.buildInto ⟨session, res⟩ roles fuel users i₁ =
        Machine.buildInto ⟨session, res⟩ roles fuel users i₂ := by
    intro hdis
    rw [buildInto_eq_iff hread h₁ h₂]
    rintro ⟨hw, hm, hfree⟩
    exact h ⟨hdis, hw, hm, hfree⟩
  refine ⟨?_, ?_, ?_⟩
  · rw [visible_of_unnamed h₁, visible_of_unnamed h₂]
  · rwa [visible_of_unnamed h₁]
  · simp only [Machine.optionalBuild, visible_of_unnamed h₁, visible_of_unnamed h₂, hread]
    cases hdis : session.hasDisclose roles fuel users res with
    | none => rfl
    | some disclose =>
      cases disclose with
      | false => rfl
      | true => simp only [hbuild hdis]

/--
read の無い session にとって、その user を名指さない二つの状態が三つの問い合わせで区別できないのは、
disclose と write の両方があって一方の状態だけが空きである、ということが無いとき、そのときに限る。
-/
theorem silence_iff {resources : ResourcesHandle} (hmem : res ∈ resources.resources)
    (inners : String → Inner) (i₁ i₂ : Inner)
    (hread : session.hasRead roles fuel users res = some false) (h₁ : session.Unnamed i₁)
    (h₂ : session.Unnamed i₂) :
    SameReplies session resources roles fuel users (Function.update inners res.id i₁)
        (Function.update inners res.id i₂) ↔
      ¬ (session.hasDisclose roles fuel users res = some true ∧
        session.hasWrite roles fuel users res = some true ∧
        (session.hasManage roles fuel users res).isSome ∧
        ¬ (i₁.signal.state = .free ↔ i₂.signal.state = .free)) := by
  constructor
  · rintro ⟨_, hget, _⟩ ⟨hdis, hw, hm, hfree⟩
    have heq := hget res.id
    simp only [getMachine, ResourcesHandle.getById_id hmem, buildFound, Function.update_self,
      optionalBuild_of_disclosed _ hdis] at heq
    have hbuild := Option.map_injective (Option.some_injective _) heq
    rw [buildInto_eq_iff hread h₁ h₂] at hbuild
    exact hbuild ⟨hw, hm, hfree⟩
  · intro h
    refine sameReplies_of_sameView fun r hr => ?_
    by_cases hid : r.id = res.id
    · have hrr : r = res := ResourcesHandle.eq_of_id_eq hr hmem hid
      subst hrr
      rw [Function.update_self, Function.update_self]
      exact sameView_of_not_distinguishes hread h₁ h₂ h
    · rw [Function.update_of_ne hid, Function.update_of_ne hid]
      exact SameView.refl session roles fuel users r (inners r.id)

/-- 見るだけの role と、書き込みもできる role。どちらにも read が無い。 -/
def doorRoles : Roles where
  roles := ((∅ : Finmap (fun _ : String => Role)).insert "guest"
      { parents := [], permissions := [.base ⟨"lab.laser.disclose"⟩] }).insert "maker"
      { parents := ["guest"], permissions := [.base ⟨"lab.laser.write"⟩] }

def doorUsers : Users where
  userdb := ((∅ : Finmap (fun _ : String => User)).insert "alice"
    ⟨"alice", ⟨["guest"], none, ∅⟩⟩).insert "bob" ⟨"bob", ⟨["maker"], none, ∅⟩⟩

def workshop : ResourcesHandle := ⟨[laser], by decide⟩

def idle : Inner := ⟨.free none, .free none, []⟩

def inRepair : Inner := ⟨⟨.blocked ⟨"carol"⟩, none⟩, ⟨.blocked ⟨"carol"⟩, none⟩, []⟩

theorem silence_iff_guest :
    SessionHandle.hasRead ⟨⟨"alice"⟩⟩ doorRoles 3 doorUsers laser = some false ∧
    SameReplies ⟨⟨"alice"⟩⟩ workshop doorRoles 3 doorUsers
      (Function.update (fun _ => idle) laser.id idle)
      (Function.update (fun _ => idle) laser.id inRepair) := by
  have hread : SessionHandle.hasRead ⟨⟨"alice"⟩⟩ doorRoles 3 doorUsers laser = some false := by
    decide
  refine ⟨hread, (silence_iff (by decide) _ idle inRepair hread ⟨by decide, by decide⟩
    ⟨by decide, by decide⟩).mpr ?_⟩
  rintro ⟨_, hwrite, _⟩
  have hno : SessionHandle.hasWrite ⟨⟨"alice"⟩⟩ doorRoles 3 doorUsers laser = some false := by decide
  rw [hno] at hwrite
  cases hwrite

/-- `bob` には状態が見えないが、空いているときだけ `use` が渡される。 -/
theorem use_reveals_free :
    SessionHandle.hasRead ⟨⟨"bob"⟩⟩ doorRoles 3 doorUsers laser = some false ∧
    SessionHandle.Unnamed ⟨⟨"bob"⟩⟩ idle ∧ SessionHandle.Unnamed ⟨⟨"bob"⟩⟩ inRepair ∧
    (getMachine ⟨⟨"bob"⟩⟩ workshop doorRoles 3 doorUsers (fun _ => idle) "laser").map
      (Option.map fun reply => reply.use.isSome) = some (some true) ∧
    (getMachine ⟨⟨"bob"⟩⟩ workshop doorRoles 3 doorUsers (fun _ => inRepair) "laser").map
      (Option.map fun reply => reply.use.isSome) = some (some false) :=
  ⟨by decide, ⟨by decide, by decide⟩, ⟨by decide, by decide⟩, by decide, by decide⟩

end FabAccess
