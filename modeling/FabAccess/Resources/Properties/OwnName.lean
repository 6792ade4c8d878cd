import FabAccess.Resources.Properties.Ownership

/-!
# 他人の名前で動かす

`try_update` の表は、腕によって古い持ち主を見るか、新しい user を見るか、両方を見る。
manage の無い session が他人の名前を書けるのは、自分の使っている機械を `ToCheck(_)` にするときだけで、
そこだけ新しい user を見ていない（`tryUpdate_ownName_iff`）。
-/

namespace FabAccess

variable {roles : Roles} {res : Resource} {users : Users} {session : SessionHandle} {fuel : Nat}
  {old new : Status}

/-- 許された要求は、manage があるのでなければ、write も確かめ終えている。 -/
theorem hasWrite_isSome_of_allowed (hm : session.hasManage roles fuel users res = some false)
    (h : tryUpdateAllowed session roles res fuel users old new = some true) :
    (session.hasWrite roles fuel users res).isSome := by
  unfold tryUpdateAllowed at h
  rw [hm] at h
  cases hw : session.hasWrite roles fuel users res with
  | none => simp [hw] at h
  | some write => rfl

/-- 自分の使っている機械は、誰の名前ででも check に回せる。 -/
theorem toCheck_allowed (who : UserRef) (hm : session.hasManage roles fuel users res = some false)
    (hw : (session.hasWrite roles fuel users res).isSome) :
    tryUpdateAllowed session roles res fuel users (.inUse session.user) (.toCheck who) =
      some true := by
  obtain ⟨write, hwrite⟩ := Option.isSome_iff_exists.mp hw
  unfold tryUpdateAllowed
  simp [hm, hwrite, updateAllowed, everybodyAllows]

/-- 正当な遷移が他人の名前を書くのは、manage によるか、自分の機械を check に回すときである。 -/
theorem Rightful.names (h : Rightful roles res users session old new)
    (hno : ¬ session.May roles users res.desc.privs.manage) :
    (new.user = none ∨ new.user = some session.user) ∨
      (old = .inUse session.user ∧ ∃ who, who ≠ session.user ∧ new = .toCheck who) := by
  cases h with
  | manage hm => exact absurd hm hno
  | take _ | reserve _ | claim _ => exact Or.inl (Or.inr rfl)
  | unreserve | finish => exact Or.inl (Or.inl rfl)
  | check who =>
    by_cases hwho : who = session.user
    · subst hwho
      exact Or.inl (Or.inr rfl)
    · exact Or.inr ⟨rfl, who, hwho, rfl⟩

/--
manage の無い session の要求について、通ったときに新しい status が他人を名指さないのは、
自分の使っている機械を他人の名前で check に回す要求でないとき、そのときに限る。
-/
theorem tryUpdate_ownName_iff (hm : session.hasManage roles fuel users res = some false) :
    (tryUpdateAllowed session roles res fuel users old new = some true →
      new.user = none ∨ new.user = some session.user) ↔
    ¬ (old = .inUse session.user ∧ (∃ who, who ≠ session.user ∧ new = .toCheck who) ∧
      (session.hasWrite roles fuel users res).isSome) := by
  constructor
  · rintro h ⟨rfl, ⟨who, hwho, rfl⟩, hw⟩
    have hnames := h (toCheck_allowed who hm hw)
    simp [Status.user, hwho] at hnames
  · intro hno h
    have hmay : ¬ session.May roles users res.desc.privs.manage := by
      rw [← hasPerm_eq_some hm]
      simp
    rcases (tryUpdateAllowed_rightful h).names hmay with hnames | ⟨hold, hnew⟩
    · exact hnames
    · exact absurd ⟨hold, hnew, hasWrite_isSome_of_allowed hm h⟩ hno

theorem tryUpdate_ownName_iff_take :
    SessionHandle.hasManage ⟨⟨"alice"⟩⟩ makerRoles 2 makers laser = some false ∧
    (tryUpdateAllowed ⟨⟨"alice"⟩⟩ makerRoles laser 2 makers .free (.inUse ⟨"alice"⟩) = some true →
      Status.user (.inUse ⟨"alice"⟩) = none ∨ Status.user (.inUse ⟨"alice"⟩) = some ⟨"alice"⟩) := by
  have hm : SessionHandle.hasManage ⟨⟨"alice"⟩⟩ makerRoles 2 makers laser = some false := by decide
  refine ⟨hm, (tryUpdate_ownName_iff hm).mpr ?_⟩
  rintro ⟨hold, _⟩
  cases hold

/-- `alice` は、自分の使った機械の check を `bob` のものにして去れる。 -/
theorem toCheck_in_another_name :
    SessionHandle.hasManage ⟨⟨"alice"⟩⟩ makerRoles 2 makers laser = some false ∧
    tryUpdate ⟨⟨"alice"⟩⟩ makerRoles laser 2 true makers
      ⟨⟨.inUse ⟨"alice"⟩, none⟩, ⟨.inUse ⟨"alice"⟩, none⟩, []⟩ (.toCheck ⟨"bob"⟩) =
      some ⟨⟨.toCheck ⟨"bob"⟩, none⟩, ⟨.toCheck ⟨"bob"⟩, none⟩, [⟨"laser", "tocheck bob"⟩]⟩ := by
  decide

end FabAccess
