import FabAccess.Resources.Properties.Ownership
import FabAccess.Resources.Machine

/-!
# 取り上げられた権限

`use` や `reserve` は呼び出しのたびに user の record を読み直すが、`Manage` の操作は
`force_set` を通り、何も確かめない。manage が確かめられるのは capability を渡すときだけなので、
その後に role を取り上げられても、user が消されても、手にある capability は効き続ける。

* `held_may_or_withdrawn` — 手にある capability の session には、今も manage があるか、
  渡された後の変更が取り上げたかである
* `forced_calls_iff` — 取り上げられた権限が効かないとき
-/

namespace FabAccess

open Infra

variable {roles : Roles} {res : Resource} {w w' w₀ : ApiWorld} {cap : Machine}

/-- capability の session に、その resource の manage がある。 -/
def Machine.MayManage (cap : Machine) (roles : Roles) (users : Users) : Prop :=
  cap.session.May roles users cap.resource.desc.privs.manage

/-! ## 一歩 -/

/-- 返事に `Manage` の capability が入るのは、manage があるときだけである。 -/
theorem buildInto_manage {this : Machine} {fuel : Nat} {users : Users} {inner : Inner}
    {reply : MachineReply} (h : this.buildInto roles fuel users inner = some reply)
    (hcap : reply.manage = some cap) : cap = this ∧ cap.MayManage roles users := by
  unfold Machine.buildInto at h
  split at h
  · next write manage read hw hm hr =>
    cases h
    cases manage with
    | false => cases hcap
    | true =>
      cases hcap
      exact ⟨rfl, (hasPerm_eq_some hm).mp rfl⟩
  · cases h

theorem optionalBuild_some {session : SessionHandle} {fuel : Nat} {users : Users} {inner : Inner}
    {reply : MachineReply}
    (h : Machine.optionalBuild session res roles fuel users inner = some (some reply)) :
    Machine.buildInto ⟨session, res⟩ roles fuel users inner = some reply := by
  unfold Machine.optionalBuild at h
  split at h
  · cases h
  · simpa using h
  · split at h
    · cases h
    · simpa using h
    · cases h

theorem mem_take {reply : Option MachineReply} (h : cap ∈ (w.take reply).held) :
    cap ∈ w.held ∨ ∃ r, reply = some r ∧ r.manage = some cap := by
  unfold ApiWorld.take at h
  split at h
  · next cap' hcap =>
    rcases List.mem_cons.mp h with rfl | h
    · exact Or.inr (Option.bind_eq_some_iff.mp hcap)
    · exact Or.inl h
  · exact Or.inl h

theorem users_take (w : ApiWorld) (reply : Option MachineReply) :
    (w.take reply).users = w.users := by
  unfold ApiWorld.take
  split <;> rfl

/-- 一歩は、user database を変えるか、manage のある session に capability を渡すかである。 -/
theorem ApiWorld.step_cases {e : ApiEvent} (h : w.step roles res e = some w') :
    (∃ users, e = .setUsers users ∧ w' = { w with users }) ∨
    (w'.users = w.users ∧ ∀ cap ∈ w'.held, cap ∈ w.held ∨ cap.MayManage roles w.users) := by
  cases e with
  | list session fuel =>
    simp only [step] at h
    split at h
    · cases h
    · cases h
      exact Or.inr ⟨rfl, fun cap hcap => Or.inl hcap⟩
    · obtain ⟨reply, hreply, rfl⟩ := Option.map_eq_some_iff.mp h
      refine Or.inr ⟨users_take w _, fun cap hcap => ?_⟩
      rcases mem_take hcap with hold | ⟨r, hr, hmanage⟩
      · exact Or.inl hold
      · cases hr
        exact Or.inr (buildInto_manage hreply hmanage).2
  | find session fuel =>
    obtain ⟨reply, hreply, rfl⟩ := Option.map_eq_some_iff.mp h
    refine Or.inr ⟨users_take w _, fun cap hcap => ?_⟩
    rcases mem_take hcap with hold | ⟨r, rfl, hmanage⟩
    · exact Or.inl hold
    · exact Or.inr (buildInto_manage (optionalBuild_some hreply) hmanage).2
  | call c =>
    obtain ⟨inner, _, rfl⟩ := Option.map_eq_some_iff.mp h
    exact Or.inr ⟨rfl, fun cap hcap => Or.inl hcap⟩
  | manage cap call logged =>
    simp only [step] at h
    split at h
    · cases h
      exact Or.inr ⟨rfl, fun cap hcap => Or.inl hcap⟩
    · cases h
  | setUsers users =>
    cases h
    exact Or.inl ⟨users, rfl, rfl⟩

/-- `Manage` の操作が保存される状態を変えるのは、求める status が今と違うときである。 -/
theorem exec_db_ne_iff (call : ManageCall) (cap : Machine) (logged : Bool) (inner : Inner) :
    (call.exec cap logged inner).db ≠ inner.db ↔ inner.db.state ≠ call.target cap.session := by
  have hdb : (call.exec cap logged inner).db = ⟨call.target cap.session, inner.db.previous⟩ := rfl
  rw [hdb, not_iff_not]
  constructor
  · intro h
    rw [← h]
  · intro h
    rw [← h]

/-! ## 実行 -/

/-- 渡された後の user database の変更が、manage を取り上げた。 -/
def Withdrawn (roles : Roles) (res : Resource) (w₀ : ApiWorld) (pre : List ApiEvent)
    (cap : Machine) : Prop :=
  ∃ pre₁ users pre₂ v, pre = pre₁ ++ .setUsers users :: pre₂ ∧
    w₀.run roles res pre₁ = some v ∧ cap ∈ v.held ∧ cap.MayManage roles v.users ∧
    ¬ cap.MayManage roles users

theorem Withdrawn.append {pre : List ApiEvent} (h : Withdrawn roles res w₀ pre cap)
    (post : List ApiEvent) : Withdrawn roles res w₀ (pre ++ post) cap := by
  obtain ⟨pre₁, users, pre₂, v, rfl, hv⟩ := h
  exact ⟨pre₁, users, pre₂ ++ post, v, by simp, hv⟩

/-- 手にある capability の session には、今も manage があるか、誰かが取り上げたかである。 -/
theorem held_may_or_withdrawn (h₀ : w₀.held = []) {pre : List ApiEvent}
    (hrun : w₀.run roles res pre = some w) (hcap : cap ∈ w.held) :
    cap.MayManage roles w.users ∨ Withdrawn roles res w₀ pre cap := by
  -- 帰納法は出来事の列の後ろから。渡されたときには manage があった
  induction pre using List.reverseRecOn generalizing w with
  | nil =>
    cases hrun
    rw [h₀] at hcap
    cases hcap
  | append_singleton pre e ih =>
    obtain ⟨v, hv, hstep⟩ := runFrom_concat hrun
    rcases ApiWorld.step_cases hstep with ⟨users, rfl, rfl⟩ | ⟨husers, hheld⟩
    · rcases ih hv hcap with hmay | hwith
      · by_cases hnow : cap.MayManage roles users
        · exact Or.inl hnow
        · exact Or.inr ⟨pre, users, [], v, rfl, hv, hcap, hmay, hnow⟩
      · exact Or.inr (hwith.append _)
    · rw [husers]
      rcases hheld cap hcap with hold | hmay
      · rcases ih hv hold with hmay | hwith
        · exact Or.inl hmay
        · exact Or.inr (hwith.append _)
      · exact Or.inl hmay

/-- `Manage` の操作が状態を変えるのは、session の user が今も居て manage を持つときだけである。 -/
def RevokedRightsStop (roles : Roles) (res : Resource) (w₀ : ApiWorld) (events : List ApiEvent) :
    Prop :=
  ∀ v cap call logged, StepsFrom (ApiWorld.step roles res) w₀ events v (.manage cap call logged) →
    (call.exec cap logged v.inner).db ≠ v.inner.db → cap.MayManage roles v.users

/-- 実行できた `Manage` の操作の capability は、手にある。 -/
theorem mem_held_of_run {pre post : List ApiEvent} {call : ManageCall} {logged : Bool}
    {v : ApiWorld} (hv : w₀.run roles res pre = some v)
    (hrun : w₀.run roles res (pre ++ .manage cap call logged :: post) = some w) :
    cap ∈ v.held := by
  unfold ApiWorld.run at hv hrun
  rw [runFrom_append, hv, Option.bind_some] at hrun
  by_contra hno
  simp [runFrom, ApiWorld.step, hno] at hrun

/-- user database のどの変更も、手にある capability の session から manage を取り上げない。 -/
def NoneWithdrawn (roles : Roles) (res : Resource) (w₀ : ApiWorld) (events : List ApiEvent) : Prop :=
  ∀ v users, StepsFrom (ApiWorld.step roles res) w₀ events v (.setUsers users) →
    ∀ cap ∈ v.held, cap.MayManage roles v.users → cap.MayManage roles users

theorem NoneWithdrawn.not_withdrawn {events pre : List ApiEvent}
    (h : NoneWithdrawn roles res w₀ events) (hpre : pre <+: events) (cap : Machine) :
    ¬ Withdrawn roles res w₀ pre cap := by
  rintro ⟨pre₁, users, pre₂, v, rfl, hv, hcap, hmay, hno⟩
  obtain ⟨post, rfl⟩ := hpre
  exact hno (h v users ⟨pre₁, pre₂ ++ post, by simp, hv⟩ cap hcap hmay)

/-- 今の status とは違う status を書く操作がある。 -/
theorem exists_changing (cap : Machine) (inner : Inner) :
    ∃ call : ManageCall, (call.exec cap true inner).db ≠ inner.db := by
  by_cases hfree : inner.db.state = .free
  · refine ⟨.disabled, (exec_db_ne_iff _ _ _ _).mpr ?_⟩
    rw [hfree]
    exact Status.noConfusion
  · exact ⟨.forceFree, (exec_db_ne_iff _ _ _ _).mpr hfree⟩

/-- 取り上げる変更の無い実行と、それに一歩を足した実行では、取り上げられた権限は効かない。 -/
theorem NoneWithdrawn.stops {events pre : List ApiEvent} (h₀ : w₀.held = [])
    (h : NoneWithdrawn roles res w₀ events)
    (hpre : ∀ pre' e post, pre = pre' ++ e :: post → pre' <+: events)
    (hrun : w₀.run roles res pre = some w) : RevokedRightsStop roles res w₀ pre := by
  rintro v cap call logged ⟨pre', post, rfl, hv⟩ _
  rcases held_may_or_withdrawn h₀ hv (mem_held_of_run hv hrun) with hmay | hwith
  · exact hmay
  · exact absurd hwith (h.not_withdrawn (hpre pre' _ post rfl) cap)

/--
**capability を一つも持たずに始まるどの実行でも、user database の変更が、手にある capability の session から
manage を取り上げなければ、取り上げられた権限は効かない。**

取り上げる変更が一つでもあれば、その直後に、取り上げられた権限で状態を変える操作ができる。
-/
theorem forced_calls_iff (roles : Roles) (res : Resource) (w₀ w : ApiWorld)
    (events : List ApiEvent) (h₀ : w₀.held = []) (hrun : w₀.run roles res events = some w) :
    (NoneWithdrawn roles res w₀ events → RevokedRightsStop roles res w₀ events) ∧
    (NoneWithdrawn roles res w₀ events ↔
      ∀ pre e v, pre <+: events → w₀.run roles res (pre ++ [e]) = some v →
        RevokedRightsStop roles res w₀ (pre ++ [e])) := by
  refine ⟨fun h => h.stops h₀ (fun pre' e post heq => ⟨_, heq.symm⟩) hrun, ?_, ?_⟩
  · intro h pre e v hpre hv
    refine h.stops h₀ (fun pre' e' post heq => ?_) hv
    refine (List.prefix_of_prefix_length_le ⟨_, heq.symm⟩ (List.prefix_append pre [e]) ?_).trans hpre
    have hlen := congrArg List.length heq
    simp only [List.length_append, List.length_cons, List.length_nil] at hlen
    omega
  · rintro h v users ⟨pre, post, rfl, hv⟩ cap hcap hmay
    -- 取り上げた直後の、status を変える操作を考える
    obtain ⟨call, hchange⟩ := exists_changing cap v.inner
    have hafter : w₀.run roles res (pre ++ [.setUsers users]) = some { v with users } := by
      rw [ApiWorld.run, runFrom_append, show runFrom _ w₀ pre = some v from hv]
      rfl
    have hcall : w₀.run roles res (pre ++ [.setUsers users] ++ [.manage cap call true]) =
        some { v with users, inner := call.exec cap true v.inner } := by
      rw [ApiWorld.run, runFrom_append, show runFrom _ w₀ _ = _ from hafter]
      simp only [Option.bind_some, runFrom, ApiWorld.step, if_pos hcap]
    have hpre : pre ++ [.setUsers users] <+: pre ++ .setUsers users :: post := ⟨post, by simp⟩
    exact h _ _ _ hpre hcall _ cap call true ⟨_, [], rfl, hafter⟩ hchange

/-- 機械のすべてを任された role。 -/
def wardenRoles : Roles where
  roles := (∅ : Finmap (fun _ : String => Role)).insert "warden"
    { parents := [], permissions := [.subtree ⟨"lab.laser"⟩] }

/-- `alice` が管理し、`bob` が使っている。 -/
def wardenWorld : ApiWorld where
  users := ⟨(∅ : Finmap (fun _ : String => User)).insert "alice" ⟨"alice", ⟨["warden"], none, ∅⟩⟩⟩
  inner := ⟨⟨.inUse ⟨"bob"⟩, none⟩, ⟨.inUse ⟨"bob"⟩, none⟩, []⟩
  held := []

def wardenCap : Machine := ⟨⟨⟨"alice"⟩⟩, laser⟩

theorem forced_calls_iff_warden :
    (wardenWorld.run wardenRoles laser
      [.find ⟨⟨"alice"⟩⟩ 2, .manage wardenCap .block true]).isSome ∧
    RevokedRightsStop wardenRoles laser wardenWorld
      [.find ⟨⟨"alice"⟩⟩ 2, .manage wardenCap .block true] := by
  have hsome : (wardenWorld.run wardenRoles laser
      [.find ⟨⟨"alice"⟩⟩ 2, .manage wardenCap .block true]).isSome := by decide
  obtain ⟨w, hrun⟩ := Option.isSome_iff_exists.mp hsome
  refine ⟨hsome, (forced_calls_iff wardenRoles laser wardenWorld w _ rfl hrun).1 ?_⟩
  rintro v users ⟨pre₁, pre₂, heq, _⟩
  have hmem : ApiEvent.setUsers users ∈
      [ApiEvent.find ⟨⟨"alice"⟩⟩ 2, .manage wardenCap .block true] := by
    rw [heq]
    simp
  simp at hmem

/-- capability を受け取り、user ごと消された後で使う。 -/
def fireThenForce : List ApiEvent :=
  [.find ⟨⟨"alice"⟩⟩ 2, .setUsers (wardenWorld.users.delUser "alice"),
   .manage wardenCap .forceFree true]

/-- 消された user の capability が、人の使っている機械を空ける。 -/
theorem forceFree_after_removal :
    (wardenWorld.run wardenRoles laser fireThenForce).map (fun w => w.inner.db.state) =
      some .free ∧
    wardenWorld.inner.db.state = .inUse ⟨"bob"⟩ ∧
    (wardenWorld.users.delUser "alice").getUser "alice" = none ∧
    ¬ RevokedRightsStop wardenRoles laser wardenWorld fireThenForce := by
  have hnone : (wardenWorld.users.delUser "alice").getUser "alice" = none := by decide
  refine ⟨by decide, rfl, hnone, fun h => ?_⟩
  obtain ⟨v, hrun, hv⟩ : ∃ v, wardenWorld.run wardenRoles laser
      [.find ⟨⟨"alice"⟩⟩ 2, .setUsers (wardenWorld.users.delUser "alice")] = some v ∧
        (v.users = wardenWorld.users.delUser "alice" ∧ v.inner.db.state = .inUse ⟨"bob"⟩) := by
    have hproj : (wardenWorld.run wardenRoles laser
        [.find ⟨⟨"alice"⟩⟩ 2, .setUsers (wardenWorld.users.delUser "alice")]).map
          (fun v => (v.users, v.inner.db.state)) =
        some (wardenWorld.users.delUser "alice", .inUse ⟨"bob"⟩) := by decide
    obtain ⟨v, hrun, hv⟩ := Option.map_eq_some_iff.mp hproj
    exact ⟨v, hrun, congrArg Prod.fst hv, congrArg Prod.snd hv⟩
  have hmay := h v wardenCap .forceFree true ⟨_, [], rfl, hrun⟩ (by
    rw [exec_db_ne_iff, hv.2]
    decide)
  obtain ⟨user, hget, _⟩ := hmay
  rw [hv.1] at hget
  have hgone : (wardenWorld.users.delUser "alice").getUser wardenCap.session.user.id = none := hnone
  rw [hgone] at hget
  cases hget

end FabAccess
