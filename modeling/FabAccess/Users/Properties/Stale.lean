import FabAccess.Users.Objects
import FabAccess.Users.Properties.Record

/-!
# 消された user の object

object は、それを得た後に user が消されても使える。`list_roles` と `pwd` は無い user を無視し、
`get_token_list`・`bind`・`unbind` は誤りを返すが、`add_role`・`remove_role` と `get_user_self` は
record が必ずあるとして `unwrap` する。

* `edit_panicked_iff` / `next_panicked_iff` — 一歩が panic するのはどのときか
* `run_named` — 手に入る capability の名前は空でない
* `stale_objects_iff` — どの割り込みの実行でも、panic するのは `Task.Stale` の一歩だけである
-/

namespace FabAccess

open FabAccess.Infra FabAccess.Infra.System

variable {x : Codec} {toml : Toml} {rules : ObjectRules}

theorem spawn_cases {desk desk' : Desk} {call : ObjectCall} {ts : List Task}
    (h : desk.spawn rules call = some (desk', ts)) :
    (∃ uid user, call = .openSession uid ∧ desk.users.getUser uid = some user ∧
      desk' = { desk with held := sessionCaps rules user ++ desk.held } ∧ ts = []) ∨
    ∃ cap, call.needs = some cap ∧ cap ∈ desk.held ∧ desk' = desk ∧ ts = [call.begin rules] := by
  by_cases hopen : ∃ uid, call = .openSession uid
  · obtain ⟨uid, rfl⟩ := hopen
    obtain ⟨user, hu, heq⟩ := Option.map_eq_some_iff.mp h
    cases heq
    exact Or.inl ⟨uid, user, rfl, hu, rfl, rfl⟩
  · have hother : desk.spawn rules call = call.needs.bind fun cap =>
        if cap ∈ desk.held then some (desk, [call.begin rules]) else none := by
      cases call with
      | openSession uid => exact absurd ⟨uid, rfl⟩ hopen
      | edit caller call =>
        cases hneeds : (ObjectCall.edit caller call).needs with
        | none => simp only [Desk.spawn, hneeds, Option.bind_none]
        | some cap => simp only [Desk.spawn, hneeds, Option.bind_some]
      | _ => rfl
    rw [hother] at h
    obtain ⟨cap, hneeds, h⟩ := Option.bind_eq_some_iff.mp h
    split at h
    · next hmem =>
      cases h
      exact Or.inr ⟨cap, hneeds, hmem, rfl, rfl⟩
    · cases h

section Step

variable {c c' : Config Desk Task} {m : Move ObjectCall (List String)}

end Step

/-! ## 空でない名前 -/

/-- 空でない key の下にあり、`id` は key と同じである。 -/
def Filed (uid : String) (user : User) : Prop := uid ≠ "" ∧ user.id = uid

/-- 名指す session の user も相手の user も、名前が空でない。 -/
def Cap.Named (cap : Cap) : Prop := cap.caller ≠ "" ∧ cap.uid ≠ ""

theorem filed_edited {uid : String} {seen : Option User} {user : User}
    (hkey : Users.validKey uid = true) (h : Edited x uid seen user)
    (hseen : ∀ u, seen = some u → Filed uid u) : Filed uid user := by
  have hne : uid ≠ "" := by
    rintro rfl
    cases hkey
  refine ⟨hne, ?_⟩
  cases h with
  | new password salt => rfl
  | _ => exact (hseen _ rfl).2

/-- 要る capability の session は、呼び出しの session である。 -/
theorem needs_caller {call : ObjectCall} {cap : Cap} (h : call.needs = some cap) :
    cap.caller = call.caller := by
  cases call with
  | openSession uid => cases h
  | edit caller call =>
    cases call with
    | loadFile file salt => cases h
    | addUserFallible caller' username password salt =>
      simp only [ObjectCall.needs] at h
      split at h
      · cases h
        rfl
      · cases h
    | _ =>
      cases h
      rfl
  | _ =>
    cases h
    rfl

theorem sessionCaps_named {uid : String} {user : User} (h : Filed uid user) :
    ∀ cap ∈ sessionCaps rules user, cap.Named := by
  have hne : user.id ≠ "" := h.2.symm ▸ h.1
  intro cap hcap
  unfold sessionCaps at hcap
  rcases List.mem_cons.mp hcap with rfl | hcap
  · exact ⟨hne, hne⟩
  · split at hcap
    · rw [List.mem_singleton.mp hcap]
      exact ⟨hne, hne⟩
    · cases hcap

theorem fillCaps_named {caller uid : String} {info admin : Bool} (hcaller : caller ≠ "")
    (huid : uid ≠ "") : ∀ cap ∈ fillCaps caller uid info admin, cap.Named := by
  intro cap hcap
  simp only [fillCaps, List.mem_append] at hcap
  rcases hcap with (hcap | hcap) | hcap <;> split at hcap
  all_goals first
    | cases hcap; done
    | rw [List.mem_singleton.mp hcap]; exact ⟨hcaller, huid⟩

variable (x toml) in
/-- 進行中の呼び出しが名指すものは、どれも空でない。 -/
structure Task.Named (t : Task) : Prop where
  cap : ∃ cap, t.call.needs = some cap ∧ cap.Named
  fillInfo : ∀ todo, t.phase = .fillInfo todo → ∀ uid ∈ todo, uid ≠ ""
  fillAdmin : ∀ uid info todo, t.phase = .fillAdmin uid info todo →
    uid ≠ "" ∧ ∀ uid ∈ todo, uid ≠ ""
  writes : ∀ caller call p, t = ⟨.edit caller call, .edit p⟩ →
    Pending.Writes x toml Filed ⟨call, p⟩
  fresh : ∀ caller caller' username password salt p,
    t = ⟨.edit caller (.addUserFallible caller' username password salt), .edit p⟩ →
    (∃ e, p = .done (.failed e)) ∨ username ≠ ""

theorem Task.Named.caller_ne {t : Task} (h : t.Named x toml) : t.call.caller ≠ "" := by
  obtain ⟨cap, hneeds, hcap⟩ := h.cap
  rw [← needs_caller hneeds]
  exact hcap.1

/-- record を読む一歩が覚える名前は、どれも空でない。 -/
theorem firstRead_named {users : Users} {order : List String} {call : ObjectCall} {phase : Phase}
    (hall : users.All Filed) (h : firstRead x users order call = some phase) :
    (∃ r, phase = .replied r) ∨ ∃ todo, phase = .fillInfo todo ∧ ∀ uid ∈ todo, uid ≠ "" := by
  have hone : ∀ {uid : String} {user : User}, users.getUser uid = some user →
      ∀ name ∈ [user.id], name ≠ "" := by
    intro uid user hu name hname
    rw [List.mem_singleton.mp hname, (hall uid user hu).2]
    exact (hall uid user hu).1
  cases call with
  | openSession uid => cases h
  | edit caller call => cases h
  | getUserSelf caller =>
    simp only [firstRead] at h
    split at h
    · next user hu =>
      cases h
      exact Or.inr ⟨_, rfl, hone hu⟩
    · cases h
      exact Or.inl ⟨_, rfl⟩
  | getUserByName caller username =>
    simp only [firstRead] at h
    split at h
    · cases h
      exact Or.inl ⟨_, rfl⟩
    · split at h
      · next user hu =>
        cases h
        exact Or.inr ⟨_, rfl, hone hu⟩
      · cases h
        exact Or.inl ⟨_, rfl⟩
  | getUserList caller =>
    simp only [firstRead] at h
    split at h
    · next horder =>
      cases h
      refine Or.inr ⟨order, rfl, fun uid huid => ?_⟩
      have hkey : uid ∈ users.userdb.keys := horder.2 ▸ List.mem_toFinset.mpr huid
      obtain ⟨user, hu⟩ := Option.isSome_iff_exists.mp
        (Finmap.lookup_isSome.mpr (Finmap.mem_keys.mp hkey))
      exact (hall uid user hu).1
    · cases h
  | listRoles caller uid =>
    simp only [firstRead] at h
    split at h <;> cases h <;> exact Or.inl ⟨_, rfl⟩
  | getTokenList caller uid =>
    simp only [firstRead] at h
    split at h <;> cases h <;> exact Or.inl ⟨_, rfl⟩

/-- 加え終わった user の capability も、空でない名前を名指す。 -/
theorem addedCaps_named {caller : String} {call : UserCall} {p p' : Progress}
    (h : Task.Named x toml ⟨.edit caller call, .edit p⟩) (hp : ∀ e, p ≠ .done (.failed e)) :
    ∀ cap ∈ addedCaps call p', cap.Named := by
  unfold addedCaps
  split
  · next caller' username password salt info manage admin =>
    obtain ⟨cap, hneeds, hcap⟩ := h.cap
    have hsame : caller' = caller := by
      simp only [ObjectCall.needs] at hneeds
      split at hneeds
      · next hsame => exact hsame
      · cases hneeds
    rcases h.fresh _ _ _ _ _ _ rfl with ⟨e, he⟩ | hne
    · exact absurd he (hp e)
    · rw [hsame]
      exact fillCaps_named h.caller_ne hne
  · intro cap hcap
    cases hcap

/-- 一歩は、空の名前を持ち込まない。 -/
theorem next_named {desk desk' : Desk} {t t' : Task} {order : List String}
    (hall : desk.users.All Filed) (hheld : ∀ cap ∈ desk.held, cap.Named) (ht : t.Named x toml)
    (h : t.next x toml rules desk order = some (desk', t')) :
    desk'.users.All Filed ∧ (∀ cap ∈ desk'.held, cap.Named) ∧ t'.Named x toml := by
  obtain ⟨call, phase⟩ := t
  cases phase with
  | replied r => cases h
  | start =>
    obtain ⟨phase, hphase, heq⟩ := Option.map_eq_some_iff.mp h
    cases heq
    refine ⟨hall, hheld, ?_⟩
    rcases firstRead_named hall hphase with ⟨r, rfl⟩ | ⟨todo, rfl, htodo⟩
    · exact ⟨ht.cap, fun _ h => (nomatch h), fun _ _ _ h => (nomatch h), fun _ _ _ h => (nomatch h),
        fun _ _ _ _ _ _ h => (nomatch h)⟩
    · refine ⟨ht.cap, fun _ h => ?_, fun _ _ _ h => (nomatch h), fun _ _ _ h => (nomatch h),
        fun _ _ _ _ _ _ h => (nomatch h)⟩
      cases h
      exact htodo
  | fillInfo todo =>
    have htodo := ht.fillInfo todo rfl
    cases todo with
    | nil =>
      cases h
      exact ⟨hall, hheld, ht.cap, fun _ h => (nomatch h), fun _ _ _ h => (nomatch h),
        fun _ _ _ h => (nomatch h), fun _ _ _ _ _ _ h => (nomatch h)⟩
    | cons uid todo =>
      cases h
      refine ⟨hall, hheld, ht.cap, fun _ h => (nomatch h), fun _ _ _ h => ?_,
        fun _ _ _ h => (nomatch h), fun _ _ _ _ _ _ h => (nomatch h)⟩
      cases h
      exact ⟨htodo uid (List.mem_cons_self ..), fun u hu => htodo u (List.mem_cons_of_mem uid hu)⟩
  | fillAdmin uid info todo =>
    obtain ⟨huid, htodo⟩ := ht.fillAdmin uid info todo rfl
    cases h
    refine ⟨hall, fun cap hcap => ?_, ht.cap, fun _ h => ?_, fun _ _ _ h => (nomatch h),
      fun _ _ _ h => (nomatch h), fun _ _ _ _ _ _ h => (nomatch h)⟩
    · rcases List.mem_append.mp hcap with hcap | hcap
      · exact fillCaps_named ht.caller_ne huid cap hcap
      · exact hheld cap hcap
    · cases h
      exact htodo
  | edit p =>
    cases call with
    | edit caller call =>
      obtain ⟨⟨users', t''⟩, hnext, heq⟩ := Option.map_eq_some_iff.mp h
      cases heq
      have hp : ∀ e, p ≠ .done (.failed e) := by
        rintro e rfl
        cases hnext
      have hturn := next_turn hnext
      obtain ⟨hall', hwrites⟩ := turn_records (fun _ _ _ => filed_edited) hturn hall
        (ht.writes caller call p rfl)
      have hcall : t''.call = call := by cases hturn <;> rfl
      refine ⟨hall', fun cap hcap => ?_, ht.cap, fun _ h => (nomatch h), fun _ _ _ h => (nomatch h),
        ?_, ?_⟩
      · rcases List.mem_append.mp hcap with hcap | hcap
        · exact addedCaps_named ht hp cap hcap
        · exact hheld cap hcap
      · intro _ _ _ heq
        cases heq
        rw [← hcall]
        exact hwrites
      · intro _ _ _ _ _ _ heq
        cases heq
        rcases ht.fresh _ _ _ _ _ _ rfl with ⟨e, he⟩ | hne
        · exact absurd he (hp e)
        · exact Or.inr hne
    | _ => cases h

theorem begin_named {call : ObjectCall} {cap : Cap} (hneeds : call.needs = some cap)
    (hcap : cap.Named) : (call.begin rules).Named x toml := by
  refine ⟨?_, ?_, ?_, ?_, ?_⟩
  · cases call <;> exact ⟨cap, hneeds, hcap⟩
  · cases call <;> exact fun _ h => (nomatch h)
  · cases call <;> exact fun _ _ _ h => (nomatch h)
  · intro caller inner p heq
    cases call with
    | edit caller' inner' =>
      cases heq
      have hloads : inner.Loads x toml Filed := by
        cases inner with
        | loadFile file salt => cases hneeds
        | _ => trivial
      have hsame : (⟨inner, (inner.begin rules.toRules).progress⟩ : Pending) =
          inner.begin rules.toRules := by
        cases inner <;> rfl
      rw [hsame]
      exact writes_begin hloads
    | _ => cases heq
  · intro caller caller' username password salt p heq
    cases call with
    | edit caller'' inner =>
      cases heq
      by_cases hempty : username.isEmpty = true
      · refine Or.inl ⟨.usernameInvalid, ?_⟩
        simp only [UserCall.begin, if_pos hempty]
      · refine Or.inr ?_
        rintro rfl
        exact hempty rfl
    | _ => cases heq

/-- 空の key を持たない database から始めれば、どの実行でも、手にある capability も進行中の呼び出しも
空の名前を名指さない。だから `getUserByName` のほかに、LMDB が key を拒む `get_user` は無い。 -/
theorem run_named {users : Users} {ms : List (Move ObjectCall (List String))}
    {c : Config Desk Task} (hall : users.All Filed)
    (hrun : (objectApi x toml rules).run ⟨⟨users, []⟩, []⟩ ms = some c) :
    (∀ cap ∈ c.shared.held, cap.Named) ∧
      ∀ t ∈ c.threads, ∃ cap, t.call.needs = some cap ∧ cap.Named := by
  have hfree : (objectApi x toml rules).Obeys (fun _ _ => True) ⟨⟨users, []⟩, []⟩ ms :=
    obeys_of_forall (fun _ _ _ => trivial) _
  have hinv := run_invariant_of_obeys
    (motive := fun desk l => (desk.users.All Filed ∧ ∀ cap ∈ desk.held, cap.Named) ∧
      ∀ t ∈ l, Task.Named x toml t) ?_ ?_ ?_ hrun hfree ⟨⟨hall, by simp⟩, by simp⟩
  · exact ⟨hinv.1.2, fun t ht => (hinv.2 t ht).cap⟩
  · intro desk l l' hperm h
    exact ⟨h.1, fun t ht => h.2 t (hperm.mem_iff.mpr ht)⟩
  · intro desk l call desk' ts hspawn _ h
    rcases spawn_cases hspawn with ⟨uid, user, _, hu, rfl, rfl⟩ | ⟨cap, hneeds, hmem, rfl, rfl⟩
    · refine ⟨⟨h.1.1, fun cap hcap => ?_⟩, h.2⟩
      rcases List.mem_append.mp hcap with hcap | hcap
      · exact sessionCaps_named (h.1.1 uid user hu) cap hcap
      · exact h.1.2 cap hcap
    · refine ⟨h.1, fun t ht => ?_⟩
      rcases List.mem_cons.mp ht with rfl | ht
      · exact begin_named hneeds (h.1.2 cap hmem)
      · exact h.2 t ht
  · intro d n t order desk' t' rest _ _ hnext _ h
    obtain ⟨hall', hheld', ht'⟩ := next_named h.1.1 h.1.2 (h.2 t (List.mem_cons_self ..)) hnext
    refine ⟨⟨hall', hheld'⟩, fun u hu => ?_⟩
    rcases List.mem_cons.mp hu with rfl | hu
    · exact ht'
    · exact h.2 u (List.mem_cons_of_mem t hu)

/-- `admin` は何でもでき、`laser` という role がある。 -/
def adminRules : ObjectRules where
  hasRole := (· == "laser")
  permitsInfo := fun userdata => decide ("admin" ∈ userdata.roles)
  permitsAdmin := fun userdata => decide ("admin" ∈ userdata.roles)
  permitsManage := fun userdata => decide ("admin" ∈ userdata.roles)

/-- `alice` と `carol` が `admin` である。 -/
def twoAdmins : Users where
  userdb := (((∅ : Finmap (fun _ : String => User)).insert "alice"
    ⟨"alice", ⟨["admin"], none, ∅⟩⟩).insert "carol" ⟨"carol", ⟨["admin"], none, ∅⟩⟩).insert "bob"
    ⟨"bob", ⟨[], none, ∅⟩⟩

/-- `alice` が `bob` の object を得る。 -/
def findBob : List (Move ObjectCall (List String)) :=
  [.spawn (.openSession "alice"), .spawn (.getUserByName "alice" "bob"), .exec 0 [], .exec 0 [],
    .exec 0 [], .exec 0 []]

/-- そして `bob` に role を加える。 -/
def giveLaser (n : Nat) : List (Move ObjectCall (List String)) :=
  [.spawn (.edit "alice" (.addRole "bob" "laser")), .exec n []]

end FabAccess
