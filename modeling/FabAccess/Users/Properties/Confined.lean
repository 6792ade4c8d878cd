import FabAccess.Authorization.Roles
import FabAccess.Users.Properties.Authority

/-!
# 権限のない user にできること

user の権限は user の role から決まり、role を変えるには権限が要る。この循環のために、権限のない
user がいくら集まって、どの順に呼んでも、自分たちの権限を増やすことはできない。

* `permits_congr` — 権限は role の列だけで決まる
* `turn_confined` — 自分の password を変える呼び出しは、password のほかを変えない
* `unprivileged_confined` — 権限のない user だけが書く実行では、誰の role も card も、user の集まりも
  変わらない
-/

namespace FabAccess

open FabAccess.Infra FabAccess.Infra.System

/-- 設定の role の表から決まる権限。`Roles::is_permitted` が深さ `fuel` で返らなければ許されない。 -/
def Roles.objectRules (this : Roles) (fuel : Nat) : ObjectRules where
  hasRole rolename := (this.get rolename).isSome
  permitsInfo userdata := this.isPermitted fuel userdata ⟨"bffh.users.info"⟩ == some true
  permitsAdmin userdata := this.isPermitted fuel userdata ⟨"bffh.users.admin"⟩ == some true
  permitsManage userdata := this.isPermitted fuel userdata ⟨"bffh.users.manage"⟩ == some true

/-- record のうち password のほか。 -/
def User.standing (user : User) : String × List String × Finmap (fun _ : String => String) :=
  (user.id, user.userdata.roles, user.userdata.kv)

/-- 二つの database の record は、password のほかは同じである。 -/
def Users.Alike (users users' : Users) : Prop :=
  ∀ uid, (users'.getUser uid).map User.standing = (users.getUser uid).map User.standing

/-- 他人の record を変える権限を持つ。 -/
def Privileged (rules : ObjectRules) (users : Users) (caller : String) : Prop :=
  permits rules.permitsAdmin (users.getUser caller) = true ∨
    permits rules.permitsManage (users.getUser caller) = true

variable {x : Codec} {toml : Toml} {this : Roles} {fuel : Nat} {users₀ users users' : Users}

/-! ## role だけで決まるもの -/

theorem isPermitted_congr {d d' : UserData} (h : d.roles = d'.roles) (perm : Permission) :
    this.isPermitted fuel d perm = this.isPermitted fuel d' perm := by
  unfold Roles.isPermitted
  rw [h]

theorem permits_congr {p : UserData → Bool} (hp : ∀ d d', d.roles = d'.roles → p d = p d')
    {seen seen' : Option User} (h : seen'.map User.standing = seen.map User.standing) :
    permits p seen' = permits p seen := by
  cases seen with
  | none =>
    rw [Option.map_eq_none_iff.mp h]
  | some user =>
    obtain ⟨user', rfl, hstanding⟩ := Option.map_eq_some_iff.mp h
    exact hp _ _ (congrArg (fun s => s.2.1) hstanding)

theorem permitsAdmin_congr (h : users₀.Alike users) (caller : String) :
    permits (this.objectRules fuel).permitsAdmin (users.getUser caller) =
      permits (this.objectRules fuel).permitsAdmin (users₀.getUser caller) :=
  permits_congr (fun d d' hroles => by simp only [Roles.objectRules, isPermitted_congr hroles])
    (h caller)

theorem permitsManage_congr (h : users₀.Alike users) (caller : String) :
    permits (this.objectRules fuel).permitsManage (users.getUser caller) =
      permits (this.objectRules fuel).permitsManage (users₀.getUser caller) :=
  permits_congr (fun d d' hroles => by simp only [Roles.objectRules, isPermitted_congr hroles])
    (h caller)

theorem privileged_congr (h : users₀.Alike users) (caller : String) :
    Privileged (this.objectRules fuel) users caller ↔
      Privileged (this.objectRules fuel) users₀ caller := by
  unfold Privileged
  rw [permitsAdmin_congr h, permitsManage_congr h]

/-- id の揃った database と同じなら、id は揃っている。 -/
theorem Users.Alike.filed (h : users₀.Alike users) (hall : users₀.All Filed) :
    users.All Filed := by
  intro uid user hget
  have hmap := h uid
  rw [hget] at hmap
  obtain ⟨user₀, hget₀, hstanding⟩ := Option.map_eq_some_iff.mp hmap.symm
  obtain ⟨hne, hid⟩ := hall uid user₀ hget₀
  exact ⟨hne, (congrArg Prod.fst hstanding).symm.trans hid⟩

/-! ## 一歩 -/

/-- 渡されても、他人の record を変えられない capability である。 -/
def Cap.Safe (rules : ObjectRules) (users : Users) : Cap → Prop
  | .systemManage caller | .admin caller _ => Privileged rules users caller
  | _ => True

theorem safe_of_entitled {cap : Cap} (h : users₀.Alike users)
    (hcap : cap.Entitled (this.objectRules fuel) users) :
    cap.Safe (this.objectRules fuel) users₀ := by
  cases cap with
  | systemManage caller => exact (privileged_congr h caller).mp (Or.inr hcap)
  | admin caller uid => exact (privileged_congr h caller).mp (Or.inl hcap)
  | _ => trivial

theorem safe_of_decided {rules : ObjectRules} {t : Task} {cap : Cap} (h : t.Decided cap) :
    cap.Safe rules users₀ := by
  cases h <;> trivial

/-- 自分の password を変える呼び出しで、書く record は password のほかは初めと同じである。 -/
structure Pending.Confined (users : Users) (t : Pending) : Prop where
  own : ∃ uid oldPw newPw salt, t.call = .managePwd uid oldPw newPw salt
  put : ∀ seen user, t.progress = .put seen user →
    some user.standing = (users.getUser t.call.target).map User.standing

/-- 自分の password を変える呼び出しは、password のほかを変えない。 -/
theorem turn_confined {t t' : Pending}
    (h : Turn x toml (this.objectRules fuel).toRules users t users' t')
    (ht : t.Confined users₀) (hlike : users₀.Alike users) :
    users₀.Alike users' ∧ t'.Confined users₀ := by
  obtain ⟨⟨uid, oldPw, newPw, salt, hcall⟩, hput⟩ := ht
  cases h with
  | settle hr he => exact ⟨hlike, ⟨uid, oldPw, newPw, salt, hcall⟩, fun _ _ heq => nomatch heq⟩
  | prepare hr he =>
    cases hcall
    refine ⟨hlike, ⟨uid, oldPw, newPw, salt, rfl⟩, fun seen user heq => ?_⟩
    cases heq
    obtain ⟨found, hfound, _, rfl⟩ := checkPassword_of_put he
    rw [← hlike]
    exact (congrArg (Option.map User.standing) hfound).symm
  | refused hrefused =>
    exact ⟨hlike, ⟨uid, oldPw, newPw, salt, hcall⟩, fun _ _ heq => nomatch heq⟩
  | wrote hadd hwrote =>
    refine ⟨fun uid' => ?_, ⟨uid, oldPw, newPw, salt, hcall⟩, fun _ _ heq => nomatch heq⟩
    rw [Users.getUser_putUser hwrote]
    split
    · next heq =>
      rw [heq]
      exact hput _ _ rfl
    · exact hlike uid'
  | _ => cases hcall

/-- 書く呼び出しは、どれも自分の password を変えるだけである。 -/
def Task.Confined (users : Users) (t : Task) : Prop := ∀ u, t.pending = some u → u.Confined users

/-- 始まった呼び出しが書くものは、まだ何も無い。 -/
theorem confined_begin {rules : ObjectRules} {call : ObjectCall}
    (hown : ∀ caller inner, call = .edit caller inner →
      ∃ uid oldPw newPw salt, inner = .managePwd uid oldPw newPw salt) :
    (call.begin rules).Confined users₀ := by
  intro u hu
  obtain ⟨caller, heq⟩ := pending_eq_some hu
  have hcall : call = .edit caller u.call := by
    have := congrArg Task.call heq
    cases call <;> exact this
  refine ⟨hown caller u.call hcall, fun seen user hput => ?_⟩
  rw [hput] at heq
  exact absurd heq.symm begin_ne_put

/-- 手続きの一歩。 -/
theorem next_confined {desk desk' : Desk} {t t' : Task} {order : List String}
    (h : t.next x toml (this.objectRules fuel) desk order = some (desk', t'))
    (hlike : users₀.Alike desk.users)
    (hheld : ∀ cap ∈ desk.held, cap.Safe (this.objectRules fuel) users₀)
    (ht : t.Confined users₀) :
    users₀.Alike desk'.users ∧ (∀ cap ∈ desk'.held, cap.Safe (this.objectRules fuel) users₀) ∧
      t'.Confined users₀ := by
  have hcaps : ∀ cap ∈ desk'.held, cap.Safe (this.objectRules fuel) users₀ := by
    intro cap hcap
    rcases (next_vested _ h).1 hcap with hcap | hd | hent
    · exact hheld cap hcap
    · exact safe_of_decided hd
    · exact safe_of_entitled hlike hent
  rcases next_projects h with ⟨husers, hpending⟩ | ⟨u, u', _, hu, hu', hnext⟩
  · refine ⟨husers ▸ hlike, hcaps, fun u hu => ?_⟩
    rw [hpending] at hu
    exact ht u hu
  · obtain ⟨hlike', hconfined⟩ := turn_confined (next_turn hnext) (ht u hu) hlike
    refine ⟨hlike', hcaps, fun u'' hu'' => ?_⟩
    rw [hu', Option.some.injEq] at hu''
    rw [← hu'']
    exact hconfined

/-- 呼び出しを始めるとき。権限の要る capability は、権限のない user の手には無い。 -/
theorem spawn_confined {rules : ObjectRules} {desk desk' : Desk} {call : ObjectCall}
    {ts : List Task} (h : desk.spawn rules call = some (desk', ts))
    (hcall : ∀ caller inner, call = .edit caller inner → ¬ Privileged rules users₀ caller)
    (hheld : ∀ cap ∈ desk.held, cap.Safe rules users₀) : ∀ t ∈ ts, t.Confined users₀ := by
  intro t ht
  rcases spawn_cases h with ⟨_, _, _, _, _, rfl⟩ | ⟨cap, hneeds, hmem, _, rfl⟩
  · cases ht
  · rw [List.mem_singleton.mp ht]
    refine confined_begin fun caller inner heq => ?_
    subst heq
    rcases needs_cases hneeds with ⟨uid, oldPw, newPw, salt, rfl, _⟩ | rfl | rfl
    · exact ⟨uid, oldPw, newPw, salt, rfl⟩
    · exact absurd (hheld _ hmem) (hcall caller inner rfl)
    · exact absurd (hheld _ hmem) (hcall caller inner rfl)

/-! ## 実行 -/

/--
**権限のない user だけが書くなら、どの割り込みの実行でも、record の password のほかは変わらない。**

role の表がどのようであっても、`bffh.users.admin` も `bffh.users.manage` も初めに認められていない
user の呼び出しは、何人で何度呼んでも、user を増やしも減らしもせず、誰の role も card も変えず、
誰の権限も増やさない。権限のある user が session を開き、record を読むのはかまわない。
-/
theorem unprivileged_confined (x : Codec) (toml : Toml) (this : Roles) (fuel : Nat) (users : Users)
    (hall : users.All Filed) (ms : List (Move ObjectCall (List String))) (c : Config Desk Task)
    (hrun : (objectApi x toml (this.objectRules fuel)).run (deskOf users) ms = some c)
    (hms : ∀ caller call, .spawn (.edit caller call) ∈ ms →
      ¬ Privileged (this.objectRules fuel) users caller) :
    (∀ uid, (c.shared.users.getUser uid).map User.standing =
      (users.getUser uid).map User.standing) ∧
    ∀ caller, Privileged (this.objectRules fuel) c.shared.users caller ↔
      Privileged (this.objectRules fuel) users caller := by
  have hok : (objectApi x toml (this.objectRules fuel)).Obeys (fun _ m => ∀ caller call,
      m = .spawn (.edit caller call) → ¬ Privileged (this.objectRules fuel) users caller)
      (deskOf users) ms := by
    refine obeys_of_forall (fun m hm _ caller call heq => ?_) _
    rw [heq] at hm
    exact hms caller call hm
  have hinv := run_invariant_of_obeys
    (motive := fun desk l => (users.Alike desk.users ∧
      ∀ cap ∈ desk.held, cap.Safe (this.objectRules fuel) users) ∧ ∀ t ∈ l, t.Confined users)
    ?_ ?_ ?_ hrun hok ⟨⟨fun _ => rfl, by simp⟩, by simp⟩
  · exact ⟨hinv.1.1, privileged_congr hinv.1.1⟩
  · intro desk l l' hperm h
    exact ⟨h.1, fun t ht => h.2 t (hperm.mem_iff.mpr ht)⟩
  · rintro desk l call desk' ts hspawn hcall ⟨⟨hlike, hheld⟩, hl⟩
    have hts := spawn_confined hspawn (fun caller inner heq => hcall caller inner (by rw [heq])) hheld
    refine ⟨?_, fun t ht => (List.mem_append.mp ht).elim (hts t) (hl t)⟩
    rcases spawn_cases hspawn with ⟨uid, user, _, hu, rfl, _⟩ | ⟨_, _, _, rfl, _⟩
    · refine ⟨hlike, fun cap hcap => ?_⟩
      rcases List.mem_append.mp hcap with hcap | hcap
      · have hself : desk.users.getUser user.id = some user := by
          rw [(hlike.filed hall uid user hu).2, hu]
        exact safe_of_entitled hlike (sessionCaps_entitled hself cap hcap)
      · exact hheld cap hcap
    · exact ⟨hlike, hheld⟩
  · rintro d n t order desk' t' rest _ _ hnext _ ⟨⟨hlike, hheld⟩, hl⟩
    obtain ⟨hlike', hheld', ht'⟩ := next_confined hnext hlike hheld (hl t (List.mem_cons_self ..))
    refine ⟨⟨hlike', hheld'⟩, fun u hu => ?_⟩
    rcases List.mem_cons.mp hu with rfl | hu
    · exact ht'
    · exact hl u (List.mem_cons_of_mem t hu)

/-- どの password も通す crate。 -/
def trustingCodec : Codec := { idleCodec with verifyEncoded := fun _ _ => some true }

/-- `admin` という role だけがある。 -/
def adminRole : Roles := ⟨Finmap.singleton "admin" ⟨[], [.base ⟨"bffh.users.admin"⟩]⟩⟩

/-- `bob` だけがいて、role は無い。 -/
def onlyBob : Users := ⟨Finmap.singleton "bob" ⟨"bob", ⟨[], some "$argon2", ∅⟩⟩⟩

/-- `bob` が自分の object を得て、password を変える。 -/
def changePwd : List (Move ObjectCall (List String)) :=
  [.spawn (.openSession "bob"), .spawn (.getUserSelf "bob"), .exec 0 [], .exec 0 [], .exec 0 [],
    .spawn (.edit "bob" (.managePwd "bob" "old" "new" ByteArray.empty)), .exec 1 [], .exec 1 []]

theorem unprivileged_confined_changePwd :
    ∃ c, (objectApi trustingCodec aliceToml (adminRole.objectRules 2)).run (deskOf onlyBob)
        changePwd = some c ∧ c.shared.users ≠ onlyBob ∧
      (∀ uid, (c.shared.users.getUser uid).map User.standing =
        (onlyBob.getUser uid).map User.standing) ∧
      ∀ caller, Privileged (adminRole.objectRules 2) c.shared.users caller ↔
        Privileged (adminRole.objectRules 2) onlyBob caller := by
  have h : ((objectApi trustingCodec aliceToml (adminRole.objectRules 2)).run (deskOf onlyBob)
      changePwd).map (fun c => decide (c.shared.users ≠ onlyBob)) = some true := by decide
  obtain ⟨c, hrun, hne⟩ := Option.map_eq_some_iff.mp h
  refine ⟨c, hrun, of_decide_eq_true hne, unprivileged_confined _ _ _ _ onlyBob
    (filed_singleton ⟨by decide, rfl⟩) _ c hrun fun caller call hmem hpriv => ?_⟩
  have hcaller : caller = "bob" := by
    simp only [changePwd, List.mem_cons, reduceCtorEq, Move.spawn.injEq, ObjectCall.edit.injEq,
      false_or, List.not_mem_nil, or_false] at hmem
    exact hmem.1
  subst hcaller
  exact absurd hpriv (by unfold Privileged; decide)

end FabAccess
