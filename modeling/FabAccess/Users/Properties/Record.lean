import FabAccess.Users.Api

/-!
# record の不変条件

* `run_records` — 書く record が満たす性質は、どの割り込みの実行でも database の全体が満たす
* `user_records` — record は自分の `id` の下にあり、password は平文では残らない。
  role の重複と、card の token と key の片割れは、呼び出しからは生じない
-/

namespace FabAccess

open FabAccess.Infra FabAccess.Infra.System

variable {x : Codec} {toml : Toml} {rules : Rules}

/-! ## 性質の持ち運び -/

/-- どの record も `P` を満たす。 -/
def Users.All (P : String → User → Prop) (users : Users) : Prop :=
  ∀ uid user, users.getUser uid = some user → P uid user

section Records

variable {P : String → User → Prop}

theorem Users.all_empty : (⟨∅⟩ : Users).All P := by
  intro uid user h
  simp [Users.getUser] at h

theorem Users.All.put {users users' : Users} {uid : String} {user : User} (h : users.All P)
    (hp : validKey uid = true → P uid user) (hput : users.putUser uid user = some users') :
    users'.All P := by
  intro uid' user' hget
  rw [getUser_putUser hput] at hget
  split at hget
  · next heq =>
    cases hget
    rw [heq]
    exact hp (validKey_of_putUser hput)
  · exact h uid' user' hget

theorem Users.All.del {users : Users} (h : users.All P) (uid : String) :
    (users.delUser uid).All P := by
  intro uid' user' hget
  rw [getUser_delUser] at hget
  split at hget
  · cases hget
  · exact h uid' user' hget

variable (x toml P) in
/-- 読み込む file の record が `P` を満たす。 -/
def UserCall.Loads : UserCall → Prop
  | .loadFile file salt => ∀ users, Users.loadFile x toml file salt = some users → users.All P
  | _ => True

variable (x toml P) in
/-- 進行中の呼び出しが、これから書くものについて。 -/
structure Pending.Writes (t : Pending) : Prop where
  loads : t.call.Loads x toml P
  put : ∀ seen user, t.progress = .put seen user → Users.validKey t.call.target = true →
    P t.call.target user

theorem writes_begin {call : UserCall} (h : call.Loads x toml P) :
    (call.begin rules).Writes x toml P := by
  refine ⟨?_, fun seen user hput => ?_⟩
  · cases call <;> exact h
  · cases call with
    | addRole uid rolename | removeRole uid rolename =>
      simp only [UserCall.begin] at hput
      split at hput <;> cases hput
    | addUserFallible caller username password salt =>
      simp only [UserCall.begin] at hput
      split at hput
      · cases hput
      · split at hput <;> cases hput
    | _ => cases hput

/-- 一歩。読んだ record から作った record は、ほかの呼び出しが割り込んでも性質を失わない。 -/
theorem turn_records
    (hedit : ∀ uid seen user, Users.validKey uid = true → Edited x uid seen user →
      (∀ u, seen = some u → P uid u) → P uid user)
    {users users' : Users} {t t' : Pending} (h : Turn x toml rules users t users' t')
    (hall : users.All P) (hw : t.Writes x toml P) : users'.All P ∧ t'.Writes x toml P := by
  cases h with
  | remove who => exact ⟨hall.del who, hw.loads, by simp⟩
  | load hload => exact ⟨hw.loads _ hload, hw.loads, by simp⟩
  | loadFailed hload => exact ⟨hall, hw.loads, by simp⟩
  | settle hr he => exact ⟨hall, hw.loads, by simp⟩
  | prepare hr he =>
    refine ⟨hall, hw.loads, fun seen user hput hkey => ?_⟩
    cases hput
    exact hedit _ _ _ hkey (edit_put he) (fun u hu => hall _ u hu)
  | refused hput => exact ⟨hall, hw.loads, by simp⟩
  | wrote hadd hput => exact ⟨hall.put (hw.put _ _ rfl) hput, hw.loads, by simp⟩
  | added hput => exact ⟨hall.put (hw.put _ _ rfl) hput, hw.loads, by simp⟩
  | fillInfo caller username password salt seen => exact ⟨hall, hw.loads, by simp⟩
  | fillAdmin caller username password salt seen info => exact ⟨hall, hw.loads, by simp⟩

/-- 実行の全体。 -/
theorem run_records
    (hedit : ∀ uid seen user, Users.validKey uid = true → Edited x uid seen user →
      (∀ u, seen = some u → P uid u) → P uid user)
    {users : Users} {ms : List (Move UserCall Unit)} {c : Config Users Pending}
    (hrun : (userApi x toml rules).run ⟨users, []⟩ ms = some c)
    (hloads : ∀ call, .spawn call ∈ ms → call.Loads x toml P) (hall : users.All P) :
    c.shared.All P := by
  have hok : (userApi x toml rules).Obeys (fun _ m => ∀ call, m = .spawn call → call.Loads x toml P)
      ⟨users, []⟩ ms := by
    refine obeys_of_forall (fun m hm _ call heq => ?_) _
    rw [heq] at hm
    exact hloads call hm
  refine (run_invariant_of_obeys (motive := fun users l => users.All P ∧ ∀ t ∈ l, t.Writes x toml P)
    ?_ ?_ ?_ hrun hok ⟨hall, by simp⟩).1
  · intro users l l' hp h
    exact ⟨h.1, fun t ht => h.2 t (hp.mem_iff.mpr ht)⟩
  · intro users l call users' ts hs hcall h
    cases hs
    refine ⟨h.1, fun t ht => ?_⟩
    rcases List.mem_append.mp ht with ht | ht
    · rw [List.mem_singleton.mp ht]
      exact writes_begin (hcall call rfl)
    · exact h.2 t ht
  · intro c n t k users' t' rest _ _ hn _ h
    obtain ⟨hall', ht'⟩ := turn_records hedit (next_turn hn) h.1 (h.2 t (by simp))
    refine ⟨hall', fun u hu => ?_⟩
    rcases List.mem_cons.mp hu with rfl | hu
    · exact ht'
    · exact h.2 u (List.mem_cons_of_mem _ hu)

end Records

/-! ## `id` と password -/

/-- 自分の `id` の下にあり、password は無いか hash である。 -/
def Recorded (uid : String) (user : User) : Prop :=
  user.id = uid ∧ ∀ pw, user.userdata.passwd = some pw → Users.isHashed pw = true

variable (x) in
/-- argon2 の hash は `$argon2` で始まる。 -/
def Codec.Argon2 : Prop := ∀ pwd salt, Users.isHashed (x.hashEncoded pwd salt) = true

theorem recorded_edited (hx : x.Argon2) {uid : String} {seen : Option User} {user : User}
    (h : Edited x uid seen user) (hseen : ∀ u, seen = some u → Recorded uid u) :
    Recorded uid user := by
  cases h with
  | setPw user pw salt =>
    refine ⟨(hseen user rfl).1, fun pw' hpw => ?_⟩
    cases hpw
    exact hx _ _
  | pushRole user _ => exact hseen user rfl
  | retainRoles user rolename => exact hseen user rfl
  | insertCard user token cardKey => exact hseen user rfl
  | removeCard user => exact hseen user rfl
  | same => exact hseen user rfl
  | new password salt =>
    refine ⟨rfl, fun pw' hpw => ?_⟩
    cases hpw
    exact hx _ _

theorem getUser_loadFile {file : ByteArray} {salt : String → ByteArray} {users : Users}
    (h : Users.loadFile x toml file salt = some users) {uid : String} {user : User}
    (hget : users.getUser uid = some user) :
    ∃ document table userdata, toml.fromSlice file = some document ∧
      document.lookup uid = some table ∧ UserData.deserialize table = some userdata ∧
      Users.validKey uid = true ∧ user = Users.entry x salt uid userdata := by
  simp only [Users.loadFile, Option.bind_eq_bind, Option.bind_eq_some_iff] at h
  obtain ⟨document, hdoc, h⟩ := h
  split at h
  · cases h
    simp only [Users.getUser, lookup_filterMapValues, Option.bind_eq_some_iff] at hget
    obtain ⟨table, htable, hget⟩ := hget
    split at hget
    · next hkey =>
      obtain ⟨userdata, hud, rfl⟩ := Option.map_eq_some_iff.mp hget
      exact ⟨document, table, userdata, hdoc, htable, hud, hkey, rfl⟩
    · cases hget
  · cases h

theorem recorded_load (hx : x.Argon2) (call : UserCall) : call.Loads x toml Recorded := by
  cases call with
  | loadFile file salt =>
    intro users hload uid user hget
    obtain ⟨_, _, userdata, _, _, _, _, rfl⟩ := getUser_loadFile hload hget
    refine ⟨rfl, fun pw hpw => ?_⟩
    obtain ⟨plain, _, rfl⟩ := Option.map_eq_some_iff.mp hpw
    unfold Users.hashPlain
    split
    · next hstart => exact hstart
    · exact hx _ _
  | _ => trivial

/-! ## role と card -/

/-- role に重複が無く、card の token と key は揃っている。 -/
def Tidy (_ : String) (user : User) : Prop :=
  user.userdata.roles.Nodup ∧ ("cardtoken" ∈ user.userdata.kv ↔ "cardkey" ∈ user.userdata.kv)

theorem tidy_edited {uid : String} {seen : Option User} {user : User} (h : Edited x uid seen user)
    (hseen : ∀ u, seen = some u → Tidy uid u) : Tidy uid user := by
  cases h with
  | setPw user pw salt => exact hseen user rfl
  | pushRole user hno =>
    obtain ⟨hroles, hcard⟩ := hseen user rfl
    refine ⟨?_, hcard⟩
    show (user.userdata.roles ++ [_]).Nodup
    rw [List.nodup_append]
    refine ⟨hroles, by simp, fun a ha b hb => ?_⟩
    rw [List.mem_singleton.mp hb]
    exact fun heq => hno (heq ▸ ha)
  | retainRoles user rolename =>
    obtain ⟨hroles, hcard⟩ := hseen user rfl
    exact ⟨hroles.filter _, hcard⟩
  | insertCard user token cardKey =>
    obtain ⟨hroles, _⟩ := hseen user rfl
    refine ⟨hroles, ?_⟩
    simp [User.insertCard]
  | removeCard user =>
    obtain ⟨hroles, _⟩ := hseen user rfl
    refine ⟨hroles, ?_⟩
    simp [User.removeCard]
  | same => exact hseen user rfl
  | new password salt => exact ⟨List.nodup_nil, by simp [User.newWithPlainPw, Finmap.notMem_empty]⟩

/--
`load_file` と user の API のどの割り込みの実行でも、空の database から始めれば、どの record も
自分の `id` の下にあり、password は無いか hash である。
role に重複が無く card の token と key が揃っている database から、そのような file だけを読み込むなら、
どの時点でもどの record もそうである。
-/
theorem user_records (x : Codec) (toml : Toml) (rules : Rules) (hx : x.Argon2)
    (ms : List (Move UserCall Unit)) :
    (∀ c, (userApi x toml rules).run ⟨⟨∅⟩, []⟩ ms = some c → ∀ uid user,
      c.shared.getUser uid = some user → user.id = uid ∧
        ∀ pw, user.userdata.passwd = some pw → Users.isHashed pw = true) ∧
    (∀ users c, users.All Tidy → (∀ call, .spawn call ∈ ms → call.Loads x toml Tidy) →
      (userApi x toml rules).run ⟨users, []⟩ ms = some c → ∀ uid user,
      c.shared.getUser uid = some user → user.userdata.roles.Nodup ∧
        ("cardtoken" ∈ user.userdata.kv ↔ "cardkey" ∈ user.userdata.kv)) := by
  constructor
  · intro c hrun
    exact run_records (fun uid seen user _ => recorded_edited hx) hrun
      (fun call _ => recorded_load hx call) Users.all_empty
  · intro users c hall hloads hrun
    exact run_records (fun uid seen user _ => tidy_edited) hrun hloads hall

/-- hash も hex も使わない実行のための crate。 -/
def idleCodec : Codec where
  hashEncoded := fun _ _ => "$argon2i$v=19$m=4096,t=3,p=1$"
  verifyEncoded := fun _ _ => some false
  hexEncode := fun _ => ""
  hexDecode := fun _ => none

theorem idleCodec_argon2 : idleCodec.Argon2 := by
  intro _ _
  show Users.isHashed "$argon2i$v=19$m=4096,t=3,p=1$" = true
  decide

def aliceText : ByteArray := "[alice]\nroles = [\"maker\"]\n".toUTF8

/-- 一つの file だけを知る TOML。 -/
def aliceToml : Toml where
  fromSlice := fun file =>
    if file == aliceText then
      some (Finmap.singleton "alice" (Finmap.singleton "roles" (.strings ["maker"])))
    else none
  toVec := fun _ => aliceText

/-- `laser` という role だけがある。 -/
def laserRules : Rules := ⟨(· == "laser"), fun _ => false, fun _ => false⟩

/-- file を読み込み、alice に role を加える。 -/
def loadThenAddRole : List (Move UserCall Unit) :=
  [.spawn (.loadFile aliceText (fun _ => ByteArray.empty)), .exec 0 (),
    .spawn (.addRole "alice" "laser"), .exec 1 (), .exec 1 ()]

theorem user_records_loadThenAddRole :
    ∃ c user, (userApi idleCodec aliceToml laserRules).run ⟨⟨∅⟩, []⟩ loadThenAddRole = some c ∧
      c.shared.getUser "alice" = some user ∧ user.userdata.roles = ["maker", "laser"] ∧
      user.id = "alice" := by
  have h : ((userApi idleCodec aliceToml laserRules).run ⟨⟨∅⟩, []⟩ loadThenAddRole).map
      (fun c => (c.shared.getUser "alice").map (·.userdata.roles)) =
      some (some ["maker", "laser"]) := by decide
  obtain ⟨c, hrun, hc⟩ := Option.map_eq_some_iff.mp h
  obtain ⟨user, hget, hroles⟩ := Option.map_eq_some_iff.mp hc
  have hall := (user_records idleCodec aliceToml laserRules idleCodec_argon2 loadThenAddRole).1 c hrun
  exact ⟨c, user, hrun, hget, hroles, (hall "alice" user hget).1⟩

end FabAccess
