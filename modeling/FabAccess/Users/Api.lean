import FabAccess.Infra.Interleave
import FabAccess.Users.File

/-!
# user の API

`bffhd/capnp/user.rs` の `manage`・`admin`・`card_d_e_s_fire_e_v2` と、
`bffhd/capnp/user_system.rs` の `add_user_fallible`・`remove_user` の埋め込み。
`load_file` も同じ database への操作としてここに置く。

`get_user`・`put_user`・`del_user` はそれぞれ一つの transaction なので、一つの呼び出しはいくつかの
歩に分かれ、その間にほかの呼び出しが割り込む。capability を作る `User::fill` は、権限を調べるために
呼んだ user の record を読む。
-/

namespace FabAccess

open FabAccess.Infra

/-- 起動してから変わらないもの。 -/
structure Rules where
  /-- `Roles::get` が見つけるか -/
  hasRole : String → Bool
  /-- `Roles::is_permitted`。`info` と `admin` は `bffh.users.info` と `bffh.users.admin` -/
  permitsInfo : UserData → Bool
  permitsAdmin : UserData → Bool

/-- client からの呼び出し。`uid` は capability の指す user、`salt` は乱数である。 -/
inductive UserCall where
  | managePwd (uid oldPw newPw : String) (salt : ByteArray)
  | adminPwd (uid newPw : String) (salt : ByteArray)
  | addRole (uid rolename : String)
  | removeRole (uid rolename : String)
  | bind (uid : String) (token authKey : ByteArray)
  | unbind (uid : String) (token : ByteArray)
  /-- `caller` はこの session の user -/
  | addUserFallible (caller username password : String) (salt : ByteArray)
  | removeUser (who : String)
  | loadFile (file : ByteArray) (salt : String → ByteArray)

inductive AddUserError where
  | alreadyExists
  | usernameInvalid
  | passwordInvalid
  deriving DecidableEq, Repr

/-- 呼び出しの返事。 -/
inductive Reply where
  | ok
  /-- `User API object with nonexisting user` -/
  | noSuchUser (uid : String)
  /-- `put_user` や `load_file` の誤り -/
  | dbError
  | panicked
  /-- 加えた user の capability のうち、`info`・`manage`・`admin` があるか -/
  | added (info manage admin : Bool)
  | failed (e : AddUserError)
  deriving DecidableEq, Repr

/-- 読んだ record を見て決めること。 -/
inductive Edit where
  | done (r : Reply)
  | put (user : User)
  deriving DecidableEq

variable (x : Codec) (toml : Toml) (rules : Rules)

/-! ## 一つの呼び出し -/

/-- UTF-8 でない token は hex にする。 -/
def tokenText (token : ByteArray) : String :=
  match String.fromUTF8? token with
  | some url => url
  | none => x.hexEncode token

namespace User

/-- `role` を加えた record。 -/
def pushRole (user : User) (rolename : String) : User :=
  { user with userdata := { user.userdata with roles := user.userdata.roles ++ [rolename] } }

def retainRoles (user : User) (rolename : String) : User :=
  { user with userdata := { user.userdata with roles := user.userdata.roles.filter (· ≠ rolename) } }

def insertCard (user : User) (token cardKey : String) : User :=
  { user with userdata := { user.userdata with
    kv := (user.userdata.kv.insert "cardtoken" token).insert "cardkey" cardKey } }

def removeCard (user : User) : User :=
  { user with userdata := { user.userdata with
    kv := (user.userdata.kv.erase "cardtoken").erase "cardkey" } }

end User

/-- `manage::pwd`。 -/
def managePwd (oldPw newPw : String) (salt : ByteArray) : Option User → Edit
  | some user =>
    if user.checkPassword x oldPw.toUTF8 = some true then .put (user.setPw x newPw salt) else .done .ok
  | none => .done .ok

/-- `admin::pwd`。 -/
def adminPwd (newPw : String) (salt : ByteArray) : Option User → Edit
  | some user => .put (user.setPw x newPw salt)
  | none => .done .ok

/-- `admin::add_role`。user がいなければ `unwrap` が panic する。 -/
def addRole (rolename : String) : Option User → Edit
  | some target =>
    if rolename ∈ target.userdata.roles then .done .ok else .put (target.pushRole rolename)
  | none => .done .panicked

/-- `admin::remove_role`。 -/
def removeRole (rolename : String) : Option User → Edit
  | some target =>
    if rolename ∈ target.userdata.roles then .put (target.retainRoles rolename) else .done .ok
  | none => .done .panicked

/-- `bind`。同じ token が既にあれば、key が同じでも違っても何もしない。 -/
def bindCard (uid : String) (token authKey : ByteArray) : Option User → Edit
  | some user =>
    let token := tokenText x token
    let cardKey := x.hexEncode authKey
    match user.userdata.kv.lookup "cardtoken", user.userdata.kv.lookup "cardkey" with
    | some prevToken, some prevCardk =>
      if prevToken = token ∧ prevCardk = cardKey then .done .ok
      else if prevToken = token then .done .ok
      else .put (user.insertCard token cardKey)
    | _, _ => .put (user.insertCard token cardKey)
  | none => .done (.noSuchUser uid)

/-- `unbind`。token が違っても書き戻す。 -/
def unbindCard (uid : String) (token : ByteArray) : Option User → Edit
  | some user =>
    if user.userdata.kv.lookup "cardtoken" = some (tokenText x token) then .put user.removeCard
    else .put user
  | none => .done (.noSuchUser uid)

/-- `get_token_list`。保存された token を hex として読み、空なら何も返さない。 -/
def getTokenList (uid : String) : Option User → Except Reply (List ByteArray)
  | some user =>
    let tk := ((user.userdata.kv.lookup "cardtoken").bind x.hexDecode).getD ByteArray.empty
    if tk.isEmpty then .ok [] else .ok [tk]
  | none => .error (.noSuchUser uid)

/-- `add_user_fallible` が名前の空きを調べたところ。 -/
def addUser (username password : String) (salt : ByteArray) : Option User → Edit
  | some _ => .done (.failed .alreadyExists)
  | none => .put (User.newWithPlainPw x username password salt)

namespace UserCall

/-- 読んで書く呼び出しの相手。 -/
def target : UserCall → String
  | .managePwd uid _ _ _ | .adminPwd uid _ _ | .addRole uid _ | .removeRole uid _ | .bind uid _ _
  | .unbind uid _ => uid
  | .addUserFallible _ username _ _ => username
  | .removeUser who => who
  | .loadFile _ _ => ""

/-- 読んだ record を見て決めること。`removeUser` と `loadFile` は読まない。 -/
def edit : UserCall → Option User → Edit
  | .managePwd _ oldPw newPw salt => FabAccess.managePwd x oldPw newPw salt
  | .adminPwd _ newPw salt => FabAccess.adminPwd x newPw salt
  | .addRole _ rolename => FabAccess.addRole rolename
  | .removeRole _ rolename => FabAccess.removeRole rolename
  | .bind uid token authKey => bindCard x uid token authKey
  | .unbind uid token => unbindCard x uid token
  | .addUserFallible _ username password salt => addUser x username password salt
  | .removeUser _ | .loadFile _ _ => fun _ => .done .ok

end UserCall

/-- 読んだ record から、書く record への変わり方。 -/
inductive Edited (uid : String) : Option User → User → Prop where
  | setPw (user : User) (pw : String) (salt : ByteArray) :
    Edited uid (some user) (user.setPw x pw salt)
  | pushRole (user : User) {rolename : String} (h : rolename ∉ user.userdata.roles) :
    Edited uid (some user) (user.pushRole rolename)
  | retainRoles (user : User) (rolename : String) :
    Edited uid (some user) (user.retainRoles rolename)
  | insertCard (user : User) (token cardKey : String) :
    Edited uid (some user) (user.insertCard token cardKey)
  | removeCard (user : User) : Edited uid (some user) user.removeCard
  | same (user : User) : Edited uid (some user) user
  | new (password : String) (salt : ByteArray) :
    Edited uid none (User.newWithPlainPw x uid password salt)

variable {x} in
theorem edit_put {call : UserCall} {seen : Option User} {user : User}
    (h : call.edit x seen = .put user) : Edited x call.target seen user := by
  cases call with
  | managePwd uid oldPw newPw salt =>
    cases seen with
    | none => cases h
    | some found =>
      simp only [UserCall.edit, managePwd] at h
      split at h
      · cases h
        exact .setPw found newPw salt
      · cases h
  | adminPwd uid newPw salt =>
    cases seen with
    | none => cases h
    | some found =>
      cases h
      exact .setPw found newPw salt
  | addRole uid rolename =>
    cases seen with
    | none => cases h
    | some found =>
      simp only [UserCall.edit, addRole] at h
      split at h
      · cases h
      · next hno =>
        cases h
        exact .pushRole found hno
  | removeRole uid rolename =>
    cases seen with
    | none => cases h
    | some found =>
      simp only [UserCall.edit, removeRole] at h
      split at h
      · cases h
        exact .retainRoles found rolename
      · cases h
  | bind uid token authKey =>
    cases seen with
    | none => cases h
    | some found =>
      simp only [UserCall.edit, bindCard] at h
      split at h
      · split at h
        · cases h
        · split at h
          · cases h
          · cases h
            exact .insertCard found _ _
      · cases h
        exact .insertCard found _ _
  -- token を持つ card が無くても、`unbind` は record をそのまま書き戻す
  | unbind uid token =>
    cases seen with
    | none => cases h
    | some found =>
      simp only [UserCall.edit, unbindCard] at h
      split at h
      · cases h
        exact .removeCard found
      · cases h
        exact .same _
  | addUserFallible caller username password salt =>
    cases seen with
    | none =>
      cases h
      exact .new password salt
    | some found => cases h
  | removeUser who => cases h
  | loadFile file salt => cases h

/-- 呼び出しの進み。`seen` は、書く前に読んだ record と、書いたときの呼んだ user の record で、
code は持たないが、割り込みの有無を述べるために残す。 -/
inductive Progress where
  | start
  | put (seen : Option User) (user : User)
  | fillInfo (seen : Option User)
  | fillAdmin (seen : Option User) (info : Bool)
  | done (r : Reply)
  deriving DecidableEq

/-- 進行中の呼び出し。 -/
structure Pending where
  call : UserCall
  progress : Progress

/-- database に触れずに終わる呼び出しは、始まったときに終わっている。 -/
def UserCall.begin (call : UserCall) : Pending :=
  match call with
  | .addRole _ rolename | .removeRole _ rolename =>
    ⟨call, if rules.hasRole rolename then .start else .done .ok⟩
  | .addUserFallible _ username password _ =>
    ⟨call, if username.isEmpty then .done (.failed .usernameInvalid)
      else if password.isEmpty then .done (.failed .passwordInvalid) else .start⟩
  | _ => ⟨call, .start⟩

/-- `User::fill` が `info` を調べる権限。自分自身なら調べない。 -/
def fillsInfo (caller username : String) (seen : Option User) : Bool :=
  caller = username || seen.any (fun user => rules.permitsInfo user.userdata)

def fillsAdmin (seen : Option User) : Bool := seen.any (fun user => rules.permitsAdmin user.userdata)

/-- 次の一歩。一歩は高々一つの transaction である。 -/
def Pending.next (users : Users) (t : Pending) : Option (Users × Pending) :=
  match t.progress with
  | .done _ => none
  | .start =>
    match t.call with
    | .removeUser who => some (users.delUser who, ⟨t.call, .done .ok⟩)
    | .loadFile file salt =>
      match Users.loadFile x toml file salt with
      | some users => some (users, ⟨t.call, .done .ok⟩)
      | none => some (users, ⟨t.call, .done .dbError⟩)
    | call =>
      let seen := users.getUser call.target
      match call.edit x seen with
      | .done r => some (users, ⟨call, .done r⟩)
      | .put user => some (users, ⟨call, .put seen user⟩)
  | .put _ user =>
    match users.putUser t.call.target user with
    | none => some (users, ⟨t.call, .done .dbError⟩)
    | some users =>
      match t.call with
      | .addUserFallible caller _ _ _ => some (users, ⟨t.call, .fillInfo (users.getUser caller)⟩)
      | _ => some (users, ⟨t.call, .done .ok⟩)
  | .fillInfo seen =>
    match t.call with
    | .addUserFallible caller username _ _ =>
      some (users, ⟨t.call, .fillAdmin seen (fillsInfo rules caller username (users.getUser caller))⟩)
    | _ => none
  | .fillAdmin _ info =>
    match t.call with
    | .addUserFallible caller username _ _ =>
      some (users, ⟨t.call, .done (.added info (caller = username)
        (fillsAdmin rules (users.getUser caller)))⟩)
    | _ => none

/-- `removeUser` と `loadFile` のほかは、まず相手の record を読む。 -/
def UserCall.reads : UserCall → Bool
  | .removeUser _ | .loadFile _ _ => false
  | _ => true

/-- 一歩でできること。 -/
inductive Turn (users : Users) : Pending → Users → Pending → Prop where
  | remove (who : String) :
    Turn users ⟨.removeUser who, .start⟩ (users.delUser who) ⟨.removeUser who, .done .ok⟩
  | load {file : ByteArray} {salt : String → ByteArray} {users' : Users}
    (h : Users.loadFile x toml file salt = some users') :
    Turn users ⟨.loadFile file salt, .start⟩ users' ⟨.loadFile file salt, .done .ok⟩
  | loadFailed {file : ByteArray} {salt : String → ByteArray}
    (h : Users.loadFile x toml file salt = none) :
    Turn users ⟨.loadFile file salt, .start⟩ users ⟨.loadFile file salt, .done .dbError⟩
  | settle {call : UserCall} {r : Reply} (hr : call.reads = true)
    (h : call.edit x (users.getUser call.target) = .done r) :
    Turn users ⟨call, .start⟩ users ⟨call, .done r⟩
  | prepare {call : UserCall} {user : User} (hr : call.reads = true)
    (h : call.edit x (users.getUser call.target) = .put user) :
    Turn users ⟨call, .start⟩ users ⟨call, .put (users.getUser call.target) user⟩
  | refused {call : UserCall} {seen : Option User} {user : User}
    (h : users.putUser call.target user = none) :
    Turn users ⟨call, .put seen user⟩ users ⟨call, .done .dbError⟩
  | wrote {call : UserCall} {seen : Option User} {user : User} {users' : Users}
    (hadd : ∀ caller username password salt,
      call ≠ .addUserFallible caller username password salt)
    (h : users.putUser call.target user = some users') :
    Turn users ⟨call, .put seen user⟩ users' ⟨call, .done .ok⟩
  | added {caller username password : String} {salt : ByteArray} {seen : Option User} {user : User}
    {users' : Users} (h : users.putUser username user = some users') :
    Turn users ⟨.addUserFallible caller username password salt, .put seen user⟩ users'
      ⟨.addUserFallible caller username password salt, .fillInfo (users'.getUser caller)⟩
  | fillInfo (caller username password : String) (salt : ByteArray) (seen : Option User) :
    Turn users ⟨.addUserFallible caller username password salt, .fillInfo seen⟩ users
      ⟨.addUserFallible caller username password salt,
        .fillAdmin seen (fillsInfo rules caller username (users.getUser caller))⟩
  | fillAdmin (caller username password : String) (salt : ByteArray) (seen : Option User)
    (info : Bool) :
    Turn users ⟨.addUserFallible caller username password salt, .fillAdmin seen info⟩ users
      ⟨.addUserFallible caller username password salt,
        .done (.added info (caller = username) (fillsAdmin rules (users.getUser caller)))⟩

variable {x toml rules} in
theorem next_turn {users users' : Users} {t t' : Pending}
    (h : t.next x toml rules users = some (users', t')) : Turn x toml rules users t users' t' := by
  obtain ⟨call, progress⟩ := t
  cases progress with
  | done r => cases h
  | start =>
    by_cases hr : call.reads = true
    -- record を読む呼び出しは、どれも読んで決めるところまでが一歩である
    · have hstart : Pending.next x toml rules users ⟨call, .start⟩ =
          match call.edit x (users.getUser call.target) with
          | .done r => some (users, ⟨call, .done r⟩)
          | .put user => some (users, ⟨call, .put (users.getUser call.target) user⟩) := by
        cases call <;> first | rfl | cases hr
      rw [hstart] at h
      split at h
      · next r he =>
        cases h
        exact .settle hr he
      · next user he =>
        cases h
        exact .prepare hr he
    · cases call with
      | removeUser who =>
        cases h
        exact .remove who
      | loadFile file salt =>
        simp only [Pending.next] at h
        split at h
        · next users'' hload =>
          cases h
          exact .load hload
        · next hload =>
          cases h
          exact .loadFailed hload
      | _ => exact absurd rfl hr
  | put seen user =>
    simp only [Pending.next] at h
    split at h
    · next hput =>
      cases h
      exact .refused hput
    · next users'' hput =>
      split at h
      · next caller username password salt =>
        cases h
        exact .added hput
      · next hadd =>
        cases h
        exact .wrote hadd hput
  | fillInfo seen =>
    simp only [Pending.next] at h
    split at h
    · next caller username password salt =>
      cases h
      exact .fillInfo caller username password salt seen
    · cases h
  | fillAdmin seen info =>
    simp only [Pending.next] at h
    split at h
    · next caller username password salt =>
      cases h
      exact .fillAdmin caller username password salt seen info
    · cases h

/-- 呼び出しがいくつも並行して進む系。 -/
def userApi : System Users Pending UserCall Unit where
  spawn users call := some (users, [call.begin rules])
  next users t _ := t.next x toml rules users

end FabAccess
