import Mathlib

/-!
# user database

`bffhd/users/mod.rs` と `bffhd/users/db.rs` の埋め込み。
LMDB の表は文字列から record への有限写像で、一つの transaction は不可分である。
LMDB は空の key と長すぎる key への書き込みを拒む。

hash と hex の crate は `Codec` として受け取る。
-/

namespace FabAccess

/-- argon2 と hex。`salt` は乱数である。 -/
structure Codec where
  /-- `argon2::hash_encoded` -/
  hashEncoded : (pwd salt : ByteArray) → String
  /-- `argon2::verify_encoded` -/
  verifyEncoded : (encoded : String) → (pwd : ByteArray) → Option Bool
  /-- `hex::encode` -/
  hexEncode : ByteArray → String
  /-- `hex::decode` -/
  hexDecode : String → Option ByteArray

/-- user への参照（`UserRef`）。比較は `id` の文字列で行う。 -/
structure UserRef where
  id : String
  deriving DecidableEq, Repr

/-- 判断の材料になる user の情報（`UserData`）。 -/
structure UserData where
  roles : List String
  passwd : Option String
  kv : Finmap (fun _ : String => String)
  deriving DecidableEq

/-- 保存される record（`db::User`）。 -/
structure User where
  id : String
  userdata : UserData
  deriving DecidableEq

namespace User

variable (x : Codec)

/-- `User::check_password`。`none` は保存された hash が読めないことを表す。 -/
def checkPassword (user : User) (pwd : ByteArray) : Option Bool :=
  match user.userdata.passwd with
  | some encoded => x.verifyEncoded encoded pwd
  | none => some false

/-- `User::new_with_plain_pw`。 -/
def newWithPlainPw (username password : String) (salt : ByteArray) : User where
  id := username
  userdata := { roles := [], passwd := some (x.hashEncoded password.toUTF8 salt), kv := ∅ }

/-- `User::set_pw`。 -/
def setPw (user : User) (password : String) (salt : ByteArray) : User :=
  { user with userdata :=
    { user.userdata with passwd := some (x.hashEncoded password.toUTF8 salt) } }

end User

/-- `UserDB` の中身。 -/
structure Users where
  userdb : Finmap (fun _ : String => User)
  deriving DecidableEq

namespace Users

/-- LMDB が受け取る key。 -/
def validKey (uid : String) : Bool := 0 < uid.utf8ByteSize && uid.utf8ByteSize ≤ 511

/-- `Users::get_user`。 -/
def getUser (users : Users) (uid : String) : Option User := users.userdb.lookup uid

/-- `Users::put_user`。 -/
def putUser (users : Users) (uid : String) (user : User) : Option Users :=
  if validKey uid then some ⟨users.userdb.insert uid user⟩ else none

/-- `Users::del_user`。無い key を消そうとすると誤りになるが、database は変わらない。 -/
def delUser (users : Users) (uid : String) : Users := ⟨users.userdb.erase uid⟩

variable {users users' : Users} {uid uid' : String} {user : User}

theorem validKey_of_putUser (h : users.putUser uid user = some users') : validKey uid = true := by
  unfold putUser at h
  split at h
  · next hkey => exact hkey
  · cases h

theorem getUser_putUser (h : users.putUser uid user = some users') (uid' : String) :
    users'.getUser uid' = if uid' = uid then some user else users.getUser uid' := by
  unfold putUser at h
  split at h
  · cases h
    by_cases heq : uid' = uid
    · rw [if_pos heq, heq]
      exact Finmap.lookup_insert _
    · rw [if_neg heq]
      exact Finmap.lookup_insert_of_ne _ heq
  · cases h

theorem getUser_delUser (uid' : String) :
    (users.delUser uid).getUser uid' = if uid' = uid then none else users.getUser uid' := by
  by_cases heq : uid' = uid
  · rw [if_pos heq, heq]
    exact Finmap.lookup_erase _ _
  · rw [if_neg heq]
    exact Finmap.lookup_erase_ne heq

theorem ext_getUser (h : ∀ uid, users.getUser uid = users'.getUser uid) : users = users' := by
  obtain ⟨db⟩ := users
  obtain ⟨db'⟩ := users'
  exact congrArg Users.mk (Finmap.ext_lookup h)

/-- どの record も、自分の `id` と同じ key の下に保存されている。 -/
def Keyed (users : Users) : Prop := ∀ uid user, users.getUser uid = some user → user.id = uid

end Users

/-- どの record も自分の `id` の下にある database。 -/
abbrev KeyedUsers := { users : Users // users.Keyed }

end FabAccess
