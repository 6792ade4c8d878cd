import FabAccess.Users

/-!
# SASL の callback

`bffhd/authentication/mod.rs` の `Callback` と、それが使う `User::check_password` の埋め込み。

外の crate（rsasl、desfire、serde_json、hex、argon2）の関数は `Crates` として受け取る。
失敗の中身は log にしか使われないので、成否だけを `Option` で持つ。
-/

namespace FabAccess.Authentication

/-- mechanism が callback に見せる property。 -/
structure Context where
  authId : Option String
  authzId : Option String
  password : Option ByteArray
  deriving DecidableEq

/-- reader が知らせる card（`CardInfo`）。 -/
structure CardInfo where
  uid : ByteArray
  keyOld : Option ByteArray
  keyNew : Option ByteArray
  deriving DecidableEq

/-- reader と JSON でやりとりする命令（`CardCommand`）。 -/
inductive CardCommand where
  | message (msgId : Option UInt32) (clrTxt addnTxt : Option String)
  | sendPICC (data : ByteArray)
  | readPICC (data : ByteArray)
  | haltPICC
  | key (data : String)
  | confirmUser
  deriving DecidableEq

/-- card の返事（`APDUResponse`）。`check` は status word が成功を表すか。 -/
structure APDUResponse where
  check : Bool
  body : Option ByteArray
  deriving DecidableEq

/-- `src` の外にある関数。 -/
structure Crates extends Codec where
  /-- rsasl の PLAIN が入力から取り出す property -/
  plain : ByteArray → Option Context
  /-- APDU を組み立てて byte 列にする。組み立てと変換のどちらの失敗も `none` -/
  selectApplicationCmd : (aid : UInt32) → Option ByteArray
  readDataChunkCmd : (fileId : UInt8) → (offset length : Nat) → Option ByteArray
  authenticateIsoAesChallengeCmd : (keyId : UInt8) → Option ByteArray
  /-- 命令（byte 列にできなければ `none`）、`rnd_b`、`iv` -/
  authenticateIsoAesResponseCmd :
    (rndBEnc key rndA : ByteArray) → Option (Option ByteArray × ByteArray × ByteArray)
  authenticateIsoAesVerify : (data rndA rndB key iv : ByteArray) → Bool
  maxBytesPerTransaction : Nat
  /-- `APDUResponse::new` -/
  apduResponse : ByteArray → APDUResponse
  /-- `serde_json::from_slice` と `serde_json::to_vec` -/
  cardInfo : ByteArray → Option CardInfo
  cardCommand : ByteArray → Option CardCommand
  toVec : CardCommand → Option ByteArray

/-- 使える mechanism。 -/
inductive Mechname where
  | plain
  | fabFire
  | fabFireBin
  deriving DecidableEq, Repr

/-- `FabFireError`。このほかの variant は作られない。 -/
inductive FabFireError where
  | parseError
  | serializationError
  | deserializationError
  | cardError
  | invalidCredentials (response : APDUResponse)
  deriving DecidableEq

/-- callback が返す失敗。 -/
inductive CallbackError where
  | noValue
  | missingRequiredProperty
  deriving DecidableEq, Repr

/-- 認証の一歩が値を返さない理由。 -/
inductive Failure where
  | inputDataRequired
  | mechanism (e : FabFireError)
  | callback (e : CallbackError)
  /-- rsasl の PLAIN が入力を読めなかった -/
  | plainParse
  | panic
  deriving DecidableEq

/-- `Users::get_user`。空の key は LMDB が拒み、その `unwrap` が panic する。 -/
def lookupUser (users : Users) (uid : String) : Except Failure (Option User) :=
  if uid.isEmpty then .error .panic else .ok (users.getUser uid)

variable (x : Crates)

/-- `Callback::callback` が `FabFireCardKey` として返すもの。 -/
def callback (users : Users) (context : Context) : Except Failure ByteArray := do
  let some authid := context.authId | throw (.callback .noValue)
  let some user ← lookupUser users authid | throw (.callback .noValue)
  let some kv := user.userdata.kv.lookup "cardkey" | throw (.callback .noValue)
  let some cardKey := x.hexDecode kv | throw (.callback .noValue)
  if cardKey.size = 16 then return cardKey else throw (.callback .noValue)

/-- `Callback::validate`。返り値は `finalize` に渡した user である。 -/
def validate (users : Users) (mech : Mechname) (context : Context) :
    Except Failure (Option User) :=
  match mech with
  | .plain =>
    match context.authId, context.authzId, context.password with
    | some authcid, some authzid, some password =>
      if !authzid.isEmpty then .ok none
      else do
        match ← lookupUser users authcid with
        | some user =>
          return if user.checkPassword x.toCodec password = some true then some user else none
        | none => return none
    | _, _, _ => throw (.callback .missingRequiredProperty)
  | .fabFire | .fabFireBin =>
    match context.authId with
    | some authcid => lookupUser users authcid
    | none => throw (.callback .missingRequiredProperty)

/-! ## `finalize` された user -/

variable {x} {users : Users} {mech : Mechname} {context : Context} {user : User}

theorem lookupUser_eq {uid : String} {found : Option User} (h : lookupUser users uid = .ok found) :
    users.getUser uid = found := by
  unfold lookupUser at h
  split at h
  · cases h
  · cases h
    rfl

/-- PLAIN で認める user には、空の `AuthzId` と正しい password が示されている。 -/
theorem validate_plain (h : validate x users .plain context = .ok (some user)) :
    ∃ authcid password, context = ⟨some authcid, some "", some password⟩ ∧
      users.getUser authcid = some user ∧
      user.checkPassword x.toCodec password = some true := by
  obtain ⟨authId, authzId, password⟩ := context
  cases authId with
  | none => cases h
  | some authcid =>
  cases authzId with
  | none => cases h
  | some authzid =>
  cases password with
  | none => cases h
  | some password =>
  simp only [validate] at h
  split at h
  · cases h
  · next hempty =>
    have hz : authzid = "" := by simpa using hempty
    cases hl : lookupUser users authcid with
    | error e =>
      rw [hl] at h
      cases h
    | ok found =>
      rw [hl] at h
      cases found with
      | none => cases h
      | some found =>
        by_cases hpw : found.checkPassword x.toCodec password = some true
        · simp only [bind, Except.bind, pure, Except.pure, if_pos hpw] at h
          cases h
          exact ⟨authcid, password, by rw [hz], lookupUser_eq hl, hpw⟩
        · simp only [bind, Except.bind, pure, Except.pure, if_neg hpw] at h
          cases h

/-- card の mechanism で認める user は、示された `AuthId` の record である。 -/
theorem validate_card {authcid : String} (hmech : mech ≠ .plain)
    (h : validate x users mech ⟨some authcid, none, none⟩ = .ok (some user)) :
    users.getUser authcid = some user := by
  cases mech with
  | plain => exact absurd rfl hmech
  | fabFire => exact lookupUser_eq h
  | fabFireBin => exact lookupUser_eq h

end FabAccess.Authentication
