import FabAccess.Authentication.Card

/-!
# callback を選べる FabFire

`FabFire::step` は key と user を rsasl の session に求める。session は server が登録した callback を
呼ぶので、mechanism から見れば callback は何でもよい。ここでは callback を引数にした `step` を書き、
この server の callback を渡せば元の `step` になることを示す。

* `stepJsonWith_bffh`・`stepBinWith_bffh` — この server の callback での `step`
* `Wire.stepWith_json`・`Wire.stepWith_binary` — 共通の形
-/

namespace FabAccess.Authentication

open FabAccess.Infra

/-- rsasl の session に登録された callback。 -/
structure Callbacks where
  /-- `FabFireCardKey` を求められたときの返事 -/
  cardKey : Context → Except Failure ByteArray
  /-- `validate` を求められたときの返事 -/
  validate : Context → Except Failure (Option User)

variable (x : Crates)

/-- この server の callback。 -/
def Callbacks.bffh (users : Users) (mech : Mechname) : Callbacks where
  cardKey := callback x users
  validate := FabAccess.Authentication.validate x users mech

/-- `MechanismData::validate`。 -/
def sessionValidateWith (cb : Callbacks) (context : Context) : Mech Unit := do
  modify fun s => { s with asked := s.asked ++ [context] }
  match ← attempt (cb.validate context) with
  | some user => modify fun s => { s with validation := some user }
  | none => pure ()

/-! ## X-FABFIRE -/

namespace FabFire

/-- `Step::GetToken`。 -/
def getTokenWith (cb : Callbacks) (input : Option ByteArray) : Mech SaslState := do
  let apduResponse ← readPICC x input
  ensure apduResponse.check (.mechanism .parseError)
  let data ← need apduResponse.body (.mechanism .parseError)
  let token ← need (String.fromUTF8? data) .panic
  let authid := trimNul token
  let key ← attempt (cb.cardKey ⟨some authid, none, none⟩)
  modifySelf fun f => { f with keyInfo := some ⟨authid, 0x01, key⟩ }
  let keyInfo ← need (← get).mech.keyInfo .panic
  sendPICC x (x.authenticateIsoAesChallengeCmd keyInfo.keyId) .authenticate1

/-- `Step::Authenticate2`。 -/
def authenticate2With (cb : Callbacks) (input : Option ByteArray) : Mech SaslState := do
  let apduResponse ← readPICC x input
  ensure apduResponse.check (.mechanism (.invalidCredentials apduResponse))
  let data ← need apduResponse.body (.mechanism .parseError)
  let authInfo ← need (← get).mech.authInfo (.mechanism .parseError)
  let keyInfo ← need (← get).mech.keyInfo .panic
  if x.authenticateIsoAesVerify data authInfo.rndA authInfo.rndB keyInfo.key authInfo.iv then
    let cmd := CardCommand.message (some 4) none (some "")
    let sendBuf ← need (x.toVec cmd) (.mechanism .serializationError)
    modifySelf fun f => { f with step := .authenticate1 }
    writeAll sendBuf
    sessionValidateWith cb ⟨some keyInfo.authid, none, none⟩
    return .finished true
  else
    return .finished false

/-- `fabfire::FabFire::step`。 -/
def stepJsonWith (cb : Callbacks) (rndA : ByteArray) (input : Option ByteArray) :
    Mech SaslState := do
  match (← get).mech.step with
  | .new => new x input
  | .selectApp => selectApp x input
  | .verifyMagic => verifyMagic x input
  | .getURN => getURN x input
  | .getToken => getTokenWith x cb input
  | .authenticate1 => authenticate1 x rndA input
  | .authenticate2 => authenticate2With x cb input

theorem stepJsonWith_bffh (users : Users) :
    stepJsonWith x (.bffh x users .fabFire) = stepJson x users := rfl

end FabFire

/-! ## X-FABFIRE-BIN -/

namespace FabFireBin

/-- `Step::GetToken`。 -/
def getTokenWith (cb : Callbacks) (input : Option ByteArray) : Mech SaslState := do
  let apduResponse ← readData x input
  ensure apduResponse.check (.mechanism .parseError)
  let data ← need apduResponse.body (.mechanism .parseError)
  let token ← need (String.fromUTF8? data) .panic
  let authid := trimNul token
  let key ← attempt (cb.cardKey ⟨some authid, none, none⟩)
  modifySelf fun f => { f with keyInfo := some ⟨authid, 0x01, key⟩ }
  let keyInfo ← need (← get).mech.keyInfo .panic
  sendData (x.authenticateIsoAesChallengeCmd keyInfo.keyId) .authenticate1

/-- `Step::Authenticate2`。 -/
def authenticate2With (cb : Callbacks) (input : Option ByteArray) : Mech SaslState := do
  let apduResponse ← readData x input
  ensure apduResponse.check (.mechanism (.invalidCredentials apduResponse))
  let data ← need apduResponse.body (.mechanism .parseError)
  let authInfo ← need (← get).mech.authInfo (.mechanism .parseError)
  let keyInfo ← need (← get).mech.keyInfo .panic
  if x.authenticateIsoAesVerify data authInfo.rndA authInfo.rndB keyInfo.key authInfo.iv then
    sessionValidateWith cb ⟨some keyInfo.authid, none, none⟩
    return .finished true
  else
    return .finished false

/-- `fabfire_bin::FabFire::step`。 -/
def stepBinWith (cb : Callbacks) (rndA : ByteArray) (input : Option ByteArray) :
    Mech SaslState := do
  match (← get).mech.step with
  | .new => new x input
  | .selectApp => selectApp x input
  | .verifyMagic => verifyMagic x input
  | .getURN => getURN x input
  | .getToken => getTokenWith x cb input
  | .authenticate1 => authenticate1 x rndA input
  | .authenticate2 => authenticate2With x cb input

theorem stepBinWith_bffh (users : Users) :
    stepBinWith x (.bffh x users .fabFireBin) = stepBin x users := rfl

end FabFireBin

/-! ## 共通の形 -/

namespace Wire

variable (w : Wire)

/-- 返事の中身。status が成功でなければ `e`、空なら `parseError` で抜ける。 -/
def payload (e : APDUResponse → FabFireError) (input : Option ByteArray) : Mech ByteArray := do
  let apduResponse ← w.response x input
  ensure apduResponse.check (.mechanism (e apduResponse))
  need apduResponse.body (.mechanism .parseError)

/-- callback を選べる `Wire.step`。 -/
def stepWith (cb : Callbacks) (rndA : ByteArray) (input : Option ByteArray) : Mech SaslState := do
  match (← get).mech.step with
  | .new =>
    let cardinfo ← need input .inputDataRequired
    let cardInfo ← need (w.cardInfo cardinfo) (.mechanism .deserializationError)
    modifySelf (·.noted cardInfo)
    let self := (← get).mech
    w.sendCmd (x.selectApplicationCmd self.appId) .selectApp
  | .selectApp =>
    let apduResponse ← w.response x input
    ensure apduResponse.check (.mechanism .cardError)
    w.sendCmd (x.readDataChunkCmd 0x01 0 magic.utf8ByteSize) .verifyMagic
  | .verifyMagic =>
    let data ← w.payload x (fun _ => .parseError) input
    ensure (String.fromUTF8? data == some magic) (.mechanism .parseError)
    let self := (← get).mech
    w.sendCmd (x.readDataChunkCmd 0x02 0 self.localUrn.utf8ByteSize) .getURN
  | .getURN =>
    let data ← w.payload x (fun _ => .parseError) input
    let receivedUrn ← need (String.fromUTF8? data) .panic
    let self := (← get).mech
    ensure (receivedUrn == self.localUrn) (.mechanism .parseError)
    w.sendCmd (x.readDataChunkCmd 0x03 0 x.maxBytesPerTransaction) .getToken
  | .getToken =>
    let data ← w.payload x (fun _ => .parseError) input
    let token ← need (String.fromUTF8? data) .panic
    let authid := trimNul token
    let key ← attempt (cb.cardKey ⟨some authid, none, none⟩)
    modifySelf fun f => { f with keyInfo := some ⟨authid, 0x01, key⟩ }
    let keyInfo ← need (← get).mech.keyInfo .panic
    w.sendCmd (x.authenticateIsoAesChallengeCmd keyInfo.keyId) .authenticate1
  | .authenticate1 =>
    let rndBEnc ← w.payload x (fun _ => .parseError) input
    let keyInfo ← need (← get).mech.keyInfo .panic
    let (cmd, rndB, iv) ← need (x.authenticateIsoAesResponseCmd rndBEnc keyInfo.key rndA) .panic
    modifySelf fun f => { f with authInfo := some ⟨rndA, rndB, iv⟩ }
    w.sendCmd cmd .authenticate2
  | .authenticate2 =>
    let data ← w.payload x .invalidCredentials input
    let authInfo ← need (← get).mech.authInfo (.mechanism .parseError)
    let keyInfo ← need (← get).mech.keyInfo .panic
    if x.authenticateIsoAesVerify data authInfo.rndA authInfo.rndB keyInfo.key authInfo.iv then
      w.complete
      sessionValidateWith cb ⟨some keyInfo.authid, none, none⟩
      return .finished true
    else
      return .finished false

theorem stepWith_json : (json x).stepWith x = FabFire.stepJsonWith x := by
  funext cb rndA input
  simp only [stepWith, payload, FabFire.stepJsonWith, bind_assoc]
  refine bind_congr fun s => ?_
  cases s.mech.step with
  | new =>
    simp only [FabFire.new]
    refine bind_congr fun cardinfo => ?_
    cases h : x.cardInfo cardinfo with
    | none => simp only [json, h]; rfl
    | some info => simp only [json, h]; rfl
  | selectApp => simp only [response_json]; rfl
  | verifyMagic => simp only [response_json]; rfl
  | getURN => simp only [response_json]; rfl
  | getToken => simp only [response_json]; rfl
  | authenticate1 => simp only [response_json]; rfl
  | authenticate2 =>
    simp only [response_json]
    simp only [complete, json, FabFire.authenticate2With, bind_assoc]

theorem stepWith_binary : binary.stepWith x = FabFireBin.stepBinWith x := by
  funext cb rndA input
  simp only [stepWith, payload, FabFireBin.stepBinWith, bind_assoc]
  refine bind_congr fun s => ?_
  cases s.mech.step <;> rfl

end Wire

end FabAccess.Authentication
