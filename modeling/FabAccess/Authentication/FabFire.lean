import FabAccess.Authentication.Callback
import FabAccess.Infra.Fallible

/-!
# FabFire mechanism

`bffhd/authentication/fabfire/server.rs`（X-FABFIRE）と
`bffhd/authentication/fabfire_bin/server.rs`（X-FABFIRE-BIN）の埋め込み。
二つは別々に書かれた複製なので、定義も別々に写す。共通の形は `Card.lean` で取り出す。

`step` は `&mut self` を変えながら進み、途中の `return Err` でもそれまでの変更は残る。
client の data に対する `unwrap` の失敗は `Failure.panic` である。`Vec` への `write_all` は失敗しない。
乱数 `rnd_a` は引数で受け取る。
-/

namespace FabAccess.Authentication

open FabAccess.Infra

/-- `step` の結果（rsasl の `State`）。`sent` は `MessageSent::Yes` か。 -/
inductive SaslState where
  | running
  | finished (sent : Bool)
  deriving DecidableEq, Repr

/-- 次の入力を待っている段（`Step`）。 -/
inductive Step where
  | new
  | selectApp
  | verifyMagic
  | getURN
  | getToken
  | authenticate1
  | authenticate2
  deriving DecidableEq, Repr

structure KeyInfo where
  authid : String
  keyId : UInt8
  key : ByteArray
  deriving DecidableEq

structure AuthInfo where
  rndA : ByteArray
  rndB : ByteArray
  iv : ByteArray
  deriving DecidableEq

/-- mechanism の状態（`FabFire`）。 -/
structure FabFire where
  step : Step := .new
  cardInfo : Option CardInfo := none
  keyInfo : Option KeyInfo := none
  authInfo : Option AuthInfo := none
  appId : UInt32 := 0x464142
  localUrn : String
  deriving DecidableEq

def magic : String := "FABACCESS\x00DESFIRE\x001.0\x00"

/-- `fabfire::FabFire::new_server`。 -/
def FabFire.newServer : FabFire := { localUrn := "urn:fabaccess:lab:innovisionlab" }

/-- `fabfire_bin::FabFire::new_server`。`spacename` は設定された名前である。 -/
def FabFire.newServerBin (spacename : Option String) : FabFire :=
  { localUrn := "urn:fabaccess:lab:" ++ spacename.getD "generic" }

variable (x : Crates)

/-! ## 一回の `step` が変えるもの -/

/-- mechanism、session の validation、書き出した byte 列。 -/
structure Work where
  mech : FabFire
  validation : Option User
  out : ByteArray
  /-- `session.validate` に渡した property の列 -/
  asked : List Context

/-- `step` の始まり。 -/
def Work.start (mech : FabFire) (validation : Option User) : Work :=
  ⟨mech, validation, ByteArray.empty, []⟩

abbrev Mech := EStateM Failure Work

/-- `self` を変える。 -/
def modifySelf (f : FabFire → FabFire) : Mech Unit := modify fun s => { s with mech := f s.mech }

/-- `writer.write_all`。 -/
def writeAll (buf : ByteArray) : Mech Unit := modify fun s => { s with out := s.out ++ buf }

/-- `MechanismData::validate`。 -/
def sessionValidate (users : Users) (mech : Mechname) (context : Context) : Mech Unit := do
  modify fun s => { s with asked := s.asked ++ [context] }
  match ← attempt (validate x users mech context) with
  | some user => modify fun s => { s with validation := some user }
  | none => pure ()

/-- `trim_matches(char::from(0))`。 -/
def trimNul (s : String) : String :=
  String.ofList ((s.toList.dropWhile (· == '\x00')).rdropWhile (· == '\x00'))

/-! ## X-FABFIRE -/

namespace FabFire

/-- 入力から `readPICC` の中身を取り出す。 -/
def readPICC (input : Option ByteArray) : Mech APDUResponse := do
  let buf ← need input .inputDataRequired
  match ← need (x.cardCommand buf) (.mechanism .deserializationError) with
  | .readPICC data => return x.apduResponse data
  | _ => throw (.mechanism .parseError)

/-- 命令を `sendPICC` に包んで送り、`next` の段へ進む。 -/
def sendPICC (cmd : Option ByteArray) (next : Step) : Mech SaslState := do
  let buf ← need cmd (.mechanism .serializationError)
  let sendBuf ← need (x.toVec (.sendPICC buf)) (.mechanism .serializationError)
  modifySelf fun f => { f with step := next }
  writeAll sendBuf
  return .running

/-- `Step::New`。 -/
def new (input : Option ByteArray) : Mech SaslState := do
  let cardinfo ← need input .inputDataRequired
  let cardInfo ← need (x.cardInfo cardinfo) (.mechanism .deserializationError)
  modifySelf fun f => { f with cardInfo := some cardInfo }
  let self := (← get).mech
  sendPICC x (x.selectApplicationCmd self.appId) .selectApp

/-- `Step::SelectApp`。 -/
def selectApp (input : Option ByteArray) : Mech SaslState := do
  let apduResponse ← readPICC x input
  ensure apduResponse.check (.mechanism .cardError)
  sendPICC x (x.readDataChunkCmd 0x01 0 magic.utf8ByteSize) .verifyMagic

/-- `Step::VerifyMagic`。 -/
def verifyMagic (input : Option ByteArray) : Mech SaslState := do
  let apduResponse ← readPICC x input
  ensure apduResponse.check (.mechanism .parseError)
  let data ← need apduResponse.body (.mechanism .parseError)
  ensure (String.fromUTF8? data == some magic) (.mechanism .parseError)
  let self := (← get).mech
  sendPICC x (x.readDataChunkCmd 0x02 0 self.localUrn.utf8ByteSize) .getURN

/-- `Step::GetURN`。 -/
def getURN (input : Option ByteArray) : Mech SaslState := do
  let apduResponse ← readPICC x input
  ensure apduResponse.check (.mechanism .parseError)
  let data ← need apduResponse.body (.mechanism .parseError)
  let receivedUrn ← need (String.fromUTF8? data) .panic
  let self := (← get).mech
  ensure (receivedUrn == self.localUrn) (.mechanism .parseError)
  sendPICC x (x.readDataChunkCmd 0x03 0 x.maxBytesPerTransaction) .getToken

/-- `Step::GetToken`。 -/
def getToken (users : Users) (input : Option ByteArray) : Mech SaslState := do
  let apduResponse ← readPICC x input
  ensure apduResponse.check (.mechanism .parseError)
  let data ← need apduResponse.body (.mechanism .parseError)
  let token ← need (String.fromUTF8? data) .panic
  let authid := trimNul token
  let key ← attempt (callback x users ⟨some authid, none, none⟩)
  modifySelf fun f => { f with keyInfo := some ⟨authid, 0x01, key⟩ }
  let keyInfo ← need (← get).mech.keyInfo .panic
  sendPICC x (x.authenticateIsoAesChallengeCmd keyInfo.keyId) .authenticate1

/-- `Step::Authenticate1`。 -/
def authenticate1 (rndA : ByteArray) (input : Option ByteArray) : Mech SaslState := do
  let apduResponse ← readPICC x input
  ensure apduResponse.check (.mechanism .parseError)
  let rndBEnc ← need apduResponse.body (.mechanism .parseError)
  let keyInfo ← need (← get).mech.keyInfo .panic
  let (cmd, rndB, iv) ← need (x.authenticateIsoAesResponseCmd rndBEnc keyInfo.key rndA) .panic
  modifySelf fun f => { f with authInfo := some ⟨rndA, rndB, iv⟩ }
  sendPICC x cmd .authenticate2

/-- `Step::Authenticate2`。照合に失敗しても `Err` ではなく、何も認めないまま `Finished` になる。 -/
def authenticate2 (users : Users) (input : Option ByteArray) : Mech SaslState := do
  let apduResponse ← readPICC x input
  ensure apduResponse.check (.mechanism (.invalidCredentials apduResponse))
  let data ← need apduResponse.body (.mechanism .parseError)
  let authInfo ← need (← get).mech.authInfo (.mechanism .parseError)
  let keyInfo ← need (← get).mech.keyInfo .panic
  if x.authenticateIsoAesVerify data authInfo.rndA authInfo.rndB keyInfo.key authInfo.iv then
    let cmd := CardCommand.message (some 4) none (some "")
    let sendBuf ← need (x.toVec cmd) (.mechanism .serializationError)
    modifySelf fun f => { f with step := .authenticate1 }
    writeAll sendBuf
    sessionValidate x users .fabFire ⟨some keyInfo.authid, none, none⟩
    return .finished true
  else
    return .finished false

/-- `fabfire::FabFire::step`。 -/
def stepJson (users : Users) (rndA : ByteArray) (input : Option ByteArray) : Mech SaslState := do
  match (← get).mech.step with
  | .new => new x input
  | .selectApp => selectApp x input
  | .verifyMagic => verifyMagic x input
  | .getURN => getURN x input
  | .getToken => getToken x users input
  | .authenticate1 => authenticate1 x rndA input
  | .authenticate2 => authenticate2 x users input

end FabFire

/-! ## X-FABFIRE-BIN -/

namespace FabFireBin

/-- 入力がそのまま card の返事である。 -/
def readData (input : Option ByteArray) : Mech APDUResponse := do
  let data ← need input .inputDataRequired
  return x.apduResponse data

/-- 命令をそのまま送り、`next` の段へ進む。 -/
def sendData (cmd : Option ByteArray) (next : Step) : Mech SaslState := do
  let data ← need cmd (.mechanism .serializationError)
  modifySelf fun f => { f with step := next }
  writeAll data
  return .running

/-- `Step::New`。入力の中身は見ない。 -/
def new (input : Option ByteArray) : Mech SaslState := do
  let _ ← need input .inputDataRequired
  let self := (← get).mech
  sendData (x.selectApplicationCmd self.appId) .selectApp

/-- `Step::SelectApp`。 -/
def selectApp (input : Option ByteArray) : Mech SaslState := do
  let apduResponse ← readData x input
  ensure apduResponse.check (.mechanism .cardError)
  sendData (x.readDataChunkCmd 0x01 0 magic.utf8ByteSize) .verifyMagic

/-- `Step::VerifyMagic`。 -/
def verifyMagic (input : Option ByteArray) : Mech SaslState := do
  let apduResponse ← readData x input
  ensure apduResponse.check (.mechanism .parseError)
  let data ← need apduResponse.body (.mechanism .parseError)
  ensure (String.fromUTF8? data == some magic) (.mechanism .parseError)
  let self := (← get).mech
  sendData (x.readDataChunkCmd 0x02 0 self.localUrn.utf8ByteSize) .getURN

/-- `Step::GetURN`。 -/
def getURN (input : Option ByteArray) : Mech SaslState := do
  let apduResponse ← readData x input
  ensure apduResponse.check (.mechanism .parseError)
  let data ← need apduResponse.body (.mechanism .parseError)
  let receivedUrn ← need (String.fromUTF8? data) .panic
  let self := (← get).mech
  ensure (receivedUrn == self.localUrn) (.mechanism .parseError)
  sendData (x.readDataChunkCmd 0x03 0 x.maxBytesPerTransaction) .getToken

/-- `Step::GetToken`。 -/
def getToken (users : Users) (input : Option ByteArray) : Mech SaslState := do
  let apduResponse ← readData x input
  ensure apduResponse.check (.mechanism .parseError)
  let data ← need apduResponse.body (.mechanism .parseError)
  let token ← need (String.fromUTF8? data) .panic
  let authid := trimNul token
  let key ← attempt (callback x users ⟨some authid, none, none⟩)
  modifySelf fun f => { f with keyInfo := some ⟨authid, 0x01, key⟩ }
  let keyInfo ← need (← get).mech.keyInfo .panic
  sendData (x.authenticateIsoAesChallengeCmd keyInfo.keyId) .authenticate1

/-- `Step::Authenticate1`。 -/
def authenticate1 (rndA : ByteArray) (input : Option ByteArray) : Mech SaslState := do
  let apduResponse ← readData x input
  ensure apduResponse.check (.mechanism .parseError)
  let rndBEnc ← need apduResponse.body (.mechanism .parseError)
  let keyInfo ← need (← get).mech.keyInfo .panic
  let (cmd, rndB, iv) ← need (x.authenticateIsoAesResponseCmd rndBEnc keyInfo.key rndA) .panic
  modifySelf fun f => { f with authInfo := some ⟨rndA, rndB, iv⟩ }
  sendData cmd .authenticate2

/-- `Step::Authenticate2`。成功したとき、reader には何も書かず、段も戻さない。 -/
def authenticate2 (users : Users) (input : Option ByteArray) : Mech SaslState := do
  let apduResponse ← readData x input
  ensure apduResponse.check (.mechanism (.invalidCredentials apduResponse))
  let data ← need apduResponse.body (.mechanism .parseError)
  let authInfo ← need (← get).mech.authInfo (.mechanism .parseError)
  let keyInfo ← need (← get).mech.keyInfo .panic
  if x.authenticateIsoAesVerify data authInfo.rndA authInfo.rndB keyInfo.key authInfo.iv then
    sessionValidate x users .fabFireBin ⟨some keyInfo.authid, none, none⟩
    return .finished true
  else
    return .finished false

/-- `fabfire_bin::FabFire::step`。 -/
def stepBin (users : Users) (rndA : ByteArray) (input : Option ByteArray) : Mech SaslState := do
  match (← get).mech.step with
  | .new => new x input
  | .selectApp => selectApp x input
  | .verifyMagic => verifyMagic x input
  | .getURN => getURN x input
  | .getToken => getToken x users input
  | .authenticate1 => authenticate1 x rndA input
  | .authenticate2 => authenticate2 x users input

end FabFireBin

end FabAccess.Authentication
