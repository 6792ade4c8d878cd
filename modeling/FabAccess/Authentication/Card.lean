import FabAccess.Authentication.FabFire

/-!
# card とのやりとりの共通の形

二つの FabFire mechanism は、入出力の包み方（`Wire`）を除いて同じ七つの段を進む。
ここではその共通の形 `Wire.step` を書き、

* `Wire.step_json`・`Wire.step_binary` — 二つの mechanism がその形をしている
* `Wire.step_advance`・`Wire.step_of_advance` — 成功した一歩が見た入力と、変えたもの

を示す。
-/

namespace FabAccess.Authentication

open FabAccess.Infra

/-- 入出力の包み方。 -/
structure Wire where
  mech : Mechname
  /-- 最初の入力から読む `CardInfo` -/
  cardInfo : ByteArray → Option (Option CardInfo)
  /-- 入力から card の返事を取り出す -/
  receive : ByteArray → Except FabFireError ByteArray
  /-- card への命令を包む -/
  send : ByteArray → Option ByteArray
  /-- 認証に成功したとき reader に書くもの。書くときは段を `Authenticate1` に戻す -/
  completed : Option (Option ByteArray)

/-- `CardInfo` を読む mechanism は、それを覚える。 -/
def FabFire.noted (f : FabFire) : Option CardInfo → FabFire
  | some info => { f with cardInfo := some info }
  | none => f

/-- `f` になり、`sendBuf` を書いて `next` の段へ進む。 -/
def Work.sent (s : Work) (f : FabFire) (next : Step) (sendBuf : ByteArray) : Work :=
  { s with mech := { f with step := next }, out := s.out ++ sendBuf }

variable (x : Crates)

namespace Wire

/-- X-FABFIRE。 -/
def json : Wire where
  mech := .fabFire
  cardInfo := fun buf => (x.cardInfo buf).map some
  receive := fun buf =>
    match x.cardCommand buf with
    | some (.readPICC data) => .ok data
    | some _ => .error .parseError
    | none => .error .deserializationError
  send := fun buf => x.toVec (.sendPICC buf)
  completed := some (x.toVec (.message (some 4) none (some "")))

/-- X-FABFIRE-BIN。 -/
def binary : Wire where
  mech := .fabFireBin
  cardInfo := fun _ => some none
  receive := .ok
  send := some
  completed := none

variable (w : Wire)

def response (input : Option ByteArray) : Mech APDUResponse := do
  let buf ← need input .inputDataRequired
  match w.receive buf with
  | .ok data => return x.apduResponse data
  | .error e => throw (.mechanism e)

def sendCmd (cmd : Option ByteArray) (next : Step) : Mech SaslState := do
  let buf ← need cmd (.mechanism .serializationError)
  let sendBuf ← need (w.send buf) (.mechanism .serializationError)
  modifySelf fun f => { f with step := next }
  writeAll sendBuf
  return .running

def complete : Mech Unit :=
  match w.completed with
  | some cmd => do
    let sendBuf ← need cmd (.mechanism .serializationError)
    modifySelf fun f => { f with step := .authenticate1 }
    writeAll sendBuf
  | none => pure ()

/-- 共通の形。 -/
def step (users : Users) (rndA : ByteArray) (input : Option ByteArray) : Mech SaslState := do
  match (← get).mech.step with
  | .new =>
    let cardinfo ← need input .inputDataRequired
    let cardInfo ← need (w.cardInfo cardinfo) (.mechanism .deserializationError)
    modifySelf (·.noted cardInfo)
    let self := (← get).mech
    w.sendCmd (x.selectApplicationCmd self.appId) .selectApp
  | .selectApp =>
    let apduResponse ← w.response x input
    ensure apduResponse.check (.mechanism .cardError)
    w.sendCmd (x.readDataChunkCmd 0x01 0 magic.utf8ByteSize) .verifyMagic
  | .verifyMagic =>
    let apduResponse ← w.response x input
    ensure apduResponse.check (.mechanism .parseError)
    let data ← need apduResponse.body (.mechanism .parseError)
    ensure (String.fromUTF8? data == some magic) (.mechanism .parseError)
    let self := (← get).mech
    w.sendCmd (x.readDataChunkCmd 0x02 0 self.localUrn.utf8ByteSize) .getURN
  | .getURN =>
    let apduResponse ← w.response x input
    ensure apduResponse.check (.mechanism .parseError)
    let data ← need apduResponse.body (.mechanism .parseError)
    let receivedUrn ← need (String.fromUTF8? data) .panic
    let self := (← get).mech
    ensure (receivedUrn == self.localUrn) (.mechanism .parseError)
    w.sendCmd (x.readDataChunkCmd 0x03 0 x.maxBytesPerTransaction) .getToken
  | .getToken =>
    let apduResponse ← w.response x input
    ensure apduResponse.check (.mechanism .parseError)
    let data ← need apduResponse.body (.mechanism .parseError)
    let token ← need (String.fromUTF8? data) .panic
    let authid := trimNul token
    let key ← attempt (callback x users ⟨some authid, none, none⟩)
    modifySelf fun f => { f with keyInfo := some ⟨authid, 0x01, key⟩ }
    let keyInfo ← need (← get).mech.keyInfo .panic
    w.sendCmd (x.authenticateIsoAesChallengeCmd keyInfo.keyId) .authenticate1
  | .authenticate1 =>
    let apduResponse ← w.response x input
    ensure apduResponse.check (.mechanism .parseError)
    let rndBEnc ← need apduResponse.body (.mechanism .parseError)
    let keyInfo ← need (← get).mech.keyInfo .panic
    let (cmd, rndB, iv) ← need (x.authenticateIsoAesResponseCmd rndBEnc keyInfo.key rndA) .panic
    modifySelf fun f => { f with authInfo := some ⟨rndA, rndB, iv⟩ }
    w.sendCmd cmd .authenticate2
  | .authenticate2 =>
    let apduResponse ← w.response x input
    ensure apduResponse.check (.mechanism (.invalidCredentials apduResponse))
    let data ← need apduResponse.body (.mechanism .parseError)
    let authInfo ← need (← get).mech.authInfo (.mechanism .parseError)
    let keyInfo ← need (← get).mech.keyInfo .panic
    if x.authenticateIsoAesVerify data authInfo.rndA authInfo.rndB keyInfo.key authInfo.iv then
      w.complete
      sessionValidate x users w.mech ⟨some keyInfo.authid, none, none⟩
      return .finished true
    else
      return .finished false

/-! ## 二つの mechanism との一致 -/

theorem response_json (input : Option ByteArray) :
    (json x).response x input = FabFire.readPICC x input := by
  simp only [response, FabFire.readPICC, json]
  refine bind_congr fun buf => ?_
  cases h : x.cardCommand buf with
  | none => rfl
  | some cmd => cases cmd <;> rfl

theorem step_json : (json x).step x = FabFire.stepJson x := by
  funext users rndA input
  simp only [step, FabFire.stepJson]
  refine bind_congr fun s => ?_
  cases s.mech.step with
  | new =>
    simp only [FabFire.new]
    refine bind_congr fun cardinfo => ?_
    cases h : x.cardInfo cardinfo with
    | none => simp only [json, h]; rfl
    | some info => simp only [json, h]; rfl
  | selectApp => simp only [response_json]; rfl
  | verifyMagic => simp only [response_json]; rfl
  | getURN => simp only [response_json]; rfl
  | getToken => simp only [response_json]; rfl
  | authenticate1 => simp only [response_json]; rfl
  | authenticate2 =>
    simp only [response_json]
    simp only [complete, json, FabFire.authenticate2, bind_assoc]

theorem step_binary : binary.step x = FabFireBin.stepBin x := by
  funext users rndA input
  simp only [step, FabFireBin.stepBin]
  refine bind_congr fun s => ?_
  cases s.mech.step <;> rfl

/-! ## 成功した一歩 -/

/-- 入力の中の card の返事。 -/
def reply (buf : ByteArray) : Option APDUResponse :=
  match w.receive buf with
  | .ok data => some (x.apduResponse data)
  | .error _ => none

variable {x w} {users : Users} {rndA : ByteArray} {input : Option ByteArray} {s s' : Work}
  {r : SaslState}

theorem response_ok {a : APDUResponse} :
    w.response x input s = .ok a s' ↔ input.bind (w.reply x) = some a ∧ s = s' := by
  cases input with
  | none => simp [response]
  | some buf =>
    cases h : w.receive buf with
    | ok data => simp [response, reply, h]
    | error e => simp [response, reply, h]

theorem sendCmd_ok {cmd : Option ByteArray} {next : Step} :
    w.sendCmd cmd next s = .ok r s' ↔
      ∃ sendBuf, cmd.bind w.send = some sendBuf ∧ r = .running ∧ s' = s.sent s.mech next sendBuf := by
  simp only [sendCmd, modifySelf, writeAll, bind_ok, need_ok, modify_ok, pure_ok,
    Option.bind_eq_some_iff]
  constructor
  · rintro ⟨buf, _, ⟨hcmd, rfl⟩, sendBuf, _, ⟨hsend, rfl⟩, _, _, rfl, _, _, rfl, rfl, rfl⟩
    exact ⟨sendBuf, ⟨buf, hcmd, hsend⟩, rfl, rfl⟩
  · rintro ⟨sendBuf, ⟨buf, hcmd, hsend⟩, rfl, rfl⟩
    exact ⟨buf, s, ⟨hcmd, rfl⟩, sendBuf, s, ⟨hsend, rfl⟩, (), _, rfl, (), _, rfl, rfl, rfl⟩

theorem complete_ok {u : Unit} (h : w.complete s = .ok u s') :
    s'.validation = s.validation ∧ s'.mech.keyInfo = s.mech.keyInfo := by
  cases hc : w.completed with
  | some cmd =>
    simp only [complete, hc, modifySelf, writeAll, bind_ok, need_ok, modify_ok] at h
    obtain ⟨sendBuf, _, ⟨_, rfl⟩, _, _, rfl, rfl⟩ := h
    exact ⟨rfl, rfl⟩
  | none =>
    simp only [complete, hc, pure_ok] at h
    exact ⟨by rw [h.2], by rw [h.2]⟩

theorem sessionValidate_ok {mech : Mechname} {context : Context} {u : Unit}
    (h : sessionValidate x users mech context s = .ok u s') (hs : s.validation = none) :
    validate x users mech context = .ok s'.validation := by
  simp only [sessionValidate, bind_ok, modify_ok, attempt_ok] at h
  obtain ⟨_, _, rfl, found, _, ⟨hv, rfl⟩, h⟩ := h
  rw [hv]
  cases found with
  | some user =>
    rw [modify_ok] at h
    rw [← h]
  | none =>
    rw [pure_ok] at h
    rw [← h.2, ← hs]

variable (x w) in
/-- 返事 `buf` による、成功した一歩。 -/
inductive Advance (users : Users) (rndA buf : ByteArray) (s : Work) : SaslState → Work → Prop where
  | new {info : Option CardInfo} {sendBuf : ByteArray} (hs : s.mech.step = .new)
    (hinfo : w.cardInfo buf = some info)
    (hsend : (x.selectApplicationCmd s.mech.appId).bind w.send = some sendBuf) :
    Advance users rndA buf s .running (s.sent (s.mech.noted info) .selectApp sendBuf)
  | selectApp {a : APDUResponse} {sendBuf : ByteArray} (hs : s.mech.step = .selectApp)
    (hreply : w.reply x buf = some a) (hcheck : a.check = true)
    (hsend : (x.readDataChunkCmd 0x01 0 magic.utf8ByteSize).bind w.send = some sendBuf) :
    Advance users rndA buf s .running (s.sent s.mech .verifyMagic sendBuf)
  | verifyMagic {a : APDUResponse} {data sendBuf : ByteArray} (hs : s.mech.step = .verifyMagic)
    (hreply : w.reply x buf = some a) (hcheck : a.check = true) (hbody : a.body = some data)
    (hmagic : String.fromUTF8? data = some magic)
    (hsend : (x.readDataChunkCmd 0x02 0 s.mech.localUrn.utf8ByteSize).bind w.send = some sendBuf) :
    Advance users rndA buf s .running (s.sent s.mech .getURN sendBuf)
  | getURN {a : APDUResponse} {data sendBuf : ByteArray} (hs : s.mech.step = .getURN)
    (hreply : w.reply x buf = some a) (hcheck : a.check = true) (hbody : a.body = some data)
    (hurn : String.fromUTF8? data = some s.mech.localUrn)
    (hsend : (x.readDataChunkCmd 0x03 0 x.maxBytesPerTransaction).bind w.send = some sendBuf) :
    Advance users rndA buf s .running (s.sent s.mech .getToken sendBuf)
  | getToken {a : APDUResponse} {data key sendBuf : ByteArray} {token : String}
    (hs : s.mech.step = .getToken)
    (hreply : w.reply x buf = some a) (hcheck : a.check = true) (hbody : a.body = some data)
    (htoken : String.fromUTF8? data = some token)
    (hkey : callback x users ⟨some (trimNul token), none, none⟩ = .ok key)
    (hsend : (x.authenticateIsoAesChallengeCmd 0x01).bind w.send = some sendBuf) :
    Advance users rndA buf s .running
      (s.sent { s.mech with keyInfo := some ⟨trimNul token, 0x01, key⟩ } .authenticate1 sendBuf)
  | authenticate1 {a : APDUResponse} {data sendBuf rndB iv : ByteArray} {keyInfo : KeyInfo}
    {cmd : Option ByteArray} (hs : s.mech.step = .authenticate1)
    (hreply : w.reply x buf = some a) (hcheck : a.check = true) (hbody : a.body = some data)
    (hkey : s.mech.keyInfo = some keyInfo)
    (hcmd : x.authenticateIsoAesResponseCmd data keyInfo.key rndA = some (cmd, rndB, iv))
    (hsend : cmd.bind w.send = some sendBuf) :
    Advance users rndA buf s .running
      (s.sent { s.mech with authInfo := some ⟨rndA, rndB, iv⟩ } .authenticate2 sendBuf)
  | verified {a : APDUResponse} {data : ByteArray} {keyInfo : KeyInfo} {authInfo : AuthInfo}
    {s₁ s' : Work} {u : Unit} (hs : s.mech.step = .authenticate2)
    (hreply : w.reply x buf = some a) (hcheck : a.check = true) (hbody : a.body = some data)
    (hauth : s.mech.authInfo = some authInfo) (hkey : s.mech.keyInfo = some keyInfo)
    (hverify : x.authenticateIsoAesVerify data authInfo.rndA authInfo.rndB keyInfo.key
      authInfo.iv = true)
    (hcomplete : w.complete s = .ok u s₁)
    (hvalid : sessionValidate x users w.mech ⟨some keyInfo.authid, none, none⟩ s₁ = .ok u s') :
    Advance users rndA buf s (.finished true) s'
  | rejected {a : APDUResponse} {data : ByteArray} {keyInfo : KeyInfo} {authInfo : AuthInfo}
    (hs : s.mech.step = .authenticate2)
    (hreply : w.reply x buf = some a) (hcheck : a.check = true) (hbody : a.body = some data)
    (hauth : s.mech.authInfo = some authInfo) (hkey : s.mech.keyInfo = some keyInfo)
    (hverify : x.authenticateIsoAesVerify data authInfo.rndA authInfo.rndB keyInfo.key
      authInfo.iv = false) :
    Advance users rndA buf s (.finished false) s

theorem step_advance {buf : ByteArray} (h : w.step x users rndA (some buf) s = .ok r s') :
    w.Advance x users rndA buf s r s' := by
  unfold step at h
  rw [bind_ok] at h
  obtain ⟨s₀, s₁, hget, h⟩ := h
  obtain ⟨rfl, rfl⟩ := get_ok.mp hget
  cases hs : s.mech.step with
  -- 早期 return をすべて越えたので、`need`・`ensure` の条件が一つずつ得られる
  | new =>
    simp only [hs, modifySelf, bind_ok, need_ok, modify_ok, get_ok, sendCmd_ok] at h
    obtain ⟨_, _, ⟨hbuf, rfl⟩, info, _, ⟨hinfo, rfl⟩, _, _, rfl, _, _, ⟨rfl, rfl⟩, sendBuf, hsend,
      rfl, rfl⟩ := h
    cases hbuf
    have happ : (s.mech.noted info).appId = s.mech.appId := by cases info <;> rfl
    rw [happ] at hsend
    exact .new hs hinfo hsend
  | selectApp =>
    simp only [hs, bind_ok, response_ok, ensure_ok, sendCmd_ok] at h
    obtain ⟨a, _, ⟨hreply, rfl⟩, _, _, ⟨hcheck, rfl⟩, sendBuf, hsend, rfl, rfl⟩ := h
    exact .selectApp hs hreply hcheck hsend
  | verifyMagic =>
    simp only [hs, bind_ok, response_ok, ensure_ok, need_ok, get_ok, sendCmd_ok, beq_iff_eq] at h
    obtain ⟨a, _, ⟨hreply, rfl⟩, _, _, ⟨hcheck, rfl⟩, data, _, ⟨hbody, rfl⟩, _, _, ⟨hmagic, rfl⟩, _,
      _, ⟨rfl, rfl⟩, sendBuf, hsend, rfl, rfl⟩ := h
    exact .verifyMagic hs hreply hcheck hbody hmagic hsend
  | getURN =>
    simp only [hs, bind_ok, response_ok, ensure_ok, need_ok, get_ok, sendCmd_ok, beq_iff_eq] at h
    obtain ⟨a, _, ⟨hreply, rfl⟩, _, _, ⟨hcheck, rfl⟩, data, _, ⟨hbody, rfl⟩, urn, _, ⟨hurn, rfl⟩, _,
      _, ⟨rfl, rfl⟩, _, _, ⟨rfl, rfl⟩, sendBuf, hsend, rfl, rfl⟩ := h
    exact .getURN hs hreply hcheck hbody hurn hsend
  | getToken =>
    simp only [hs, modifySelf, bind_ok, response_ok, ensure_ok, need_ok, attempt_ok, get_ok,
      modify_ok, sendCmd_ok] at h
    obtain ⟨a, _, ⟨hreply, rfl⟩, _, _, ⟨hcheck, rfl⟩, data, _, ⟨hbody, rfl⟩, token, _, ⟨htoken, rfl⟩,
      key, _, ⟨hkey, rfl⟩, _, _, rfl, _, _, ⟨rfl, rfl⟩, keyInfo, _, ⟨hinfo, rfl⟩, sendBuf, hsend,
      rfl, rfl⟩ := h
    cases hinfo
    exact .getToken hs hreply hcheck hbody htoken hkey hsend
  | authenticate1 =>
    simp only [hs, modifySelf, bind_ok, response_ok, ensure_ok, need_ok, get_ok, modify_ok,
      sendCmd_ok] at h
    obtain ⟨a, _, ⟨hreply, rfl⟩, _, _, ⟨hcheck, rfl⟩, data, _, ⟨hbody, rfl⟩, _, _, ⟨rfl, rfl⟩,
      keyInfo, _, ⟨hkey, rfl⟩, ⟨cmd, rndB, iv⟩, _, ⟨hcmd, rfl⟩, _, _, rfl, sendBuf, hsend, rfl,
      rfl⟩ := h
    exact .authenticate1 hs hreply hcheck hbody hkey hcmd hsend
  | authenticate2 =>
    simp only [hs, bind_ok, response_ok, ensure_ok, need_ok, get_ok] at h
    obtain ⟨a, _, ⟨hreply, rfl⟩, _, _, ⟨hcheck, rfl⟩, data, _, ⟨hbody, rfl⟩, _, _, ⟨rfl, rfl⟩,
      authInfo, _, ⟨hauth, rfl⟩, _, _, ⟨rfl, rfl⟩, keyInfo, _, ⟨hkey, rfl⟩, h⟩ := h
    -- 照合が通れば `complete` と `validate` に進み、通らなければ成功でない終わりを返す
    split at h
    · next hverify =>
      simp only [bind_ok, pure_ok] at h
      obtain ⟨_, s₁, hcomplete, _, s₂, hvalid, rfl, rfl⟩ := h
      exact .verified hs hreply hcheck hbody hauth hkey hverify hcomplete hvalid
    · next hverify =>
      obtain ⟨rfl, rfl⟩ := pure_ok.mp h
      exact .rejected hs hreply hcheck hbody hauth hkey (by simpa using hverify)

/-- 逆に、条件の揃った一歩は成功する。 -/
theorem step_of_advance {buf : ByteArray} (h : w.Advance x users rndA buf s r s') :
    w.step x users rndA (some buf) s = .ok r s' := by
  unfold step
  rw [bind_ok]
  refine ⟨s, s, get_ok.mpr ⟨rfl, rfl⟩, ?_⟩
  cases h with
  | @new info sendBuf hs hinfo hsend =>
    have happ : (s.mech.noted info).appId = s.mech.appId := by cases info <;> rfl
    rw [← happ] at hsend
    simp only [hs, modifySelf, bind_ok, need_ok, modify_ok, get_ok, sendCmd_ok]
    exact ⟨buf, s, ⟨rfl, rfl⟩, info, s, ⟨hinfo, rfl⟩, (), _, rfl, _, _, ⟨rfl, rfl⟩, sendBuf, hsend,
      trivial, rfl⟩
  | @selectApp a sendBuf hs hreply hcheck hsend =>
    simp only [hs, bind_ok, response_ok, ensure_ok, sendCmd_ok]
    exact ⟨a, s, ⟨hreply, rfl⟩, (), s, ⟨hcheck, rfl⟩, sendBuf, hsend, trivial, rfl⟩
  | @verifyMagic a data sendBuf hs hreply hcheck hbody hmagic hsend =>
    simp only [hs, bind_ok, response_ok, ensure_ok, need_ok, get_ok, sendCmd_ok, beq_iff_eq]
    exact ⟨a, s, ⟨hreply, rfl⟩, (), s, ⟨hcheck, rfl⟩, data, s, ⟨hbody, rfl⟩, (), s, ⟨hmagic, rfl⟩, s,
      s, ⟨rfl, rfl⟩, sendBuf, hsend, trivial, rfl⟩
  | @getURN a data sendBuf hs hreply hcheck hbody hurn hsend =>
    simp only [hs, bind_ok, response_ok, ensure_ok, need_ok, get_ok, sendCmd_ok, beq_iff_eq]
    exact ⟨a, s, ⟨hreply, rfl⟩, (), s, ⟨hcheck, rfl⟩, data, s, ⟨hbody, rfl⟩, _, s, ⟨hurn, rfl⟩, s,
      s, ⟨rfl, rfl⟩, (), s, ⟨rfl, rfl⟩, sendBuf, hsend, trivial, rfl⟩
  | @getToken a data key sendBuf token hs hreply hcheck hbody htoken hkey hsend =>
    simp only [hs, modifySelf, bind_ok, response_ok, ensure_ok, need_ok, attempt_ok, get_ok,
      modify_ok, sendCmd_ok]
    exact ⟨a, s, ⟨hreply, rfl⟩, (), s, ⟨hcheck, rfl⟩, data, s, ⟨hbody, rfl⟩, token, s, ⟨htoken, rfl⟩,
      key, s, ⟨hkey, rfl⟩, (), _, rfl, _, _, ⟨rfl, rfl⟩, _, _, ⟨rfl, rfl⟩, sendBuf, hsend, trivial,
      rfl⟩
  | @authenticate1 a data sendBuf rndB iv keyInfo cmd hs hreply hcheck hbody hkey hcmd hsend =>
    simp only [hs, modifySelf, bind_ok, response_ok, ensure_ok, need_ok, get_ok, modify_ok,
      sendCmd_ok]
    exact ⟨a, s, ⟨hreply, rfl⟩, (), s, ⟨hcheck, rfl⟩, data, s, ⟨hbody, rfl⟩, s, s, ⟨rfl, rfl⟩,
      keyInfo, s, ⟨hkey, rfl⟩, (cmd, rndB, iv), s, ⟨hcmd, rfl⟩, (), _, rfl, sendBuf, hsend, trivial,
      rfl⟩
  | @verified a data keyInfo authInfo s₁ _ u hs hreply hcheck hbody hauth hkey hverify hcomplete
      hvalid =>
    simp only [hs, bind_ok, response_ok, ensure_ok, need_ok, get_ok]
    refine ⟨a, s, ⟨hreply, rfl⟩, (), s, ⟨hcheck, rfl⟩, data, s, ⟨hbody, rfl⟩, s, s, ⟨rfl, rfl⟩,
      authInfo, s, ⟨hauth, rfl⟩, s, s, ⟨rfl, rfl⟩, keyInfo, s, ⟨hkey, rfl⟩, ?_⟩
    rw [if_pos hverify]
    simp only [bind_ok, pure_ok]
    exact ⟨u, s₁, hcomplete, u, s', hvalid, trivial, rfl⟩
  | @rejected a data keyInfo authInfo hs hreply hcheck hbody hauth hkey hverify =>
    simp only [hs, bind_ok, response_ok, ensure_ok, need_ok, get_ok]
    refine ⟨a, s, ⟨hreply, rfl⟩, (), s, ⟨hcheck, rfl⟩, data, s, ⟨hbody, rfl⟩, s, s, ⟨rfl, rfl⟩,
      authInfo, s, ⟨hauth, rfl⟩, s, s, ⟨rfl, rfl⟩, keyInfo, s, ⟨hkey, rfl⟩, ?_⟩
    rw [if_neg (by simp [hverify])]
    exact pure_ok.mpr ⟨rfl, rfl⟩
end Wire

end FabAccess.Authentication
