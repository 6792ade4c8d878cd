import FabAccess.Authentication.Card
import FabAccess.Authentication.System

/-!
# X-FABFIRE と X-FABFIRE-BIN の一致

別々に書かれた二つの mechanism に、同じ card の返事を、一方には `readPICC` に包んで、
もう一方にはそのまま与える。どの返事の列でも、二つは同じ段を同じように進む。

* `step_sim` — 一歩の simulation
* `json_binary_agree` — 実行の全体
-/

namespace FabAccess.Authentication

open FabAccess.Infra

variable {x : Crates}

/-! ## 比べるもの -/

/-- 一回の `step` の結果のうち、外から見えるもの。`asked` は `validate` に渡した `AuthId` である。 -/
inductive Outcome where
  | running (out : ByteArray) (asked : List Context)
  | finished (asked : List Context)
  | failed (asked : List Context)
  deriving DecidableEq

/-- 続けて与えた入力への結果。誤りか `Finished` の後は続けない。 -/
def outcomes (step : Users → ByteArray → Option ByteArray → Mech SaslState) :
    FabFire → List Input → List Outcome
  | _, [] => []
  | f, i :: is =>
    match step i.users i.rndA (some i.data) (Work.start f none) with
    | .ok .running s => .running s.out s.asked :: outcomes step s.mech is
    | .ok (.finished _) s => [.finished s.asked]
    | .error _ s => [.failed s.asked]

variable (x) in
/-- X-FABFIRE への入力 `j` は、X-FABFIRE-BIN への入力 `b` を `readPICC` に包んだものである。 -/
structure Carries (j b : Input) : Prop where
  data : x.cardCommand j.data = some (.readPICC b.data)
  rndA : j.rndA = b.rndA
  users : j.users = b.users

variable (x) in
/-- 同じ `AuthId` の認証を求めて（あるいは求めずに）、同じ命令を書いて続くか、ともに終わる。 -/
inductive Agrees : Outcome → Outcome → Prop where
  | running {apdu out : ByteArray} (h : x.toVec (.sendPICC apdu) = some out)
    (asked : List Context) : Agrees (.running out asked) (.running apdu asked)
  | finished (asked : List Context) : Agrees (.finished asked) (.finished asked)
  | failed (asked : List Context) : Agrees (.failed asked) (.failed asked)

/-! ## 一歩 -/

/-- `card_info` のほかは同じである。 -/
structure Same (f g : FabFire) : Prop where
  step : f.step = g.step
  keyInfo : f.keyInfo = g.keyInfo
  authInfo : f.authInfo = g.authInfo
  appId : f.appId = g.appId
  localUrn : f.localUrn = g.localUrn

/-- 最初の段を過ぎ、まだ何も書いていない。 -/
structure Paired (s t : Work) : Prop where
  same : Same s.mech t.mech
  opened : s.mech.step ≠ .new
  asked : s.asked = t.asked
  out : s.out = ByteArray.empty ∧ t.out = ByteArray.empty

def Asked (s t : Work) : Prop := s.asked = t.asked

variable (x) in
/-- 一歩の後。 -/
def Kept (r : SaslState) (s : Work) (r' : SaslState) (t : Work) : Prop :=
  r = r' ∧ Asked s t ∧
    (r = .running → Same s.mech t.mech ∧ s.mech.step ≠ .new ∧ x.toVec (.sendPICC t.out) = some s.out)

theorem Paired.asks {s t : Work} (h : Paired s t) : Asked s t := h.asked

theorem response_sim {α β : Type} {j b : ByteArray} (hc : x.cardCommand j = some (.readPICC b))
    {f : APDUResponse → Mech α} {f' : APDUResponse → Mech β} {Q : α → Work → β → Work → Prop}
    (h : ∀ a, Sim Paired (f a) (f' a) Q Asked) :
    Sim Paired (FabFire.readPICC x (some j) >>= f) (FabFireBin.readData x (some b) >>= f') Q Asked := by
  have hj : FabFire.readPICC x (some j) = pure (x.apduResponse b) := by
    show (need (x.cardCommand j) _ >>= _) = _
    rw [hc]
    rfl
  have hb : FabFireBin.readData x (some b) = pure (x.apduResponse b) := rfl
  rw [hj, hb, pure_bind, pure_bind]
  exact h _

theorem send_sim (hser : ∀ cmd, (x.toVec cmd).isSome) {cmd : Option ByteArray} {next : Step}
    (hnext : next ≠ .new) :
    Sim Paired (FabFire.sendPICC x cmd next) (FabFireBin.sendData cmd next) (Kept x) Asked := by
  unfold FabFire.sendPICC FabFireBin.sendData
  refine Sim.need (fun s t => Paired.asks) (fun buf => ?_)
  obtain ⟨sendBuf, hsend⟩ := Option.isSome_iff_exists.mp (hser (.sendPICC buf))
  rw [hsend]
  intro s t h
  refine ⟨rfl, h.asked, fun _ => ⟨?_, hnext, ?_⟩⟩
  · exact ⟨rfl, h.same.keyInfo, h.same.authInfo, h.same.appId, h.same.localUrn⟩
  · simpa [h.out.1, h.out.2] using hsend

theorem validate_sim {users : Users} {context : Context} {u v : Mechname} (hu : u ≠ .plain)
    (hv : v ≠ .plain) {P : Work → Work → Prop} (hp : ∀ s t, P s t → Asked s t) :
    Sim P (sessionValidate x users u context >>= fun _ => pure (SaslState.finished true))
      (sessionValidate x users v context >>= fun _ => pure (SaslState.finished true))
      (Kept x) Asked := by
  have heq : validate x users u context = validate x users v context := by
    cases u <;> cases v <;> first | rfl | contradiction
  simp only [sessionValidate, heq, bind_assoc]
  refine Sim.modify Asked (fun s t h => ?_) (Sim.attempt (fun _ _ h => h) fun found => ?_)
  · exact congrArg (· ++ [context]) (hp s t h)
  · cases found with
    | none => exact Sim.pure fun s t h => ⟨rfl, h, by simp⟩
    | some user => exact fun s t h => ⟨rfl, h, by simp⟩

/-- 最初の段を過ぎた二つの mechanism は、同じ返事で歩調を揃えて進む。 -/
theorem step_sim (hser : ∀ cmd, (x.toVec cmd).isSome) {j b : ByteArray}
    (hc : x.cardCommand j = some (.readPICC b)) (users : Users) (rndA : ByteArray) :
    Sim Paired (FabFire.stepJson x users rndA (some j)) (FabFireBin.stepBin x users rndA (some b))
      (Kept x) Asked := by
  have he : ∀ s t, Paired s t → Asked s t := fun s t => Paired.asks
  unfold FabFire.stepJson FabFireBin.stepBin
  refine Sim.get fun s t hst => ?_
  rw [← hst.same.step]
  cases hs : s.mech.step with
  | new => exact absurd hs hst.opened
  | selectApp =>
    refine response_sim hc fun a => ?_
    exact Sim.ensure he (send_sim hser (by simp))
  | verifyMagic =>
    refine response_sim hc fun a => ?_
    refine Sim.ensure he (Sim.need he fun data => Sim.ensure he (Sim.get fun s t hst => ?_))
    dsimp only
    rw [hst.same.localUrn]
    exact send_sim hser (by simp)
  | getURN =>
    refine response_sim hc fun a => ?_
    refine Sim.ensure he (Sim.need he fun data => Sim.need he fun urn => Sim.get fun s t hst => ?_)
    dsimp only
    rw [hst.same.localUrn]
    exact Sim.ensure he (send_sim hser (by simp))
  | getToken =>
    refine response_sim hc fun a => ?_
    refine Sim.ensure he (Sim.need he fun data => Sim.need he fun token => Sim.attempt he fun key => ?_)
    refine Sim.modify Paired (fun s t h => ?_) (Sim.get fun s t hst => ?_)
    · exact ⟨⟨h.same.step, rfl, h.same.authInfo, h.same.appId, h.same.localUrn⟩, h.opened, h.asked,
        h.out⟩
    · rw [hst.same.keyInfo]
      exact Sim.need he fun keyInfo => send_sim hser (by simp)
  | authenticate1 =>
    refine response_sim hc fun a => ?_
    refine Sim.ensure he (Sim.need he fun rndBEnc => Sim.get fun s t hst => ?_)
    rw [hst.same.keyInfo]
    refine Sim.need he fun keyInfo => Sim.need he fun cmd => ?_
    refine Sim.modify Paired (fun s t h => ?_) (send_sim hser (by simp))
    exact ⟨⟨h.same.step, h.same.keyInfo, rfl, h.same.appId, h.same.localUrn⟩, h.opened, h.asked,
      h.out⟩
  | authenticate2 =>
    refine response_sim hc fun a => ?_
    refine Sim.ensure he (Sim.need he fun data => Sim.get fun s t hst => ?_)
    rw [hst.same.authInfo]
    refine Sim.need he fun authInfo => Sim.get fun s t hst => ?_
    rw [hst.same.keyInfo]
    refine Sim.need he fun keyInfo => ?_
    split
    · obtain ⟨sendBuf, hsend⟩ :=
        Option.isSome_iff_exists.mp (hser (.message (some 4) none (some "")))
      dsimp only
      rw [hsend]
      -- X-FABFIRE だけが message を書き、段を戻す
      refine fun s t h => validate_sim (by simp) (by simp) (P := Asked) (fun _ _ h => h) _ t ?_
      exact h.asked
    · exact Sim.pure fun s t h => ⟨rfl, h.asked, by simp⟩

/-! ## 実行 -/

theorem outcomes_agree (hser : ∀ cmd, (x.toVec cmd).isSome) {js bs : List Input}
    (h : List.Forall₂ (Carries x) js bs) {f g : FabFire} (hsame : Same f g) (hopen : f.step ≠ .new) :
    List.Forall₂ (Agrees x) (outcomes (FabFire.stepJson x) f js)
      (outcomes (FabFireBin.stepBin x) g bs) := by
  induction h generalizing f g with
  | nil => exact .nil
  | @cons j b js bs hjb _ ih =>
    have hpair : Paired (Work.start f none) (Work.start g none) :=
      ⟨hsame, hopen, rfl, rfl, rfl⟩
    have hstep := step_sim hser hjb.data b.users b.rndA _ _ hpair
    simp only [outcomes, hjb.users, hjb.rndA]
    cases hj : FabFire.stepJson x b.users b.rndA (some j.data) (Work.start f none) with
    | ok r s =>
      cases hb : FabFireBin.stepBin x b.users b.rndA (some b.data) (Work.start g none) with
      | ok r' t =>
        rw [hj, hb] at hstep
        -- 二つは同じように成功する。続くなら、次の入力でも `Paired` から始まる
        obtain ⟨rfl, hasked, hrun⟩ := hstep
        cases r with
        | running =>
          obtain ⟨hsame', hopen', hout⟩ := hrun rfl
          have hgo : Agrees x (.running s.out s.asked) (.running t.out t.asked) := by
            rw [show s.asked = t.asked from hasked]
            exact .running hout _
          exact .cons hgo (ih hsame' hopen')
        | finished sent =>
          have hfin : Agrees x (.finished s.asked) (.finished t.asked) := by
            rw [show s.asked = t.asked from hasked]
            exact .finished _
          exact .cons hfin .nil
      | error e t =>
        rw [hj, hb] at hstep
        exact hstep.elim
    | error e s =>
      cases hb : FabFireBin.stepBin x b.users b.rndA (some b.data) (Work.start g none) with
      | ok r' t =>
        rw [hj, hb] at hstep
        exact hstep.elim
      | error e' t =>
        rw [hj, hb] at hstep
        have hfail : Agrees x (.failed s.asked) (.failed t.asked) := by
          rw [show s.asked = t.asked from hstep]
          exact .failed _
        exact .cons hfail .nil

/-- 最初の入力を受け取った二つの mechanism は、`card_info` のほかは同じで、まだ認証を求めていない。 -/
theorem opened_same {urn : String} {i k : Input} {s t : Work}
    (hj : FabFire.stepJson x i.users i.rndA (some i.data) (Work.start { localUrn := urn } none) =
      .ok .running s)
    (hb : FabFireBin.stepBin x k.users k.rndA (some k.data) (Work.start { localUrn := urn } none) =
      .ok .running t) :
    Same s.mech t.mech ∧ s.mech.step ≠ .new ∧ s.asked = t.asked ∧
      x.toVec (.sendPICC t.out) = some s.out := by
  rw [← Wire.step_json] at hj
  rw [← Wire.step_binary] at hb
  cases Wire.step_advance hj with
  | @new info sendBuf _ _ hsend =>
    cases Wire.step_advance hb with
    | @new info' sendBuf' _ hinfo' hsend' =>
      cases hinfo'
      have hmech : ∀ f : FabFire, Same { f.noted info with step := .selectApp }
          { f with step := .selectApp } := by
        intro f
        cases info <;> exact ⟨rfl, rfl, rfl, rfl, rfl⟩
      refine ⟨hmech _, by simp [Work.sent], rfl, ?_⟩
      obtain ⟨buf, hbuf, hsend'⟩ := Option.bind_eq_some_iff.mp hsend'
      cases hsend'
      rw [show (x.selectApplicationCmd (Work.start { localUrn := urn } none).mech.appId) =
        some sendBuf' from hbuf] at hsend
      simpa [Work.sent, Work.start, Wire.json] using hsend
    | _ => contradiction
  | _ => contradiction

/--
同じ `local_urn` から始め、最初の入力をともに受け取った二つの mechanism に、
同じ card の返事・乱数・user database を与える。どの返事の列でも、各回の結果は一致する。
ともに続いて同じ命令を書くか、ともに失敗するか、ともに終わり、そのどの回でも `validate` に渡す `AuthId` は
同じである。
-/
theorem json_binary_agree (x : Crates) (hser : ∀ cmd, (x.toVec cmd).isSome) (urn : String)
    (first first' : Input) (s t : Work)
    (hj : FabFire.stepJson x first.users first.rndA (some first.data)
      (Work.start { localUrn := urn } none) = .ok .running s)
    (hb : FabFireBin.stepBin x first'.users first'.rndA (some first'.data)
      (Work.start { localUrn := urn } none) = .ok .running t)
    (js bs : List Input) (h : List.Forall₂ (Carries x) js bs) :
    Agrees x (.running s.out s.asked) (.running t.out t.asked) ∧
    List.Forall₂ (Agrees x) (outcomes (FabFire.stepJson x) s.mech js)
      (outcomes (FabFireBin.stepBin x) t.mech bs) := by
  obtain ⟨hsame, hopen, hasked, hout⟩ := opened_same hj hb
  refine ⟨?_, outcomes_agree hser h hsame hopen⟩
  rw [hasked]
  exact .running hout _

/-- 大文字の 16 進。 -/
def hexUpper (data : ByteArray) : ByteArray :=
  let digit (n : UInt8) : UInt8 := if n < 10 then n + 0x30 else n + 0x37
  ⟨(data.data.toList.flatMap fun b => [digit (b / 16), digit (b % 16)]).toArray⟩

/-- reader に送る JSON。 -/
def cardJson : CardCommand → ByteArray
  | .message _ _ _ => "\x7b\"Cmd\":\"message\",\"MssgID\":4,\"AddnTxt\":\"\"\x7d".toUTF8
  | .sendPICC data => "\x7b\"Cmd\":\"sendPICC\",\"data\":\"".toUTF8 ++ hexUpper data ++ "\"\x7d".toUTF8
  | .readPICC data => "\x7b\"Cmd\":\"readPICC\",\"data\":\"".toUTF8 ++ hexUpper data ++ "\"\x7d".toUTF8
  | .haltPICC => "\x7b\"Cmd\":\"haltPICC\"\x7d".toUTF8
  | .key data => "\x7b\"Cmd\":\"Key\",\"data\":\"".toUTF8 ++ data.toUTF8 ++ "\"\x7d".toUTF8
  | .confirmUser => "\x7b\"Cmd\":\"ConfirmUser\"\x7d".toUTF8

/-- application を選ぶところまでの、実際の APDU と JSON。知っている返事は二つである。 -/
def selectCrates : Crates where
  hashEncoded := fun _ _ => ""
  verifyEncoded := fun _ _ => none
  hexEncode := fun _ => ""
  hexDecode := fun _ => none
  plain := fun _ => none
  selectApplicationCmd := fun aid =>
    some ⟨#[0x90, 0x5a, 0, 0, 3, aid.toUInt8, (aid >>> 8).toUInt8, (aid >>> 16).toUInt8, 0]⟩
  readDataChunkCmd := fun fileId _ length =>
    some ⟨#[0x90, 0xbd, 0, 0, 7, fileId, 0, 0, 0, length.toUInt8, 0, 0, 0]⟩
  authenticateIsoAesChallengeCmd := fun keyId => some ⟨#[0x90, 0xaa, 0, 0, 1, keyId, 0]⟩
  authenticateIsoAesResponseCmd := fun _ _ _ => none
  authenticateIsoAesVerify := fun _ _ _ _ _ => false
  maxBytesPerTransaction := 47
  apduResponse := fun data =>
    let status := data.extract (data.size - 2) data.size
    let body := data.extract 0 (data.size - 2)
    ⟨status == ⟨#[0x91, 0x00]⟩, if body.size = 0 then none else some body⟩
  cardInfo := fun buf =>
    if buf == "\x7b\"UID\":\"04a1b2c3d4e5f6\",\"keyOld\":null,\"keyNew\":null\x7d".toUTF8 then
      some ⟨⟨#[0x04, 0xa1, 0xb2, 0xc3, 0xd4, 0xe5, 0xf6]⟩, none, none⟩
    else none
  cardCommand := fun buf =>
    [⟨#[0x91, 0x00]⟩, ⟨#[0x41, 0x91, 0x00]⟩].findSome? fun data =>
      if buf == cardJson (.readPICC data) then some (.readPICC data) else none
  toVec := fun cmd => some (cardJson cmd)

/-- card を置いたことを知らせる最初の入力。 -/
def cardPlaced : Input :=
  ⟨"\x7b\"UID\":\"04a1b2c3d4e5f6\",\"keyOld\":null,\"keyNew\":null\x7d".toUTF8, ByteArray.empty, ⟨∅⟩⟩

/-- application を選べたが、MAGIC が違う card の返事。 -/
def wrongMagic (wrap : ByteArray → ByteArray) : List Input :=
  [⟨wrap ⟨#[0x91, 0x00]⟩, ByteArray.empty, ⟨∅⟩⟩, ⟨wrap ⟨#[0x41, 0x91, 0x00]⟩, ByteArray.empty, ⟨∅⟩⟩]

/-- 続いた一歩の後の状態。 -/
def ranOn : EStateM.Result Failure Work SaslState → Option Work
  | .ok .running s => some s
  | .ok (.finished _) _ => none
  | .error _ _ => none

theorem ranOn_eq_some {r : EStateM.Result Failure Work SaslState} {s : Work}
    (h : ranOn r = some s) : r = .ok .running s := by
  cases r with
  | error e s' => cases h
  | ok r s' =>
    cases r with
    | finished sent => cases h
    | running =>
      cases h
      rfl

theorem json_binary_agree_wrongMagic :
    ∃ s t, List.Forall₂ (Agrees selectCrates)
      (outcomes (FabFire.stepJson selectCrates) s (wrongMagic fun data => cardJson (.readPICC data)))
      (outcomes (FabFireBin.stepBin selectCrates) t (wrongMagic id)) := by
  have hjson : (ranOn (FabFire.stepJson selectCrates cardPlaced.users cardPlaced.rndA
      (some cardPlaced.data)
      (Work.start { localUrn := "urn:fabaccess:lab:generic" } none))).isSome := by decide
  have hbinary : (ranOn (FabFireBin.stepBin selectCrates cardPlaced.users cardPlaced.rndA
      (some cardPlaced.data)
      (Work.start { localUrn := "urn:fabaccess:lab:generic" } none))).isSome := by decide
  obtain ⟨s, hs⟩ := Option.isSome_iff_exists.mp hjson
  obtain ⟨t, ht⟩ := Option.isSome_iff_exists.mp hbinary
  refine ⟨s.mech, t.mech, (json_binary_agree selectCrates (fun _ => rfl) _ cardPlaced cardPlaced s t
    (ranOn_eq_some hs) (ranOn_eq_some ht) _ _ ?_).2⟩
  exact .cons ⟨by decide, rfl, rfl⟩ (.cons ⟨by decide, rfl, rfl⟩ .nil)

end FabAccess.Authentication
