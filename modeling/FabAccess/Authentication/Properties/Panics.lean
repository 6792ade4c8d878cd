import FabAccess.Authentication.Callbacks
import FabAccess.Authentication.Properties.Twins
import FabAccess.Infra.Run

/-!
# card の認証と panic

FabFire の `step` には `unwrap` が散らばっている。`key_info` と `auth_info` への `unwrap` は、段と
そこまでに書いた field を結ぶ不変条件 `FabFire.Ready` で守られている。card の data への `unwrap` は、
card が送る byte 列によっては panic する。

* `stepWith_ready` — 一歩が、成功しても失敗しても `Ready` を保つ
* `fails_stepWith_iff` — 一歩が panic するのは、`Wire.Panics` のとき、そのときに限る
* `card_panics_iff` — 呼び出しの列の全体
-/

namespace FabAccess.Authentication

open FabAccess.Infra

/-- 一回の `step` に与えるもの。 -/
structure StepInput where
  callbacks : Callbacks
  rndA : ByteArray
  input : Option ByteArray

/-- `step` を一度呼ぶ。panic しなければ、`Ok` でも `Err` でも、変わった mechanism が残る。 -/
def callStep (step : Callbacks → ByteArray → Option ByteArray → Mech SaslState) (f : FabFire)
    (i : StepInput) : Option FabFire :=
  match step i.callbacks i.rndA i.input (Work.start f none) with
  | .ok _ s => some s.mech
  | .error .panic _ => none
  | .error _ s => some s.mech

/-- 段に要る field が書かれている。 -/
structure FabFire.Ready (f : FabFire) : Prop where
  keyInfo : f.step = .authenticate1 ∨ f.step = .authenticate2 → f.keyInfo.isSome
  authInfo : f.step = .authenticate2 → f.authInfo.isSome

variable (x : Crates) (w : Wire)

/-- 入力の中の、成功を表す返事の中身。 -/
def Wire.content (input : Option ByteArray) : Option ByteArray :=
  (input.bind (w.reply x)).bind fun a => if a.check then a.body else none

/-- 次の `step` は panic する。 -/
inductive Wire.Panics (f : FabFire) (i : StepInput) : Prop where
  /-- URN の file が UTF-8 でない -/
  | urn {data : ByteArray} (hs : f.step = .getURN) (hdata : w.content x i.input = some data)
    (hutf8 : String.fromUTF8? data = none)
  /-- token の file が UTF-8 でない -/
  | token {data : ByteArray} (hs : f.step = .getToken) (hdata : w.content x i.input = some data)
    (hutf8 : String.fromUTF8? data = none)
  /-- key を求められた callback が自ら panic する -/
  | cardKey {data : ByteArray} {token : String} (hs : f.step = .getToken)
    (hdata : w.content x i.input = some data) (htoken : String.fromUTF8? data = some token)
    (hcb : i.callbacks.cardKey ⟨some (trimNul token), none, none⟩ = .error .panic)
  /-- card の乱数か key の長さが違い、desfire が誤りを返す -/
  | challenge {data : ByteArray} {keyInfo : KeyInfo} (hs : f.step = .authenticate1)
    (hdata : w.content x i.input = some data) (hkey : f.keyInfo = some keyInfo)
    (hcmd : x.authenticateIsoAesResponseCmd data keyInfo.key i.rndA = none)
  /-- 照合の後、user を求められた callback が自ら panic する -/
  | validate {data : ByteArray} {keyInfo : KeyInfo} {authInfo : AuthInfo}
    (hs : f.step = .authenticate2) (hdata : w.content x i.input = some data)
    (hauth : f.authInfo = some authInfo) (hkey : f.keyInfo = some keyInfo)
    (hverify : x.authenticateIsoAesVerify data authInfo.rndA authInfo.rndB keyInfo.key
      authInfo.iv = true)
    (hsent : w.completed ≠ some none)
    (hcb : i.callbacks.validate ⟨some keyInfo.authid, none, none⟩ = .error .panic)

namespace Wire

variable {x w} {s s' : Work} {input : Option ByteArray} {e : APDUResponse → FabFireError}

/-! ## 部品 -/

theorem fails_response {f : APDUResponse → Mech SaslState} :
    Fails (w.response x input >>= f) s .panic ↔
      ∃ a, input.bind (w.reply x) = some a ∧ Fails (f a) s .panic := by
  unfold response
  simp only [bind_assoc, fails_need, reduceCtorEq, and_false, false_or, Option.bind_eq_some_iff]
  constructor
  · rintro ⟨buf, rfl, hrest⟩
    cases h : w.receive buf with
    | ok data =>
      rw [h] at hrest
      exact ⟨_, ⟨buf, rfl, by rw [reply, h]⟩, hrest⟩
    | error e =>
      rw [h] at hrest
      obtain ⟨_, heq⟩ := hrest
      cases heq
  · rintro ⟨a, ⟨buf, hbuf, hreply⟩, hrest⟩
    refine ⟨buf, hbuf, ?_⟩
    unfold reply at hreply
    cases h : w.receive buf with
    | ok data =>
      rw [h] at hreply
      cases hreply
      exact hrest
    | error e =>
      rw [h] at hreply
      cases hreply

theorem fails_payload {f : ByteArray → Mech SaslState} :
    Fails (w.payload x e input >>= f) s .panic ↔
      ∃ data, w.content x input = some data ∧ Fails (f data) s .panic := by
  simp only [payload, bind_assoc, fails_response, fails_ensure, fails_need, reduceCtorEq, and_false,
    false_or, content, Option.bind_eq_some_iff]
  constructor
  · rintro ⟨a, hreply, hcheck, data, hbody, hrest⟩
    exact ⟨data, ⟨a, hreply, by rw [if_pos hcheck, hbody]⟩, hrest⟩
  · rintro ⟨data, ⟨a, hreply, hbody⟩, hrest⟩
    split at hbody
    · next hcheck => exact ⟨a, hreply, hcheck, data, hbody, hrest⟩
    · cases hbody

theorem fails_sendCmd {cmd : Option ByteArray} {next : Step} :
    ¬ Fails (w.sendCmd cmd next) s .panic := by
  simp only [sendCmd, modifySelf, writeAll, fails_need, fails_modify, fails_pure, reduceCtorEq,
    and_false, exists_false, or_self, not_false_eq_true]

theorem fails_sessionValidate {cb : Callbacks} {context : Context} {r : SaslState} :
    Fails (sessionValidateWith cb context >>= fun _ => pure r) s .panic ↔
      cb.validate context = .error .panic := by
  simp only [sessionValidateWith, bind_assoc, fails_modify, fails_attempt, or_iff_left_iff_imp]
  rintro ⟨found, _, hrest⟩
  cases found with
  | none => exact absurd hrest fails_pure
  | some user => exact absurd hrest fails_pure

theorem fails_complete {f : Unit → Mech SaslState} {P : Prop}
    (hf : ∀ s, Fails (f ()) s .panic ↔ P) :
    Fails (w.complete >>= f) s .panic ↔ w.completed ≠ some none ∧ P := by
  unfold complete
  cases hc : w.completed with
  | none => simp only [pure_bind, hf, ne_eq, reduceCtorEq, not_false_eq_true, true_and]
  | some cmd =>
    cases cmd with
    | none =>
      simp only [bind_assoc, fails_need, reduceCtorEq, and_false, false_and, exists_false, or_self,
        ne_eq, not_true_eq_false]
    | some buf =>
      simp only [bind_assoc, modifySelf, writeAll, fails_need, fails_modify, hf, reduceCtorEq,
        false_and, false_or, Option.some.injEq, exists_eq_left', ne_eq, not_false_eq_true, true_and]

/-! ## 一歩 -/

variable {cb : Callbacks} {rndA : ByteArray} {f : FabFire}

/-- 段に要る field があれば、一歩が panic するのは `Panics` のとき、そのときに限る。 -/
theorem fails_stepWith_iff (hr : f.Ready) :
    Fails (w.stepWith x cb rndA input) (Work.start f none) .panic ↔
      w.Panics x f ⟨cb, rndA, input⟩ := by
  unfold stepWith
  rw [fails_get]
  simp only [Work.start]
  cases hs : f.step with
  -- はじめの三つの段に、panic する `unwrap` は無い
  | new =>
    simp only [modifySelf, fails_need, fails_get, fails_modify, fails_sendCmd, reduceCtorEq,
      and_false, exists_false, or_self, false_iff]
    intro h
    cases h <;> simp_all
  | selectApp =>
    simp only [fails_response, fails_ensure, fails_sendCmd, reduceCtorEq, and_false, exists_false,
      or_self, false_iff]
    intro h
    cases h <;> simp_all
  | verifyMagic =>
    simp only [fails_payload, fails_ensure, fails_get, fails_sendCmd, reduceCtorEq, and_false,
      exists_false, or_self, false_iff]
    intro h
    cases h <;> simp_all
  | getURN =>
    simp only [fails_get, fails_payload, fails_need, fails_ensure, fails_sendCmd, reduceCtorEq,
      and_false, exists_false, or_self, or_false, and_true]
    constructor
    · rintro ⟨data, hdata, hutf8⟩
      exact .urn hs hdata hutf8
    · intro h
      cases h with
      | urn _ hdata hutf8 => exact ⟨_, hdata, hutf8⟩
      | _ => simp_all
  | getToken =>
    simp only [modifySelf, fails_get, fails_payload, fails_need, fails_attempt, fails_modify,
      fails_sendCmd, reduceCtorEq, and_false, exists_false, or_self, or_false, and_true]
    constructor
    · rintro ⟨data, hdata, hutf8 | ⟨token, htoken, hcb⟩⟩
      · exact .token hs hdata hutf8
      · exact .cardKey hs hdata htoken hcb
    · intro h
      cases h with
      | token _ hdata hutf8 => exact ⟨_, hdata, Or.inl hutf8⟩
      | cardKey _ hdata htoken hcb => exact ⟨_, hdata, Or.inr ⟨_, htoken, hcb⟩⟩
      | _ => simp_all
  | authenticate1 =>
    obtain ⟨keyInfo, hkey⟩ := Option.isSome_iff_exists.mp (hr.keyInfo (Or.inl hs))
    simp only [modifySelf, hkey, fails_get, fails_payload, fails_need, fails_modify, fails_sendCmd,
      reduceCtorEq, and_false, exists_false, or_false, and_true, false_or, Option.some.injEq,
      exists_eq_left']
    constructor
    · rintro ⟨data, hdata, hcmd⟩
      exact .challenge hs hdata hkey hcmd
    · intro h
      cases h with
      | challenge _ hdata hkey' hcmd =>
        rw [hkey] at hkey'
        cases hkey'
        exact ⟨_, hdata, hcmd⟩
      | _ => simp_all
  | authenticate2 =>
    obtain ⟨keyInfo, hkey⟩ := Option.isSome_iff_exists.mp (hr.keyInfo (Or.inr hs))
    obtain ⟨authInfo, hauth⟩ := Option.isSome_iff_exists.mp (hr.authInfo hs)
    simp only [hkey, hauth, fails_get, fails_payload, fails_need, reduceCtorEq, and_false, and_true,
      false_or, Option.some.injEq, exists_eq_left']
    constructor
    · rintro ⟨data, hdata, hrest⟩
      split at hrest
      · next hverify =>
        obtain ⟨hsent, hcb⟩ := (fails_complete fun s => fails_sessionValidate).mp hrest
        exact .validate hs hdata hauth hkey hverify hsent hcb
      · exact absurd hrest fails_pure
    · intro h
      cases h with
      | validate _ hdata hauth' hkey' hverify hsent hcb =>
        rw [hkey] at hkey'
        rw [hauth] at hauth'
        cases hkey'
        cases hauth'
        refine ⟨_, hdata, ?_⟩
        rw [if_pos hverify]
        exact (fails_complete fun s => fails_sessionValidate).mpr ⟨hsent, hcb⟩
      | _ => simp_all

/-! ## `Ready` -/

section Meets

variable {P Q : Work → Prop} {α : Type} {R : α → Work → Prop}

theorem meets_response (he : ∀ s, P s → Q s) {f : APDUResponse → Mech α}
    (h : ∀ a, Meets P (f a) R Q) : Meets P (w.response x input >>= f) R Q := by
  simp only [response, bind_assoc]
  refine Meets.need he fun buf _ => ?_
  cases w.receive buf with
  | ok data => exact h _
  | error e => exact he

theorem meets_payload (he : ∀ s, P s → Q s) {f : ByteArray → Mech α}
    (h : ∀ data, Meets P (f data) R Q) : Meets P (w.payload x e input >>= f) R Q := by
  simp only [payload, bind_assoc]
  exact meets_response he fun a => Meets.ensure he (Meets.need he fun data _ => h data)

/-- 送れても送れなくても `Ready` なら、送る一歩は `Ready` を保つ。 -/
theorem meets_sendCmd {cmd : Option ByteArray} {next : Step} (hold : ∀ s, P s → s.mech.Ready)
    (hnext : ∀ s, P s → FabFire.Ready { s.mech with step := next }) :
    Meets P (w.sendCmd cmd next) (fun _ s => s.mech.Ready) (fun s => s.mech.Ready) := by
  unfold sendCmd
  refine Meets.need hold fun buf _ => Meets.need hold fun sendBuf _ => ?_
  exact fun s hs => hnext s hs

/-- 書く message があれば、段は `Authenticate1` に戻る。 -/
theorem meets_complete (hold : ∀ s, P s → s.mech.Ready)
    (hnext : ∀ s, P s → FabFire.Ready { s.mech with step := .authenticate1 })
    {f : Unit → Mech α}
    (h : Meets (fun s => s.mech.Ready) (f ()) R (fun s => s.mech.Ready)) :
    Meets P (w.complete >>= f) R (fun s => s.mech.Ready) := by
  unfold complete
  cases w.completed with
  | none => exact fun s hs => h s (hold s hs)
  | some cmd =>
    simp only [bind_assoc]
    refine Meets.need hold fun sendBuf _ => ?_
    exact fun s hs => h _ (hnext s hs)

theorem meets_sessionValidate {context : Context} {r : SaslState} :
    Meets (fun s : Work => s.mech.Ready) (sessionValidateWith cb context >>= fun _ => pure r)
      (fun _ s => s.mech.Ready) (fun s => s.mech.Ready) := by
  simp only [sessionValidateWith, bind_assoc]
  refine Meets.modify (fun s => s.mech.Ready) (fun s hs => hs)
    (Meets.attempt (fun s hs => hs) fun found => ?_)
  cases found with
  | none => exact fun s hs => hs
  | some user => exact fun s hs => hs

end Meets

/-- 認証の段でなければ、書かれている field は要らない。 -/
theorem ready_of_step (h₁ : f.step ≠ .authenticate1) (h₂ : f.step ≠ .authenticate2) : f.Ready :=
  ⟨fun h => h.elim (absurd · h₁) (absurd · h₂), fun h => absurd h h₂⟩

/-- 一歩は、成功しても失敗しても `Ready` を保つ。 -/
theorem stepWith_ready :
    Meets (fun s : Work => s.mech.Ready) (w.stepWith x cb rndA input) (fun _ s => s.mech.Ready)
      (fun s => s.mech.Ready) := by
  unfold stepWith
  refine Meets.get fun s hr => ?_
  have he : ∀ t : Work, t = s → t.mech.Ready := by
    rintro t rfl
    exact hr
  cases hs : s.mech.step with
  | new =>
    refine Meets.need he fun buf _ => Meets.need he fun info _ => ?_
    refine Meets.modify (fun t => t.mech.Ready) ?_ (Meets.read fun t _ => ?_)
    · rintro t rfl
      cases info with
      | none => exact hr
      | some info => exact ⟨hr.keyInfo, hr.authInfo⟩
    · exact meets_sendCmd (fun _ h => h) fun _ _ => ready_of_step (by simp) (by simp)
  | selectApp =>
    refine meets_response he fun a => Meets.ensure he ?_
    exact meets_sendCmd he fun _ _ => ready_of_step (by simp) (by simp)
  | verifyMagic =>
    refine meets_payload he fun data => Meets.ensure he (Meets.read fun t _ => ?_)
    exact meets_sendCmd he fun _ _ => ready_of_step (by simp) (by simp)
  | getURN =>
    refine meets_payload he fun data => Meets.need he fun urn _ => Meets.read fun t _ => ?_
    exact Meets.ensure he (meets_sendCmd he fun _ _ => ready_of_step (by simp) (by simp))
  | getToken =>
    refine meets_payload he fun data => Meets.need he fun token _ => Meets.attempt he fun key => ?_
    -- key を覚えてからは、challenge の組み立てに失敗しても `key_info` は書かれたままである
    refine Meets.modify (fun t => t.mech.step = .getToken ∧ t.mech.keyInfo.isSome) ?_
      (Meets.read fun t _ => ?_)
    · rintro t rfl
      exact ⟨hs, rfl⟩
    · have hold : ∀ u : Work, u.mech.step = .getToken ∧ u.mech.keyInfo.isSome → u.mech.Ready :=
        fun u hu => ready_of_step (by simp [hu.1]) (by simp [hu.1])
      exact Meets.need hold fun keyInfo _ =>
        meets_sendCmd hold fun u hu => ⟨fun _ => hu.2, fun h => by cases h⟩
  | authenticate1 =>
    refine meets_payload he fun data => Meets.read fun t ht => ?_
    refine Meets.need he fun keyInfo hkey => Meets.need he fun cmd _ => ?_
    refine Meets.modify (fun u => u.mech.step = .authenticate1 ∧ u.mech.keyInfo.isSome ∧
      u.mech.authInfo.isSome) ?_ (meets_sendCmd ?_ ?_)
    · rintro u rfl
      exact ⟨hs, by rw [← ht, hkey]; rfl, rfl⟩
    · rintro u ⟨hstep, hkey', _⟩
      exact ⟨fun _ => hkey', fun h => by rw [hstep] at h; cases h⟩
    · rintro u ⟨_, hkey', hauth⟩
      exact ⟨fun _ => hkey', fun _ => hauth⟩
  | authenticate2 =>
    refine meets_payload he fun data => Meets.read fun t _ => Meets.need he fun authInfo _ => ?_
    refine Meets.read fun u hu => Meets.need he fun keyInfo hkey => ?_
    split
    · refine meets_complete he ?_ meets_sessionValidate
      rintro v rfl
      exact ⟨fun _ => by rw [← hu, hkey]; rfl, fun h => by cases h⟩
    · exact Meets.pure he

end Wire

/-! ## 呼び出しの列 -/

section Run

variable {x : Crates} {w : Wire} {urn : String} {inputs : List StepInput} {f f' : FabFire}
  {i : StepInput}

theorem callStep_isSome_iff {step : Callbacks → ByteArray → Option ByteArray → Mech SaslState} :
    (callStep step f i).isSome ↔
      ¬ Fails (step i.callbacks i.rndA i.input) (Work.start f none) .panic := by
  unfold callStep Fails
  cases step i.callbacks i.rndA i.input (Work.start f none) with
  | ok r s => simp
  | error e s => cases e <;> simp

theorem callStep_ready (hr : f.Ready) (h : callStep (w.stepWith x) f i = some f') : f'.Ready := by
  have hmeets : Meets (fun s : Work => s.mech.Ready) (w.stepWith x i.callbacks i.rndA i.input)
    (fun _ s => s.mech.Ready) (fun s => s.mech.Ready) := Wire.stepWith_ready
  have hend := hmeets (Work.start f none) hr
  unfold callStep at h
  split at h
  · next heq =>
    rw [heq] at hend
    cases h
    exact hend
  · cases h
  · next heq =>
    rw [heq] at hend
    cases h
    exact hend

theorem start_ready (urn : String) : FabFire.Ready { localUrn := urn } :=
  Wire.ready_of_step (by simp) (by simp)

/-- どの包み方でも、`Ready` はいつも成り立ち、panic するのは `Panics` のときだけである。 -/
theorem Wire.run_panics_iff :
    (∀ f, Visited (callStep (w.stepWith x)) { localUrn := urn } inputs f → f.Ready) ∧
    ((runFrom (callStep (w.stepWith x)) { localUrn := urn } inputs).isSome ↔
      ∀ f i, StepsFrom (callStep (w.stepWith x)) { localUrn := urn } inputs f i →
        ¬ w.Panics x f i) := by
  have hready : ∀ f, Visited (callStep (w.stepWith x)) { localUrn := urn } inputs f → f.Ready :=
    fun f hv => visited_invariant (P := FabFire.Ready) (fun _ _ _ => callStep_ready)
      (start_ready urn) hv
  refine ⟨hready, runFrom_isSome_iff.trans (forall₃_congr fun f i hstep => ?_)⟩
  obtain ⟨pre, post, heq, hpre⟩ := hstep
  rw [callStep_isSome_iff, Wire.fails_stepWith_iff (hready f ⟨pre, i :: post, heq, hpre⟩)]

end Run

/--
**card の認証は、`Panics` に当たる入力が無いとき、そのときに限り panic しない。**

どちらの mechanism でも、どの入力の列とどの callback についても、`Authenticate1` と
`Authenticate2` では `key_info` が、`Authenticate2` では `auth_info` が書かれている。だから残るのは
card の data と、それから計算したものへの `unwrap` である。
-/
theorem card_panics_iff (x : Crates) (urn : String) (inputs : List StepInput) :
    ((∀ f, Visited (callStep (FabFire.stepJsonWith x)) { localUrn := urn } inputs f → f.Ready) ∧
      ((runFrom (callStep (FabFire.stepJsonWith x)) { localUrn := urn } inputs).isSome ↔
        ∀ f i, StepsFrom (callStep (FabFire.stepJsonWith x)) { localUrn := urn } inputs f i →
          ¬ (Wire.json x).Panics x f i)) ∧
    (∀ f, Visited (callStep (FabFireBin.stepBinWith x)) { localUrn := urn } inputs f → f.Ready) ∧
      ((runFrom (callStep (FabFireBin.stepBinWith x)) { localUrn := urn } inputs).isSome ↔
        ∀ f i, StepsFrom (callStep (FabFireBin.stepBinWith x)) { localUrn := urn } inputs f i →
          ¬ Wire.binary.Panics x f i) := by
  rw [← Wire.stepWith_json, ← Wire.stepWith_binary]
  exact ⟨Wire.run_panics_iff, Wire.run_panics_iff⟩

/-- URN の file に UTF-8 でない一 byte を返す card。 -/
def badUrn (wrap : ByteArray → ByteArray) : List ByteArray :=
  [cardPlaced.data, wrap ⟨#[0x91, 0x00]⟩, wrap (magic.toUTF8 ++ ⟨#[0x91, 0x00]⟩),
    wrap ⟨#[0xff, 0x91, 0x00]⟩]

/-- `badUrn` の JSON も読める crate。 -/
def badUrnCrates : Crates :=
  { selectCrates with
    cardCommand := fun buf =>
      [⟨#[0x91, 0x00]⟩, magic.toUTF8 ++ ⟨#[0x91, 0x00]⟩, ⟨#[0xff, 0x91, 0x00]⟩].findSome?
        fun data => if buf == cardJson (.readPICC data) then some (.readPICC data) else none }

/-- 登録された user がいないときの、この server の callback での入力の列。 -/
def fed (mech : Mechname) (l : List ByteArray) : List StepInput :=
  l.map fun data => ⟨.bffh badUrnCrates ⟨∅⟩ mech, ByteArray.empty, some data⟩

/-- UTF-8 でない URN を返す card は、どちらの mechanism も panic させる。 -/
theorem bad_urn_panics :
    runFrom (callStep (FabFire.stepJsonWith badUrnCrates)) FabFire.newServer
      (fed .fabFire (badUrn fun data => cardJson (.readPICC data))) = none ∧
    runFrom (callStep (FabFireBin.stepBinWith badUrnCrates)) (FabFire.newServerBin none)
      (fed .fabFireBin (badUrn id)) = none :=
  ⟨by decide +kernel, by decide +kernel⟩

end FabAccess.Authentication
