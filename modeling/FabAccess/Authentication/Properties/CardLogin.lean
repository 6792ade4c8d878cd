import FabAccess.Authentication.Properties.Soundness
import FabAccess.Authentication.Properties.Twins
import FabAccess.Users.Api

/-!
# card の登録と card による認証

`bind` は token を `kv` に保存するが、認証は card の token をそのまま user の `id` として引く。

* `Wire.login_iff` — 登録した card での認証が登録した user で終わるのは、token が user の `id` に
  等しいとき、そのときに限る
-/

namespace FabAccess.Authentication

open FabAccess.Infra

variable {x : Crates}

/-! ## 正直な card とのやりとり -/

/-- 入力を続けて与える。最後の入力までに終わったり失敗したりすれば `none`。 -/
def exchange (step : Users → ByteArray → Option ByteArray → Mech SaslState) :
    Work → List Input → Option (SaslState × Work)
  | s, [] => some (.running, s)
  | s, i :: is =>
    match step i.users i.rndA (some i.data) (Work.start s.mech s.validation) with
    | .ok .running s' => exchange step s' is
    | .ok r s' => if is.isEmpty then some (r, s') else none
    | .error _ _ => none

/-- token の file は NUL で埋められている。 -/
def padded (token : String) (n : Nat) : String := token ++ String.ofList (List.replicate n '\x00')

variable (x) in
/-- 入力が、成功を表す card の返事として `body` を運んでいる。 -/
def Answers (w : Wire) (i : Input) (body : ByteArray) : Prop :=
  ∃ a, Replies x w i a ∧ a.body = some body

variable (x) in
/-- 正直な card との七つの入力。token の file を読ませ、`key` による照合に応じる。 -/
structure Honest (w : Wire) (urn token : String) (key : ByteArray) where
  placed : Input
  selected : Input
  magicFile : Input
  urnFile : Input
  tokenFile : Input
  challenge : Input
  response : Input
  /-- token の file を埋める NUL の数 -/
  pad : Nat
  rndBEnc : ByteArray
  rndB : ByteArray
  iv : ByteArray
  data : ByteArray
  cmd : ByteArray
  hplaced : (w.cardInfo placed.data).isSome
  hselected : ∃ a, Replies x w selected a
  hmagic : Answers x w magicFile magic.toUTF8
  hurn : Answers x w urnFile urn.toUTF8
  htoken : Answers x w tokenFile (padded token pad).toUTF8
  hchallenge : Answers x w challenge rndBEnc
  hcmd : x.authenticateIsoAesResponseCmd rndBEnc key challenge.rndA = some (some cmd, rndB, iv)
  hresponse : Answers x w response data
  hverify : x.authenticateIsoAesVerify data challenge.rndA rndB key iv = true

/-- token の file まで。 -/
def Honest.opening {w : Wire} {urn token : String} {key : ByteArray}
    (card : Honest x w urn token key) : List Input :=
  [card.placed, card.selected, card.magicFile, card.urnFile, card.tokenFile]

def Honest.inputs {w : Wire} {urn token : String} {key : ByteArray}
    (card : Honest x w urn token key) : List Input :=
  card.opening ++ [card.challenge, card.response]

variable (x) in
/-- desfire は命令を組み立てられる。 -/
structure Commands (urn : String) : Prop where
  select : (x.selectApplicationCmd 0x464142).isSome
  magic : (x.readDataChunkCmd 0x01 0 magic.utf8ByteSize).isSome
  urn : (x.readDataChunkCmd 0x02 0 urn.utf8ByteSize).isSome
  token : (x.readDataChunkCmd 0x03 0 x.maxBytesPerTransaction).isSome
  challenge : (x.authenticateIsoAesChallengeCmd 0x01).isSome

/-- 包んで送ることはできる。 -/
structure Wire.Sends (w : Wire) : Prop where
  send : ∀ buf, (w.send buf).isSome
  completed : ∀ cmd ∈ w.completed, cmd.isSome

/-- 登録した key での照合まで進み、登録した user で終わる。 -/
def LogsIn (step : Users → ByteArray → Option ByteArray → Mech SaslState) {w : Wire}
    {urn token : String} {key : ByteArray} (card : Honest x w urn token key) (user : User) : Prop :=
  (∃ s, exchange step (Work.start { localUrn := urn } none) card.opening = some (.running, s) ∧
    s.mech.step = .authenticate1 ∧ s.mech.keyInfo.map (·.key) = some key) ∧
  ∃ s, exchange step (Work.start { localUrn := urn } none) card.inputs = some (.finished true, s) ∧
    s.validation = some user

/-! ## token の読み方 -/

/-- 埋めるのは NUL だけである。 -/
theorem toList_padded (token : String) (n : Nat) :
    (padded token n).toList = token.toList ++ List.replicate n '\x00' := by
  simp [padded]

/-- 後ろに付けた NUL は、`trim_end_matches` で取り除かれる。 -/
theorem rdropWhile_append_replicate (l : List Char) (n : Nat) :
    (l ++ List.replicate n '\x00').rdropWhile (· == '\x00') = l.rdropWhile (· == '\x00') := by
  induction n with
  | zero => simp
  | succ n ih =>
    rw [List.replicate_succ', ← List.append_assoc, List.rdropWhile_concat_pos _ _ _ rfl, ih]

/-- NUL を含まない token は、埋めた file からそのまま読める。 -/
theorem trimNul_padded {token : String} (h : '\x00' ∉ token.toList) (n : Nat) :
    trimNul (padded token n) = token := by
  unfold trimNul
  rw [toList_padded]
  suffices hs : ((token.toList ++ List.replicate n '\x00').dropWhile (· == '\x00')).rdropWhile
      (· == '\x00') = token.toList by
    rw [hs, String.ofList_toList]
  generalize token.toList = l at h
  cases l with
  | nil => simp
  | cons c cs =>
    have hc : ¬ (c == '\x00') = true := by
      intro hc
      exact h (by simp [beq_iff_eq.mp hc])
    simp only [List.cons_append, List.dropWhile_cons, if_neg hc]
    rw [← List.cons_append, rdropWhile_append_replicate, List.rdropWhile_eq_self_iff]
    intro hne hlast
    exact h (beq_iff_eq.mp hlast ▸ List.getLast_mem hne)

/-- 文字列の UTF-8 は、その文字列に読み戻される。 -/
theorem fromUTF8?_toUTF8 (s : String) : String.fromUTF8? s.toUTF8 = some s := by
  unfold String.fromUTF8?
  exact dif_pos s.isValidUTF8

/-! ## 登録された key -/

variable {uid token : String} {key : ByteArray} {prev user : User} {users : Users}

/-- `bind` が書いた record には key がある。 -/
theorem cardkey_of_bindCard {tok : ByteArray}
    (h : bindCard x.toCodec uid tok key (some prev) = .put user) :
    user.userdata.kv.lookup "cardkey" = some (x.hexEncode key) := by
  have hput : user = prev.insertCard (tokenText x.toCodec tok) (x.hexEncode key) := by
    simp only [bindCard] at h
    split at h
    · split at h
      · cases h
      · split at h
        · cases h
        · cases h
          rfl
    · cases h
      rfl
  rw [hput]
  exact Finmap.lookup_insert _

/-- 登録された user の `id` を示せば、登録された key が返る。 -/
theorem callback_bound (hcard : user.userdata.kv.lookup "cardkey" = some (x.hexEncode key))
    (hhex : x.hexDecode (x.hexEncode key) = some key) (hkey : key.size = 16) (hne : uid ≠ "")
    (huser : users.getUser uid = some user) :
    callback x users ⟨some uid, none, none⟩ = .ok key := by
  have hempty : uid.isEmpty = false := by simpa using hne
  have hlookup : lookupUser users uid = .ok (some user) := by
    simp [lookupUser, hempty, huser]
  simp only [callback, hlookup, bind, Except.bind, hcard, hhex, if_pos hkey, pure, Except.pure]

/-! ## token が `id` に等しいとき -/

variable {w : Wire} {urn : String}

/-- 命令を書いて続く一歩の後から、残りの入力を与える。 -/
theorem exchange_sent {i : Input} {s : Work} {f : FabFire} {next : Step} {sendBuf : ByteArray}
    (h : w.Advance x i.users i.rndA i.data (Work.start s.mech s.validation) .running
      ((Work.start s.mech s.validation).sent f next sendBuf)) :
    ∃ s', s'.mech = { f with step := next } ∧ s'.validation = s.validation ∧
      ∀ is, exchange (w.step x) s (i :: is) = exchange (w.step x) s' is := by
  refine ⟨(Work.start s.mech s.validation).sent f next sendBuf, rfl, rfl, fun is => ?_⟩
  simp only [exchange, Wire.step_of_advance h]

/-- 送れるものは、送る形にできる。 -/
theorem Wire.Sends.bind_isSome (hw : w.Sends) {cmd : Option ByteArray} (h : cmd.isSome) :
    ∃ sendBuf, cmd.bind w.send = some sendBuf := by
  obtain ⟨buf, rfl⟩ := Option.isSome_iff_exists.mp h
  exact Option.isSome_iff_exists.mp (hw.send buf)

/-- 最後の知らせは送れる。 -/
theorem Wire.Sends.complete (hw : w.Sends) (s : Work) :
    ∃ s', w.complete s = .ok () s' := by
  cases hc : w.completed with
  | some cmd =>
    obtain ⟨sendBuf, rfl⟩ := Option.isSome_iff_exists.mp (hw.completed cmd hc)
    exact ⟨_, by simp only [Wire.complete, hc]; rfl⟩
  | none => exact ⟨s, by simp only [Wire.complete, hc]; rfl⟩

/-- card の mechanism では、いる user なら password を見ずに通る。 -/
theorem sessionValidate_card (hmech : w.mech ≠ .plain) (hne : uid ≠ "")
    (huser : users.getUser uid = some user) (s : Work) :
    ∃ s', sessionValidate x users w.mech ⟨some uid, none, none⟩ s = .ok () s' ∧
      s'.validation = some user := by
  have hempty : uid.isEmpty = false := by simpa using hne
  have hvalid : validate x users w.mech ⟨some uid, none, none⟩ = .ok (some user) := by
    cases hm : w.mech with
    | plain => exact absurd hm hmech
    | fabFire => simp [validate, lookupUser, hempty, huser]
    | fabFireBin => simp [validate, lookupUser, hempty, huser]
  simp only [sessionValidate, hvalid]
  exact ⟨_, rfl, rfl⟩

/-- token の file を読むと、`key` での照合を待つ。 -/
theorem Honest.exchange_opening (card : Honest x w urn token key) (hx : Commands x urn)
    (hw : w.Sends) (hnul : '\x00' ∉ token.toList)
    (hcallback : callback x card.tokenFile.users ⟨some token, none, none⟩ = .ok key) :
    ∃ s, s.mech.step = .authenticate1 ∧ s.mech.keyInfo = some ⟨token, 0x01, key⟩ ∧
      s.validation = none ∧
      ∀ is, exchange (w.step x) (Work.start { localUrn := urn } none) (card.opening ++ is) =
        exchange (w.step x) s is := by
  obtain ⟨info, hinfo⟩ := Option.isSome_iff_exists.mp card.hplaced
  obtain ⟨_, hselected⟩ := card.hselected
  obtain ⟨_, hmagicFile, hmagicBody⟩ := card.hmagic
  obtain ⟨_, hurnFile, hurnBody⟩ := card.hurn
  obtain ⟨_, htokenFile, htokenBody⟩ := card.htoken
  obtain ⟨_, hselect⟩ := hw.bind_isSome hx.select
  obtain ⟨_, hmagic⟩ := hw.bind_isSome hx.magic
  obtain ⟨_, hurn⟩ := hw.bind_isSome hx.urn
  obtain ⟨_, htoken⟩ := hw.bind_isSome hx.token
  obtain ⟨_, hchallenge⟩ := hw.bind_isSome hx.challenge
  have hlocal : ∀ f : FabFire, (f.noted info).localUrn = f.localUrn := by
    intro f
    cases info <;> rfl
  have hkey : callback x card.tokenFile.users
      ⟨some (trimNul (padded token card.pad)), none, none⟩ = .ok key := by
    rw [trimNul_padded hnul]
    exact hcallback
  -- select・MAGIC・URN・token・照合の順に一歩ずつ進める。`localUrn` はどの歩でも変わらない
  obtain ⟨s₁, hm₁, hv₁, he₁⟩ := exchange_sent (s := Work.start { localUrn := urn } none)
    (.new rfl hinfo hselect)
  have hu₁ : s₁.mech.localUrn = urn := by
    rw [hm₁]
    exact hlocal _
  obtain ⟨s₂, hm₂, hv₂, he₂⟩ := exchange_sent (s := s₁)
    (.selectApp (by rw [hm₁]; rfl) hselected.1 hselected.2 hmagic)
  have hu₂ : s₂.mech.localUrn = urn := by
    rw [hm₂]
    exact hu₁
  obtain ⟨s₃, hm₃, hv₃, he₃⟩ := exchange_sent (s := s₂)
    (.verifyMagic (by rw [hm₂]; rfl) hmagicFile.1 hmagicFile.2 hmagicBody
      (fromUTF8?_toUTF8 _) (hu₂ ▸ hurn))
  have hu₃ : s₃.mech.localUrn = urn := by
    rw [hm₃]
    exact hu₂
  obtain ⟨s₄, hm₄, hv₄, he₄⟩ := exchange_sent (s := s₃)
    (.getURN (by rw [hm₃]; rfl) hurnFile.1 hurnFile.2 hurnBody
      (hu₃ ▸ fromUTF8?_toUTF8 _) htoken)
  obtain ⟨s₅, hm₅, hv₅, he₅⟩ := exchange_sent (s := s₄)
    (.getToken (by rw [hm₄]; rfl) htokenFile.1 htokenFile.2 htokenBody
      (fromUTF8?_toUTF8 _) hkey hchallenge)
  refine ⟨s₅, by rw [hm₅], by rw [hm₅, trimNul_padded hnul], ?_, fun is => ?_⟩
  · rw [hv₅, hv₄, hv₃, hv₂, hv₁]
    rfl
  · exact (he₁ _).trans ((he₂ _).trans ((he₃ _).trans ((he₄ _).trans (he₅ _))))

/-- 照合に応じる card は、示した `id` の user で終わる。 -/
theorem Honest.exchange_closing (card : Honest x w urn token key) (hw : w.Sends)
    (hmech : w.mech ≠ .plain) (hne : uid ≠ "")
    (huser : card.response.users.getUser uid = some user) {s : Work}
    (hs : s.mech.step = .authenticate1) (hkey : s.mech.keyInfo = some ⟨uid, 0x01, key⟩) :
    ∃ s', exchange (w.step x) s [card.challenge, card.response] = some (.finished true, s') ∧
      s'.validation = some user := by
  obtain ⟨_, hchallenge, hrndBEnc⟩ := card.hchallenge
  obtain ⟨_, hresponse, hdata⟩ := card.hresponse
  obtain ⟨_, hcmd⟩ := hw.bind_isSome (rfl : (some card.cmd).isSome = true)
  obtain ⟨s₁, hm₁, hv₁, he₁⟩ := exchange_sent (s := s)
    (.authenticate1 hs hchallenge.1 hchallenge.2 hrndBEnc hkey card.hcmd hcmd)
  obtain ⟨s₂, hcomplete⟩ := hw.complete (Work.start s₁.mech s₁.validation)
  obtain ⟨s₃, hvalid, huser₃⟩ := sessionValidate_card (x := x) hmech hne huser s₂
  have hs₁ : s₁.mech.step = .authenticate2 := by rw [hm₁]
  have hauth₁ : s₁.mech.authInfo = some ⟨card.challenge.rndA, card.rndB, card.iv⟩ := by rw [hm₁]
  have hkey₁ : s₁.mech.keyInfo = some ⟨uid, 0x01, key⟩ := by
    rw [hm₁]
    exact hkey
  have hstep : w.step x card.response.users card.response.rndA (some card.response.data)
      (Work.start s₁.mech s₁.validation) = .ok (.finished true) s₃ :=
    Wire.step_of_advance (.verified hs₁ hresponse.1 hresponse.2 hdata hauth₁ hkey₁ card.hverify
      hcomplete hvalid)
  refine ⟨s₃, ?_, huser₃⟩
  rw [he₁]
  simp only [exchange, hstep, List.isEmpty_nil, if_true]

/-! ## 終わったときの user -/

/-- その段までに読んだ `AuthId`。 -/
def Stage.authid : Stage → Option String
  | .authenticate1 authid _ | .authenticate2 authid _ _ | .verified authid => some authid
  | _ => none

/-- その段までの入力の数。 -/
def Stage.position : Stage → Nat
  | .new => 0
  | .selectApp => 1
  | .verifyMagic => 2
  | .getURN => 3
  | .getToken => 4
  | .authenticate1 _ _ => 5
  | .authenticate2 _ _ _ => 6
  | .verified _ => 7

/-- やりとりの長さは、どこまで進んだかで決まる。 -/
theorem Exchange.length_eq {ins : List Input} {st : Stage} (h : Exchange x w urn ins st) :
    ins.length = st.position := by
  induction h with
  | start => rfl
  | _ => simp_all [Stage.position]

/-- `AuthId` は五つ目の入力にあった token である。 -/
theorem Exchange.authid_eq {ins : List Input} {st : Stage} (h : Exchange x w urn ins st)
    {authid : String} (hst : st.authid = some authid) :
    ∃ i a token, ins[4]? = some i ∧ Replies x w i a ∧ a.body = some token.toUTF8 ∧
      authid = trimNul token := by
  induction h with
  | start | new | selected | magic | urn => cases hst
  | @token ins i a token key h hreply hbody hkey ih =>
    cases hst
    have hlen : ins.length = 4 := h.length_eq
    exact ⟨i, a, token, by simp [← hlen], hreply, hbody, rfl⟩
  | @challenge ins i a authid' key rndBEnc rndB iv cmd h hreply hbody hcmd ih =>
    obtain ⟨j, b, token, hj, hb⟩ := ih hst
    have hlen : 4 < ins.length := by simp [h.length_eq, Stage.position]
    exact ⟨j, b, token, (List.getElem?_append_left hlen).trans hj, hb⟩
  | @verified ins i a authid' key data auth h hreply hbody hverify ih =>
    obtain ⟨j, b, token, hj, hb⟩ := ih hst
    have hlen : 4 < ins.length := by simp [h.length_eq, Stage.position]
    exact ⟨j, b, token, (List.getElem?_append_left hlen).trans hj, hb⟩

/-- 最後まで進んだやりとりの user は、その手順を経て、最後の入力の database にいる。 -/
theorem exchange_finished (hmech : w.mech ≠ .plain) {is : List Input} :
    ∀ {ins : List Input} {s s' : Work} {sent : Bool}, Following x w urn ins s →
      exchange (w.step x) s is = some (.finished sent, s') → s'.validation = some user →
      ∃ authid, Exchange x w urn (ins ++ is) (.verified authid) ∧
        ∃ i ∈ is, i.users.getUser authid = some user := by
  induction is with
  | nil =>
    intro ins s s' sent _ h
    cases h
  | cons i is ih =>
    intro ins s s' sent hf h huser
    have hf' : Following x w urn ins (Work.start s.mech s.validation) :=
      ⟨hf.located, hf.validation, hf.stage⟩
    simp only [exchange] at h
    cases hstep : w.step x i.users i.rndA (some i.data) (Work.start s.mech s.validation) with
    | error e s₁ =>
      rw [hstep] at h
      cases h
    | ok r s₁ =>
      rw [hstep] at h
      rcases Wire.exchange_step hmech hf' hstep with ⟨rfl, hf₁⟩ | ⟨sent', rfl, hend⟩
      · obtain ⟨authid, hex, j, hj, hget⟩ := ih hf₁ h huser
        rw [List.append_assoc] at hex
        exact ⟨authid, hex, j, List.mem_cons_of_mem _ hj, hget⟩
      -- 終わった後に入力が残っていれば、やりとりは最後まで進んでいない
      · simp only [List.isEmpty_iff] at h
        split at h
        · next hnil =>
          cases h
          obtain ⟨authid, hex, hget⟩ := hend user huser
          rw [hnil]
          exact ⟨authid, hex, i, by simp, hget⟩
        · cases h

/-- 正直な card で終わった user の `id` は、card の token である。 -/
theorem Honest.id_of_finished (card : Honest x w urn token key) (hmech : w.mech ≠ .plain)
    (hnul : '\x00' ∉ token.toList) (hkeyed : ∀ i ∈ card.inputs, i.users.Keyed) {s : Work}
    {sent : Bool}
    (h : exchange (w.step x) (Work.start { localUrn := urn } none) card.inputs =
      some (.finished sent, s))
    (huser : s.validation = some user) : user.id = token := by
  obtain ⟨authid, hex, i, hi, hget⟩ :=
    exchange_finished hmech (following_start w (f := { localUrn := urn }) rfl) h huser
  obtain ⟨j, a, token', hj, hreply, hbody, rfl⟩ := hex.authid_eq rfl
  cases hj
  obtain ⟨b, hb, hfile⟩ := card.htoken
  have ha : a = b := Option.some.inj (hreply.1.symm.trans hb.1)
  rw [ha, hfile, Option.some.injEq] at hbody
  have htok : padded token card.pad = token' := String.toByteArray_inj.mp hbody
  rw [← htok, trimNul_padded hnul] at hget
  exact hkeyed i hi token user hget

/-! ## まとめ -/

variable (x) in
/-- どの入力のときも、database には登録された record がそのまま残っている。 -/
def Honest.Untouched (card : Honest x w urn token key) (uid : String) (user : User) : Prop :=
  ∀ i ∈ card.inputs, i.users.Keyed ∧ i.users.getUser uid = some user

/-- その card でログインできるのは、card に書かれた token が user の id であるとき、そのときに限る。 -/
theorem Wire.login_iff (card : Honest x w urn token key) (hx : Commands x urn) (hw : w.Sends)
    (hmech : w.mech ≠ .plain)
    (hcard : user.userdata.kv.lookup "cardkey" = some (x.hexEncode key))
    (hhex : x.hexDecode (x.hexEncode key) = some key) (hkey : key.size = 16) (hne : token ≠ "")
    (hnul : '\x00' ∉ token.toList) (hdb : card.Untouched x uid user) :
    LogsIn (w.step x) card user ↔ token = uid := by
  constructor
  · rintro ⟨_, s, hfin, huser⟩
    have hid : user.id = token := card.id_of_finished hmech hnul (fun i hi => (hdb i hi).1) hfin huser
    have huid : user.id = uid := by
      obtain ⟨hkeyed, hget⟩ := hdb card.placed (by simp [Honest.inputs, Honest.opening])
      exact hkeyed uid user hget
    rw [← hid, huid]
  · rintro rfl
    have hget : ∀ i ∈ card.inputs, i.users.getUser token = some user := fun i hi => (hdb i hi).2
    obtain ⟨s, hs, hinfo, hval, hopen⟩ := card.exchange_opening hx hw hnul
      (callback_bound hcard hhex hkey hne (hget _ (by simp [Honest.inputs, Honest.opening])))
    refine ⟨⟨s, ?_, hs, by rw [hinfo]; rfl⟩, ?_⟩
    · have h := hopen []
      rwa [List.append_nil] at h
    · obtain ⟨s', hclose, huser⟩ := card.exchange_closing hw hmech hne
        (hget _ (by simp [Honest.inputs])) hs hinfo
      exact ⟨s', (hopen _).trans hclose, huser⟩

/--
`bind` が user `uid` に token と key を書き、その record が変わらないなら、正直な card でのやりとりが
その key で照合に進み、その user で終わるのは、token が `uid` に等しいとき、そのときに限る。
-/
theorem card_login_iff (x : Crates) (uid token urn : String) (key : ByteArray) (prev user : User)
    (hx : Commands x urn) (hser : ∀ cmd, (x.toVec cmd).isSome)
    (hhex : x.hexDecode (x.hexEncode key) = some key)
    (hbind : bindCard x.toCodec uid token.toUTF8 key (some prev) = .put user)
    (hkey : key.size = 16) (hne : token ≠ "") (hnul : '\x00' ∉ token.toList) :
    (∀ card : Honest x (Wire.json x) urn token key, card.Untouched x uid user →
      (LogsIn (FabFire.stepJson x) card user ↔ token = uid)) ∧
    (∀ card : Honest x Wire.binary urn token key, card.Untouched x uid user →
      (LogsIn (FabFireBin.stepBin x) card user ↔ token = uid)) := by
  have hcard := cardkey_of_bindCard hbind
  refine ⟨fun card hdb => ?_, fun card hdb => ?_⟩
  · have hw : (Wire.json x).Sends := by
      refine ⟨fun buf => hser _, ?_⟩
      intro cmd hcmd
      cases hcmd
      exact hser _
    rw [← Wire.step_json]
    exact Wire.login_iff card hx hw (by simp [Wire.json]) hcard hhex hkey hne hnul hdb
  · have hw : Wire.binary.Sends := by
      refine ⟨fun buf => rfl, ?_⟩
      intro cmd hcmd
      cases hcmd
    rw [← Wire.step_binary]
    exact Wire.login_iff card hx hw (by simp [Wire.binary]) hcard hhex hkey hne hnul hdb

/-! ## 実際の値での例 -/

/-- `hex::encode`。 -/
def hexLower (data : ByteArray) : String :=
  let digit (n : UInt8) : Char := Char.ofNat (if n < 10 then n.toNat + 0x30 else n.toNat + 0x57)
  String.ofList (data.data.toList.flatMap fun b => [digit (b / 16), digit (b % 16)])

def hexDigit (c : Char) : Option UInt8 :=
  if '0' ≤ c ∧ c ≤ '9' then some (c.toNat - 0x30).toUInt8
  else if 'a' ≤ c ∧ c ≤ 'f' then some (c.toNat - 0x57).toUInt8
  else if 'A' ≤ c ∧ c ≤ 'F' then some (c.toNat - 0x37).toUInt8
  else none

/-- `hex::decode`。 -/
def hexBytes : List Char → Option (List UInt8)
  | [] => some []
  | [_] => none
  | hi :: lo :: cs => do
    let h ← hexDigit hi
    let l ← hexDigit lo
    return (h * 16 + l) :: (← hexBytes cs)

def countUp (start : UInt8) : ByteArray := ⟨((List.range 16).map fun n => start + n.toUInt8).toArray⟩

/-- card に書かれた key。 -/
def cardKey : ByteArray := countUp 0x00

/-- server の乱数と card の乱数。 -/
def serverRnd : ByteArray := countUp 0x10

def cardRnd : ByteArray := countUp 0x20

/-- card の乱数を `cardKey` で暗号化したもの。 -/
def cardRndEnc : ByteArray :=
  ⟨#[0x5b, 0xe8, 0x7e, 0x2e, 0x5b, 0x44, 0x7c, 0x94, 0x4b, 0x21, 0xc9, 0xaf, 0x77, 0x56, 0xc0, 0xd8]⟩

/-- 二つの乱数を暗号化した server の返事。末尾は次の `iv` になる。 -/
def serverEnc : ByteArray :=
  ⟨#[0x2c, 0x47, 0x8a, 0x8d, 0x99, 0xf8, 0x9a, 0xdf, 0x02, 0xdc, 0x03, 0x60, 0x9f, 0xfb, 0x4e, 0x28,
    0xc6, 0x58, 0x3f, 0xb9, 0x5e, 0xb5, 0x71, 0xa4, 0x1c, 0xb7, 0x0b, 0xbf, 0x1d, 0xfb, 0x59, 0x67]⟩

def cardIv : ByteArray := serverEnc.extract 16 32

/-- 回した server の乱数を暗号化した card の返事。 -/
def serverRndEnc : ByteArray :=
  ⟨#[0x7d, 0x31, 0x99, 0x36, 0xf9, 0x2c, 0x29, 0x78, 0x9c, 0xb3, 0x28, 0xca, 0x2c, 0x29, 0xe4, 0x95]⟩

def labUrn : String := "urn:fabaccess:lab:innovisionlab"

def statusOk : ByteArray := ⟨#[0x91, 0x00]⟩

/-- file と照合への card の返事。中身と status word。 -/
def frames (token : String) : List (ByteArray × ByteArray) :=
  [(magic.toUTF8, statusOk), (labUrn.toUTF8, statusOk),
    ((padded token (47 - token.utf8ByteSize)).toUTF8, statusOk), (cardRndEnc, ⟨#[0x91, 0xaf]⟩),
    (serverRndEnc, statusOk)]

/-- 上の乱数と key についての AES と、`token` の card の JSON を知っている crate。 -/
def cardCrates (token : String) : Crates :=
  { selectCrates with
    hexEncode := hexLower
    hexDecode := fun s => (hexBytes s.toList).map fun l => ⟨l.toArray⟩
    authenticateIsoAesResponseCmd := fun rndBEnc key rndA =>
      if rndBEnc = cardRndEnc ∧ key = cardKey ∧ rndA = serverRnd then
        some (some (⟨#[0x90, 0xaf, 0, 0, 0x20]⟩ ++ serverEnc ++ ⟨#[0]⟩), cardRnd, cardIv)
      else none
    authenticateIsoAesVerify := fun data rndA rndB key iv =>
      data = serverRndEnc ∧ rndA = serverRnd ∧ rndB = cardRnd ∧ key = cardKey ∧ iv = cardIv
    apduResponse := fun data =>
      let status := data.extract (data.size - 2) data.size
      let body := data.extract 0 (data.size - 2)
      ⟨status == statusOk || status == ⟨#[0x91, 0xaf]⟩, if body.size = 0 then none else some body⟩
    cardCommand := fun buf =>
      (statusOk :: (frames token).map fun p => p.1 ++ p.2).findSome? fun data =>
        if buf == cardJson (.readPICC data) then some (.readPICC data) else none }

/-- 登録の前の user。 -/
def alice : User := ⟨"alice", ⟨[], none, ∅⟩⟩

def boundAlice (token : String) : User := alice.insertCard token (hexLower cardKey)

def boundUsers (token : String) : Users := ⟨Finmap.singleton "alice" (boundAlice token)⟩

theorem boundUsers_keyed (token : String) : (boundUsers token).Keyed := by
  intro uid user h
  by_cases huid : uid = "alice"
  · rw [huid] at h ⊢
    have hget : (boundUsers token).getUser "alice" = some (boundAlice token) :=
      Finmap.lookup_singleton_eq
    rw [hget] at h
    cases h
    rfl
  · have hnone : (boundUsers token).getUser uid = none :=
      Finmap.lookup_eq_none.mpr fun hmem => huid ((Finmap.mem_singleton _ _ _).mp hmem)
    rw [hnone] at h
    cases h

/-- reader が `wrap` で包んだ返事は、そのまま読める。 -/
structure Speaks (w : Wire) (wrap : ByteArray → ByteArray) (token : String) : Prop where
  placed : (w.cardInfo cardPlaced.data).isSome
  selected : w.reply (cardCrates token) (wrap statusOk) = some ⟨true, none⟩
  frames : ∀ p ∈ frames token, w.reply (cardCrates token) (wrap (p.1 ++ p.2)) = some ⟨true, some p.1⟩

/-- `token` を書かれた card。 -/
def boundCard {w : Wire} {wrap : ByteArray → ByteArray} {token : String} (h : Speaks w wrap token) :
    Honest (cardCrates token) w labUrn token cardKey where
  placed := ⟨cardPlaced.data, serverRnd, boundUsers token⟩
  selected := ⟨wrap statusOk, serverRnd, boundUsers token⟩
  magicFile := ⟨wrap (magic.toUTF8 ++ statusOk), serverRnd, boundUsers token⟩
  urnFile := ⟨wrap (labUrn.toUTF8 ++ statusOk), serverRnd, boundUsers token⟩
  tokenFile := ⟨wrap ((padded token (47 - token.utf8ByteSize)).toUTF8 ++ statusOk), serverRnd,
    boundUsers token⟩
  challenge := ⟨wrap (cardRndEnc ++ ⟨#[0x91, 0xaf]⟩), serverRnd, boundUsers token⟩
  response := ⟨wrap (serverRndEnc ++ statusOk), serverRnd, boundUsers token⟩
  pad := 47 - token.utf8ByteSize
  rndBEnc := cardRndEnc
  rndB := cardRnd
  iv := cardIv
  data := serverRndEnc
  cmd := ⟨#[0x90, 0xaf, 0, 0, 0x20]⟩ ++ serverEnc ++ ⟨#[0]⟩
  hplaced := h.placed
  hselected := ⟨_, h.selected, rfl⟩
  hmagic := ⟨_, ⟨h.frames (magic.toUTF8, statusOk) (by simp [Authentication.frames]), rfl⟩, rfl⟩
  hurn := ⟨_, ⟨h.frames (labUrn.toUTF8, statusOk) (by simp [Authentication.frames]), rfl⟩, rfl⟩
  htoken := ⟨_, ⟨h.frames ((padded token _).toUTF8, statusOk) (by simp [Authentication.frames]), rfl⟩,
    rfl⟩
  hchallenge := ⟨_, ⟨h.frames (cardRndEnc, _) (by simp [Authentication.frames]), rfl⟩, rfl⟩
  hcmd := by simp [cardCrates]
  hresponse := ⟨_, ⟨h.frames (serverRndEnc, statusOk) (by simp [Authentication.frames]), rfl⟩, rfl⟩
  hverify := by simp [cardCrates]

theorem boundCard_untouched {w : Wire} {wrap : ByteArray → ByteArray} {token : String}
    (h : Speaks w wrap token) :
    (boundCard h).Untouched (cardCrates token) "alice" (boundAlice token) := by
  intro i hi
  have husers : i.users = boundUsers token := by
    simp only [Honest.inputs, Honest.opening, List.cons_append, List.nil_append, List.mem_cons,
      List.not_mem_nil, or_false] at hi
    rcases hi with rfl | rfl | rfl | rfl | rfl | rfl | rfl <;> rfl
  rw [husers]
  exact ⟨boundUsers_keyed token, Finmap.lookup_singleton_eq⟩

theorem cardCrates_commands (token : String) : Commands (cardCrates token) labUrn :=
  ⟨rfl, rfl, rfl, rfl, rfl⟩

/-- 四つの応答のどれについても確かめる。 -/
theorem forall_frames {P : ByteArray × ByteArray → Prop} {token : String} :
    (∀ p ∈ frames token, P p) ↔
      P (magic.toUTF8, statusOk) ∧ P (labUrn.toUTF8, statusOk) ∧
      P ((padded token (47 - token.utf8ByteSize)).toUTF8, statusOk) ∧
      P (cardRndEnc, ⟨#[0x91, 0xaf]⟩) ∧ P (serverRndEnc, statusOk) := by
  simp only [frames, List.forall_mem_cons, List.not_mem_nil, false_imp_iff, implies_true, and_true]

theorem speaks_alice :
    Speaks (Wire.json (cardCrates "alice")) (fun data => cardJson (.readPICC data)) "alice" ∧
    Speaks Wire.binary id "alice" := by
  refine ⟨⟨by decide +kernel, by decide +kernel, forall_frames.mpr ?_⟩,
    ⟨by decide +kernel, by decide +kernel, forall_frames.mpr ?_⟩⟩
  · exact ⟨by decide +kernel, by decide +kernel, by decide +kernel, by decide +kernel,
      by decide +kernel⟩
  · exact ⟨by decide +kernel, by decide +kernel, by decide +kernel, by decide +kernel,
      by decide +kernel⟩

theorem speaks_card : Speaks Wire.binary id "card-1" := by
  refine ⟨by decide +kernel, by decide +kernel, forall_frames.mpr ?_⟩
  exact ⟨by decide +kernel, by decide +kernel, by decide +kernel, by decide +kernel,
    by decide +kernel⟩

theorem card_login_iff_alice :
    LogsIn (FabFire.stepJson (cardCrates "alice")) (boundCard speaks_alice.1) (boundAlice "alice") ∧
    LogsIn (FabFireBin.stepBin (cardCrates "alice")) (boundCard speaks_alice.2)
      (boundAlice "alice") := by
  obtain ⟨hjson, hbinary⟩ := card_login_iff (cardCrates "alice") "alice" "alice" labUrn cardKey alice
    (boundAlice "alice") (cardCrates_commands _) (fun _ => rfl) (by decide +kernel)
    (by decide +kernel) (by decide) (by decide) (by decide)
  exact ⟨(hjson _ (boundCard_untouched speaks_alice.1)).mpr rfl,
    (hbinary _ (boundCard_untouched speaks_alice.2)).mpr rfl⟩

/-- `alice` に登録した token `card-1` の card では、`alice` として認証できない。 -/
theorem card_login_not_bound :
    bindCard (cardCrates "card-1").toCodec "alice" "card-1".toUTF8 cardKey (some alice) =
      .put (boundAlice "card-1") ∧
    cardKey.size = 16 ∧
    (boundCard speaks_card).Untouched (cardCrates "card-1") "alice" (boundAlice "card-1") ∧
    ¬ LogsIn (FabFireBin.stepBin (cardCrates "card-1")) (boundCard speaks_card)
      (boundAlice "card-1") := by
  have hw : Wire.binary.Sends := ⟨fun _ => rfl, by simp [Wire.binary]⟩
  refine ⟨by decide +kernel, by decide, boundCard_untouched speaks_card, ?_⟩
  rw [← Wire.step_binary, Wire.login_iff (boundCard speaks_card) (cardCrates_commands _) hw (by decide)
    (by decide +kernel) (by decide +kernel) (by decide) (by decide) (by decide)
    (boundCard_untouched speaks_card)]
  decide

end FabAccess.Authentication
