import FabAccess.Authentication.Card
import FabAccess.Authentication.System

/-!
# 認証の健全性

* `Exchange` — card とのやりとりの抽象的な手順。どの段に何を見て進んだか
* `Wire.exchange_step` — FabFire の成功した一歩は、この手順の一歩である
* `authentication_sound` — `step` と `abort` のどの列でも、成功の返事は高々一度で、
  その後の `step` はすべて失敗する。成功したなら、その user であることが示されている
-/

namespace FabAccess.Authentication

variable (x : Crates)

/-! ## 手順 -/

/-- やりとりの進み。段ごとに、そこまでに決まったものを持つ。 -/
inductive Stage where
  | new
  | selectApp
  | verifyMagic
  | getURN
  | getToken
  | authenticate1 (authid : String) (key : ByteArray)
  | authenticate2 (authid : String) (key : ByteArray) (auth : AuthInfo)
  | verified (authid : String)

/-- 入力が、成功を表す card の返事を運んでいる。 -/
def Replies (w : Wire) (i : Input) (a : APDUResponse) : Prop :=
  w.reply x i.data = some a ∧ a.check = true

/-- 入力の列がここまで進めた。 -/
inductive Exchange (w : Wire) (urn : String) : List Input → Stage → Prop where
  | start : Exchange w urn [] .new
  | new {ins : List Input} (i : Input) (h : Exchange w urn ins .new) :
    Exchange w urn (ins ++ [i]) .selectApp
  | selected {ins : List Input} {i : Input} {a : APDUResponse} (h : Exchange w urn ins .selectApp)
    (hreply : Replies x w i a) : Exchange w urn (ins ++ [i]) .verifyMagic
  | magic {ins : List Input} {i : Input} {a : APDUResponse} (h : Exchange w urn ins .verifyMagic)
    (hreply : Replies x w i a) (hbody : a.body = some magic.toUTF8) :
    Exchange w urn (ins ++ [i]) .getURN
  | urn {ins : List Input} {i : Input} {a : APDUResponse} (h : Exchange w urn ins .getURN)
    (hreply : Replies x w i a) (hbody : a.body = some urn.toUTF8) :
    Exchange w urn (ins ++ [i]) .getToken
  | token {ins : List Input} {i : Input} {a : APDUResponse} {token : String} {key : ByteArray}
    (h : Exchange w urn ins .getToken) (hreply : Replies x w i a)
    (hbody : a.body = some token.toUTF8)
    (hkey : callback x i.users ⟨some (trimNul token), none, none⟩ = .ok key) :
    Exchange w urn (ins ++ [i]) (.authenticate1 (trimNul token) key)
  | challenge {ins : List Input} {i : Input} {a : APDUResponse} {authid : String}
    {key rndBEnc rndB iv : ByteArray} {cmd : Option ByteArray}
    (h : Exchange w urn ins (.authenticate1 authid key)) (hreply : Replies x w i a)
    (hbody : a.body = some rndBEnc)
    (hcmd : x.authenticateIsoAesResponseCmd rndBEnc key i.rndA = some (cmd, rndB, iv)) :
    Exchange w urn (ins ++ [i]) (.authenticate2 authid key ⟨i.rndA, rndB, iv⟩)
  | verified {ins : List Input} {i : Input} {a : APDUResponse} {authid : String}
    {key data : ByteArray} {auth : AuthInfo}
    (h : Exchange w urn ins (.authenticate2 authid key auth)) (hreply : Replies x w i a)
    (hbody : a.body = some data)
    (hverify : x.authenticateIsoAesVerify data auth.rndA auth.rndB key auth.iv = true) :
    Exchange w urn (ins ++ [i]) (.verified authid)

/-- mechanism の状態が、その進みを表している。 -/
def Stage.Holds : Stage → FabFire → Prop
  | .new, f => f.step = .new
  | .selectApp, f => f.step = .selectApp
  | .verifyMagic, f => f.step = .verifyMagic
  | .getURN, f => f.step = .getURN
  | .getToken, f => f.step = .getToken
  | .authenticate1 authid key, f => f.step = .authenticate1 ∧ f.keyInfo = some ⟨authid, 0x01, key⟩
  | .authenticate2 authid key auth, f =>
    f.step = .authenticate2 ∧ f.keyInfo = some ⟨authid, 0x01, key⟩ ∧ f.authInfo = some auth
  | .verified _, _ => False

/-- 続いている session の状態。 -/
structure Following (w : Wire) (urn : String) (ins : List Input) (s : Work) : Prop where
  located : s.mech.localUrn = urn
  validation : s.validation = none
  stage : ∃ st, Exchange x w urn ins st ∧ st.Holds s.mech

theorem eq_toUTF8_of_fromUTF8? {a : ByteArray} {s : String} (h : String.fromUTF8? a = some s) :
    a = s.toUTF8 := by
  unfold String.fromUTF8? at h
  split at h
  · cases h
    rfl
  · cases h

variable {x}

/-- FabFire の成功した一歩は、手順の一歩である。終わるときに認めた user は、照合を経ている。 -/
theorem Wire.exchange_step {w : Wire} (hmech : w.mech ≠ .plain) {urn : String} {ins : List Input}
    {i : Input} {s s' : Work} {r : SaslState} (hf : Following x w urn ins s)
    (h : w.step x i.users i.rndA (some i.data) s = .ok r s') :
    (r = .running ∧ Following x w urn (ins ++ [i]) s') ∨
    ∃ sent, r = .finished sent ∧ ∀ user, s'.validation = some user →
      ∃ authid, Exchange x w urn (ins ++ [i]) (.verified authid) ∧
        i.users.getUser authid = some user := by
  obtain ⟨hurn, hval, st, hex, hst⟩ := hf
  -- 進みの段ごとに分け、mechanism の段と合うものだけが残る
  cases step_advance h with
  | new hs hinfo hsend =>
    refine Or.inl ⟨rfl, ?_, hval, .selectApp, ?_, rfl⟩
    · rename_i info _
      cases info <;> exact hurn
    · cases st <;> simp_all [Stage.Holds]
      exact .new i hex
  | selectApp hs hreply hcheck hsend =>
    refine Or.inl ⟨rfl, hurn, hval, .verifyMagic, ?_, rfl⟩
    cases st <;> simp_all [Stage.Holds]
    exact .selected hex ⟨hreply, hcheck⟩
  | verifyMagic hs hreply hcheck hbody hmagic hsend =>
    refine Or.inl ⟨rfl, hurn, hval, .getURN, ?_, rfl⟩
    rw [eq_toUTF8_of_fromUTF8? hmagic] at hbody
    cases st <;> simp_all [Stage.Holds]
    exact .magic hex ⟨hreply, hcheck⟩ hbody
  | getURN hs hreply hcheck hbody hu hsend =>
    refine Or.inl ⟨rfl, hurn, hval, .getToken, ?_, rfl⟩
    rw [eq_toUTF8_of_fromUTF8? hu, hurn] at hbody
    cases st <;> simp_all [Stage.Holds]
    exact .urn hex ⟨hreply, hcheck⟩ hbody
  | getToken hs hreply hcheck hbody htoken hkey hsend =>
    rename_i token
    refine Or.inl ⟨rfl, hurn, hval, .authenticate1 (trimNul token) _, ?_, rfl, rfl⟩
    rw [eq_toUTF8_of_fromUTF8? htoken] at hbody
    cases st <;> simp_all [Stage.Holds]
    exact .token hex ⟨hreply, hcheck⟩ hbody hkey
  | authenticate1 hs hreply hcheck hbody hkey hcmd hsend =>
    cases st with
    | authenticate1 authid key =>
      rw [hst.2] at hkey
      cases hkey
      exact Or.inl ⟨rfl, hurn, hval, .authenticate2 authid key _,
        .challenge hex ⟨hreply, hcheck⟩ hbody hcmd, rfl, hst.2, rfl⟩
    | _ => simp_all [Stage.Holds]
  | verified hs hreply hcheck hbody hauth hkey hverify hcomplete hvalid =>
    cases st with
    | authenticate2 authid key auth =>
      rw [hst.2.1] at hkey
      rw [hst.2.2] at hauth
      cases hkey
      cases hauth
      refine Or.inr ⟨true, rfl, fun user huser => ?_⟩
      have hv := sessionValidate_ok hvalid ((complete_ok hcomplete).1.trans hval)
      rw [huser] at hv
      exact ⟨authid, .verified hex ⟨hreply, hcheck⟩ hbody hverify, validate_card hmech hv⟩
    | _ => simp_all [Stage.Holds]
  | rejected hs hreply hcheck hbody hauth hkey hverify =>
    refine Or.inr ⟨false, rfl, fun user huser => ?_⟩
    rw [hval] at huser
    cases huser

/-! ## session の一歩 -/

variable (x) in
/-- mechanism ごとの、`uid` の user であることの証し。 -/
def Proven (spacename : Option String) (ins : List Input) (uid : String) : Mechname → Prop
  | .plain => ∃ i password user, ins = [i] ∧
      x.plain i.data = some ⟨some uid, some "", some password⟩ ∧
      i.users.getUser uid = some user ∧ user.checkPassword x.toCodec password = some true
  | .fabFire => Exchange x (Wire.json x) FabFire.newServer.localUrn ins (.verified uid)
  | .fabFireBin => Exchange x Wire.binary (FabFire.newServerBin spacename).localUrn ins (.verified uid)

variable (x) in
/-- 入力 `ins` を受けて続いている session。 -/
inductive Alive (spacename : Option String) : Mechname → List Input → Session → Prop where
  | plain : Alive spacename .plain [] ⟨.plain, none⟩
  | fabFire {ins : List Input} {s : Work}
    (h : Following x (Wire.json x) FabFire.newServer.localUrn ins s) :
    Alive spacename .fabFire ins ⟨.fabFire s.mech, s.validation⟩
  | fabFireBin {ins : List Input} {s : Work}
    (h : Following x Wire.binary (FabFire.newServerBin spacename).localUrn ins s) :
    Alive spacename .fabFireBin ins ⟨.fabFireBin s.mech, s.validation⟩

theorem following_start (w : Wire) {f : FabFire} (hf : f.step = .new) :
    Following x w f.localUrn [] (Work.start f none) :=
  ⟨rfl, rfl, .new, .start, hf⟩

theorem alive_start (spacename : Option String) (mech : Mechname) :
    Alive x spacename mech [] (Session.start spacename mech) := by
  cases mech with
  | plain => exact .plain
  | fabFire => exact .fabFire (following_start _ rfl)
  | fabFireBin => exact .fabFireBin (following_start _ rfl)

theorem stepCard_ok {step : Mech SaslState} {mk : FabFire → Mechanism} {f : FabFire}
    {validation : Option User} {r : SaslState} {out : ByteArray} {session : Session}
    (h : Session.stepCard step mk f validation = .ok (r, out, session)) :
    ∃ s, step (Work.start f validation) = .ok r s ∧ session = ⟨mk s.mech, s.validation⟩ := by
  unfold Session.stepCard at h
  split at h
  · next r' s hstep =>
    cases h
    exact ⟨s, hstep, rfl⟩
  · cases h

theorem Alive.step {spacename : Option String} {mech : Mechname} {ins : List Input}
    {session session' : Session} {i : Input} {r : SaslState} {out : ByteArray}
    (h : Alive x spacename mech ins session)
    (hs : session.step x i.users i.rndA i.data = .ok (r, out, session')) :
    (r = .running ∧ Alive x spacename mech (ins ++ [i]) session') ∨
    ∃ sent, r = .finished sent ∧ ∀ user, session'.validation = some user →
      ∃ uid, i.users.getUser uid = some user ∧ Proven x spacename (ins ++ [i]) uid mech := by
  cases h with
  | plain =>
    right
    simp only [Session.step] at hs
    split at hs
    · cases hs
    · next context hplain =>
      split at hs
      · next user hv =>
        cases hs
        refine ⟨false, rfl, fun user' hu => ?_⟩
        cases hu
        obtain ⟨uid, password, rfl, hget, hpw⟩ := validate_plain hv
        exact ⟨uid, hget, i, password, user, rfl, hplain, hget, hpw⟩
      · cases hs
        exact ⟨false, rfl, fun user hu => by cases hu⟩
      · cases hs
  | @fabFire _ s hf =>
    obtain ⟨s', hstep, rfl⟩ := stepCard_ok hs
    rw [← Wire.step_json] at hstep
    -- `Work.start` は、前の一歩の mechanism に空の返信を付けたものである
    have hf' : Following x (Wire.json x) FabFire.newServer.localUrn ins
      (Work.start s.mech s.validation) := ⟨hf.located, hf.validation, hf.stage⟩
    rcases Wire.exchange_step (by simp [Wire.json]) hf' hstep with ⟨rfl, hnext⟩ | ⟨sent, rfl, hfin⟩
    · exact Or.inl ⟨rfl, .fabFire hnext⟩
    · refine Or.inr ⟨sent, rfl, fun user hu => ?_⟩
      obtain ⟨uid, hex, hget⟩ := hfin user hu
      exact ⟨uid, hget, hex⟩
  | @fabFireBin _ s hf =>
    obtain ⟨s', hstep, rfl⟩ := stepCard_ok hs
    rw [← Wire.step_binary] at hstep
    have hf' : Following x Wire.binary (FabFire.newServerBin spacename).localUrn ins
      (Work.start s.mech s.validation) := ⟨hf.located, hf.validation, hf.stage⟩
    rcases Wire.exchange_step (by simp [Wire.binary]) hf' hstep with ⟨rfl, hnext⟩ | ⟨sent, rfl, hfin⟩
    · exact Or.inl ⟨rfl, .fabFireBin hnext⟩
    · refine Or.inr ⟨sent, rfl, fun user hu => ?_⟩
      obtain ⟨uid, hex, hget⟩ := hfin user hu
      exact ⟨uid, hget, hex⟩

/-! ## object の一歩 -/

/-- 終わった object。 -/
def State.Ended (state : State) : Prop := ∀ session, state ≠ .running session

/-- 続いている object の一歩は、続けるか、終える。成功したなら証しがある。 -/
theorem State.step_running {spacename : Option String} {mech : Mechname} {ins : List Input}
    {session : Session} (h : Alive x spacename mech ins session) {users : KeyedUsers}
    {rndA : ByteArray} {data : Option ByteArray} {state : State} {response : Response}
    (hs : (State.running session).step x users.val rndA data = (state, response)) :
    (∃ session', state = .running session' ∧ (∀ u d, response ≠ .successful u d) ∧
      ∀ d, data = some d → Alive x spacename mech (ins ++ [⟨d, rndA, users.val⟩]) session') ∨
    state.Ended ∧ ∀ u d, response = .successful u d → ∃ buf, data = some buf ∧
      Proven x spacename (ins ++ [⟨buf, rndA, users.val⟩]) u.id mech := by
  cases data with
  | none =>
    cases hs
    exact Or.inr ⟨by simp [Ended], by simp⟩
  | some buf =>
    simp only [State.step] at hs
    split at hs
    · next sent out session' hstep =>
      rcases h.step (i := ⟨buf, rndA, users.val⟩) hstep with ⟨hr, _⟩ | ⟨_, _, hfin⟩
      · cases hr
      · split at hs
        · next user hu =>
          cases hs
          refine Or.inr ⟨by simp [Ended], fun u d heq => ⟨buf, rfl, ?_⟩⟩
          cases heq
          obtain ⟨uid, hget, hp⟩ := hfin user hu
          -- database の key は record の `id` と一致するので、証しは `id` についてのものになる
          rw [users.property uid user hget]
          exact hp
        · cases hs
          exact Or.inr ⟨by simp [Ended], by simp⟩
    · next out session' hstep =>
      cases hs
      rcases h.step (i := ⟨buf, rndA, users.val⟩) hstep with ⟨_, hnext⟩ | ⟨_, hr, _⟩
      · refine Or.inl ⟨session', rfl, by simp, fun d hd => ?_⟩
        cases hd
        exact hnext
      · cases hr
    · cases hs
      exact Or.inr ⟨by simp [Ended], by simp⟩
    · cases hs
      exact Or.inr ⟨by simp [Ended], by simp [State.buildError]⟩

theorem State.step_ended {state : State} (h : state.Ended) (users : Users) (rndA : ByteArray)
    (data : Option ByteArray) : state.step x users rndA data = (.aborted, .failed .aborted) := by
  cases state with
  | running session => exact absurd rfl (h session)
  | invalidMechanism => rfl
  | finished => rfl
  | aborted => rfl

/-! ## 実行 -/

theorem World.exec_ended {world : World} (h : world.state.Ended) (e : Event) :
    (world.exec x e).1.state.Ended := by
  cases e with
  | step rndA data =>
    simp only [World.exec, State.step_ended h]
    simp [State.Ended]
  | abort => simp [World.exec, State.Ended]
  | write users => exact h

/-- 終わった object への `step` は、すべて失敗する。 -/
theorem responses_ended {world : World} (h : world.state.Ended) {es : List Event} {j : Nat}
    {rndA : ByteArray} {data : Option ByteArray} (hj : es[j]? = some (.step rndA data)) :
    (world.responses x es)[j]? = some (some (.failed .aborted)) := by
  induction es generalizing world j with
  | nil => simp at hj
  | cons e es ih =>
    cases j with
    | zero =>
      rw [List.getElem?_cons_zero, Option.some.injEq] at hj
      subst hj
      simp [World.responses, World.exec, State.step_ended h]
    | succ j =>
      rw [List.getElem?_cons_succ] at hj
      rw [World.responses, List.getElem?_cons_succ]
      exact ih (World.exec_ended h e) hj

theorem not_successful_of_ended {world : World} (h : world.state.Ended) {es : List Event} {j : Nat}
    {u : UserRef} {d : Option ByteArray} :
    (world.responses x es)[j]? ≠ some (some (.successful u d)) := by
  induction es generalizing world j with
  | nil => simp [World.responses]
  | cons e es ih =>
    rw [World.responses]
    cases j with
    | zero =>
      rw [List.getElem?_cons_zero]
      cases e with
      | step rndA data => simp [World.exec, State.step_ended h]
      | abort => simp [World.exec]
      | write users => simp [World.exec]
    | succ j =>
      rw [List.getElem?_cons_succ]
      exact ih (World.exec_ended h e)

variable (x) in
/-- 成功の返事の後の `step` がすべて失敗する。 -/
def FailsAfter (world : World) (es : List Event) (n : Nat) : Prop :=
  ∀ j rndA data, n < j → es[j]? = some (.step rndA data) →
    (world.responses x es)[j]? = some (some (.failed .aborted))

theorem FailsAfter.cons {world : World} {e : Event} {es : List Event} {n : Nat}
    (h : FailsAfter x (world.exec x e).1 es n) : FailsAfter x world (e :: es) (n + 1) := by
  intro j rndA data hj hstep
  cases j with
  | zero => omega
  | succ j =>
    rw [List.getElem?_cons_succ] at hstep
    rw [World.responses, List.getElem?_cons_succ]
    exact h j rndA data (by omega) hstep

theorem failsAfter_zero {world : World} {e : Event} {es : List Event}
    (h : (world.exec x e).1.state.Ended) : FailsAfter x world (e :: es) 0 := by
  intro j rndA data hj hstep
  cases j with
  | zero => omega
  | succ j =>
    rw [List.getElem?_cons_succ] at hstep
    rw [World.responses, List.getElem?_cons_succ]
    exact responses_ended h hstep

/-- 返事があるのは `step` だけである。 -/
theorem step_of_response {world : World} {es : List Event} {j : Nat} {r : Response}
    (h : (world.responses x es)[j]? = some (some r)) :
    ∃ rndA data, es[j]? = some (.step rndA data) := by
  induction es generalizing world j with
  | nil => simp [World.responses] at h
  | cons e es ih =>
    rw [World.responses] at h
    cases j with
    | zero =>
      rw [List.getElem?_cons_zero, Option.some.injEq] at h
      cases e with
      | step rndA data => exact ⟨rndA, data, rfl⟩
      | abort => cases h
      | write users => cases h
    | succ j =>
      rw [List.getElem?_cons_succ] at h ⊢
      exact ih h

/-- 後の `step` がすべて失敗する成功は、二つは無い。 -/
theorem FailsAfter.not_lt {world : World} {es : List Event} {n j : Nat} {u : UserRef}
    {d : Option ByteArray} (h : FailsAfter x world es n)
    (hj : (world.responses x es)[j]? = some (some (.successful u d))) : ¬ n < j := by
  intro hlt
  obtain ⟨rndA, data, hstep⟩ := step_of_response hj
  rw [h j rndA data hlt hstep] at hj
  cases hj

/-- 続いている object からの実行。帰納法は出来事の列の上で、受けた入力 `ins` を積み上げる。 -/
theorem sound_of_alive {spacename : Option String} {mech : Mechname} {u : UserRef}
    {d : Option ByteArray} {es : List Event} {world : World} {session : Session}
    {ins : List Input} {n : Nat} (hw : world.state = .running session)
    (hal : Alive x spacename mech ins session)
    (h : (world.responses x es)[n]? = some (some (.successful u d))) :
    FailsAfter x world es n ∧
      Proven x spacename (ins ++ world.inputs x (es.take (n + 1))) u.id mech := by
  induction es generalizing world session ins n with
  | nil => simp [World.responses] at h
  | cons e es ih =>
    rw [World.responses] at h
    rw [List.take_succ_cons, World.inputs]
    cases e with
    | step rndA data =>
      rcases hr : world.state.step x world.users.val rndA data with ⟨state, response⟩
      have hexec : world.exec x (.step rndA data) = ({ world with state }, some response) := by
        simp only [World.exec, hr]
      have hend : state.Ended → (world.exec x (.step rndA data)).1.state.Ended := by
        rw [hexec]
        exact id
      rw [hw] at hr
      cases n with
      | zero =>
        rw [hexec, List.getElem?_cons_zero, Option.some.injEq, Option.some.injEq] at h
        rcases State.step_running hal hr with ⟨session', _, hno, _⟩ | ⟨hended, hproof⟩
        · exact absurd h (hno u d)
        · obtain ⟨buf, rfl, hp⟩ := hproof u d h
          refine ⟨failsAfter_zero (hend hended), ?_⟩
          simpa [World.inputs, Event.input] using hp
      | succ n =>
        rw [List.getElem?_cons_succ] at h
        rcases State.step_running hal hr with ⟨session', rfl, _, hnext⟩ | ⟨hended, _⟩
        · cases data with
          | none => cases hr
          | some buf =>
            obtain ⟨hlater, hp⟩ := ih (by rw [hexec]) (hnext buf rfl) h
            exact ⟨hlater.cons, by simpa [Event.input] using hp⟩
        · exact absurd h (not_successful_of_ended (hend hended))
    | abort =>
      cases n with
      | zero => simp [World.exec] at h
      | succ n =>
        rw [List.getElem?_cons_succ] at h
        exact absurd h (not_successful_of_ended (by simp [World.exec, State.Ended]))
    -- database の書き換えは object に触らない
    | write users =>
      cases n with
      | zero => simp [World.exec] at h
      | succ n =>
        rw [List.getElem?_cons_succ] at h
        obtain ⟨hlater, hp⟩ := ih (by simpa [World.exec] using hw) hal h
        exact ⟨hlater.cons, by simpa [Event.input] using hp⟩

/--
一つの `Authentication` への `step` と `abort` のどの列でも（user database は途中で変わってよい）、
成功の返事は高々一度で、その後の `step` はすべて失敗する。
`u` の session が開かれたなら、それまでの入力が `u` であることを示している。
PLAIN では空の `AuthzId` と正しい password、card では select・MAGIC・URN・token・照合の
成功がこの順に並ぶ。
-/
theorem authentication_sound (x : Crates) (spacename : Option String) (mech : Option Mechname)
    (users : KeyedUsers) (es : List Event) (n : Nat) (u : UserRef) (d : Option ByteArray)
    (h : (World.responses x ⟨users, State.new spacename mech⟩ es)[n]? =
      some (some (.successful u d))) :
    (∀ j rndA data, n < j → es[j]? = some (.step rndA data) →
      (World.responses x ⟨users, State.new spacename mech⟩ es)[j]? =
        some (some (.failed .aborted))) ∧
    (∀ j u' d', (World.responses x ⟨users, State.new spacename mech⟩ es)[j]? =
      some (some (.successful u' d')) → j = n) ∧
    ∃ m, mech = some m ∧ Proven x spacename
      (World.inputs x ⟨users, State.new spacename mech⟩ (es.take (n + 1))) u.id m := by
  cases mech with
  | none => exact absurd h (not_successful_of_ended (by simp [State.new, State.Ended]))
  | some m =>
    have hal : Alive x spacename m [] _ := alive_start spacename m
    obtain ⟨hlater, hp⟩ := sound_of_alive rfl hal h
    refine ⟨hlater, fun j u' d' hj => ?_, m, rfl, by simpa using hp⟩
    obtain ⟨hlater', _⟩ := sound_of_alive rfl hal hj
    have hle := hlater.not_lt hj
    have hge := hlater'.not_lt h
    omega

/-- `"password"` の hash の例。 -/
def passwordHash : String :=
  "$argon2i$v=19$m=65536,t=2,p=1$c29tZXNhbHQ$wWKIMhR9lyDFvRz9YTZweHKfbftvj+qf+YFY4NeBbtA"

/-- rsasl の PLAIN（`authzid NUL authcid NUL passwd`）と、一つの hash だけを知る argon2。
card は使わない。 -/
def plainCrates : Crates where
  hashEncoded := fun _ _ => ""
  verifyEncoded := fun encoded pwd => some (pwd == "password".toUTF8 && encoded == passwordHash)
  hexEncode := fun _ => ""
  hexDecode := fun _ => none
  plain := fun data =>
    match data.data.toList.splitOn 0 with
    | [authzid, authcid, passwd] => some
      ⟨String.fromUTF8? ⟨authcid.toArray⟩, String.fromUTF8? ⟨authzid.toArray⟩, some ⟨passwd.toArray⟩⟩
    | _ => none
  selectApplicationCmd := fun _ => none
  readDataChunkCmd := fun _ _ _ => none
  authenticateIsoAesChallengeCmd := fun _ => none
  authenticateIsoAesResponseCmd := fun _ _ _ => none
  authenticateIsoAesVerify := fun _ _ _ _ _ => false
  maxBytesPerTransaction := 47
  apduResponse := fun _ => ⟨false, none⟩
  cardInfo := fun _ => none
  cardCommand := fun _ => none
  toVec := fun _ => none

def aliceUsers : KeyedUsers :=
  ⟨⟨Finmap.singleton "alice" ⟨"alice", ⟨[], some passwordHash, ∅⟩⟩⟩, by
    intro uid user h
    by_cases huid : uid = "alice"
    · subst huid
      rw [Users.getUser, Finmap.lookup_singleton_eq] at h
      cases h
      rfl
    · rw [Users.getUser, Finmap.lookup_eq_none.mpr (by simpa using huid)] at h
      cases h⟩

def plainLogin : List Event :=
  [.step ByteArray.empty (some "\x00alice\x00password".toUTF8), .step ByteArray.empty none]

theorem authentication_sound_plainLogin :
    (World.responses plainCrates ⟨aliceUsers, State.new none (some .plain)⟩ plainLogin)[0]? =
      some (some (.successful ⟨"alice"⟩ none)) ∧
    (World.responses plainCrates ⟨aliceUsers, State.new none (some .plain)⟩ plainLogin)[1]? =
      some (some (.failed .aborted)) := by
  have h : (World.responses plainCrates ⟨aliceUsers, State.new none (some .plain)⟩ plainLogin)[0]? =
      some (some (.successful ⟨"alice"⟩ none)) := by decide
  have hsound := authentication_sound plainCrates none (some .plain) aliceUsers plainLogin 0
    ⟨"alice"⟩ none h
  exact ⟨h, hsound.1 1 ByteArray.empty none (by decide) rfl⟩

end FabAccess.Authentication
