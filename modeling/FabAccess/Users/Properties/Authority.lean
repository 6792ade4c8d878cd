import FabAccess.Users.Properties.Projected

/-!
# 権限の由来

capability を渡すときに権限を調べ、使うときには調べない。だから、使われた capability から遡れば、
それを認める database を通った時点に行き着く。

* `vested_step` — capability は、それを認める database からしか生じない
* `run_entitled` — 手にある capability は、前に通ったどれかの database が認めたものである
* `change_has_authority` — 変わった record には、それを変える権限があった
-/

namespace FabAccess

open FabAccess.Infra FabAccess.Infra.System

variable {x : Codec} {toml : Toml} {rules : ObjectRules}

variable (rules) in
/-- database `users` が認める capability。`manage` は自分自身のものだけである。 -/
def Cap.Entitled (users : Users) : Cap → Prop
  | .system caller => (users.getUser caller).isSome = true
  | .systemManage caller => permits rules.permitsManage (users.getUser caller) = true
  | .info caller uid => caller = uid ∨ permits rules.permitsInfo (users.getUser caller) = true
  | .manage caller uid => caller = uid
  | .admin caller _ => permits rules.permitsAdmin (users.getUser caller) = true

/-- `info` を渡すと決めて、まだ渡していない。 -/
inductive Task.Decided : Task → Cap → Prop where
  | fill (call : ObjectCall) (uid : String) (todo : List String) :
    Decided ⟨call, .fillAdmin uid true todo⟩ (.info call.caller uid)
  | added (caller caller' username password : String) (salt : ByteArray) (seen : Option User) :
    Decided ⟨.edit caller (.addUserFallible caller' username password salt),
      .edit (.fillAdmin seen true)⟩ (.info caller' username)

/-- 手にあるか、渡すと決まっている。 -/
def Vested (cap : Cap) (c : Config Desk Task) : Prop :=
  cap ∈ c.shared.held ∨ ∃ t ∈ c.threads, t.Decided cap

/-! ## capability を渡す -/

/-- 渡される capability は、許された info と admin と、本人の manage である。 -/
theorem mem_fillCaps {caller uid : String} {info admin : Bool} {cap : Cap} :
    cap ∈ fillCaps caller uid info admin ↔ (info = true ∧ cap = .info caller uid) ∨
      (caller = uid ∧ cap = .manage caller uid) ∨ (admin = true ∧ cap = .admin caller uid) := by
  unfold fillCaps
  rw [List.mem_append, List.mem_append, or_assoc]
  refine or_congr ?_ (or_congr ?_ ?_) <;> split <;> simp_all

/-- session が初めに持つ capability には、そのときの database での裏づけがある。 -/
theorem sessionCaps_entitled {users : Users} {user : User} (h : users.getUser user.id = some user) :
    ∀ cap ∈ sessionCaps rules user, cap.Entitled rules users := by
  intro cap hcap
  unfold sessionCaps at hcap
  rcases List.mem_cons.mp hcap with rfl | hcap
  · show (users.getUser user.id).isSome = true
    rw [h]
    rfl
  · split at hcap
    · next hperm =>
      rw [List.mem_singleton.mp hcap]
      show permits rules.permitsManage (users.getUser user.id) = true
      rw [h]
      exact hperm
    · cases hcap

/-- `User::fill` が渡す capability。`info` だけは、一歩前に決まっている。 -/
theorem fillCaps_entitled {users : Users} {caller uid : String} {info : Bool} {cap : Cap}
    (h : cap ∈ fillCaps caller uid info (permits rules.permitsAdmin (users.getUser caller))) :
    (info = true ∧ cap = .info caller uid) ∨ cap.Entitled rules users := by
  rcases mem_fillCaps.mp h with hinfo | ⟨heq, rfl⟩ | ⟨hadmin, rfl⟩
  · exact Or.inl hinfo
  · exact Or.inr heq
  · exact Or.inr hadmin

/-- record を読む最初の一歩では、まだ何も決まらない。 -/
theorem firstRead_undecided {users : Users} {order : List String} {call : ObjectCall}
    {phase : Phase} {cap : Cap} (h : firstRead x users order call = some phase) :
    ¬ Task.Decided ⟨call, phase⟩ cap := by
  intro hd
  cases hd with
  | fill _ uid todo =>
    cases call with
    | openSession uid => cases h
    | edit caller call => cases h
    | getUserByName caller username =>
      simp only [firstRead] at h
      split at h
      · cases h
      · split at h <;> cases h
    | _ =>
      simp only [firstRead] at h
      split at h <;> cases h
  | added caller caller' username password salt seen => cases h

/-- 書く呼び出しのうち `addUserFallible` だけが、最後の一歩で capability を渡す。 -/
theorem mem_addedCaps {call : UserCall} {p : Progress} {cap : Cap} (h : cap ∈ addedCaps call p) :
    ∃ caller username password salt info manage admin,
      call = .addUserFallible caller username password salt ∧
        p = .done (.added info manage admin) ∧ cap ∈ fillCaps caller username info admin := by
  unfold addedCaps at h
  split at h
  · next caller username password salt info manage admin =>
    exact ⟨caller, username, password, salt, info, manage, admin, rfl, rfl, h⟩
  · cases h

theorem decided_edit {caller : String} {call : UserCall} {p : Progress} {cap : Cap}
    (h : Task.Decided ⟨.edit caller call, .edit p⟩ cap) :
    ∃ caller' username password salt seen,
      call = .addUserFallible caller' username password salt ∧ p = .fillAdmin seen true ∧
        cap = .info caller' username := by
  cases h with
  | added _ caller' username password salt seen =>
    exact ⟨caller', username, password, salt, seen, rfl, rfl, rfl⟩

/-- 編集の一歩で増える capability は、途中で決まっていたものか、裏づけのあるものである。 -/
theorem turn_vested {users users' : Users} {t t' : Pending} (caller : String) (cap : Cap)
    (h : Turn x toml rules.toRules users t users' t') :
    (cap ∈ addedCaps t.call t'.progress →
      Task.Decided ⟨.edit caller t.call, .edit t.progress⟩ cap ∨ cap.Entitled rules users) ∧
    (Task.Decided ⟨.edit caller t.call, .edit t'.progress⟩ cap → cap.Entitled rules users) := by
  constructor
  · intro hcap
    obtain ⟨caller', username, password, salt, info, manage, admin, hcall, hp, hcap⟩ :=
      mem_addedCaps hcap
    cases h with
    | fillAdmin caller'' username' password' salt' seen info' =>
      cases hcall
      cases hp
      rcases (fillCaps_entitled hcap : _ ∨ cap.Entitled rules users) with ⟨rfl, rfl⟩ | hent
      · exact Or.inl (.added caller caller' username password salt seen)
      · exact Or.inr hent
    | settle hr he =>
      cases hcall
      cases hp
      simp only [UserCall.edit, addUser] at he
      split at he <;> cases he
    | _ => cases hp
  · intro hd
    obtain ⟨caller', username, password, salt, seen, hcall, hp, rfl⟩ := decided_edit hd
    cases h with
    | fillInfo caller'' username' password' salt' seen' =>
      cases hcall
      rw [Progress.fillAdmin.injEq, fillsInfo, Bool.or_eq_true, decide_eq_true_eq] at hp
      exact hp.2
    | _ => cases hp

/-- 手続きの一歩で渡る capability も、決まる `info` も、その時点の database が認める。 -/
theorem next_vested {desk desk' : Desk} {t t' : Task} {order : List String} (cap : Cap)
    (h : t.next x toml rules desk order = some (desk', t')) :
    (cap ∈ desk'.held → cap ∈ desk.held ∨ t.Decided cap ∨ cap.Entitled rules desk.users) ∧
      (t'.Decided cap → cap.Entitled rules desk.users) := by
  obtain ⟨call, phase⟩ := t
  cases phase with
  | replied r => cases h
  | start =>
    obtain ⟨phase, hphase, heq⟩ := Option.map_eq_some_iff.mp h
    cases heq
    exact ⟨Or.inl, fun hd => absurd hd (firstRead_undecided hphase)⟩
  | fillInfo todo =>
    cases todo with
    | nil =>
      cases h
      exact ⟨Or.inl, fun hd => nomatch hd⟩
    | cons uid todo =>
      cases h
      refine ⟨Or.inl, fun hd => ?_⟩
      generalize hinfo : (decide (call.caller = uid) ||
        permits rules.permitsInfo (desk.users.getUser call.caller)) = info at hd
      cases hd
      show call.caller = uid ∨ _
      rwa [Bool.or_eq_true, decide_eq_true_eq] at hinfo
  | fillAdmin uid info todo =>
    cases h
    refine ⟨fun hcap => ?_, fun hd => nomatch hd⟩
    rcases List.mem_append.mp hcap with hcap | hcap
    · rcases fillCaps_entitled hcap with ⟨rfl, rfl⟩ | hent
      · exact Or.inr (Or.inl (.fill call uid todo))
      · exact Or.inr (Or.inr hent)
    · exact Or.inl hcap
  | edit p =>
    cases call with
    | edit caller call =>
      obtain ⟨⟨users, u⟩, hnext, heq⟩ := Option.map_eq_some_iff.mp h
      cases heq
      obtain ⟨hcaps, hdecided⟩ := turn_vested caller cap (next_turn hnext)
      refine ⟨fun hcap => ?_, hdecided⟩
      rcases List.mem_append.mp hcap with hcap | hcap
      · exact Or.inr (hcaps hcap)
      · exact Or.inl hcap
    | _ => cases h

/-- 一歩は、何の呼び出しかを変えない。 -/
theorem next_call {desk desk' : Desk} {t t' : Task} {order : List String}
    (h : t.next x toml rules desk order = some (desk', t')) : t'.call = t.call := by
  obtain ⟨call, phase⟩ := t
  cases phase with
  | replied r => cases h
  | start =>
    obtain ⟨_, _, heq⟩ := Option.map_eq_some_iff.mp h
    cases heq
    rfl
  | fillInfo todo => cases todo <;> cases h <;> rfl
  | fillAdmin uid info todo =>
    cases h
    rfl
  | edit p =>
    cases call with
    | edit caller call =>
      obtain ⟨_, _, heq⟩ := Option.map_eq_some_iff.mp h
      cases heq
      rfl
    | _ => cases h

/-- 始まったばかりの呼び出しは、まだ何も渡すと決めていない。 -/
theorem begin_undecided {call : ObjectCall} {cap : Cap} : ¬ (call.begin rules).Decided cap := by
  intro hd
  cases call with
  | edit caller call =>
    obtain ⟨caller', username, password, salt, seen, rfl, hp, _⟩ := decided_edit hd
    simp only [UserCall.begin] at hp
    split at hp
    · cases hp
    · split at hp <;> cases hp
  | _ => cases hd

/-- 始まったばかりの呼び出しは、まだ書き込もうとしていない。 -/
theorem begin_ne_put {call : ObjectCall} {caller : String} {call' : UserCall} {seen : Option User}
    {user : User} : (⟨.edit caller call', .edit (.put seen user)⟩ : Task) ≠ call.begin rules := by
  intro heq
  cases call with
  | edit caller' call =>
    have hp := Phase.edit.inj (congrArg Task.phase heq)
    cases call with
    | addRole uid rolename | removeRole uid rolename =>
      simp only [UserCall.begin] at hp
      split at hp <;> cases hp
    | addUserFallible caller'' username password salt =>
      simp only [UserCall.begin] at hp
      split at hp
      · cases hp
      · split at hp <;> cases hp
    | _ => cases hp
  | _ => cases heq

/-- 書くことに決めた一歩は、その record を読んで決めた。 -/
theorem next_put {desk desk' : Desk} {t : Task} {order : List String} {caller : String}
    {call : UserCall} {seen : Option User} {user : User}
    (h : t.next x toml rules desk order = some (desk', ⟨.edit caller call, .edit (.put seen user)⟩)) :
    call.edit x (desk.users.getUser call.target) = .put user := by
  obtain ⟨call₀, phase⟩ := t
  obtain rfl : ObjectCall.edit caller call = call₀ := next_call h
  cases phase with
  | replied r => cases h
  | start => cases h
  | fillInfo todo => cases todo <;> cases h
  | fillAdmin uid info todo => cases h
  | edit p =>
    obtain ⟨⟨users, u⟩, hnext, heq⟩ := Option.map_eq_some_iff.mp h
    obtain ⟨call', p'⟩ := u
    cases heq
    cases next_turn hnext with
    | prepare _ he => exact he

/-- **capability は、それを認める database からしか生じない。** -/
theorem vested_step {c c' : Config Desk Task} {m : Move ObjectCall (List String)} {cap : Cap}
    (hall : c.shared.users.All Filed) (h : (objectApi x toml rules).step c m = some c')
    (hv : Vested cap c') : Vested cap c ∨ cap.Entitled rules c.shared.users := by
  cases m with
  | spawn call =>
    obtain ⟨desk, ts, hspawn, rfl⟩ := step_spawn h
    rcases spawn_cases hspawn with ⟨uid, user, _, hu, rfl, rfl⟩ | ⟨_, _, _, rfl, rfl⟩
    · rcases hv with hcap | ⟨t, ht, hd⟩
      · rcases List.mem_append.mp hcap with hcap | hcap
        · have hself : c.shared.users.getUser user.id = some user := by rw [(hall uid user hu).2, hu]
          exact Or.inr (sessionCaps_entitled hself cap hcap)
        · exact Or.inl (Or.inl hcap)
      · rw [List.append_nil] at ht
        exact Or.inl (Or.inr ⟨t, ht, hd⟩)
    · rcases hv with hcap | ⟨t, ht, hd⟩
      · exact Or.inl (Or.inl hcap)
      · rcases List.mem_append.mp ht with ht | ht
        · exact Or.inl (Or.inr ⟨t, ht, hd⟩)
        · rw [List.mem_singleton.mp ht] at hd
          exact absurd hd begin_undecided
  | exec n order =>
    obtain ⟨t, desk, t', _, hget, hnext, rfl, _, _⟩ := step_exec h
    obtain ⟨hcaps, hdecided⟩ := next_vested cap hnext
    rcases hv with hcap | ⟨u, hu, hd⟩
    · rcases hcaps hcap with hcap | hd | hent
      · exact Or.inl (Or.inl hcap)
      · exact Or.inl (Or.inr ⟨t, List.mem_of_getElem? hget, hd⟩)
      · exact Or.inr hent
    · rcases List.mem_or_eq_of_mem_set hu with hu | rfl
      · exact Or.inl (Or.inr ⟨u, hu, hd⟩)
      · exact Or.inr (hdecided hd)

/-! ## 実行を遡る -/

section Run

variable {users : Users} {ms : List (Move ObjectCall (List String))} {c : Config Desk Task}

variable (x toml rules users ms) in
/-- 実行が通った database。 -/
def Past (users' : Users) : Prop :=
  ∃ v, Visited (objectApi x toml rules).step (deskOf users) ms v ∧ v.shared.users = users'

/-- どの実行でも、record は自分の名前の下にある。 -/
theorem run_filed (hall : users.All Filed)
    (hrun : runFrom (objectApi x toml rules).step (deskOf users) ms = some c) :
    c.shared.users.All Filed := by
  rw [← run_eq_runFrom] at hrun
  exact object_run_records (fun _ _ _ => filed_edited) hrun hall

/-- 手にある capability は、前に通ったどれかの database が認めたものである。 -/
theorem run_entitled {cap : Cap} (hall : users.All Filed)
    (hrun : runFrom (objectApi x toml rules).step (deskOf users) ms = some c)
    (hcap : cap ∈ c.shared.held) : ∃ users', Past x toml rules users ms users' ∧
      cap.Entitled rules users' := by
  obtain ⟨v, hv, hent⟩ := exists_visited_of_introduced (Q := Vested cap)
    (P := fun v => cap.Entitled rules v.shared.users)
    (fun bs d m d' hd hstep hq => vested_step (run_filed hall hd) hstep hq)
    (fun h0 => h0.elim (fun h => nomatch h) (fun ⟨_, h, _⟩ => nomatch h)) hrun (Or.inl hcap)
  exact ⟨v.shared.users, ⟨v, hv, rfl⟩, hent⟩

/-- 進行中の呼び出しは、前に手にあった capability を通して始まった。 -/
theorem run_called {t : Task}
    (hrun : runFrom (objectApi x toml rules).step (deskOf users) ms = some c)
    (ht : t ∈ c.threads) : ∃ v, Visited (objectApi x toml rules).step (deskOf users) ms v ∧
      ∃ cap ∈ v.shared.held, t.call.needs = some cap := by
  refine exists_visited_of_introduced (Q := fun c => ∃ u ∈ c.threads, u.call = t.call)
    (P := fun v => ∃ cap ∈ v.shared.held, t.call.needs = some cap)
    (fun bs d m d' _ hstep hq => ?_) (fun ⟨_, h, _⟩ => nomatch h) hrun ⟨t, ht, rfl⟩
  obtain ⟨u, hu, hcall⟩ := hq
  cases m with
  | spawn call =>
    obtain ⟨desk, ts, hspawn, rfl⟩ := step_spawn hstep
    rcases List.mem_append.mp hu with hu | hu
    · exact Or.inl ⟨u, hu, hcall⟩
    · rcases spawn_cases hspawn with ⟨_, _, _, _, _, rfl⟩ | ⟨cap, hneeds, hcap, _, rfl⟩
      · cases hu
      · refine Or.inr ⟨cap, hcap, ?_⟩
        rw [← hcall, List.mem_singleton.mp hu]
        cases call <;> exact hneeds
  | exec n order =>
    obtain ⟨u₀, desk, u', _, hget, hnext, rfl, _, _⟩ := step_exec hstep
    rcases List.mem_or_eq_of_mem_set hu with hu | rfl
    · exact Or.inl ⟨u, hu, hcall⟩
    · refine Or.inl ⟨u₀, List.mem_of_getElem? hget, ?_⟩
      rw [← hcall]
      exact (next_call hnext).symm

/-- 書こうとしている呼び出しは、前に通ったどれかの database を読んで、そう決めた。 -/
theorem run_prepared {caller : String} {call : UserCall} {seen : Option User} {user : User}
    (hrun : runFrom (objectApi x toml rules).step (deskOf users) ms = some c)
    (ht : ⟨.edit caller call, .edit (.put seen user)⟩ ∈ c.threads) :
    ∃ users', Past x toml rules users ms users' ∧
      ∃ user', call.edit x (users'.getUser call.target) = .put user' := by
  have hstart : ∃ v, Visited (objectApi x toml rules).step (deskOf users) ms v ∧
      ∃ user', call.edit x (v.shared.users.getUser call.target) = .put user' := by
    refine exists_visited_of_introduced
      (Q := fun c => ∃ seen user, ⟨.edit caller call, .edit (.put seen user)⟩ ∈ c.threads)
      (fun bs d m d' _ hstep hq => ?_) (fun ⟨_, _, h⟩ => nomatch h) hrun ⟨seen, user, ht⟩
    obtain ⟨seen, user, hmem⟩ := hq
    cases m with
    | spawn call' =>
      obtain ⟨desk, ts, hspawn, rfl⟩ := step_spawn hstep
      rcases List.mem_append.mp hmem with hmem | hmem
      · exact Or.inl ⟨seen, user, hmem⟩
      · rcases spawn_cases hspawn with ⟨_, _, _, _, _, rfl⟩ | ⟨_, _, _, _, rfl⟩
        · cases hmem
        · exact absurd (List.mem_singleton.mp hmem) begin_ne_put
    | exec n order =>
      obtain ⟨t, desk, t', _, hget, hnext, rfl, _, _⟩ := step_exec hstep
      rcases List.mem_or_eq_of_mem_set hmem with hmem | rfl
      · exact Or.inl ⟨seen, user, hmem⟩
      · exact Or.inr ⟨user, next_put hnext⟩
  obtain ⟨v, hv, hput⟩ := hstart
  exact ⟨v.shared.users, ⟨v, hv, rfl⟩, hput⟩

end Run

/-! ## 変わった record -/

/-- 書く呼び出しの一歩で変わるのは、名指された record だけである。 -/
theorem turn_changes {users users' : Users} {t t' : Pending} {uid : String}
    (h : Turn x toml rules.toRules users t users' t') (hcall : t.call.Callable)
    (hchange : users'.getUser uid ≠ users.getUser uid) :
    t.call.target = uid ∧ ((t.call = .removeUser uid) ∨ ∃ seen user, t.progress = .put seen user) := by
  cases h with
  | remove who =>
    rw [Users.getUser_delUser] at hchange
    split at hchange
    · next heq =>
      subst heq
      exact ⟨rfl, Or.inl rfl⟩
    · exact absurd rfl hchange
  | load _ => cases hcall
  | wrote _ hput =>
    rw [Users.getUser_putUser hput] at hchange
    split at hchange
    · next heq => exact ⟨heq.symm, Or.inr ⟨_, _, rfl⟩⟩
    · exact absurd rfl hchange
  | added hput =>
    rw [Users.getUser_putUser hput] at hchange
    split at hchange
    · next heq => exact ⟨heq.symm, Or.inr ⟨_, _, rfl⟩⟩
    · exact absurd rfl hchange
  | _ => exact absurd rfl hchange

theorem pending_eq_some {t : Task} {u : Pending} (h : t.pending = some u) :
    ∃ caller, t = ⟨.edit caller u.call, .edit u.progress⟩ := by
  obtain ⟨call, phase⟩ := t
  unfold Task.pending at h
  split at h
  · next caller call p hcall hphase =>
    cases h
    cases hcall
    cases hphase
    exact ⟨caller, rfl⟩
  · cases h

/-- record を変えるのは、その user を名指す呼び出しの書き込みだけである。 -/
theorem next_changes {desk desk' : Desk} {t t' : Task} {order : List String} {uid : String}
    (h : t.next x toml rules desk order = some (desk', t'))
    (hchange : desk'.users.getUser uid ≠ desk.users.getUser uid) :
    ∃ caller call p u, t = ⟨.edit caller call, .edit p⟩ ∧
      Turn x toml rules.toRules desk.users ⟨call, p⟩ desk'.users u := by
  rcases next_projects h with ⟨hsame, _⟩ | ⟨u, u', _, hu, _, hnext⟩
  · rw [hsame] at hchange
    exact absurd rfl hchange
  · obtain ⟨caller, rfl⟩ := pending_eq_some hu
    exact ⟨caller, u.call, u.progress, u', rfl, next_turn hnext⟩

/-- 呼び出しに要る capability の三つの場合。 -/
theorem needs_cases {caller : String} {call : UserCall} {cap : Cap}
    (h : (ObjectCall.edit caller call).needs = some cap) :
    (∃ uid oldPw newPw salt, call = .managePwd uid oldPw newPw salt ∧ cap = .manage caller uid) ∨
      cap = .admin caller call.target ∨ cap = .systemManage caller := by
  cases call with
  | managePwd uid oldPw newPw salt =>
    cases h
    exact Or.inl ⟨uid, oldPw, newPw, salt, rfl, rfl⟩
  | addUserFallible caller' username password salt =>
    simp only [ObjectCall.needs] at h
    split at h
    · cases h
      exact Or.inr (Or.inr rfl)
    · cases h
  | removeUser who =>
    cases h
    exact Or.inr (Or.inr rfl)
  | loadFile file salt => cases h
  | _ =>
    cases h
    exact Or.inr (Or.inl rfl)

/-- 自分の password を書き換えられるのは、古い password が合うときだけである。 -/
theorem checkPassword_of_put {seen : Option User} {uid oldPw newPw : String} {salt : ByteArray}
    {user : User} (h : UserCall.edit x (.managePwd uid oldPw newPw salt) seen = .put user) :
    ∃ found, seen = some found ∧ found.checkPassword x oldPw.toUTF8 = some true ∧
      user = found.setPw x newPw salt := by
  cases seen with
  | none => cases h
  | some found =>
    simp only [UserCall.edit, managePwd] at h
    split at h
    · next hpw =>
      cases h
      exact ⟨found, rfl, hpw, rfl⟩
    · cases h

variable (x rules) in
/-- `past` の database に照らして、`caller` は `call` で相手の record を変えてよい。 -/
inductive Authorized (past : Users → Prop) (caller : String) : UserCall → Prop where
  /-- 自分の password を、古い password を示して変える -/
  | self {oldPw newPw : String} {salt : ByteArray} {users : Users} {user : User} (hpast : past users)
    (hget : users.getUser caller = some user)
    (hpw : user.checkPassword x oldPw.toUTF8 = some true) :
    Authorized past caller (.managePwd caller oldPw newPw salt)
  | admin {call : UserCall} {users : Users} (hpast : past users)
    (hneeds : (ObjectCall.edit caller call).needs = some (.admin caller call.target))
    (hperm : permits rules.permitsAdmin (users.getUser caller) = true) :
    Authorized past caller call
  | manage {call : UserCall} {users : Users} (hpast : past users)
    (hneeds : (ObjectCall.edit caller call).needs = some (.systemManage caller))
    (hperm : permits rules.permitsManage (users.getUser caller) = true) :
    Authorized past caller call

/--
**どの割り込みの実行でも、record が変わる一歩は、それを変える権限のある呼び出しの一歩である。**

変えるのは名指された record だけで、それは自分の password を古い password を示して変える呼び出しか、
実行が通ったどれかの database が `bffh.users.admin` か `bffh.users.manage` を認めた user の呼び出しである。
権限が今もあるとは限らない。
-/
theorem change_has_authority (x : Codec) (toml : Toml) (rules : ObjectRules) (users : Users)
    (hall : users.All Filed) (ms : List (Move ObjectCall (List String))) (c c' : Config Desk Task)
    (m : Move ObjectCall (List String))
    (hrun : (objectApi x toml rules).run (deskOf users) ms = some c)
    (hstep : (objectApi x toml rules).step c m = some c') (uid : String)
    (hchange : c'.shared.users.getUser uid ≠ c.shared.users.getUser uid) :
    ∃ n order t caller call, m = .exec n order ∧ c.threads[n]? = some t ∧
      t.call = .edit caller call ∧ call.target = uid ∧
      Authorized x rules (Past x toml rules users ms) caller call := by
  rw [run_eq_runFrom] at hrun
  cases m with
  | spawn call =>
    obtain ⟨desk, ts, hspawn, rfl⟩ := step_spawn hstep
    rcases spawn_cases hspawn with ⟨_, _, _, _, rfl, _⟩ | ⟨_, _, _, rfl, _⟩ <;>
      exact absurd rfl hchange
  | exec n order =>
    obtain ⟨t, desk, t', _, hget, hnext, rfl, _, _⟩ := step_exec hstep
    have hmem := List.mem_of_getElem? hget
    obtain ⟨v, hv, cap, hcap, hneeds⟩ := run_called hrun hmem
    obtain ⟨pre, post, rfl, hpre⟩ := hv
    obtain ⟨users', ⟨w, hw, rfl⟩, hent⟩ := run_entitled hall hpre hcap
    have hpast : Past x toml rules users (pre ++ post) w.shared.users := ⟨w, hw.append, rfl⟩
    obtain ⟨caller, call, p, u, rfl, hturn⟩ := next_changes hnext hchange
    have hcallable : call.Callable := callable_of_needs hneeds
    obtain ⟨htarget, hhow⟩ := turn_changes hturn hcallable hchange
    refine ⟨n, order, _, caller, call, rfl, hget, rfl, htarget, ?_⟩
    rcases needs_cases hneeds with ⟨uid', oldPw, newPw, salt, rfl, rfl⟩ | rfl | rfl
    · obtain rfl : caller = uid' := hent
      rcases hhow with hremove | ⟨seen, user, hput⟩
      · cases hremove
      · cases hput
        obtain ⟨users', hpast', user', hedit⟩ := run_prepared hrun hmem
        obtain ⟨found, hfound, hpw, _⟩ := checkPassword_of_put hedit
        exact .self hpast' hfound hpw
    · exact .admin hpast hneeds hent
    · exact .manage hpast hneeds hent

theorem filed_singleton {uid : String} {user : User} (h : Filed uid user) :
    (⟨Finmap.singleton uid user⟩ : Users).All Filed := by
  intro uid' user' hget
  by_cases heq : uid' = uid
  · subst heq
    cases (Finmap.lookup_singleton_eq (a := uid')).symm.trans hget
    exact h
  · have hmem : uid' ∈ (Finmap.singleton uid user : Finmap (fun _ : String => User)) :=
      Finmap.mem_of_lookup_eq_some hget
    exact absurd ((Finmap.mem_singleton ..).mp hmem) heq

/-- `alice` だけがいて、`admin` である。 -/
def oneAdmin : Users := ⟨Finmap.singleton "alice" ⟨"alice", ⟨["admin"], none, ∅⟩⟩⟩

/-- 自分の object を得て、自分に role を加えるところ。 -/
def addOwnRole : List (Move ObjectCall (List String)) :=
  [.spawn (.openSession "alice"), .spawn (.getUserSelf "alice"), .exec 0 [], .exec 0 [],
    .exec 0 [], .spawn (.edit "alice" (.addRole "alice" "laser")), .exec 1 []]

theorem change_has_authority_addOwnRole :
    ∃ c c', (objectApi idleCodec aliceToml adminRules).run (deskOf oneAdmin) addOwnRole = some c ∧
      (objectApi idleCodec aliceToml adminRules).step c (.exec 1 []) = some c' ∧
      ∃ n order t caller call,
        (.exec 1 [] : Move ObjectCall (List String)) = .exec n order ∧ c.threads[n]? = some t ∧
        t.call = .edit caller call ∧ call.target = "alice" ∧
        Authorized idleCodec adminRules (Past idleCodec aliceToml adminRules oneAdmin addOwnRole)
          caller call := by
  have h : ((objectApi idleCodec aliceToml adminRules).run (deskOf oneAdmin) addOwnRole).bind
      (fun c => ((objectApi idleCodec aliceToml adminRules).step c (.exec 1 [])).map fun c' =>
        decide (c'.shared.users.getUser "alice" ≠ c.shared.users.getUser "alice")) = some true := by
    decide
  obtain ⟨c, hrun, hc⟩ := Option.bind_eq_some_iff.mp h
  obtain ⟨c', hstep, hchange⟩ := Option.map_eq_some_iff.mp hc
  exact ⟨c, c', hrun, hstep, change_has_authority _ _ _ oneAdmin
    (filed_singleton ⟨by decide, rfl⟩) _ c c' _ hrun hstep "alice" (of_decide_eq_true hchange)⟩

end FabAccess
