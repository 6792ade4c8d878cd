import FabAccess.Infra.Project
import FabAccess.Users.Properties.Stale

/-!
# capability を通した呼び出しの射影

`Objects.lean` の系は、capability を忘れれば `Api.lean` の系である。session を開くことも、record を
読むだけの呼び出しも、database を変えない。だから平らな API について示したことは、capability を
通した実行でもそのまま成り立つ。

* `objectApi_projects` — 一歩の対応
* `objects_refine_api` — あらゆる割り込みの実行の対応と、そこから出る record の不変条件
-/

namespace FabAccess

open FabAccess.Infra FabAccess.Infra.System

variable {x : Codec} {toml : Toml} {rules : ObjectRules}

/-- capability を忘れて残る呼び出し。 -/
def Task.pending (t : Task) : Option Pending :=
  match t.call, t.phase with
  | .edit _ call, .edit p => some ⟨call, p⟩
  | _, _ => none

/-- `load_file` は client からは呼べない。 -/
def UserCall.Callable : UserCall → Prop
  | .loadFile _ _ => False
  | _ => True

theorem pending_begin (rules : Rules) (call : UserCall) :
    (⟨call, (call.begin rules).progress⟩ : Pending) = call.begin rules := by
  cases call <;> rfl

theorem callable_of_needs {caller : String} {call : UserCall} {cap : Cap}
    (h : (ObjectCall.edit caller call).needs = some cap) : call.Callable := by
  cases call with
  | loadFile file salt => cases h
  | _ => trivial

/-- record を読むだけの呼び出しは、読んだ後も見えない。 -/
theorem firstRead_hidden {users : Users} {order : List String} {call : ObjectCall} {phase : Phase}
    (h : firstRead x users order call = some phase) :
    Task.pending ⟨call, phase⟩ = none := by
  cases call with
  | edit caller call => cases h
  | _ => rfl

/-! ## 一歩 -/

theorem spawn_projects {desk desk' : Desk} {call : ObjectCall} {ts : List Task}
    (h : desk.spawn rules call = some (desk', ts)) :
    (desk'.users = desk.users ∧ ts.filterMap Task.pending = []) ∨
      ∃ call' : UserCall, call'.Callable ∧
        (userApi x toml rules.toRules).spawn desk.users call' =
          some (desk'.users, ts.filterMap Task.pending) := by
  cases call with
  | openSession uid =>
    obtain ⟨user, _, heq⟩ := Option.map_eq_some_iff.mp h
    cases heq
    exact Or.inl ⟨rfl, rfl⟩
  | edit caller call =>
    simp only [Desk.spawn] at h
    split at h
    · next cap hneeds =>
      split at h
      · cases h
        refine Or.inr ⟨call, callable_of_needs hneeds, ?_⟩
        show some (desk.users, [call.begin rules.toRules]) = _
        rw [← pending_begin]
        rfl
      · cases h
    · cases h
  | _ =>
    simp only [Desk.spawn, ObjectCall.needs] at h
    split at h
    · cases h
      exact Or.inl ⟨rfl, rfl⟩
    · cases h

theorem next_projects {desk desk' : Desk} {t t' : Task} {order : List String}
    (h : t.next x toml rules desk order = some (desk', t')) :
    (desk'.users = desk.users ∧ t'.pending = t.pending) ∨
      ∃ u u' k, t.pending = some u ∧ t'.pending = some u' ∧
        (userApi x toml rules.toRules).next desk.users u k = some (desk'.users, u') := by
  obtain ⟨call, phase⟩ := t
  cases phase with
  | replied r => cases h
  | start =>
    obtain ⟨phase, hphase, heq⟩ := Option.map_eq_some_iff.mp h
    cases heq
    refine Or.inl ⟨rfl, ?_⟩
    rw [firstRead_hidden hphase]
    cases call <;> rfl
  | fillInfo todo =>
    left
    cases todo <;> cases h <;> cases call <;> exact ⟨rfl, rfl⟩
  | fillAdmin uid info todo =>
    left
    cases h
    cases call <;> exact ⟨rfl, rfl⟩
  | edit p =>
    cases call with
    | edit caller call =>
      obtain ⟨⟨users, u⟩, hnext, heq⟩ := Option.map_eq_some_iff.mp h
      cases heq
      have hcall : u.call = call := by cases next_turn hnext <;> rfl
      refine Or.inr ⟨⟨call, p⟩, u, (), rfl, ?_, hnext⟩
      show some (⟨call, u.progress⟩ : Pending) = some u
      rw [← hcall]
    | _ => cases h

variable (x toml rules) in
theorem objectApi_projects : (objectApi x toml rules).Projects (userApi x toml rules.toRules)
    Desk.users Task.pending UserCall.Callable where
  spawn h := spawn_projects h
  next h := next_projects h

/-! ## 実行 -/

/-- 始めは誰も capability を持たず、どの呼び出しも始まっていない。 -/
abbrev deskOf (users : Users) : Config Desk Task := ⟨⟨users, []⟩, []⟩

/-- 平らな API の不変条件は、capability を通した実行でも保たれる。 -/
theorem object_run_records {P : String → User → Prop}
    (hedit : ∀ uid seen user, Users.validKey uid = true → Edited x uid seen user →
      (∀ u, seen = some u → P uid u) → P uid user)
    {users : Users} {ms : List (Move ObjectCall (List String))} {c : Config Desk Task}
    (hrun : (objectApi x toml rules).run (deskOf users) ms = some c) (hall : users.All P) :
    c.shared.users.All P := by
  obtain ⟨ms', hcallable, hrun'⟩ := (objectApi_projects x toml rules).run hrun
  refine run_records hedit hrun' (fun call hcall => ?_) hall
  have hcall' := hcallable call hcall
  cases call with
  | loadFile file salt => cases hcall'
  | _ => trivial

/--
**capability を通したあらゆる割り込みの実行は、database と書く呼び出しだけを見れば、平らな API の
実行である。**

そこで `load_file` は呼ばれない。だから、record が自分の `id` の下にあって password が無いか hash で
あることも、role に重複が無く card の token と key が揃っていることも、database の初めの record から
最後の record まで保たれる。
-/
theorem objects_refine_api (x : Codec) (toml : Toml) (rules : ObjectRules) (users : Users)
    (ms : List (Move ObjectCall (List String))) (c : Config Desk Task)
    (hrun : (objectApi x toml rules).run (deskOf users) ms = some c) :
    (∃ ms', (∀ file salt, .spawn (.loadFile file salt) ∉ ms') ∧
      (userApi x toml rules.toRules).run ⟨users, []⟩ ms' =
        some ⟨c.shared.users, c.threads.filterMap Task.pending⟩) ∧
    (x.Argon2 → users.All Recorded → c.shared.users.All Recorded) ∧
    (users.All Tidy → c.shared.users.All Tidy) := by
  refine ⟨?_, fun hx => ?_, ?_⟩
  · obtain ⟨ms', hcallable, hrun'⟩ := (objectApi_projects x toml rules).run hrun
    exact ⟨ms', fun file salt hmem => hcallable _ hmem, hrun'⟩
  · exact object_run_records (fun _ _ _ _ => recorded_edited hx) hrun
  · exact object_run_records (fun _ _ _ _ => tidy_edited) hrun

theorem objects_refine_api_addLaser :
    ∃ c, (objectApi idleCodec aliceToml adminRules).run (deskOf twoAdmins)
        (findBob ++ giveLaser 1) = some c ∧
      ∃ ms', (∀ file salt, .spawn (.loadFile file salt) ∉ ms') ∧
        (userApi idleCodec aliceToml adminRules.toRules).run ⟨twoAdmins, []⟩ ms' =
          some ⟨c.shared.users, c.threads.filterMap Task.pending⟩ := by
  have h : ((objectApi idleCodec aliceToml adminRules).run (deskOf twoAdmins)
      (findBob ++ giveLaser 1)).isSome := by decide
  obtain ⟨c, hrun⟩ := Option.isSome_iff_exists.mp h
  exact ⟨c, hrun, (objects_refine_api _ _ _ _ _ c hrun).1⟩

end FabAccess
