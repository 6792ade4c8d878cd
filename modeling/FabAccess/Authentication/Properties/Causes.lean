import FabAccess.Authentication.Properties.Soundness

/-!
# 失敗の理由

`step` は状態を `Aborted` に置き換えてから場合分けし、返事は置き換えた後の状態から作る。
だから知らない mechanism の object も `BadMechanism` ではなく `Aborted` と答え、
`build_error` の `BadMechanism` の腕には届かない（`ownCause_iff`）。
-/

namespace FabAccess.Authentication

variable {x : Crates}

/-! ## 実行の途中 -/

variable (x) in
/-- 出来事の列を終えた後。 -/
def World.after (world : World) (es : List Event) : World :=
  es.foldl (fun w e => (w.exec x e).1) world

theorem responses_append (world : World) (pre post : List Event) :
    world.responses x (pre ++ post) =
      world.responses x pre ++ (world.after x pre).responses x post := by
  induction pre generalizing world with
  | nil => rfl
  | cons e pre ih => simp only [List.cons_append, World.responses, ih, World.after, List.foldl_cons]

theorem length_responses (world : World) (es : List Event) :
    (world.responses x es).length = es.length := by
  induction es generalizing world with
  | nil => rfl
  | cons e es ih => simp only [World.responses, List.length_cons, ih]

/-- 途中で終わっていれば、そこでの `step` は `Aborted` と答える。 -/
theorem responses_of_after_ended {world : World} {es : List Event} {j : Nat} {rndA : ByteArray}
    {data : Option ByteArray} (h : (world.after x (es.take j)).state.Ended)
    (hj : es[j]? = some (.step rndA data)) :
    (world.responses x es)[j]? = some (some (.failed .aborted)) := by
  have hlt : j < es.length := (List.getElem?_eq_some_iff.mp hj).1
  have hlen : ((world.responses x (es.take j))).length = j := by
    rw [length_responses, List.length_take]
    omega
  have hhead : (es.drop j)[0]? = some (.step rndA data) := by
    rw [List.getElem?_drop, Nat.add_zero]
    exact hj
  rw [← List.take_append_drop j es, responses_append, List.getElem?_append_right (by omega), hlen,
    Nat.sub_self]
  exact responses_ended h hhead

theorem after_ended {world : World} (h : world.state.Ended) (es : List Event) :
    (world.after x es).state.Ended := by
  induction es generalizing world with
  | nil => exact h
  | cons e es ih => exact ih (World.exec_ended h e)

/-- 終わった object どうしは、同じ出来事に同じ返事をする。 -/
theorem responses_eq_of_ended {world world' : World} (h : world.state.Ended)
    (h' : world'.state.Ended) (es : List Event) :
    world.responses x es = world'.responses x es := by
  induction es generalizing world world' with
  | nil => rfl
  | cons e es ih =>
    have hhead : (world.exec x e).2 = (world'.exec x e).2 := by
      cases e with
      | step rndA data => simp [World.exec, State.step_ended h, State.step_ended h']
      | abort => rfl
      | write users => rfl
    rw [World.responses, World.responses, hhead,
      ih (World.exec_ended h e) (World.exec_ended h' e)]

/-! ## 答えるべき理由 -/

def Event.isAbort : Event → Bool
  | .abort => true
  | _ => false

/--
動いていない object が答えるべき理由。`invalid_mechanism` が作り、まだ abort されていなければ
`BadMechanism`、そのほかは `Aborted` である。
-/
def due (mech : Option Mechname) (pre : List Event) : ErrorCode :=
  if mech.isNone && !pre.any Event.isAbort then .badMechanism else .aborted

variable (x) in
/-- 動いていない object への `step` が、どれも答えるべき理由で失敗する。 -/
def OwnCause (spacename : Option String) (mech : Option Mechname) (users : KeyedUsers)
    (es : List Event) : Prop :=
  ∀ j rndA data, es[j]? = some (.step rndA data) →
    (World.after x ⟨users, State.new spacename mech⟩ (es.take j)).state.Ended →
    (World.responses x ⟨users, State.new spacename mech⟩ es)[j]? =
      some (some (.failed (due mech (es.take j))))

theorem due_eq_aborted_iff {mech : Option Mechname} {pre : List Event} :
    due mech pre = .aborted ↔ mech.isSome ∨ .abort ∈ pre := by
  have habort : pre.any Event.isAbort = true ↔ .abort ∈ pre := by
    rw [List.any_eq_true]
    constructor
    · rintro ⟨e, he, habort⟩
      cases e with
      | abort => exact he
      | step _ _ => cases habort
      | write _ => cases habort
    · intro h
      exact ⟨.abort, h, rfl⟩
  rw [← habort]
  cases mech <;> cases h : pre.any Event.isAbort <;> simp [due, h]

/--
動いていない object への `step` がどれも自分の理由で失敗するのは、mechanism が知られているか、
最初の `step` より前に abort されているとき、そのときに限る。
どの場合も、動いていない object への `step` は、後の返事を変えない。
-/
theorem ownCause_iff (x : Crates) (spacename : Option String) (mech : Option Mechname)
    (users : KeyedUsers) (es : List Event) :
    (OwnCause x spacename mech users es ↔
      (mech.isSome ∨ ∀ j rndA data, es[j]? = some (.step rndA data) → .abort ∈ es.take j)) ∧
    ∀ pre rndA data post,
      (World.after x ⟨users, State.new spacename mech⟩ pre).state.Ended →
      World.responses x (World.after x ⟨users, State.new spacename mech⟩
          (pre ++ [.step rndA data])) post =
        World.responses x (World.after x ⟨users, State.new spacename mech⟩ pre) post := by
  have hcause : OwnCause x spacename mech users es ↔ ∀ j rndA data,
      es[j]? = some (.step rndA data) →
      (World.after x ⟨users, State.new spacename mech⟩ (es.take j)).state.Ended →
      mech.isSome ∨ .abort ∈ es.take j := by
    refine forall₃_congr fun j rndA data => imp_congr_right fun hj => imp_congr_right fun hended => ?_
    rw [responses_of_after_ended hended hj, ← due_eq_aborted_iff]
    simp [eq_comm]
  refine ⟨?_, ?_⟩
  · rw [hcause]
    cases mech with
    | some m => simp
    | none =>
      have hended : ∀ pre, (World.after x ⟨users, State.new spacename none⟩ pre).state.Ended :=
        after_ended (by simp [State.new, State.Ended])
      simp [hended]
  · intro pre rndA data post hended
    refine responses_eq_of_ended ?_ hended post
    rw [World.after, List.foldl_append]
    exact World.exec_ended hended (.step rndA data)

/-- 知らない mechanism で作られた object への最初の `step`。 -/
theorem invalid_mechanism_reports_aborted :
    (World.responses plainCrates ⟨aliceUsers, State.new none none⟩
      [.step ByteArray.empty (some ByteArray.empty)])[0]? = some (some (.failed .aborted)) ∧
    due none [] = .badMechanism ∧
    ¬ OwnCause plainCrates none none aliceUsers
      [.step ByteArray.empty (some ByteArray.empty)] := by
  have hresp : (World.responses plainCrates ⟨aliceUsers, State.new none none⟩
      [.step ByteArray.empty (some ByteArray.empty)])[0]? = some (some (.failed .aborted)) := rfl
  refine ⟨hresp, rfl, fun h => ?_⟩
  have hdue := h 0 ByteArray.empty (some ByteArray.empty) rfl (by simp [World.after, State.new,
    State.Ended])
  rw [hresp] at hdue
  cases hdue

end FabAccess.Authentication
