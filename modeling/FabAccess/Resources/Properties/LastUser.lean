import FabAccess.Resources.Properties.Ownership
import FabAccess.Resources.Machine

/-!
# 最後に使った人

`previous` を書くのは `give_back` だけで、`set_status` は古い値を引き継ぐ。だから利用が
`give_back` 以外で終わると、`get_previous_user` はその人を名指さない。

* `Watched` — 最後に利用を終えた人を、呼び出しの列から記録しておく
* `step_of_writes` / `step_of_not_writes` — 一回の呼び出しが `previous` にすること
* `lastUser_iff` — `previous` が最後の利用者であるのは、書き残さない呼び出しが無いとき
-/

namespace FabAccess

open Infra

/-- resource の状態を書く呼び出し。`setUsers` は user database の任意の変更である。 -/
inductive StatusOp where
  | call (c : Call)
  | forceSet (session : SessionHandle) (new : Status) (logged : Bool)
  | setStatus (new : Status) (logged : Bool)
  | setUsers (users : Users)

namespace StatusOp

/-- 完了した一回の呼び出し。 -/
def step (roles : Roles) (res : Resource) (w : World) : StatusOp → Option World
  | .call c => w.step roles res (.call c)
  | .forceSet session new logged =>
    some { w with inner := Machine.forceSet ⟨session, res⟩ logged w.inner new }
  | .setStatus new logged => some { w with inner := w.inner.setStatus res logged new }
  | .setUsers users => some { w with users }

/-- `give_back` 以外の呼び出しが通って、status として `new` を書く。 -/
def Writes (roles : Roles) (res : Resource) (w : World) (new : Status) : StatusOp → Prop
  | .call c => c.request = .tryUpdate new ∧
      c.accepted roles res w.users w.inner.db.state = some true
  | .forceSet _ new' _ => new' = new
  | .setStatus new' _ => new' = new
  | .setUsers _ => False

/-- 呼び出しが、まだ `previous` でない人の利用を、`give_back` によらずに終わらせる。 -/
def Forgets (roles : Roles) (res : Resource) (w : World) (op : StatusOp) : Prop :=
  ∃ u new, w.inner.db.state = .inUse u ∧ new ≠ .inUse u ∧ w.inner.db.previous ≠ some u ∧
    op.Writes roles res w new

end StatusOp

/-- 移り変わりが終わらせた利用の、利用者。 -/
def Status.ended (old new : Status) : Option UserRef :=
  match old with
  | .inUse u => if new = .inUse u then none else some u
  | _ => none

/-- resource と、最後に利用を終えた人。 -/
structure Watched where
  world : World
  last : Option UserRef
  deriving DecidableEq

namespace Watched

/-- 見始めるときには、それまでの最後の利用者が保存されているとする。 -/
def start (w : World) : Watched := ⟨w, w.inner.getPreviousUser⟩

def step (roles : Roles) (res : Resource) (w : Watched) (op : StatusOp) : Option Watched :=
  (op.step roles res w.world).map fun world =>
    ⟨world, (w.world.inner.db.state.ended world.inner.db.state).or w.last⟩

end Watched

variable {roles : Roles} {res : Resource} {w w' : World} {op : StatusOp}

/-! ## 一回の呼び出し -/

theorem ended_eq_some {old new : Status} {u : UserRef} :
    old.ended new = some u ↔ old = .inUse u ∧ new ≠ .inUse u := by
  unfold Status.ended
  split
  · next v =>
    by_cases hsame : new = .inUse v
    · rw [if_pos hsame]
      constructor
      · intro h
        cases h
      · rintro ⟨h, hne⟩
        cases h
        exact absurd hsame hne
    · rw [if_neg hsame]
      constructor
      · intro h
        cases h
        exact ⟨rfl, hsame⟩
      · rintro ⟨h, _⟩
        cases h
        rfl
  · next hother =>
    constructor
    · intro h
      cases h
    · rintro ⟨h, _⟩
      exact absurd h (hother u)

theorem exec_tryUpdate {c : Call} {inner : Inner} {users : Users} {new : Status}
    (hreq : c.request = .tryUpdate new)
    (hok : c.accepted roles res users inner.db.state = some true) :
    c.exec roles res users inner = some (inner.setStatus res c.logged new) := by
  simp only [Call.accepted, hreq] at hok
  simp only [Call.exec, hreq, tryUpdate, Inner.getState, hok]

/-- 書く呼び出しは、前の利用者をそのまま引き継ぐ。 -/
theorem step_of_writes {new : Status} (hw : op.Writes roles res w new)
    (h : op.step roles res w = some w') :
    w'.inner.db = ⟨new, w.inner.db.previous⟩ ∧ w'.inner.signal = w'.inner.db := by
  cases op with
  | call c =>
    obtain ⟨inner', he, rfl⟩ := step_call h
    rw [exec_tryUpdate hw.1 hw.2] at he
    cases he
    exact ⟨rfl, rfl⟩
  | forceSet session new' logged =>
    cases hw
    cases h
    exact ⟨rfl, rfl⟩
  | setStatus new' logged =>
    cases hw
    cases h
    exact ⟨rfl, rfl⟩
  | setUsers users => exact hw.elim

/-- 書かない呼び出しは、何も変えないか、通った `give_back` である。 -/
theorem step_of_not_writes (hw : ∀ new, ¬ op.Writes roles res w new)
    (h : op.step roles res w = some w') :
    w'.inner = w.inner ∨ ∃ u, w.inner.db.state = .inUse u ∧
      w'.inner.db = MachineState.free (some u) ∧ w'.inner.signal = w'.inner.db := by
  cases op with
  | call c =>
    obtain ⟨inner', he, rfl⟩ := step_call h
    rcases exec_cases he with ⟨hok, _⟩ | ⟨_, hsame⟩
    · cases hr : c.request with
      | tryUpdate new => exact absurd ⟨hr, hok⟩ (hw new)
      | giveBack =>
        simp only [Call.accepted, hr, Option.some.injEq] at hok
        simp only [Call.exec, hr, giveBack, Inner.getState, hok, if_true] at he
        cases he
        have howner : w.inner.db.state = .inUse c.session.user := by
          unfold giveBackAllowed at hok
          split at hok
          · next who hstate =>
            rw [beq_iff_eq] at hok
            rw [hstate, hok]
          · cases hok
        exact Or.inr ⟨c.session.user, howner, rfl, rfl⟩
    · exact Or.inl hsame
  | forceSet session new logged => exact absurd rfl (hw new)
  | setStatus new logged => exact absurd rfl (hw new)
  | setUsers users =>
    cases h
    exact Or.inl rfl

/-- database と signal の状態が等しいことは、どの呼び出しも保つ。 -/
theorem step_signal (hs : w.inner.signal = w.inner.db) (h : op.step roles res w = some w') :
    w'.inner.signal = w'.inner.db := by
  by_cases hw : ∃ new, op.Writes roles res w new
  · obtain ⟨new, hw⟩ := hw
    exact (step_of_writes hw h).2
  · rcases step_of_not_writes (not_exists.mp hw) h with hsame | ⟨_, _, _, hsignal⟩
    · rw [hsame]
      exact hs
    · exact hsignal

/-- 書き残さない呼び出しでなければ、利用が終わるときに利用者が保存される。 -/
theorem step_previous (hno : ¬ op.Forgets roles res w) (h : op.step roles res w = some w') :
    w'.inner.db.previous =
      (w.inner.db.state.ended w'.inner.db.state).or w.inner.db.previous := by
  by_cases hw : ∃ new, op.Writes roles res w new
  · obtain ⟨new, hw⟩ := hw
    obtain ⟨hdb, _⟩ := step_of_writes hw h
    rw [hdb]
    cases he : w.inner.db.state.ended new with
    | none => rfl
    | some u =>
      obtain ⟨huse, hne⟩ := ended_eq_some.mp he
      by_cases hprev : w.inner.db.previous = some u
      · exact hprev
      · exact absurd ⟨u, new, huse, hne, hprev, hw⟩ hno
  · rcases step_of_not_writes (not_exists.mp hw) h with hsame | ⟨u, huse, hdb, _⟩
    · rw [hsame]
      cases he : w.inner.db.state.ended w.inner.db.state with
      | none => rfl
      | some u =>
        obtain ⟨huse, hne⟩ := ended_eq_some.mp he
        exact absurd huse hne
    · have hended : w.inner.db.state.ended w'.inner.db.state = some u :=
        ended_eq_some.mpr ⟨huse, by rw [hdb]; exact fun hfree => by cases hfree⟩
      rw [hended, hdb]
      rfl

/-- 書き残さない呼び出しは、利用者と違う人を `previous` に残す。 -/
theorem forgets_previous (hf : op.Forgets roles res w) (h : op.step roles res w = some w') :
    ∃ u, w.inner.db.state.ended w'.inner.db.state = some u ∧ w'.inner.db.previous ≠ some u := by
  obtain ⟨u, new, huse, hne, hprev, hw⟩ := hf
  obtain ⟨hdb, _⟩ := step_of_writes hw h
  refine ⟨u, ?_, ?_⟩
  · rw [hdb]
    exact ended_eq_some.mpr ⟨huse, hne⟩
  · rw [hdb]
    exact hprev

/-! ## 呼び出しの列 -/

namespace Watched

/-- database と signal が等しく、`previous` が最後に利用を終えた人である。 -/
structure Named (v : Watched) : Prop where
  signal : v.world.inner.signal = v.world.inner.db
  last : v.world.inner.getPreviousUser = v.last

theorem named_start {w : World} (h : w.inner.signal = w.inner.db) : (start w).Named := ⟨h, rfl⟩

variable {v v' : Watched}

theorem step_eq_some (h : v.step roles res op = some v') :
    op.step roles res v.world = some v'.world ∧
      v'.last = (v.world.inner.db.state.ended v'.world.inner.db.state).or v.last := by
  obtain ⟨world, hw, rfl⟩ := Option.map_eq_some_iff.mp h
  exact ⟨hw, rfl⟩

theorem named_step (hv : v.Named) (hno : ¬ op.Forgets roles res v.world)
    (h : v.step roles res op = some v') : v'.Named := by
  obtain ⟨hw, hlast⟩ := step_eq_some h
  have hsignal := step_signal hv.signal hw
  have hprev : v.world.inner.db.previous = v.last := by
    rw [← hv.last, Inner.getPreviousUser, Inner.getStateRef, hv.signal]
  refine ⟨hsignal, ?_⟩
  rw [Inner.getPreviousUser, Inner.getStateRef, hsignal, step_previous hno hw, hprev, hlast]

theorem not_named_step (hf : op.Forgets roles res v.world)
    (h : v.step roles res op = some v') : ¬ v'.Named := by
  obtain ⟨hw, hlast⟩ := step_eq_some h
  obtain ⟨u, hended, hne⟩ := forgets_previous hf hw
  intro hnamed
  apply hne
  rw [hended] at hlast
  have hread := hnamed.last
  rw [Inner.getPreviousUser, Inner.getStateRef, hnamed.signal, hlast] at hread
  exact hread

/-- 実行が通るどの状態でも、database と signal は等しい。 -/
theorem signal_of_visited {w₀ : World} {ops : List StatusOp} (h₀ : w₀.inner.signal = w₀.inner.db)
    (h : Visited (step roles res) (start w₀) ops v) :
    v.world.inner.signal = v.world.inner.db := by
  refine visited_invariant (P := fun v => v.world.inner.signal = v.world.inner.db) ?_ h₀ h
  intro s a s' hs hstep
  exact step_signal hs (step_eq_some hstep).1

end Watched

/--
**`previous` が最後の利用者であるのは、書き残さない呼び出しが無いとき、そのときに限る。**

どの role の表と user database、どの始まりの状態と呼び出しの列についても述べる。左辺の前半は
利用を終わらせる一回ごとの条件、後半は実行が通るどの状態でも `get_previous_user` が
最後に利用を終えた人を返すことである。
-/
theorem lastUser_iff (roles : Roles) (res : Resource) (w₀ : World) (ops : List StatusOp)
    (w : Watched) (h₀ : w₀.inner.signal = w₀.inner.db)
    (hrun : runFrom (Watched.step roles res) (Watched.start w₀) ops = some w) :
    ((∀ v op v', StepsFrom (Watched.step roles res) (Watched.start w₀) ops v op →
        v.step roles res op = some v' → ∀ u, v.world.inner.db.state = .inUse u →
        v'.world.inner.db.state ≠ .inUse u → v'.world.inner.db.previous = some u) ∧
      ∀ v, Visited (Watched.step roles res) (Watched.start w₀) ops v →
        v.world.inner.getPreviousUser = v.last) ↔
      ∀ v op, StepsFrom (Watched.step roles res) (Watched.start w₀) ops v op →
        ¬ op.Forgets roles res v.world := by
  have hiff := visited_iff (fun _ _ _ hv hno hstep => Watched.named_step hv hno hstep)
    (fun _ _ _ _ hf hstep => Watched.not_named_step hf hstep) (Watched.named_start h₀) hrun
  constructor
  · rintro ⟨_, hnames⟩
    exact hiff.mp fun v hv => ⟨Watched.signal_of_visited h₀ hv, hnames v hv⟩
  · intro hno
    refine ⟨?_, fun v hv => (hiff.mpr hno v hv).last⟩
    intro v op v' hat hstep u huse hne
    rw [step_previous (hno v op hat) (Watched.step_eq_some hstep).1,
      ended_eq_some.mpr ⟨huse, hne⟩]
    rfl

/-- `alice` が使い、返す。 -/
def takeAndReturn : List StatusOp :=
  [.forceSet ⟨⟨"carol"⟩⟩ (.inUse ⟨"alice"⟩) true, .call ⟨⟨⟨"alice"⟩⟩, .giveBack, 2, true⟩]

theorem lastUser_iff_takeAndReturn :
    ∃ w, runFrom (Watched.step makerRoles laser)
        (Watched.start ⟨makers, ⟨.free none, .free none, []⟩⟩) takeAndReturn = some w ∧
      w.last = some ⟨"alice"⟩ ∧
      ∀ v, Visited (Watched.step makerRoles laser)
        (Watched.start ⟨makers, ⟨.free none, .free none, []⟩⟩) takeAndReturn v →
        v.world.inner.getPreviousUser = v.last := by
  refine ⟨_, rfl, rfl, ((lastUser_iff makerRoles laser _ takeAndReturn _ rfl rfl).mpr ?_).2⟩
  intro v op hat
  rcases (stepsFrom_cons rfl).mp hat with ⟨rfl, rfl⟩ | hat
  · -- 初めは誰も使っていない
    rintro ⟨u, new, huse, _⟩
    cases huse
  · rcases (stepsFrom_cons rfl).mp hat with ⟨rfl, rfl⟩ | ⟨pre, post, heq, _⟩
    · -- `give_back` は status を書くと言わない
      rintro ⟨u, new, _, _, _, hrequest, _⟩
      cases hrequest
    · simp at heq

/-- manager が `alice` の利用を終わらせる。 -/
def takeAndForceFree : List StatusOp :=
  [.forceSet ⟨⟨"carol"⟩⟩ (.inUse ⟨"alice"⟩) true, .forceSet ⟨⟨"carol"⟩⟩ .free true]

/-- `force_free` の後、`alice` は最後の利用者として残らない。 -/
theorem forceFree_forgets_user :
    ∃ v w, Watched.step makerRoles laser v (.forceSet ⟨⟨"carol"⟩⟩ .free true) = some w ∧
      StepsFrom (Watched.step makerRoles laser)
        (Watched.start ⟨makers, ⟨.free none, .free none, []⟩⟩) takeAndForceFree v
        (.forceSet ⟨⟨"carol"⟩⟩ .free true) ∧
      v.world.inner.db.state = .inUse ⟨"alice"⟩ ∧ w.world.inner.db.state = .free ∧
      w.world.inner.db.previous = none ∧ w.world.inner.getPreviousUser = none ∧
      w.last = some ⟨"alice"⟩ :=
  ⟨_, _, rfl, ⟨[.forceSet ⟨⟨"carol"⟩⟩ (.inUse ⟨"alice"⟩) true], [], rfl, rfl⟩, rfl, rfl, rfl,
    rfl, rfl⟩

end FabAccess
