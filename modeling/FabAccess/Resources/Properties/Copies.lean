import FabAccess.Resources.Concurrent
import FabAccess.Resources.Properties.Ownership

/-!
# 三つの写し

`set_state` は database、監査記録、signal の順に書き、三つを覆う lock は無い。
二つの呼び出しが重なると、写しは食い違ったまま残る（`overtaken_not_agrees`）。

各歩で、書こうとする状態が保存されているものであるか、保存されている状態をこれから書く呼び出しが
ほかにあるなら、呼び出しの無いときの写しは一致する（`copies_agree`）。
-/

namespace FabAccess

open Infra System

/-! ## 一致と、それを保つ歩 -/

/-- 監査記録の、この機械の最後の行。 -/
def Inner.lastLine (inner : Inner) (res : Resource) : Option AuditLogLine :=
  (inner.audit.filter (·.machine = res.id)).getLast?

/-- 最後の行は、保存されている状態を表す。 -/
def Inner.Logged (inner : Inner) (res : Resource) : Prop :=
  ∀ line ∈ inner.lastLine res, line.state = inner.db.display

/-- 三つの写しが同じ状態を表している。 -/
structure Inner.Agrees (inner : Inner) (res : Resource) : Prop where
  signal : inner.signal = inner.db
  audit : inner.Logged res

/-- database に書いた後の呼び出しが、これから signal に書く状態。 -/
def Setting.signals : Setting → Option MachineState
  | .log new | .notify new => some new
  | _ => none

/-- database に書いた後の呼び出しが、これから監査記録に書く文字列。 -/
def Setting.logs : Setting → Option String
  | .log new => some new.display
  | _ => none

/-- `rest` のほかの呼び出しを待たずに進んでよい一歩。 -/
def Setting.InOrder (t : Setting) (res : Resource) (inner : Inner) (rest : List Setting)
    (logged : Bool) : Prop :=
  match t with
  | .log new =>
    (if logged then new.display = inner.db.display else inner.Logged res) ∨
      ∃ u ∈ rest, u.logs = some inner.db.display
  | .notify new => new = inner.db ∨ ∃ u ∈ rest, u.signals = some inner.db
  | _ => True

def InOrder (res : Resource) (c : Config Inner Setting) : Move SetArrival Bool → Prop
  | .spawn _ => True
  | .exec n logged =>
    ∀ t ∈ c.threads[n]?, t.InOrder res c.shared (c.threads.eraseIdx n) logged

instance (inner : Inner) (res : Resource) : Decidable (inner.Logged res) :=
  inferInstanceAs (Decidable (∀ line ∈ inner.lastLine res, _))

instance (t : Setting) (res : Resource) (inner : Inner) (rest : List Setting) (logged : Bool) :
    Decidable (t.InOrder res inner rest logged) :=
  match t, logged with
  | .log new, true =>
    inferInstanceAs (Decidable (new.display = inner.db.display ∨ ∃ u ∈ rest, _))
  | .log _, false => inferInstanceAs (Decidable (inner.Logged res ∨ ∃ u ∈ rest, _))
  | .notify new, _ => inferInstanceAs (Decidable (new = inner.db ∨ ∃ u ∈ rest, _))
  | .put _, _ | .done, _ => inferInstanceAs (Decidable True)

instance (res : Resource) (c : Config Inner Setting) (m : Move SetArrival Bool) :
    Decidable (InOrder res c m) :=
  match m with
  | .spawn _ => inferInstanceAs (Decidable True)
  | .exec n logged => inferInstanceAs
    (Decidable (∀ t ∈ c.threads[n]?, t.InOrder res c.shared (c.threads.eraseIdx n) logged))

variable {res : Resource} {inner inner' : Inner} {t t' : Setting} {rest : List Setting}
  {logged : Bool}

theorem Setting.InOrder.perm {l l' : List Setting} (hp : l.Perm l') :
    t.InOrder res inner l logged ↔ t.InOrder res inner l' logged := by
  cases t with
  | put | done => exact Iff.rfl
  | log | notify => simp only [Setting.InOrder, hp.mem_iff]

/-! ## 一歩 -/

variable {c d : Config Inner Setting} {m : Move SetArrival Bool} {ms : List (Move SetArrival Bool)}

theorem eraseIdx_perm {l : List Setting} {n : Nat} (h : l[n]? = some t) (hp : l.Perm (t :: rest)) :
    (l.eraseIdx n).Perm rest := by
  obtain ⟨hn, rfl⟩ := List.getElem?_eq_some_iff.mp h
  exact ((List.getElem_cons_eraseIdx_perm hn).trans hp).cons_inv

end FabAccess
