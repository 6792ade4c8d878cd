import FabAccess.Infra.Interleave
import FabAccess.Resources.Resource

/-!
# 割り込みのある更新

`try_update` と `give_back` を、一つずつの transaction に分けたもの。
読み出しと書き込みは別の LMDB transaction で、間に lock は無い。
接続ごとの task は複数の worker thread に散るので、歩の順序は何でもありうる。

```
try_update : read → checkManage → checkWrite → reread → put → log → notify
give_back  : read → put → log → notify
```

`log` と `notify` は `Inner::set_state` の残り（監査記録と signal）である。
`set_state` だけを取り出した系が `setStates` で、`process_line` などどの呼び手の書き込みも、
そこではただの `set_state` の呼び出しである。
-/

namespace FabAccess

open Infra

/-- 呼び出しの途中の位置。 -/
inductive UpdatePc where
  /-- `get_state` の読み出し -/
  | read
  | checkManage
  | checkWrite
  /-- `set_status` の中の二度目の `get_state` -/
  | reread
  /-- `StateDB::put` の transaction -/
  | put (new : MachineState)
  | log (new : MachineState)
  | notify (new : MachineState)
  | done
  deriving DecidableEq, Repr

/-- 進行中の呼び出し。`old` は最初に読んだ status、`manage` と `write` は確かめた権限である。 -/
structure Update where
  session : SessionHandle
  request : Request
  old : Status
  manage : Bool
  write : Bool
  pc : UpdatePc
  deriving DecidableEq, Repr

namespace Update

def start (session : SessionHandle) (request : Request) : Update where
  session
  request
  old := .free
  manage := false
  write := false
  pc := .read

/-- 読んだ権限で、status `s` からの書き込みを表が許すか。 -/
def allowedFrom (t : Update) (s : Status) : Bool :=
  match t.request with
  | .tryUpdate new => updateAllowed t.manage t.write t.session.user s new
  | .giveBack => giveBackAllowed t.session.user s

end Update

/-- 一歩のときの環境。再帰の深さと、監査記録が書けたかどうか。 -/
structure Weather where
  fuel : Nat
  logged : Bool
  deriving DecidableEq, Repr

/-- 新しい呼び出しを始める、または user database が変わる。 -/
inductive Arrival where
  | call (session : SessionHandle) (request : Request)
  | setUsers (users : Users)

def updateSpawn (w : World) : Arrival → Option (World × List Update)
  | .call session request => some (w, [Update.start session request])
  | .setUsers users => some ({ w with users }, [])

/-- 呼び出しの一歩。権限の確認が返らないときは `none`。 -/
def updateNext (roles : Roles) (res : Resource) (w : World) (t : Update) (k : Weather) :
    Option (World × Update) :=
  match t.pc with
  | .read =>
    let t := { t with old := w.inner.getState.state }
    match t.request with
    | .tryUpdate _ => some (w, { t with pc := .checkManage })
    | .giveBack =>
      if giveBackAllowed t.session.user t.old then
        some (w, { t with pc := .put (MachineState.free (some t.session.user)) })
      else some (w, { t with pc := .done })
  | .checkManage =>
    match t.session.hasManage roles k.fuel w.users res with
    | none => none
    | some true => some (w, { t with manage := true, pc := .reread })
    | some false => some (w, { t with pc := .checkWrite })
  | .checkWrite =>
    match t.session.hasWrite roles k.fuel w.users res with
    | none => none
    | some write =>
      let t := { t with write }
      if t.allowedFrom t.old then some (w, { t with pc := .reread })
      else some (w, { t with pc := .done })
  | .reread =>
    some (w, { t with pc := .put ⟨t.request.target, w.inner.getState.previous⟩ })
  | .put new => some ({ w with inner := { w.inner with db := new } }, { t with pc := .log new })
  | .log new =>
    let audit := if k.logged then
        w.inner.audit ++ [{ machine := res.id, state := new.display }]
      else w.inner.audit
    some ({ w with inner := { w.inner with audit } }, { t with pc := .notify new })
  | .notify new =>
    some ({ w with inner := { w.inner with signal := new } }, { t with pc := .done })
  | .done => none

/-- 一つの resource への割り込みのある更新の系。 -/
def updates (roles : Roles) (res : Resource) : System World Update Arrival Weather where
  spawn := updateSpawn
  next := updateNext roles res

/-! ## `set_state` の三歩 -/

/-- 進行中の `Inner::set_state`。 -/
inductive Setting where
  | put (new : MachineState)
  | log (new : MachineState)
  | notify (new : MachineState)
  | done
  deriving DecidableEq, Repr

/-- `set_state` を呼ぶ、または監査記録に別の機械の行が書かれる。 -/
inductive SetArrival where
  | call (new : MachineState)
  | otherLine (line : AuditLogLine)

def setSpawn (res : Resource) (inner : Inner) : SetArrival → Option (Inner × List Setting)
  | .call new => some (inner, [.put new])
  | .otherLine line =>
    if line.machine = res.id then none else some ({ inner with audit := inner.audit ++ [line] }, [])

/-- 一歩。`logged` は監査記録が書けたかどうかである。 -/
def setNext (res : Resource) (inner : Inner) (t : Setting) (logged : Bool) :
    Option (Inner × Setting) :=
  match t with
  | .put new => some ({ inner with db := new }, .log new)
  | .log new =>
    let audit := if logged then inner.audit ++ [{ machine := res.id, state := new.display }]
      else inner.audit
    some ({ inner with audit }, .notify new)
  | .notify new => some ({ inner with signal := new }, .done)
  | .done => none

/-- 一つの resource の上の `set_state` の系。 -/
def setStates (res : Resource) : System Inner Setting SetArrival Bool where
  spawn := setSpawn res
  next := setNext res

/-- 割り込みが無ければ、三歩は `Inner::set_state` である。 -/
theorem setStates_alone (res : Resource) (inner : Inner) (logged : Bool) (new : MachineState) :
    (setStates res).run ⟨inner, [.put new]⟩ (List.replicate 3 (.exec 0 logged)) =
      some ⟨inner.setState res logged new, [.done]⟩ := rfl

/-- 呼び出しの `put` から後は、`set_state` の歩である。 -/
def UpdatePc.setting : UpdatePc → Option Setting
  | .put new => some (.put new)
  | .log new => some (.log new)
  | .notify new => some (.notify new)
  | _ => none

theorem updateNext_setting {roles : Roles} {res : Resource} {w w' : World} {t t' : Update}
    {k : Weather} {u : Setting} (hu : t.pc.setting = some u)
    (h : updateNext roles res w t k = some (w', t')) :
    ∃ u', setNext res w.inner u k.logged = some (w'.inner, u') ∧ w'.users = w.users ∧
      t'.pc.setting = if u' = .done then none else some u' := by
  unfold updateNext at h
  cases hpc : t.pc with
  | put new | log new | notify new =>
    rw [hpc] at hu h
    cases hu
    cases h
    exact ⟨_, rfl, rfl, rfl⟩
  | read | checkManage | checkWrite | reread | done =>
    rw [hpc] at hu
    cases hu

end FabAccess
