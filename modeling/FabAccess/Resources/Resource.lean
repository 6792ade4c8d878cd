import FabAccess.Authorization.Roles

/-!
# resource とその状態

`bffhd/resources/mod.rs`、`bffhd/resources/modules/fabaccess.rs`、`bffhd/session/mod.rs`、
`bffhd/audit.rs` の埋め込み。

一つの resource の状態は三箇所に写しを持つ。database の entry と、actor が見る signal と、
監査記録の最後の行である。`Inner::set_state` はこの順に書く。

`is_permitted` は role の表が循環していると返らないので、権限を確かめる関数は
呼び出しの深さ `fuel` を受け取り、返らないときは `none` とする。
-/

namespace FabAccess

/-- 機械の status（`Status`）。 -/
inductive Status where
  | free
  | inUse (user : UserRef)
  | toCheck (user : UserRef)
  | blocked (user : UserRef)
  | disabled
  | reserved (user : UserRef)
  deriving DecidableEq, Repr

/-- status が名指す user。`get_current_user` と `is_owned_by` の場合分けである。 -/
def Status.user : Status → Option UserRef
  | .free | .disabled => none
  | .inUse user | .toCheck user | .blocked user | .reserved user => some user

structure MachineState where
  state : Status
  previous : Option UserRef
  deriving DecidableEq, Repr

namespace MachineState

def free (previous : Option UserRef) : MachineState := { state := .free, previous }

/-- `Display for ArchivedMachineState`。監査記録に書かれる文字列。 -/
def display (s : MachineState) : String :=
  match s.state with
  | .free => "free"
  | .inUse user => "inuse " ++ user.id
  | .toCheck user => "tocheck " ++ user.id
  | .blocked user => "blocked " ++ user.id
  | .disabled => "disabled"
  | .reserved user => "reserved " ++ user.id

end MachineState

structure MachineDescription where
  name : String
  description : Option String
  wiki : Option String
  category : Option String
  privs : PrivilegesBuf
  deriving DecidableEq, Repr

structure AuditLogLine where
  machine : String
  state : String
  deriving DecidableEq, Repr

/-- `Inner` のうち変わらない部分。 -/
structure Resource where
  id : String
  desc : MachineDescription
  deriving DecidableEq, Repr

/-- 一つの resource の変わる部分。`db` は LMDB の entry で、`Inner::new` が必ず作る。 -/
structure Inner where
  db : MachineState
  signal : MachineState
  audit : List AuditLogLine
  deriving DecidableEq, Repr

namespace Inner

def getState (inner : Inner) : MachineState := inner.db

/-- `Inner::set_state`。監査記録の書き込みは失敗してもよく、失敗は無視される。 -/
def setState (inner : Inner) (res : Resource) (logged : Bool) (state : MachineState) : Inner where
  db := state
  audit := if logged then inner.audit ++ [{ machine := res.id, state := state.display }]
    else inner.audit
  signal := state

/-- `Resource::set_status`。前の利用者は保存されている状態から引き継ぐ。 -/
def setStatus (inner : Inner) (res : Resource) (logged : Bool) (state : Status) : Inner :=
  inner.setState res logged { state, previous := inner.getState.previous }

end Inner

/-! ## session と権限 -/

structure SessionHandle where
  user : UserRef
  deriving DecidableEq, Repr

namespace SessionHandle

/-- `SessionHandle::has_perm`。user の record は呼ばれるたびに読み直す。 -/
def hasPerm (session : SessionHandle) (roles : Roles) (fuel : Nat) (users : Users)
    (perm : Permission) : Option Bool :=
  match users.getUser session.user.id with
  | some user => roles.isPermitted fuel user.userdata perm
  | none => some false

def hasDisclose (session : SessionHandle) (roles : Roles) (fuel : Nat) (users : Users)
    (res : Resource) : Option Bool :=
  session.hasPerm roles fuel users res.desc.privs.disclose

def hasRead (session : SessionHandle) (roles : Roles) (fuel : Nat) (users : Users)
    (res : Resource) : Option Bool :=
  session.hasPerm roles fuel users res.desc.privs.read

def hasWrite (session : SessionHandle) (roles : Roles) (fuel : Nat) (users : Users)
    (res : Resource) : Option Bool :=
  session.hasPerm roles fuel users res.desc.privs.write

def hasManage (session : SessionHandle) (roles : Roles) (fuel : Nat) (users : Users)
    (res : Resource) : Option Bool :=
  session.hasPerm roles fuel users res.desc.privs.manage

end SessionHandle

/-! ## 更新の判断 -/

/-- `try_update` の、write を持つ者のための表。 -/
def writerAllows (user : UserRef) : Status → Status → Bool
  | .free, .inUse who => who == user
  | .free, .reserved whom => user == whom
  | .inUse who, .free => who == user
  | .inUse who, .toCheck _ => who == user
  | .reserved whom, .free => whom == user
  | .reserved whom, .inUse who => whom == user && who == whom
  | _, _ => false

/-- `try_update` の、誰にでも許される表。 -/
def everybodyAllows (user : UserRef) : Status → Status → Bool
  | .inUse who, .free => who == user
  | .inUse who, .toCheck _ => who == user
  | .reserved whom, .free => whom == user
  | _, _ => false

/-- 権限が分かった後の判断。三つの条件を `||` で繋いだものである。 -/
def updateAllowed (manage write : Bool) (user : UserRef) (old new : Status) : Bool :=
  manage || (write && writerAllows user old new) || everybodyAllows user old new

/-- `give_back` の判断。いま使っている本人だけが返せる。 -/
def giveBackAllowed (user : UserRef) : Status → Bool
  | .inUse who => who == user
  | _ => false

/-- `try_update` の条件の全体。`||` は左から評価され、manage が真なら write は読まれない。 -/
def tryUpdateAllowed (session : SessionHandle) (roles : Roles) (res : Resource) (fuel : Nat)
    (users : Users) (old new : Status) : Option Bool :=
  match session.hasManage roles fuel users res with
  | none => none
  | some true => some true
  | some false =>
    match session.hasWrite roles fuel users res with
    | none => none
    | some write => some (updateAllowed false write session.user old new)

/-- `Resource::try_update`（途中に割り込みのない場合）。 -/
def tryUpdate (session : SessionHandle) (roles : Roles) (res : Resource) (fuel : Nat)
    (logged : Bool) (users : Users) (inner : Inner) (new : Status) : Option Inner :=
  match tryUpdateAllowed session roles res fuel users inner.getState.state new with
  | none => none
  | some true => some (inner.setStatus res logged new)
  | some false => some inner

/-- `Resource::give_back`（途中に割り込みのない場合）。権限は見ない。 -/
def giveBack (session : SessionHandle) (res : Resource) (logged : Bool) (inner : Inner) : Inner :=
  if giveBackAllowed session.user inner.getState.state then
    inner.setState res logged (MachineState.free (some session.user))
  else inner

/-- resource への要求。 -/
inductive Request where
  | tryUpdate (new : Status)
  | giveBack
  deriving DecidableEq, Repr

/-- 要求が通ったときの新しい status。 -/
def Request.target : Request → Status
  | .tryUpdate new => new
  | .giveBack => .free

/-- 一回の呼び出し。`fuel` と `logged` は環境の都合（再帰の深さと、監査記録が書けたか）である。 -/
structure Call where
  session : SessionHandle
  request : Request
  fuel : Nat
  logged : Bool
  deriving DecidableEq, Repr

def Call.exec (c : Call) (roles : Roles) (res : Resource) (users : Users) (inner : Inner) :
    Option Inner :=
  match c.request with
  | .tryUpdate new => tryUpdate c.session roles res c.fuel c.logged users inner new
  | .giveBack => some (giveBack c.session res c.logged inner)

/-- 呼び出しが通るかどうかの判断だけを取り出したもの。 -/
def Call.accepted (c : Call) (roles : Roles) (res : Resource) (users : Users) (old : Status) :
    Option Bool :=
  match c.request with
  | .tryUpdate new => tryUpdateAllowed c.session roles res c.fuel users old new
  | .giveBack => some (giveBackAllowed c.session.user old)

/-! ## 呼び出しの列 -/

/-- resource と user database。 -/
structure World where
  users : Users
  inner : Inner
  deriving DecidableEq

/-- 一つの呼び出し、または user database の任意の変更。 -/
inductive Event where
  | call (c : Call)
  | setUsers (users : Users)

def World.step (roles : Roles) (res : Resource) (w : World) : Event → Option World
  | .call c => (c.exec roles res w.users w.inner).map (fun inner => { w with inner })
  | .setUsers users => some { w with users }

def World.run (roles : Roles) (res : Resource) (w : World) : List Event → Option World
  | [] => some w
  | e :: es =>
    match w.step roles res e with
    | none => none
    | some w' => w'.run roles res es

end FabAccess
