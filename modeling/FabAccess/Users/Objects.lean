import FabAccess.Users.Api

/-!
# user の capability

`bffhd/capnp/user.rs` と `bffhd/capnp/user_system.rs` の object を通した呼び出しの埋め込み。

client は session を開いて `UserSystem` の capability を得、それを通して user の object を得る。
object は名前を持つだけで、呼ばれるたびに record を読み直す。record が無いときの扱いは method ごとに
違い、無視するもの、誤りを返すもの、panic するものがある。

呼び出しは `Api.lean` と同じく一つの transaction を一歩として進み、その間にほかの呼び出しが割り込む。
session を開くところは一歩とする。
-/

namespace FabAccess

open FabAccess.Infra

/-- client の手にある capability。`admin` は `card_d_e_s_fire_e_v2` と一緒に渡される。 -/
inductive Cap where
  /-- `UserSystem` の `info` -/
  | system (caller : String)
  /-- `UserSystem` の `manage` と `search` -/
  | systemManage (caller : String)
  | info (caller uid : String)
  | manage (caller uid : String)
  | admin (caller uid : String)
  deriving DecidableEq

/-- capability を使う session の user。 -/
def Cap.caller : Cap → String
  | .system caller | .systemManage caller | .info caller _ | .manage caller _
  | .admin caller _ => caller

/-- capability の指す user。 -/
def Cap.uid : Cap → String
  | .system caller | .systemManage caller => caller
  | .info _ uid | .manage _ uid | .admin _ uid => uid

/-- client からの呼び出し。`caller` はこの session の user である。 -/
inductive ObjectCall where
  | openSession (uid : String)
  | getUserSelf (caller : String)
  | getUserByName (caller username : String)
  | getUserList (caller : String)
  | listRoles (caller uid : String)
  | getTokenList (caller uid : String)
  | edit (caller : String) (call : UserCall)

def ObjectCall.caller : ObjectCall → String
  | .openSession caller | .getUserSelf caller | .getUserByName caller _ | .getUserList caller
  | .listRoles caller _ | .getTokenList caller _ | .edit caller _ => caller

/-- 呼び出しに要る capability。`load_file` は client からは呼べない。 -/
def ObjectCall.needs : ObjectCall → Option Cap
  | .openSession _ => none
  | .getUserSelf caller => some (.system caller)
  | .getUserByName caller _ | .getUserList caller => some (.systemManage caller)
  | .listRoles caller uid => some (.info caller uid)
  | .getTokenList caller uid => some (.admin caller uid)
  | .edit caller call =>
    match call with
    | .managePwd uid _ _ _ => some (.manage caller uid)
    | .adminPwd uid _ _ | .addRole uid _ | .removeRole uid _ | .bind uid _ _ | .unbind uid _ =>
      some (.admin caller uid)
    | .addUserFallible caller' _ _ _ => if caller' = caller then some (.systemManage caller) else none
    | .removeUser _ => some (.systemManage caller)
    | .loadFile _ _ => none

/-- `pwd` などの `edit` のほかの呼び出しの返事。 -/
inductive ObjectReply where
  | ok
  | roles (l : List String)
  | tokens (l : List ByteArray)
  /-- `User API object with nonexisting user` -/
  | noSuchUser
  | panicked
  deriving DecidableEq

/-- 呼び出しの進み。`todo` は、これから `User::fill` で capability を作る user である。 -/
inductive Phase where
  | start
  | edit (p : Progress)
  | fillInfo (todo : List String)
  | fillAdmin (uid : String) (info : Bool) (todo : List String)
  | replied (r : ObjectReply)
  deriving DecidableEq

/-- 進行中の呼び出し。 -/
structure Task where
  call : ObjectCall
  phase : Phase

/-- user database と、client の手にある capability。 -/
structure Desk where
  users : Users
  held : List Cap

/-- 起動してから変わらないもの。 -/
structure ObjectRules extends Rules where
  /-- `bffh.users.manage` への `Roles::is_permitted` -/
  permitsManage : UserData → Bool

variable (x : Codec) (toml : Toml) (rules : ObjectRules)

/-- `APISession::build` が渡す capability。 -/
def sessionCaps (user : User) : List Cap :=
  .system user.id :: if rules.permitsManage user.userdata then [.systemManage user.id] else []

/-- `User::fill` が渡す capability。 -/
def fillCaps (caller uid : String) (info admin : Bool) : List Cap :=
  (if info then [.info caller uid] else []) ++ (if caller = uid then [.manage caller uid] else []) ++
    if admin then [.admin caller uid] else []

/-- `addUserFallible` が終わったときに渡す capability。 -/
def addedCaps : UserCall → Progress → List Cap
  | .addUserFallible caller username _ _, .done (.added info _ admin) =>
    fillCaps caller username info admin
  | _, _ => []

/-- 始まった呼び出し。 -/
def ObjectCall.begin (call : ObjectCall) : Task :=
  match call with
  | .edit _ inner => ⟨call, .edit (inner.begin rules.toRules).progress⟩
  | _ => ⟨call, .start⟩

/-- `session.has_perm`。user の record は呼ばれるたびに読み直す。 -/
def permits (p : UserData → Bool) (seen : Option User) : Bool :=
  seen.any fun user => p user.userdata

/-- record を読む最初の一歩。`order` は `getUserList` が database を辿る順序である。 -/
def firstRead (users : Users) (order : List String) : ObjectCall → Option Phase
  | .getUserSelf caller =>
    match users.getUser caller with
    | some user => some (.fillInfo [user.id])
    | none => some (.replied .panicked)
  | .getUserByName _ username =>
    -- 空の key は LMDB が拒み、`get_user` の `unwrap` が panic する
    if username.isEmpty then some (.replied .panicked)
    else
      match users.getUser username with
      | some user => some (.fillInfo [user.id])
      | none => some (.replied .ok)
  | .getUserList _ =>
    if order.Nodup ∧ order.toFinset = users.userdb.keys then some (.fillInfo order) else none
  | .listRoles _ uid =>
    match users.getUser uid with
    | some user => some (.replied (.roles user.userdata.roles))
    | none => some (.replied (.roles []))
  | .getTokenList _ uid =>
    match getTokenList x uid (users.getUser uid) with
    | .ok tokens => some (.replied (.tokens tokens))
    | .error _ => some (.replied .noSuchUser)
  | .openSession _ | .edit _ _ => none

/-- 次の一歩。一歩は高々一つの transaction である。 -/
def Task.next (desk : Desk) (t : Task) (order : List String) : Option (Desk × Task) :=
  match t.phase with
  | .replied _ => none
  | .start => (firstRead x desk.users order t.call).map fun phase => (desk, { t with phase })
  | .fillInfo [] => some (desk, { t with phase := .replied .ok })
  | .fillInfo (uid :: todo) =>
    let info := t.call.caller = uid ||
      permits rules.permitsInfo (desk.users.getUser t.call.caller)
    some (desk, { t with phase := .fillAdmin uid info todo })
  | .fillAdmin uid info todo =>
    let admin := permits rules.permitsAdmin (desk.users.getUser t.call.caller)
    some ({ desk with held := fillCaps t.call.caller uid info admin ++ desk.held },
      { t with phase := .fillInfo todo })
  | .edit p =>
    match t.call with
    | .edit _ call =>
      (Pending.next x toml rules.toRules desk.users ⟨call, p⟩).map fun r =>
        (⟨r.1, addedCaps call r.2.progress ++ desk.held⟩, { t with phase := .edit r.2.progress })
    | _ => none

/-- 呼び出しを始める。手に無い capability を通しては呼べない。 -/
def Desk.spawn (desk : Desk) (call : ObjectCall) : Option (Desk × List Task) :=
  match call with
  | .openSession uid =>
    (desk.users.getUser uid).map fun user =>
      ({ desk with held := sessionCaps rules user ++ desk.held }, [])
  | call =>
    match call.needs with
    | some cap => if cap ∈ desk.held then some (desk, [call.begin rules]) else none
    | none => none

/-- 呼び出しがいくつも並行して進む系。 -/
def objectApi : System Desk Task ObjectCall (List String) where
  spawn := Desk.spawn rules
  next desk t order := t.next x toml rules desk order

end FabAccess
