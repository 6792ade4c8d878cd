import FabAccess.Infra.Run
import FabAccess.Resources.Resource

/-!
# resource の API

`bffhd/capnp/machine.rs`、`bffhd/capnp/machinesystem.rs`、`bffhd/resources/search.rs` の埋め込み。

client は `getMachineList` などで resource の見え方（`MachineReply`）を受け取る。そこには
capability が入っていて、どれも `Machine`、すなわち session と resource の組である。
権限が確かめられるのは、多くの操作では呼び出しのたびだが、`Manage` の操作では
capability を渡すときだけである。
-/

namespace FabAccess

open Infra

/-- API の `MachineState`。 -/
inductive APIMState where
  | free
  | inUse
  | toCheck
  | blocked
  | disabled
  | reserved
  deriving DecidableEq, Repr

/-- session と resource の組（`Machine`）。 -/
structure Machine where
  session : SessionHandle
  resource : Resource
  deriving DecidableEq, Repr

/-- `machine::Builder` に書かれるもの。capability は、渡されなければ `none` である。 -/
structure MachineReply where
  id : String
  name : String
  description : Option String
  wiki : Option String
  category : Option String
  urn : String
  state : Option APIMState
  use : Option Machine
  inuse : Option Machine
  manage : Option Machine
  info : Option Machine
  deriving DecidableEq, Repr

namespace Inner

/-- `Resource::get_state_ref`。actor と同じ signal を見る。 -/
def getStateRef (inner : Inner) : MachineState := inner.signal

/-- `Resource::get_previous_user`。manager には `lastUser` として見える。 -/
def getPreviousUser (inner : Inner) : Option UserRef := inner.getStateRef.previous

/-- `Resource::is_owned_by`。こちらは database を見る。 -/
def isOwnedBy (inner : Inner) (owner : UserRef) : Bool := inner.getState.state.user == some owner

end Inner

/-- `Resource::visible`。 -/
def Resource.visible (this : Resource) (roles : Roles) (fuel : Nat) (users : Users) (inner : Inner)
    (session : SessionHandle) : Option Bool :=
  match session.hasDisclose roles fuel users this with
  | none => none
  | some true => some true
  | some false => some (inner.isOwnedBy session.user)

namespace Machine

/-- `use` が渡されるための状態の条件。 -/
def usable (user : UserRef) : Status → Bool
  | .free => true
  | .reserved reserver => reserver == user
  | _ => false

def apiState : Status → APIMState
  | .free => .free
  | .disabled => .disabled
  | .blocked _ => .blocked
  | .inUse _ => .inUse
  | .reserved _ => .reserved
  | .toCheck _ => .toCheck

def inUseBy (user : UserRef) : Status → Bool
  | .inUse owner => owner == user
  | _ => false

/-- `Machine::build_into`。三つの権限は、状態によらず必ず確かめられる。 -/
def buildInto (this : Machine) (roles : Roles) (fuel : Nat) (users : Users) (inner : Inner) :
    Option MachineReply :=
  let user := this.session.user
  let state := inner.getStateRef.state
  match this.session.hasWrite roles fuel users this.resource,
    this.session.hasManage roles fuel users this.resource,
    this.session.hasRead roles fuel users this.resource with
  | some write, some manage, some read => some {
      id := this.resource.id
      name := this.resource.desc.name
      description := this.resource.desc.description
      wiki := this.resource.desc.wiki
      category := this.resource.desc.category
      urn := "urn:fabaccess:resource:" ++ this.resource.id
      state := if read then some (apiState state) else none
      use := if write && usable user state then some this else none
      inuse := if inUseBy user state then some this else none
      manage := if manage then some this else none
      info := some this }
  | _, _, _ => none

/-- `Machine::optional_build`。返事に何も書かれなければ `some none` である。 -/
def optionalBuild (session : SessionHandle) (resource : Resource) (roles : Roles) (fuel : Nat)
    (users : Users) (inner : Inner) : Option (Option MachineReply) :=
  let this : Machine := ⟨session, resource⟩
  match resource.visible roles fuel users inner session with
  | none => none
  | some true => (this.buildInto roles fuel users inner).map some
  | some false =>
    match session.hasRead roles fuel users resource with
    | none => none
    | some true => (this.buildInto roles fuel users inner).map some
    | some false => some none

/-! ## `Manage` の操作 -/

/-- `Resource::force_set`。権限は見ない。 -/
def forceSet (this : Machine) (logged : Bool) (inner : Inner) (new : Status) : Inner :=
  inner.setStatus this.resource logged new

end Machine

/-- `ManageServer` の操作のうち、実装されていて状態を変えるもの。 -/
inductive ManageCall where
  | forceUse
  | forceFree
  | block
  | disabled
  deriving DecidableEq, Repr

/-- 書かれる status。名前が要るときは session の user になる。 -/
def ManageCall.target (session : SessionHandle) : ManageCall → Status
  | .forceUse => .inUse session.user
  | .forceFree => .free
  | .block => .blocked session.user
  | .disabled => .disabled

/-- capability `cap` を通した呼び出し。 -/
def ManageCall.exec (call : ManageCall) (cap : Machine) (logged : Bool) (inner : Inner) : Inner :=
  cap.forceSet logged inner (call.target cap.session)

/-! ## 検索 -/

/-- すべての resource。`HashMap` を辿る順序は、作られた後は変わらない。 -/
structure ResourcesHandle where
  resources : List Resource
  nodup : (resources.map Resource.id).Nodup

/-- `str::split_terminator`。最後の空の区間は数えない。 -/
def splitTerminator (s : String) (sep : Char) : List String :=
  let parts := s.toList.splitOn sep
  (if parts.getLast? = some [] then parts.dropLast else parts).map String.ofList

namespace ResourcesHandle

def getById (this : ResourcesHandle) (id : String) : Option Resource :=
  this.resources.find? (fun resource => resource.id == id)

/-- `ResourcesHandle::get_by_urn`。 -/
def getByUrn (this : ResourcesHandle) (urn : String) : Option Resource :=
  match splitTerminator urn ':' with
  | "urn" :: "fabaccess" :: "resource" :: id :: _ => this.getById id
  | _ => none

variable {resources : ResourcesHandle}

theorem eq_of_id_eq {r r' : Resource} (hr : r ∈ resources.resources)
    (hr' : r' ∈ resources.resources) (h : r.id = r'.id) : r = r' :=
  List.inj_on_of_nodup_map resources.nodup hr hr' h

theorem mem_of_getById {id : String} {r : Resource} (h : resources.getById id = some r) :
    r ∈ resources.resources := List.mem_of_find?_eq_some h

theorem id_of_getById {id : String} {r : Resource} (h : resources.getById id = some r) :
    r.id = id := by
  have hbeq := List.find?_some h
  simpa using hbeq

theorem getById_id {r : Resource} (hr : r ∈ resources.resources) :
    resources.getById r.id = some r := by
  obtain ⟨r', hr'⟩ := Option.isSome_iff_exists.mp
    (List.find?_isSome.mpr ⟨r, hr, beq_self_eq_true r.id⟩ :
      (resources.getById r.id).isSome = true)
  have hsame : r' = r := eq_of_id_eq (mem_of_getById hr') hr (id_of_getById hr')
  rw [hsame] at hr'
  exact hr'

theorem mem_of_getByUrn {urn : String} {r : Resource} (h : resources.getByUrn urn = some r) :
    r ∈ resources.resources := by
  unfold getByUrn at h
  split at h
  · exact mem_of_getById h
  · cases h

end ResourcesHandle

/-! ## `Machines` -/

/-- `filter` と `build` を、resource の列の順に行う。 -/
def buildVisible (session : SessionHandle) (roles : Roles) (fuel : Nat) (users : Users)
    (inners : String → Inner) : List Resource → Option (List MachineReply)
  | [] => some []
  | resource :: rest =>
    let inner := inners resource.id
    match resource.visible roles fuel users inner session with
    | none => none
    | some false => buildVisible session roles fuel users inners rest
    | some true =>
      match Machine.buildInto ⟨session, resource⟩ roles fuel users inner,
        buildVisible session roles fuel users inners rest with
      | some reply, some replies => some (reply :: replies)
      | _, _ => none

/-- `get_machine_list`。 -/
def getMachineList (session : SessionHandle) (resources : ResourcesHandle) (roles : Roles)
    (fuel : Nat) (users : Users) (inners : String → Inner) : Option (List MachineReply) :=
  buildVisible session roles fuel users inners resources.resources

/-- 見つかった resource についての返事。 -/
def buildFound (session : SessionHandle) (roles : Roles) (fuel : Nat) (users : Users)
    (inners : String → Inner) : Option Resource → Option (Option MachineReply)
  | some resource =>
    Machine.optionalBuild session resource roles fuel users (inners resource.id)
  | none => some none

/-- `get_machine`。 -/
def getMachine (session : SessionHandle) (resources : ResourcesHandle) (roles : Roles)
    (fuel : Nat) (users : Users) (inners : String → Inner) (id : String) :
    Option (Option MachineReply) :=
  buildFound session roles fuel users inners (resources.getById id)

/-- `get_machine_u_r_n`。 -/
def getMachineURN (session : SessionHandle) (resources : ResourcesHandle) (roles : Roles)
    (fuel : Nat) (users : Users) (inners : String → Inner) (urn : String) :
    Option (Option MachineReply) :=
  buildFound session roles fuel users inners (resources.getByUrn urn)

/-! ## capability の実行 -/

/-- 一つの resource と、client の手にある `Manage` の capability。 -/
structure ApiWorld where
  users : Users
  inner : Inner
  held : List Machine
  deriving DecidableEq

/--
API の出来事。`list` は `getMachineList`、`find` は `getMachine` と `getMachineURN` による問い合わせ、
`setUsers` は user database の任意の変更（`removeRole` と `removeUser` を含む）である。
-/
inductive ApiEvent where
  | list (session : SessionHandle) (fuel : Nat)
  | find (session : SessionHandle) (fuel : Nat)
  | call (c : Call)
  | manage (cap : Machine) (call : ManageCall) (logged : Bool)
  | setUsers (users : Users)

namespace ApiWorld

/-- 返事に入っていた capability を受け取る。 -/
def take (w : ApiWorld) (reply : Option MachineReply) : ApiWorld :=
  match reply.bind MachineReply.manage with
  | some cap => { w with held := cap :: w.held }
  | none => w

def step (roles : Roles) (res : Resource) (w : ApiWorld) : ApiEvent → Option ApiWorld
  | .list session fuel =>
    match res.visible roles fuel w.users w.inner session with
    | none => none
    | some false => some w
    | some true =>
      (Machine.buildInto ⟨session, res⟩ roles fuel w.users w.inner).map fun reply =>
        w.take (some reply)
  | .find session fuel =>
    (Machine.optionalBuild session res roles fuel w.users w.inner).map w.take
  | .call c => (c.exec roles res w.users w.inner).map fun inner => { w with inner }
  | .manage cap call logged =>
    if cap ∈ w.held then some { w with inner := call.exec cap logged w.inner } else none
  | .setUsers users => some { w with users }

def run (roles : Roles) (res : Resource) (w : ApiWorld) (events : List ApiEvent) :
    Option ApiWorld :=
  runFrom (step roles res) w events

end ApiWorld

end FabAccess
