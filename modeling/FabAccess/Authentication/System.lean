import FabAccess.Authentication.FabFire

/-!
# authentication の API

`bffhd/capnp/authenticationsystem.rs` の `Authentication` と、それが使う rsasl の session。
session は入力ごとに mechanism の `step` を一度だけ呼び、callback が `finalize` した user を
`validation` として見せる。

実行は、client の `step` と `abort`、それに並行して行われる user database への書き込みの列である。
-/

namespace FabAccess.Authentication

/-! ## rsasl の session -/

/-- 選ばれた mechanism とその状態。 -/
inductive Mechanism where
  | plain
  | fabFire (f : FabFire)
  | fabFireBin (f : FabFire)
  deriving DecidableEq

/-- `Session<V>`。 -/
structure Session where
  mech : Mechanism
  validation : Option User
  deriving DecidableEq

variable (x : Crates)

/-- mechanism の結果と、書き出した byte 列と、次の session。失敗すれば session は捨てられる。 -/
abbrev Stepped := Except Failure (SaslState × ByteArray × Session)

/-- FabFire の `step` を session の上で行う。 -/
def Session.stepCard (step : Mech SaslState) (mk : FabFire → Mechanism) (f : FabFire)
    (validation : Option User) : Stepped :=
  match step (Work.start f validation) with
  | .ok r s => .ok (r, s.out, ⟨mk s.mech, s.validation⟩)
  | .error e _ => .error e

/-- `Session::step`。 -/
def Session.step (session : Session) (users : Users) (rndA data : ByteArray) : Stepped :=
  match session.mech with
  | .plain =>
    match x.plain data with
    | none => .error .plainParse
    | some context =>
      match validate x users .plain context with
      | .ok (some user) => .ok (.finished false, ByteArray.empty, ⟨.plain, some user⟩)
      | .ok none => .ok (.finished false, ByteArray.empty, session)
      | .error e => .error e
  | .fabFire f =>
    stepCard (FabFire.stepJson x users rndA (some data)) .fabFire f session.validation
  | .fabFireBin f =>
    stepCard (FabFireBin.stepBin x users rndA (some data)) .fabFireBin f session.validation

/-- `AuthenticationHandle::start` が作る session。 -/
def Session.start (spacename : Option String) : Mechname → Session
  | .plain => ⟨.plain, none⟩
  | .fabFire => ⟨.fabFire FabFire.newServer, none⟩
  | .fabFireBin => ⟨.fabFireBin (FabFire.newServerBin spacename), none⟩

/-! ## `Authentication` -/

inductive ErrorCode where
  | aborted
  | badMechanism
  | invalidCredentials
  deriving DecidableEq, Repr

/-- `step` の返事。 -/
inductive Response where
  | challenge (data : ByteArray)
  | successful (session : UserRef) (additionalData : Option ByteArray)
  | failed (code : ErrorCode)
  /-- どの場合も設定されていない -/
  | unset
  /-- 引数が読めず、RPC の誤りになる -/
  | rpcError
  /-- panic し、返事が無い -/
  | panicked
  deriving DecidableEq

/-- `Authentication` の `State`。 -/
inductive State where
  | invalidMechanism
  | finished
  | aborted
  | running (session : Session)
  deriving DecidableEq

/-- `Authentication::build_error`。 -/
def State.buildError : State → Response
  | .running _ => .unset
  | .invalidMechanism => .failed .badMechanism
  | .finished => .failed .aborted
  | .aborted => .failed .aborted

/--
`Authentication::step`。`data` が無いのは引数を読めないときである。

状態は先に `Aborted` に置き換えられ、session が続くか終わったときだけ書き直される。
-/
def State.step (state : State) (users : Users) (rndA : ByteArray) (data : Option ByteArray) :
    State × Response :=
  match state with
  | .running session =>
    match data with
    | none => (.aborted, .rpcError)
    | some data =>
      match session.step x users rndA data with
      | .ok (.finished sent, out, session) =>
        match session.validation with
        | some user => (.finished, .successful ⟨user.id⟩ (if sent then some out else none))
        | none => (.finished, .failed .invalidCredentials)
      | .ok (.running, out, session) => (.running session, .challenge out)
      | .error .panic => (.aborted, .panicked)
      | .error _ => (.aborted, State.buildError .aborted)
  | _ => (.aborted, State.buildError .aborted)

/-- 作られたばかりの object。知らない mechanism なら `Authentication::invalid_mechanism`。 -/
def State.new (spacename : Option String) : Option Mechname → State
  | some mech => .running (Session.start spacename mech)
  | none => .invalidMechanism

/-! ## 実行 -/

/-- 一つの object の上の出来事。 -/
inductive Event where
  | step (rndA : ByteArray) (data : Option ByteArray)
  | abort
  /-- 並行して行われた書き込みの後の user database -/
  | write (users : KeyedUsers)

/-- server の状態のうち、この object が見るもの。 -/
structure World where
  users : KeyedUsers
  state : State

/-- 一つの出来事。返事があるのは `step` だけである。 -/
def World.exec (world : World) : Event → World × Option Response
  | .step rndA data =>
    let (state, response) := world.state.step x world.users.val rndA data
    ({ world with state }, some response)
  | .abort => ({ world with state := .aborted }, none)
  | .write users => ({ world with users }, none)

/-- 出来事ごとの返事。 -/
def World.responses (world : World) : List Event → List (Option Response)
  | [] => []
  | e :: es => (world.exec x e).2 :: World.responses (world.exec x e).1 es

/-- `step` に渡された入力と、そのときの乱数と database。 -/
structure Input where
  data : ByteArray
  rndA : ByteArray
  users : Users

def Event.input (users : Users) : Event → List Input
  | .step rndA (some data) => [⟨data, rndA, users⟩]
  | _ => []

/-- この object に渡された入力の列。 -/
def World.inputs (world : World) : List Event → List Input
  | [] => []
  | e :: es => e.input world.users.val ++ World.inputs (world.exec x e).1 es

end FabAccess.Authentication
