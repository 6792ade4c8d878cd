import FabAccess.Actors
import FabAccess.Infra.Run
import FabAccess.Initiators.Process
import FabAccess.Resources.Machine
import Mathlib.Data.Finmap

/-!
# actor の読み込み

`bffhd/actors/mod.rs` の `load`、その中の MQTT の task、`process.rs`・`shelly.rs`・`dummy.rs` の埋め込みと、
動き出した actor のすべてを含む系。

* `Url::parse` と MQTT の client の `publish` は外から与える。`publish` について当てにするのは
  `Publish.ByChannel` である
* `HashMap` を辿る順序は決まっていないので、列 `Modules` として受け取る
* `issued` と `history` と `results` は記録で、どの歩もそれを読まない
-/

namespace FabAccess.Actors

open Infra

/-! ## actor の種類 -/

/-- `HashMap<String, String>`。 -/
abbrev Params := Finmap (fun _ : String => String)

structure ModuleConfig where
  module : String
  params : Params

/-- `str::split_whitespace`。 -/
def splitWhitespace (s : String) : List String :=
  ((s.toList.splitOnP isWhitespace).filter (· ≠ [])).map String.ofList

/-- `Box<dyn Actor>`。`Dummy` の持つものは log にしか出ない。 -/
inductive ActorModule where
  | dummy
  | process (name cmd : String) (args : List String)
  | shelly (topic : String)
  deriving DecidableEq, Repr

/-- `apply` の返す future が行うこと。 -/
inductive Command where
  | nothing
  | exec (cmd : String) (args : List String)
  | publish (topic payload : String)
  deriving DecidableEq, Repr

def Command.isPublish : Command → Bool
  | .publish _ _ => true
  | _ => false

/-- `AsyncClient::publish`。MQTT の task が動いているかどうか、topic、payload から、受け取られるかどうかが決まる。 -/
abbrev Publish := Bool → String → String → Bool

/-- `publish` は task への channel に入れるだけで、失敗するのは task が終わって channel が閉じたときである。 -/
def Publish.ByChannel (publish : Publish) : Prop :=
  ∀ running topic payload, publish running topic payload = running

/-- `Process` が最後に渡す引数。 -/
def statusArgs : Status → List String
  | .free => ["free"]
  | .inUse user => ["inuse", user.id]
  | .toCheck user => ["tocheck", user.id]
  | .blocked user => ["blocked", user.id]
  | .disabled => ["disabled"]
  | .reserved user => ["reserved", user.id]

namespace ActorModule

/-- `Process::new`。 -/
def newProcess (name : String) (params : Params) : Option ActorModule :=
  match params.lookup "cmd" with
  | none => none
  | some cmd =>
    some (.process name cmd (match params.lookup "args" with
      | some argv => splitWhitespace argv
      | none => []))

/-- `Shelly::new`。 -/
def newShelly (name : String) (params : Params) : ActorModule :=
  match params.lookup "topic" with
  | some topic => .shelly ("shellies/" ++ topic ++ "/relay/0/command")
  | none => .shelly ("shellies/" ++ name ++ "/relay/0/command")

def loadSingle (name : String) (cfg : ModuleConfig) : Option ActorModule :=
  match cfg.module with
  | "Dummy" => some .dummy
  | "Process" => newProcess name cfg.params
  | "Shelly" => some (newShelly name cfg.params)
  | _ => none

/-- `Actor::apply`。 -/
def apply : ActorModule → MachineState → Command
  | .dummy, _ => .nothing
  | .process name cmd args, state => .exec cmd (args ++ [name] ++ statusArgs state.state)
  | .shelly topic, state =>
    .publish topic (match state.state with
      | .inUse _ => "on"
      | _ => "off")

end ActorModule

/-! ## MQTT -/

inductive ConnectionError where
  | cancel
  | streamDone
  | requestsDone
  | timeout
  | io
  | other
  deriving DecidableEq, Repr

/-- `load` の最後に始まる MQTT の task。 -/
inductive EventLoop where
  | running (fault : Bool)
  | stopped
  deriving DecidableEq, Repr

def EventLoop.isRunning : EventLoop → Bool
  | .running _ => true
  | .stopped => false

/-- `eventloop.poll()` の一回の結果を扱う。 -/
def EventLoop.handle : EventLoop → Except ConnectionError Unit → EventLoop
  | .stopped, _ => .stopped
  | .running _, .ok _ => .running false
  | .running _, .error .cancel
  | .running _, .error .streamDone
  | .running _, .error .requestsDone => .stopped
  | .running fault, .error .timeout => .running fault
  | .running true, .error .io => .stopped
  | .running false, .error .io => .running true
  | .running _, .error .other => .stopped

inductive Transport where
  | tls
  | tcp
  deriving DecidableEq, Repr

structure Url where
  scheme : String
  host : Option String
  port : Option Nat
  username : String
  password : Option String
  deriving DecidableEq, Repr

structure MqttOptions where
  transport : Transport
  host : String
  port : Nat
  credentials : Option (String × String)
  deriving DecidableEq, Repr

inductive ActorError where
  | urlParseError
  | invalidConfig
  | connectionError (error : ConnectionError)
  deriving DecidableEq, Repr

def Url.transport (url : Url) : Except ActorError (Transport × Nat) :=
  match url.scheme with
  | "mqtts" | "ssl" => .ok (.tls, 8883)
  | "mqtt" | "tcp" => .ok (.tcp, 1883)
  | _ => .error .invalidConfig

/-- `load` が client に渡す設定。 -/
def Url.mqttOptions (url : Url) : Except ActorError MqttOptions := do
  let (transport, defaultPort) ← url.transport
  match url.host with
  | none => throw .invalidConfig
  | some host => return {
      transport, host
      port := url.port.getD defaultPort
      credentials := if url.username = "" then none
        else some (url.username, url.password.getD "") }

/-! ## `load` -/

/-- `HashMap<String, ModuleConfig>`。辿る順に並べる。 -/
structure Modules where
  entries : List (String × ModuleConfig)
  nodup : (entries.map Prod.fst).Nodup

/-- 動き出した actor。 -/
structure Wired where
  name : String
  actor : ActorModule
  machine : Resource
  deriving DecidableEq, Repr

/-- `actor_map`。無い機械に繋ぐ項は飛ばす。 -/
def actorMap (resources : ResourcesHandle) (connections : List (String × String)) :
    Finmap (fun _ : String => Resource) :=
  (connections.filterMap fun c => (resources.getById c.2).map fun resource => (c.1, resource)).foldl
    (fun map p => map.insert p.1 p.2) ∅

/-- 設定された actor を順に動かす loop。 -/
def startActors : List (String × ModuleConfig) → Finmap (fun _ : String => Resource) → List Wired
  | [], _ => []
  | (name, cfg) :: rest, map =>
    match map.lookup name with
    | none => startActors rest map
    | some machine =>
      match ActorModule.loadSingle name cfg with
      | some actor => ⟨name, actor, machine⟩ :: startActors rest (map.erase name)
      | none => startActors rest (map.erase name)

/-- `first` は、最初の `eventloop.poll()` の結果である。 -/
def load (url : Option Url) (first : Except ConnectionError Unit) (actors : Modules)
    (connections : List (String × String)) (resources : ResourcesHandle) :
    Except ActorError (MqttOptions × List Wired) :=
  match url with
  | none => throw .urlParseError
  | some url => do
    let options ← url.mqttOptions
    match first with
    | .error error => throw (.connectionError error)
    | .ok _ => return (options, startActors actors.entries (actorMap resources connections))

/-! ## 動き出した actor の系 -/

variable (sig : Signals MachineState)

/-- 一つの `ActorDriver`。 -/
structure Driven where
  wired : Wired
  world : ActorWorld sig

/-- 終わった future の行ったこと。`polls` は、それまでに MQTT の task が得た結果の数である。 -/
structure Issued where
  actor : String
  command : Command
  polls : Nat
  sent : Bool
  deriving DecidableEq, Repr

structure Park where
  /-- 機械の `Mutable` の値 -/
  machines : String → MachineState
  history : String → List MachineState
  drivers : List (Driven sig)
  eventLoop : EventLoop
  results : List (Except ConnectionError Unit)
  issued : List Issued

inductive ParkEvent where
  | set (machine : String) (state : MachineState)
  /-- `n` 番目の driver を進める -/
  | drive (n : Nat) (m : ActorMove MachineState)
  | mqtt (result : Except ConnectionError Unit)

variable {sig} (publish : Publish)

namespace Driven

/-- 機械の状態が変わる。 -/
def notify (machine : String) (state : MachineState) (d : Driven sig) : Driven sig :=
  if d.wired.machine.id = machine then
    match d.world.step (.set state) with
    | some world => { d with world }
    | none => d
  else d

/-- この歩で終わる future の行うこと。 -/
def finishes (d : Driven sig) : ActorMove MachineState → Option Command
  | .future true =>
    d.world.driver.future.bind fun k => (d.world.driver.actor[k]?).map d.wired.actor.apply
  | _ => none

end Driven

namespace Park

/-- すべての actor が動き出した直後。 -/
def start (sig : Signals MachineState) (machines : String → MachineState) (wired : List Wired) :
    Park sig where
  machines
  history id := [machines id]
  drivers := wired.map fun w => ⟨w, ActorWorld.new sig (machines w.machine.id)⟩
  eventLoop := .running false
  results := []
  issued := []

/-- `publish` のほかは、いつも行われる。 -/
def issue (park : Park sig) (d : Driven sig) (command : Command) : Issued where
  actor := d.wired.name
  command
  polls := park.results.length
  sent :=
    match command with
    | .publish topic payload => publish park.eventLoop.isRunning topic payload
    | .nothing | .exec _ _ => true

/-- driver の歩。機械の側の `set` と `close` は、ここからは起こらない。 -/
def drive (park : Park sig) (n : Nat) (d : Driven sig) (m : ActorMove MachineState) :
    Option (Park sig) :=
  match m with
  | .set _ | .close => none
  | m => (d.world.step m).map fun world => { park with
      drivers := park.drivers.set n { d with world }
      issued := park.issued ++ (d.finishes m).toList.map (park.issue publish d) }

def step (park : Park sig) : ParkEvent → Option (Park sig)
  | .set machine state => some { park with
      machines := Function.update park.machines machine state
      history := Function.update park.history machine (park.history machine ++ [state])
      drivers := park.drivers.map (Driven.notify machine state) }
  | .drive n m =>
    match park.drivers[n]? with
    | none => none
    | some d => park.drive publish n d m
  | .mqtt result =>
    if park.eventLoop.isRunning then some { park with
      eventLoop := park.eventLoop.handle result
      results := park.results ++ [result] }
    else none

def run (park : Park sig) (events : List ParkEvent) : Option (Park sig) :=
  runFrom (step publish) park events

/-- `actor` が行ったこと。 -/
def commands (park : Park sig) (actor : String) : List Command :=
  (park.issued.filter (·.actor = actor)).map Issued.command

end Park

end FabAccess.Actors
