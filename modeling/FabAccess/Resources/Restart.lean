import FabAccess.Actors
import FabAccess.Infra.Run
import FabAccess.Resources.Concurrent

/-!
# 止まっては動き出す server

`bffhd/resources/mod.rs` の `Inner::new` と、一つの resource に繋がった actor の埋め込み。

server が止まると、進行中の `set_state` も signal も actor も消え、database の entry と監査記録だけが残る。
動き出すと、`Inner::new` が entry を読み、`actors::load` が actor を signal に繋ぐ。止まるのは、どの歩の
間でもよい。
-/

namespace FabAccess

open Infra

/-- `Inner::new`。前の状態が無ければ、空いている状態を database に書く。 -/
def Inner.new (previous : Option MachineState) (audit : List AuditLogLine) : Inner :=
  match previous with
  | some previous => { db := previous, signal := previous, audit }
  | none => { db := .free none, signal := .free none, audit }

variable (sig : Signals MachineState)

/-- 動いている server。`stored` は、動き出してから database にあった状態の記録である。 -/
structure Server where
  settings : List Setting
  actor : ActorWorld sig
  stored : List MachineState

/-- 止まっても残るものと、動いているなら server。 -/
structure Host where
  db : Option MachineState
  audit : List AuditLogLine
  server : Option (Server sig)

/-- 一歩の指定。 -/
inductive HostEvent where
  | start
  | crash
  | setState (new : MachineState)
  /-- `n` 番目の `set_state` を進める -/
  | exec (n : Nat) (logged : Bool)
  /-- actor の driver を進める -/
  | drive (m : ActorMove MachineState)
  deriving DecidableEq, Repr

variable {sig}

namespace Server

/-- `Inner::new` の後の server。 -/
def start (inner : Inner) : Server sig :=
  { settings := [], actor := ActorWorld.new sig inner.signal, stored := [inner.db] }

/-- signal のいまの値。 -/
def signal (server : Server sig) : MachineState := sig.value server.actor.driver.signal

/-- `set_state` の一歩 `t` が actor に見えるかどうか。見えるのは signal への書き込みだけである。 -/
def notice (server : Server sig) : Setting → Option (ActorWorld sig)
  | .notify new => server.actor.step (.set new)
  | _ => some server.actor

/-- `set_state` の一歩 `t` の後の記録。 -/
def record (server : Server sig) : Setting → List MachineState
  | .put new => server.stored ++ [new]
  | _ => server.stored

end Server

namespace Host

variable (res : Resource)

/-- `n` 番目の `set_state` の一歩。 -/
def exec (host : Host sig) (db : MachineState) (server : Server sig) (n : Nat) (logged : Bool) :
    Option (Host sig) :=
  match server.settings[n]? with
  | none => none
  | some t =>
    match setNext res ⟨db, server.signal, host.audit⟩ t logged, server.notice t with
    | some (inner, t'), some actor => some {
        db := some inner.db
        audit := inner.audit
        server := some
          { settings := server.settings.set n t', actor, stored := server.record t } }
    | _, _ => none

/-- driver の歩。resource の側の `set` と `close` は、ここからは起こらない。 -/
def drive (host : Host sig) (server : Server sig) : ActorMove MachineState → Option (Host sig)
  | .set _ | .close => none
  | m => (server.actor.step m).map fun actor => { host with server := some { server with actor } }

def step (host : Host sig) : HostEvent → Option (Host sig)
  | .start =>
    match host.server with
    | some _ => none
    | none =>
      let inner := Inner.new host.db host.audit
      some { host with db := some inner.db, server := some (.start inner) }
  | .crash => some { host with server := none }
  | .setState new =>
    host.server.map fun server =>
      { host with server := some { server with settings := server.settings ++ [.put new] } }
  | .exec n logged =>
    match host.db, host.server with
    | some db, some server => host.exec res db server n logged
    | _, _ => none
  | .drive m =>
    match host.server with
    | none => none
    | some server => host.drive server m

/-- 歩みの列に従った実行。 -/
def run (host : Host sig) (events : List HostEvent) : Option (Host sig) :=
  runFrom (step res) host events

/-- 止まっている host。 -/
def off (db : Option MachineState) (audit : List AuditLogLine) : Host sig := ⟨db, audit, none⟩

end Host

end FabAccess
