import FabAccess.Console.Aggregate

/-!
# client への update

`runtime/console/src/aggregate.rs` の `add_instrument_subscription`、`task_update`、`resource_update`、
`async_op_update`、`publish` を、捨てられた event の数について埋め込んだもの。

update を作る間に `Shared` の三つの数が一つずつ `swap(0)` される。その間にも producer は別の thread で
`fetch_add` するので、`swap` の一回を一歩とする。

```
instrument / publish → swap tasks → swap resources → swap asyncOps → update
```

client は、その最初の update が何番目に作られたかで呼ぶ。
-/

namespace FabAccess.Console

open Infra

namespace Shared

def count (shared : Shared) : Dropped → Nat
  | .tasks => shared.droppedTasks
  | .resources => shared.droppedResources
  | .asyncOps => shared.droppedAsyncOps

def put (shared : Shared) (n : Nat) : Dropped → Shared
  | .tasks => { shared with droppedTasks := n }
  | .resources => { shared with droppedResources := n }
  | .asyncOps => { shared with droppedAsyncOps := n }

variable {shared : Shared} {n : Nat} {kind kind' : Dropped}

@[simp] theorem count_put_self : (shared.put n kind).count kind = n := by cases kind <;> rfl

theorem count_put_ne (h : kind ≠ kind') : (shared.put n kind').count kind = shared.count kind := by
  cases kind <;> cases kind' <;> first | rfl | exact absurd rfl h

theorem count_fetchAdd : (shared.fetchAdd kind').count kind =
    shared.count kind + if kind = kind' then 1 else 0 := by
  cases kind <;> cases kind' <;> rfl

end Shared

/-- 最初の update には全部を、`publish` には変わったものだけを載せる。 -/
inductive Include where
  | all
  | updatedOnly
  deriving DecidableEq, Repr

/--
`instrument::Update`。`dropped` は三つの `dropped_events`、`total` はそれを読んだときまでに捨てられた
event の総数の記録、`delivered` は受け取った client の記録である。
-/
structure InstrumentUpdate where
  what : Include
  dropped : Shared
  total : Shared
  delivered : List Nat
  deriving DecidableEq, Repr

/-- 作りかけの update。 -/
inductive Sending where
  | idle
  /-- 次に読む数 -/
  | swap (kind : Dropped) (update : InstrumentUpdate)
  | send (update : InstrumentUpdate)
  deriving DecidableEq, Repr

/-- `total` は捨てられた event の総数、`log` は作られた update の記録である。 -/
structure Feed where
  shared : Shared
  watchers : List Nat
  sending : Sending
  total : Shared
  log : List InstrumentUpdate
  deriving DecidableEq, Repr

inductive FeedStep where
  /-- `send_stats` が event を捨てる -/
  | fetchAdd (kind : Dropped)
  | instrument
  | publish
  | swap
  /-- `Watch::update`。`delivers` は client の channel に入ったかどうかである -/
  | update (delivers : Nat → Bool)

namespace Feed

def start : Feed := ⟨.taken, [], .idle, .taken, []⟩

/-- 三つの数は、この順に読まれる。 -/
def swapped (kind : Dropped) (update : InstrumentUpdate) : Sending :=
  match kind with
  | .tasks => .swap .resources update
  | .resources => .swap .asyncOps update
  | .asyncOps => .send update

def begin (feed : Feed) (what : Include) : Feed :=
  { feed with sending := .swap .tasks ⟨what, .taken, .taken, []⟩ }

/-- 最初の update が届かなければ、client は加わらない。`publish` が届かなければ、client は除かれる。 -/
def deliver (feed : Feed) (update : InstrumentUpdate) (delivers : Nat → Bool) : Feed :=
  match update.what with
  | .all =>
    let client := feed.log.length
    let delivered := if delivers client then [client] else []
    { feed with
      watchers := feed.watchers ++ delivered
      sending := .idle
      log := feed.log ++ [{ update with delivered }] }
  | .updatedOnly =>
    let delivered := feed.watchers.filter delivers
    { feed with
      watchers := delivered
      sending := .idle
      log := feed.log ++ [{ update with delivered }] }

def step (feed : Feed) : FeedStep → Option Feed
  | .fetchAdd kind =>
    some { feed with shared := feed.shared.fetchAdd kind, total := feed.total.fetchAdd kind }
  | .instrument => if feed.sending = .idle then some (feed.begin .all) else none
  | .publish =>
    if feed.sending = .idle ∧ feed.watchers ≠ [] then some (feed.begin .updatedOnly) else none
  | .swap =>
    match feed.sending with
    | .swap kind update =>
      let update := { update with
        dropped := update.dropped.put (feed.shared.count kind) kind
        total := update.total.put (feed.total.count kind) kind }
      some { feed with shared := feed.shared.put 0 kind, sending := swapped kind update }
    | .idle | .send _ => none
  | .update delivers =>
    match feed.sending with
    | .send update => some (feed.deliver update delivers)
    | .idle | .swap _ _ => none

def run (feed : Feed) (steps : List FeedStep) : Option Feed := runFrom step feed steps

/-- 間に producer が入らなければ、三つの `swap` は `Shared` を空にする。 -/
theorem swaps_alone (feed : Feed) (what : Include) :
    ∃ update, (feed.begin what).run [.swap, .swap, .swap] =
        some { feed with shared := .taken, sending := .send update } ∧
      update.dropped = feed.shared := ⟨_, rfl, rfl⟩

end Feed

end FabAccess.Console
