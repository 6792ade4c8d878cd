import Mathlib.Data.Fintype.Basic
import FabAccess.Infra.Interleave

/-!
# callsite の表

`runtime/console/src/callsites.rs` の埋め込み。

`insert` と `contains` はいくつもの thread から lock なしに呼ばれるので、atomic な load、
`fetch_add`、`compare_exchange` の一回ずつを一歩とする。`insert` は `contains` で始まる。

```
contains : load → read … read → reload → read … read → … → returned
insert   : （contains が false）→ fetchAdd → compareExchange → returned
```

`M` は `Metadata`、`site` はその `callsite()` である。
-/

namespace FabAccess.Console

open Infra

/-- `Callsites<MAX_CALLSITES>`。null の slot は `none` である。 -/
structure Callsites (max : Nat) (M : Type) where
  array : Fin max → Option M
  len : Nat

namespace Callsites

variable {max : Nat} {M : Type}

/-- `Callsites::default`。 -/
def default : Callsites max M where
  array := fun _ => none
  len := 0

/-- `self.array[idx]`。範囲の外なら `none` で、Rust では panic になる。 -/
def slot (callsites : Callsites max M) (idx : Nat) : Option (Option M) :=
  if h : idx < max then some (callsites.array ⟨idx, h⟩) else none

/-- `self.len.fetch_add(1)`。 -/
def fetchAdd (callsites : Callsites max M) : Callsites max M :=
  { callsites with len := (callsites.len + 1) % 2 ^ 64 }

/-- `self.array[idx]` に書く。 -/
def store (callsites : Callsites max M) (idx : Nat) (callsite : M) : Callsites max M :=
  { callsites with
    array := fun i => if i.val = idx then some callsite else callsites.array i }

end Callsites

/-- 呼び出しの終わり方のうち、返らないもの。 -/
inductive Fault where
  /-- 配列の範囲の外を見た -/
  | index
  /-- null を参照した -/
  | null
  /-- `expect("would have clobbered callsite array")` -/
  | clobbered
  /-- `todo!` -/
  | spill
  deriving DecidableEq, Repr

inductive CallsitesOp where
  | insert
  | contains
  deriving DecidableEq, Repr

/-- 呼び出しの途中の位置。`stop` は source の `end` である。 -/
inductive CallsitesPc where
  /-- 初めの `self.len.load` -/
  | load
  /-- `array[idx..end]` を一つずつ見る -/
  | read (i stop : Nat)
  /-- 見終わった後の `self.len.load` -/
  | reload (idx : Nat)
  | fetchAdd
  | compareExchange (idx : Nat)
  /-- `insert` では、表にあるようになれば `true` とする -/
  | returned (found : Bool)
  | failed (fault : Fault)
  deriving DecidableEq, Repr

/-- 進行中の呼び出し。`before` は、始まる前に終わっていた `insert` の記録である。 -/
structure CallsitesCall (M : Type) where
  op : CallsitesOp
  callsite : M
  before : List M
  pc : CallsitesPc
  deriving DecidableEq

/--
表と、これまでの `insert` の記録。`called` は呼ばれたもの、`reserved` は `fetch_add` を済ませたもの、
`finished` は返ったものである。
-/
structure CallsitesWorld (max : Nat) (M : Type) where
  callsites : Callsites max M
  called : List M
  reserved : List M
  finished : List M

def CallsitesWorld.start (max : Nat) (M : Type) : CallsitesWorld max M :=
  ⟨.default, [], [], []⟩

section Steps

variable {max : Nat} {M C : Type} [DecidableEq C]

/-- `for cs in &self.array[idx..end]` の次の位置。 -/
def scan (i stop : Nat) : CallsitesPc := if i < stop then .read i stop else .reload stop

/-- `&self.array[idx..end]`。 -/
def slice (max idx stop : Nat) : CallsitesPc :=
  if stop ≤ max then scan idx stop else .failed .index

def callsitesSpawn (w : CallsitesWorld max M) :
    CallsitesOp × M → Option (CallsitesWorld max M × List (CallsitesCall M))
  | (.insert, callsite) =>
    some ({ w with called := w.called ++ [callsite] }, [⟨.insert, callsite, w.finished, .load⟩])
  | (.contains, callsite) => some (w, [⟨.contains, callsite, w.finished, .load⟩])

/-- `contains` が `found` を返した。`insert` では `true` なら返り、`false` なら続ける。 -/
def concluded (w : CallsitesWorld max M) (t : CallsitesCall M) (found : Bool) :
    CallsitesWorld max M × CallsitesCall M :=
  match t.op, found with
  | .contains, found => (w, { t with pc := .returned found })
  | .insert, true =>
    ({ w with finished := w.finished ++ [t.callsite] }, { t with pc := .returned true })
  | .insert, false => (w, { t with pc := .fetchAdd })

/-- 呼び出しの一歩。 -/
def callsitesNext (site : M → C) (w : CallsitesWorld max M) (t : CallsitesCall M) :
    Option (CallsitesWorld max M × CallsitesCall M) :=
  match t.pc with
  | .load => some (w, { t with pc := slice max 0 w.callsites.len })
  | .read i stop =>
    match w.callsites.slot i with
    | none => some (w, { t with pc := .failed .index })
    | some none => some (w, { t with pc := .failed .null })
    | some (some metadata) =>
      if site metadata = site t.callsite then some (concluded w t true)
      else some (w, { t with pc := scan (i + 1) stop })
  | .reload idx =>
    if idx < w.callsites.len then some (w, { t with pc := slice max idx w.callsites.len })
    else some (concluded w t false)
  | .fetchAdd =>
    let idx := w.callsites.len
    some ({ w with callsites := w.callsites.fetchAdd, reserved := w.reserved ++ [t.callsite] },
      { t with pc := if idx ≤ max then .compareExchange idx else .failed .spill })
  | .compareExchange idx =>
    match w.callsites.slot idx with
    | none => some (w, { t with pc := .failed .index })
    | some (some _) => some (w, { t with pc := .failed .clobbered })
    | some none =>
      some ({ w with
        callsites := w.callsites.store idx t.callsite
        finished := w.finished ++ [t.callsite] }, { t with pc := .returned true })
  | .returned _ | .failed _ => none

/-- 一つの表への `insert` と `contains` の系。 -/
def callsitesCalls (max : Nat) (site : M → C) :
    System (CallsitesWorld max M) (CallsitesCall M) (CallsitesOp × M) Unit where
  spawn := callsitesSpawn
  next := fun w t _ => callsitesNext site w t

end Steps

end FabAccess.Console
