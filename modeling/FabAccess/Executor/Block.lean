import Mathlib.Data.List.Nodup
import FabAccess.Infra.Run

/-!
# `block`

`runtime/executor/src/run.rs` の埋め込み。`Executor::run` は呼んだ thread を、future が終わるまで
parker で眠らせる。future の `poll` の中から `run` が呼ばれれば、`block` は入れ子になる。

parker は thread ごとの `CACHE` で使い回す。waker はどの thread からいつ呼ばれてもよく、`block` が
返った後に呼ばれてもよい。parker への操作の一回ずつを一歩とする。
-/

namespace FabAccess.Executor

open Infra

/-- 呼び出しの位置。 -/
inductive BlockPc where
  | polling
  /-- `parker.park()` の中 -/
  | parking
  deriving DecidableEq, Repr

/-- 一つの `block` の呼び出し。`woken` は、最後の `poll` が始まってから waker が呼ばれたかどうかの記録
である。 -/
structure Frame where
  parker : Nat
  pc : BlockPc
  woken : Bool
  deriving DecidableEq, Repr

/--
一つの thread。`frames` は内側の呼び出しを先に並べる。`made` はこれまでに作った parker の数で、parker は
作った順に番号で呼ぶ。
-/
structure Blocked where
  cache : Option Nat
  frames : List Frame
  notified : Nat → Bool
  made : Nat

inductive BlockOp where
  /-- `block` を呼ぶ。`poll` の中からでもよい -/
  | call
  /-- `poll` が `Pending` を返す -/
  | pending
  /-- `poll` が `Ready` を返す -/
  | ready
  /-- `poll` が panic する -/
  | unwind
  /-- `park` が返る -/
  | resume
  /-- waker が呼ばれる -/
  | wake (parker : Nat)
  deriving DecidableEq, Repr

/-- parker `parker` の waker が呼ばれたことを覚える。 -/
def Frame.wake (parker : Nat) (f : Frame) : Frame :=
  if f.parker = parker then { f with woken := true } else f

def Blocked.start : Blocked where
  cache := none
  frames := []
  notified := fun _ => false
  made := 0

def blockStep (s : Blocked) (op : BlockOp) : Option Blocked :=
  match op, s.frames with
  | .call, frames =>
    if frames.head?.all (fun f => f.pc = .polling) then
      -- `cache.take().unwrap_or_else(|| Parker::new())`
      match s.cache with
      | some parker => some { s with cache := none, frames := ⟨parker, .polling, false⟩ :: frames }
      | none => some { s with frames := ⟨s.made, .polling, false⟩ :: frames, made := s.made + 1 }
    else none
  | .pending, f :: rest =>
    if f.pc = .polling then some { s with frames := { f with pc := .parking } :: rest } else none
  | .ready, f :: rest =>
    -- 先に覚えていた parker は捨てられる
    if f.pc = .polling then some { s with cache := some f.parker, frames := rest } else none
  | .unwind, f :: rest => if f.pc = .polling then some { s with frames := rest } else none
  | .resume, f :: rest =>
    if f.pc = .parking ∧ s.notified f.parker = true then
      some { s with
        frames := ⟨f.parker, .polling, false⟩ :: rest
        notified := fun p => if p = f.parker then false else s.notified p }
    else none
  | .wake parker, frames =>
    if parker < s.made then
      some { s with
        frames := frames.map (Frame.wake parker)
        notified := fun p => if p = parker then true else s.notified p }
    else none
  | _, [] => none

end FabAccess.Executor
