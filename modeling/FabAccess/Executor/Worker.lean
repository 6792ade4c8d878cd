import Mathlib.Algebra.Order.Ring.Nat
import FabAccess.Infra.Run

/-!
# worker thread の一巡

`runtime/executor/src/worker.rs` の `run_inner` と `select_fence` の埋め込み。

queue の中身はほかの thread も変えるので、queue に問い合わせた答えの列を外から与える。`Success` と
`Empty` と `Retry` のどれが返るかも、どの順に返るかも、何も仮定しない。

`i` は `i32` で、0 から増えるだけなので `Nat` とし、あふれたところで panic する（debug build）。
-/

namespace FabAccess.Executor

open Infra

/-- `crossbeam_deque::Steal`。 -/
inductive Steal (T : Type) where
  | empty
  | success (task : T)
  | retry
  deriving DecidableEq, Repr

/-- 問い合わせの答え。 -/
inductive Answer (T : Type) where
  /-- `local_tasks.pop()` が task を返した -/
  | localTask (task : T)
  /-- `local_tasks` は空で、`tasks.pop()` が task を返した -/
  | ownTask (task : T)
  /-- どちらも空だった -/
  | noTask
  /-- `task_queue.steal_batch_and_pop` -/
  | steal (result : Steal T)
  /-- `fences` の長さと、選ばれた fence の `steal_batch_and_pop` -/
  | fence (lens : List Nat) (result : Steal T)
  deriving DecidableEq, Repr

inductive WorkerPc where
  /-- `'work` の初め -/
  | pop
  /-- 共有の queue から取る `loop`。`i` は待ち時間を決める変数である -/
  | global (i : Nat)
  /-- ほかの worker から取る `while` -/
  | fence
  | returned
  | panicked
  deriving DecidableEq, Repr

/-- `ran` は走らせた task の記録である。 -/
structure WorkerRun (T : Type) where
  pc : WorkerPc
  ran : List T
  deriving DecidableEq, Repr

/-- `i += 1` を `n` 回。`i32` であふれると panic する。 -/
def spin : Nat → Nat → Option Nat
  | 0, i => some i
  | n + 1, i => if i + 1 < 2 ^ 31 then spin n (i + 1) else none

/-- `for _ in 0..(1 << i)`。範囲は初めの `i` で決まる。 -/
def backoff (i : Nat) : Option Nat :=
  if i < 32 then
    -- `1 << 31` は負で、範囲は空になる
    spin (if i = 31 then 0 else 2 ^ i) i
  else none

/-- `select_fence`。最も長いもの、同じ長さなら後のものを選ぶ。 -/
def selectFence : List Nat → Option Nat
  | [] => none
  | len :: lens =>
    match selectFence lens with
    | none => some 0
    | some k => if lens[k]?.getD 0 < len then some 0 else some (k + 1)

namespace WorkerRun

variable {T : Type}

/-- task を走らせて `'work` の初めに戻る。 -/
def work (w : WorkerRun T) (task : T) : WorkerRun T := ⟨.pop, w.ran ++ [task]⟩

def step (w : WorkerRun T) (answer : Answer T) : Option (WorkerRun T) :=
  match w.pc, answer with
  | .pop, .localTask task => some (w.work task)
  | .pop, .ownTask task => some (w.work task)
  | .pop, .noTask => some { w with pc := .global 0 }
  | .global _, .steal (.success task) => some (w.work task)
  | .global _, .steal .empty => some { w with pc := .fence }
  | .global i, .steal .retry =>
    match backoff i with
    | some i => some { w with pc := .global i }
    | none => some { w with pc := .panicked }
  | .fence, .fence lens result =>
    match selectFence lens, result with
    | none, _ => some { w with pc := .returned }
    | some _, .success task => some (w.work task)
    | some _, .empty => some { w with pc := .returned }
    | some _, .retry => some w
  | _, _ => none

def start : WorkerRun T := ⟨.pop, []⟩

/-- `run_inner`。 -/
def run (w : WorkerRun T) (answers : List (Answer T)) : Option (WorkerRun T) :=
  runFrom step w answers

end WorkerRun

end FabAccess.Executor
