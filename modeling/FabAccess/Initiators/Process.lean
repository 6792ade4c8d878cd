import FabAccess.Resources.Resource
import FabAccess.Utils.LineBuffer

/-!
# process initiator

`bffhd/initiators/process.rs` の `Process::poll`・`ProcessState::try_process`・`process_line` の埋め込み。
子 process の stdout を読み、改行で終わる行ごとに `process_line` に渡す。

* `poll_read` の一回一回の結果は `ReadTurn` の列で受け取る。列が尽きるのは、読む loop がまだ終わらないことである
* 行を探す loop は終わるとは限らないので、回数を `fuel` で数え、足りないときは `none` とする
* `serde_json` は `parse` として受け取る。`spawn` は済んでいる
-/

namespace FabAccess

/-- `b'\n'`。 -/
def newline : UInt8 := 10

/-! ## 行 -/

/-- `char::is_whitespace`。 -/
def isWhitespace (c : Char) : Bool :=
  let n := c.toNat
  (0x09 ≤ n && n ≤ 0x0d) || n == 0x20 || n == 0x85 || n == 0xa0 || n == 0x1680 ||
    (0x2000 ≤ n && n ≤ 0x200a) || n == 0x2028 || n == 0x2029 || n == 0x202f || n == 0x205f ||
    n == 0x3000

/-- `InitiatorCallbacks` への呼び出し。 -/
structure Callbacks where
  /-- `process_line` に渡された行 -/
  handed : List (List UInt8)
  /-- `set_status` の引数 -/
  statuses : List Status
  deriving DecidableEq

variable (parse : String → Option Status)

/-- 行が表す status。 -/
def lineStatus (line : List UInt8) : Option Status :=
  if line.isEmpty then none
  else
    match String.fromUTF8? ⟨line.toArray⟩ with
    | none => none
    | some string => if string.toList.all isWhitespace then none else parse string

/-- `ProcessState::process_line`。 -/
def processLine (callbacks : Callbacks) (line : List UInt8) : Callbacks where
  handed := callbacks.handed ++ [line]
  statuses := callbacks.statuses ++ (lineStatus parse line).toList

/--
`try_process` の loop。stderr の行を探す loop も、行の扱い `handle` を除いて同じである。

行を見つけた後、`end` には `end + idx` ではなく `idx` が入る。
-/
def scan {β : Type} (handle : β → List UInt8 → β) (buffer : List UInt8) :
    Nat → Nat → β → Option (Nat × β)
  | 0, _, _ => none
  | fuel + 1, end', acc =>
    match (buffer.drop end').findIdx? (· == newline) with
    | none => some (end', acc)
    | some idx =>
      if idx = 0 then scan handle buffer fuel (end' + 1) acc
      else scan handle buffer fuel idx (handle acc ((buffer.drop end').take idx))

/-- `ProcessState::try_process`。 -/
def tryProcess (fuel : Nat) (buffer : List UInt8) (callbacks : Callbacks) : Option (Nat × Callbacks) :=
  scan (processLine parse) buffer fuel 0 callbacks

/-! ## 読み出し -/

/-- `poll_read` の結果。 -/
inductive Answer where
  | pending
  | ok (data : List UInt8)
  | error
  deriving DecidableEq

/-- `poll_read` の一回。`memory` はそのとき buffer に加わった領域である。 -/
structure ReadTurn where
  memory : List UInt8
  answer : Answer
  deriving DecidableEq

/-- `poll_read` を繰り返す loop。buffer と、失敗したかと、読んだ byte 列を返す。 -/
def readLoop (lb : LineBuffer) : List ReadTurn → Option (LineBuffer × Bool × List UInt8)
  | [] => none
  | ⟨memory, answer⟩ :: turns =>
    let lb := lb.getMutWrite 512 memory
    match answer with
    | .pending => some (lb, false, [])
    | .error => some (lb, true, [])
    | .ok data =>
      let read := data.take lb.slice.length
      match readLoop ((lb.write data).advanceValid read.length) turns with
      | none => none
      | some (lb, failed, more) => some (lb, failed, read ++ more)

/-! ## `Process::poll` -/

/-- `Child::try_status`。 -/
inductive ChildStatus where
  | running
  | exited
  | error
  deriving DecidableEq

/-- 一回の `poll` の間に外で起きること。 -/
structure PollInput where
  status : ChildStatus
  stdout : List ReadTurn
  stderr : List ReadTurn

/-- `Process`。`read` と `errRead` はこれまでに読んだ byte 列、`logged` は STDERR として記録された行。 -/
structure Process where
  buffer : LineBuffer
  errBuffer : LineBuffer
  stderrClosed : Bool
  callbacks : Callbacks
  read : List UInt8
  errRead : List UInt8
  logged : List (List UInt8)

namespace Process

def new : Process := ⟨.new, .new, false, ⟨[], []⟩, [], [], []⟩

/--
`Process::poll`。返り値の `Bool` は `Poll::Ready` か。返らないか panic するときは `none`。

stderr の行を探す loop は、`err_buffer` ではなく `buffer` を見る。
-/
def poll (fuel : Nat) (p : Process) (i : PollInput) : Option (Bool × Process) :=
  match i.status with
  | .error | .exited => some (true, p)
  | .running => do
    let (buffer, failed, read) ← readLoop p.buffer i.stdout
    let p := { p with buffer, read := p.read ++ read }
    if failed then return (true, p)
    let (processed, callbacks) ← tryProcess parse fuel p.buffer.deref p.callbacks
    let buffer ← p.buffer.consume processed
    let p := { p with buffer, callbacks }
    let p ←
      if p.stderrClosed then pure p
      else do
        let (errBuffer, failed, read) ← readLoop p.errBuffer i.stderr
        pure { p with errBuffer, stderrClosed := failed, errRead := p.errRead ++ read }
    let (consumed, logged) ← scan (fun logged line => logged ++ [line]) p.buffer.deref fuel 0 p.logged
    let errBuffer ← p.errBuffer.consume consumed
    return (false, { p with errBuffer, logged })

/-- `poll` を続ける。`Poll::Ready` の後は呼ばれない。 -/
def polls (fuel : Nat) (p : Process) : List PollInput → Option Process
  | [] => some p
  | i :: is =>
    match p.poll parse fuel i with
    | none => none
    | some (true, p') => some p'
    | some (false, p') => p'.polls fuel is

end Process

end FabAccess
