import FabAccess.Initiators.Properties.Stages

/-!
# 閉じられた pipe

`poll` の二つの読み出しの loop は、`Pending` か誤りで終わり、`Ok` では続く。閉じられた pipe は
いつも `Ok(0)` を返すので、子 process が走ったまま pipe を閉じると、loop は終わらない。

* `Pipe` — 有限個の byte 列を届けた後、`Pending` か、閉じられているか、誤りを返す pipe
* `leavesReads_of_poll` — 返った `poll` は、どちらの loop も終えている
* `read_loops_iff` — どの `poll` も loop を終えるための条件
-/

namespace FabAccess

open Infra

/-! ## pipe -/

/-- 届いている byte を読み終えた後の pipe。 -/
inductive Ending where
  | pending
  | eof
  | failing
  deriving DecidableEq

/-- `poll_read` の答え。閉じられた pipe は `Ok(0)` を返し続ける。 -/
def Ending.answer : Ending → Answer
  | .pending => .pending
  | .eof => .ok []
  | .failing => .error

/-- 一回の `poll` の間の pipe。`chunks` は一回ごとに届く byte 列である。 -/
structure Pipe where
  chunks : List (List UInt8)
  ending : Ending
  /-- `k` 回目に buffer に加わる領域 -/
  memory : Nat → List UInt8

/-- `k` 回目の `poll_read`。 -/
def Pipe.turn (q : Pipe) (k : Nat) : ReadTurn :=
  ⟨q.memory k, (q.chunks[k]?.map .ok).getD q.ending.answer⟩

/-- 初めの `n` 回。 -/
def Pipe.turns (q : Pipe) (n : Nat) : List ReadTurn := (List.range n).map q.turn

/-- 一回の `poll` の間の子 process。 -/
structure ChildPoll where
  status : ChildStatus
  stdout : Pipe
  stderr : Pipe

/-- stdout を `n` 回、stderr を `m` 回まで読む `poll`。 -/
def ChildPoll.upTo (c : ChildPoll) (n m : Nat) : PollInput :=
  ⟨c.status, c.stdout.turns n, c.stderr.turns m⟩

/-- 届く byte をすべて読み、その次の答えまで読む `poll`。 -/
def ChildPoll.whole (c : ChildPoll) : PollInput :=
  c.upTo (c.stdout.chunks.length + 1) (c.stderr.chunks.length + 1)

variable {lb : LineBuffer} {q : Pipe} {n : Nat}

/-! ## 読み出しの loop -/

/-- 閉じられた pipe は、いつまで読んでも `Ok` を返す。 -/
theorem Pipe.not_ends_turns (h : q.ending = .eof) (n : Nat) : ¬ Ends (q.turns n) := by
  rintro ⟨t, ht, hans⟩
  obtain ⟨k, _, rfl⟩ := List.mem_map.mp ht
  cases hk : q.chunks[k]? with
  | none => exact hans [] (by simp [Pipe.turn, hk, h, Ending.answer])
  | some chunk => exact hans chunk (by simp [Pipe.turn, hk])

/-- 開いている pipe は、届く byte の次に `Pending` か誤りを返す。 -/
theorem Pipe.ends_turns (h : q.ending ≠ .eof) : Ends (q.turns (q.chunks.length + 1)) := by
  refine ⟨q.turn q.chunks.length, List.mem_map.mpr ⟨_, by simp, rfl⟩, fun data => ?_⟩
  cases hq : q.ending with
  | eof => exact absurd hq h
  | pending | failing => simp [Pipe.turn, hq, Ending.answer]

theorem Pipe.turns_prefix {m : Nat} (h : n ≤ m) : ∃ more, q.turns m = q.turns n ++ more := by
  obtain ⟨k, rfl⟩ := Nat.exists_eq_add_of_le h
  exact ⟨_, by rw [Pipe.turns, List.range_add, List.map_append]; rfl⟩

/-- loop が終わるなら、届く byte とその次の答えだけで終わる。 -/
theorem Pipe.readLoop_turns {r : LineBuffer × Bool × List UInt8}
    (h : readLoop lb (q.turns n) = some r) :
    readLoop lb (q.turns (q.chunks.length + 1)) = some r := by
  have hopen : q.ending ≠ .eof := fun heof =>
    Pipe.not_ends_turns heof n (readLoop_isSome_iff.mp (by rw [h]; rfl))
  rcases Nat.le_total n (q.chunks.length + 1) with hle | hle
  · obtain ⟨more, heq⟩ := Pipe.turns_prefix (q := q) hle
    rw [heq]
    exact readLoop_append h
  · obtain ⟨more, heq⟩ := Pipe.turns_prefix (q := q) hle
    obtain ⟨r', hr'⟩ := Option.isSome_iff_exists.mp
      (readLoop_isSome_iff.mpr (Pipe.ends_turns hopen) : (readLoop lb _).isSome)
    rw [heq, readLoop_append hr'] at h
    rw [hr', h]

/-- **loop が終わるのは、pipe が閉じられていないとき、そのときに限る。** -/
theorem Pipe.leaves_iff :
    (∃ n, (readLoop lb (q.turns n)).isSome) ↔ q.ending ≠ .eof := by
  constructor
  · rintro ⟨n, hn⟩ heof
    exact Pipe.not_ends_turns heof n (readLoop_isSome_iff.mp hn)
  · intro hopen
    exact ⟨_, readLoop_isSome_iff.mpr (Pipe.ends_turns hopen)⟩

/-! ## 一回の `poll` -/

variable (parse : String → Option Status)

/-- `poll` が、stderr を読む loop に入る。 -/
def Process.EntersStderr (p : Process) (c : ChildPoll) : Prop :=
  p.stderrClosed = false ∧ ∃ n lb read fuel processed callbacks,
    readLoop p.buffer (c.stdout.turns n) = some (lb, false, read) ∧
    tryProcess parse fuel lb.deref p.callbacks = some (processed, callbacks) ∧
    (lb.consume processed).isSome

/-- `poll` は、入った loop を、有限回の読み出しで終える。 -/
def Process.LeavesReads (p : Process) (c : ChildPoll) : Prop :=
  c.status = .running →
    (∃ n, (readLoop p.buffer (c.stdout.turns n)).isSome) ∧
    (p.EntersStderr parse c → ∃ n, (readLoop p.errBuffer (c.stderr.turns n)).isSome)

/--
stdout は閉じられていない。stdout が誤りにならず、溜まった byte 列の空でない行が高々一つで、
その前に改行が無いなら、stderr も、読むのであれば閉じられていない。
-/
def Process.OpenPipes (p : Process) (c : ChildPoll) : Prop :=
  c.status = .running →
    c.stdout.ending ≠ .eof ∧
    (p.stderrClosed = false → ∀ b, c.whole.filled p = some (false, b) → OneLine b →
      c.stderr.ending ≠ .eof)

variable {parse} {p : Process} {c : ChildPoll} {fuel : Nat}

theorem filled_eq_some {b : List UInt8} {i : PollInput} (h : i.filled p = some (false, b)) :
    ∃ lb read, readLoop p.buffer i.stdout = some (lb, false, read) ∧
      b = p.buffer.deref ++ read := by
  obtain ⟨⟨lb, failed, read⟩, hread, heq⟩ := Option.map_eq_some_iff.mp h
  cases heq
  exact ⟨lb, read, hread, rfl⟩

/-- stderr を読み始めるのは、stdout の行を探す loop が終わるとき、そのときに限る。 -/
theorem entersStderr_iff (hwf : p.buffer.WF) :
    p.EntersStderr parse c ↔
      p.stderrClosed = false ∧ ∃ b, c.whole.filled p = some (false, b) ∧ OneLine b := by
  refine and_congr_right fun _ => ⟨?_, ?_⟩
  · rintro ⟨n, lb, read, fuel, processed, callbacks, hread, htry, _⟩
    have hwhole := Pipe.readLoop_turns hread
    have hfilled : c.whole.filled p = some (false, p.buffer.deref ++ read) := by
      simp [PollInput.filled, ChildPoll.whole, ChildPoll.upTo, hwhole]
    refine ⟨_, hfilled, ?_⟩
    rw [← (readLoop_keeps hwf hread).2]
    exact oneLine_of_tryProcess htry
  · rintro ⟨b, hfilled, hone⟩
    obtain ⟨lb, read, hread, rfl⟩ := filled_eq_some hfilled
    obtain ⟨hwf', hderef⟩ := readLoop_keeps hwf hread
    rw [← hderef] at hone
    obtain ⟨e, he, _, hscan⟩ := scan_oneLine hone (processLine parse) p.callbacks
    obtain ⟨lb', hcons, _⟩ := LineBuffer.consume_ok hwf' he
    exact ⟨_, lb, read, _, e, _, hread, hscan _ (Nat.le_refl _), by rw [hcons]; rfl⟩

theorem leavesReads_iff (hwf : p.buffer.WF) : p.LeavesReads parse c ↔ p.OpenPipes c := by
  refine forall_congr' fun _ => and_congr Pipe.leaves_iff ?_
  rw [entersStderr_iff hwf, Pipe.leaves_iff]
  constructor
  · intro h hclosed b hfilled hone
    exact h ⟨hclosed, b, hfilled, hone⟩
  · rintro h ⟨hclosed, b, hfilled, hone⟩
    exact h hclosed b hfilled hone

/-- 返った `poll` は、入った loop をどちらも終えている。 -/
theorem leavesReads_of_poll {n m : Nat} {r : Bool × Process}
    (h : p.poll parse fuel (c.upTo n m) = some r) : p.LeavesReads parse c := by
  intro hstatus
  cases hread : readLoop p.buffer (c.stdout.turns n) with
  | none => simp [Process.poll, ChildPoll.upTo, hstatus, hread] at h
  | some t =>
    obtain ⟨lb, failed, read⟩ := t
    refine ⟨⟨n, by rw [hread]; rfl⟩, ?_⟩
    rintro ⟨hclosed, n', lb', read', _, _, _, hread', _⟩
    -- stdout をどこまで読んでも、loop の終わり方は同じである
    have heq := Pipe.readLoop_turns hread
    rw [Pipe.readLoop_turns hread'] at heq
    cases heq
    rw [poll_running (i := c.upTo n m) hstatus hread, Option.bind_eq_some_iff] at h
    obtain ⟨_, _, h⟩ := h
    obtain ⟨_, _, h⟩ := Option.bind_eq_some_iff.mp h
    obtain ⟨e, herr, _⟩ := Option.bind_eq_some_iff.mp h
    rw [Process.readErr, hclosed] at herr
    exact ⟨m, by rw [show readLoop p.errBuffer (c.stderr.turns m) = some e from herr]; rfl⟩

theorem oneLine_of_poll {n m : Nat} {r : Bool × Process} {b : List UInt8} (hwf : p.buffer.WF)
    (h : p.poll parse fuel (c.upTo n m) = some r) (hstatus : c.status = .running)
    (hfilled : c.whole.filled p = some (false, b)) : OneLine b := by
  obtain ⟨lb, read, hread, rfl⟩ := filled_eq_some hfilled
  obtain ⟨n', hn'⟩ := (leavesReads_of_poll h hstatus).1
  cases hread' : readLoop p.buffer (c.stdout.turns n) with
  | none => simp [Process.poll, ChildPoll.upTo, hstatus, hread'] at h
  | some t =>
    have heq := Pipe.readLoop_turns hread'
    rw [show readLoop p.buffer (c.stdout.turns (c.stdout.chunks.length + 1)) = _ from hread] at heq
    cases heq
    by_contra hnot
    rw [poll_diverges (i := c.upTo n m) hstatus hread' (readLoop_keeps hwf hread').2 hnot] at h
    cases h

/-- 動いている子 process への `poll` が返るのは、どちらの loop も、行を探す loop も終わるときである。 -/
theorem poll_returns_iff (hp : p.Kept) :
    (∃ fuel n m r, p.poll parse fuel (c.upTo n m) = some r) ↔
      p.OpenPipes c ∧
        (c.status = .running → ∀ b, c.whole.filled p = some (false, b) → OneLine b) := by
  constructor
  · rintro ⟨fuel, n, m, r, h⟩
    exact ⟨(leavesReads_iff hp.buffer).mp (leavesReads_of_poll h), fun hstatus b hfilled =>
      oneLine_of_poll hp.buffer h hstatus hfilled⟩
  · rintro ⟨hopen, hone⟩
    by_cases hstatus : c.status = .running
    · obtain ⟨⟨lb, failed, read⟩, hread⟩ : ∃ r, readLoop p.buffer c.whole.stdout = some r :=
        Option.isSome_iff_exists.mp (readLoop_isSome_iff.mpr (Pipe.ends_turns (hopen hstatus).1))
      cases failed with
      | true => exact ⟨0, _, _, _, poll_failed (i := c.whole) hstatus hread⟩
      | false =>
        have hfilled : c.whole.filled p = some (false, p.buffer.deref ++ read) := by
          simp [PollInput.filled, hread]
        have hline := hone hstatus _ hfilled
        obtain ⟨hwf, hderef⟩ := readLoop_keeps hp.buffer hread
        have hline' : OneLine lb.deref := by rwa [hderef]
        obtain ⟨e, he, _, hscan⟩ := scan_oneLine hline' (processLine parse) p.callbacks
        have htry := hscan _ (Nat.le_refl _)
        obtain ⟨buffer, hcons, _⟩ := LineBuffer.consume_ok hwf he
        have hnone := (consume_processed hwf htry hcons).2
        obtain ⟨t, herr⟩ : ∃ t, p.readErr c.whole = some t := by
          unfold Process.readErr
          cases hclosed : p.stderrClosed with
          | true => exact ⟨_, rfl⟩
          | false =>
            exact Option.isSome_iff_exists.mp (readLoop_isSome_iff.mpr
              (Pipe.ends_turns ((hopen hstatus).2 hclosed _ hfilled hline)))
        obtain ⟨errBuffer, hcons', _⟩ :=
          LineBuffer.consume_ok (readErr_keeps hp.errBuffer herr).1 (Nat.zero_le _)
        have hret : (p.poll parse (lb.deref.length + 2) c.whole).isSome := by
          rw [poll_running hstatus hread]
          simp [tryProcess, htry, hcons, herr, scanErr_of_notMem hnone, hcons']
        exact ⟨_, _, _, Option.isSome_iff_exists.mp hret⟩
    · exact ⟨0, 0, 0, _, poll_stopped hstatus⟩

/-! ## `poll` の列 -/

variable (parse fuel) in
/-- 走っている子 process への、`Pending` を返す `poll`。 -/
def Process.childPoll (p : Process) (c : ChildPoll) : Option Process :=
  p.pollPending parse fuel c.whole

theorem kept_of_stepsFrom {cs : List ChildPoll}
    (h : StepsFrom (Process.childPoll parse fuel) Process.new cs p c) : p.Kept := by
  obtain ⟨pre, _, _, hpre⟩ := h
  exact run_invariant (fun _ _ _ hp hstep => kept_pollPending hp hstep) kept_new hpre

/--
**どの `poll` も読み出しの loop を終えるのは、読む pipe が閉じられていないとき、そのときに限る。**

`Pending` を返し続けるどの `poll` の列についても、その一回一回と、それに続く一回について述べる。
-/
theorem read_loops_iff (parse : String → Option Status) (fuel : Nat) (cs : List ChildPoll) :
    (∀ p c, StepsFrom (Process.childPoll parse fuel) Process.new cs p c → p.LeavesReads parse c) ↔
      ∀ p c, StepsFrom (Process.childPoll parse fuel) Process.new cs p c → p.OpenPipes c :=
  forall₃_congr fun _ _ hstep => leavesReads_iff (kept_of_stepsFrom hstep).buffer

/-- 何も書かずに stdout を閉じ、走り続ける子 process。 -/
def closesStdout : ChildPoll :=
  ⟨.running, ⟨[], .eof, fun _ => freshMemory⟩, ⟨[], .pending, fun _ => freshMemory⟩⟩

/-- 何回読んでも stdout の loop は終わらず、`poll` は返らない。 -/
theorem closed_stdout_spins :
    StepsFrom (Process.childPoll (fun _ => none) 1) Process.new [closesStdout] Process.new
      closesStdout ∧
    ¬ Process.new.LeavesReads (fun _ => none) closesStdout ∧
    ∀ fuel n m, Process.new.poll (fun _ => none) fuel (closesStdout.upTo n m) = none := by
  have hstuck : ¬ Process.new.LeavesReads (fun _ => none) closesStdout := by
    intro h
    exact Pipe.leaves_iff.mp (h rfl).1 rfl
  refine ⟨⟨[], [], rfl, rfl⟩, hstuck, fun fuel n m => ?_⟩
  rw [Option.eq_none_iff_forall_ne_some]
  intro r h
  exact hstuck (leavesReads_of_poll h)

end FabAccess
