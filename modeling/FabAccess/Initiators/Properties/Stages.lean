import FabAccess.Infra.Run
import FabAccess.Initiators.Properties.Scanner

/-!
# `poll` の段階

動いている子 process についての `Process::poll` は、stdout を読み、行を渡して `consume` し、
stderr を読み、`buffer` の行を記録して `err_buffer` を `consume` する。

* `Process.readErr` — stderr を読む段階
* `poll_pending_cases` — `Pending` を返す `poll` は、どの段階も終えている
* `Process.pollPending` — `Pending` を返す `poll` を一歩とする
* `readLoop_isSome_iff` — 読み出しの loop が終わるのは、`Ok` でない答えがあるとき、そのときに限る
* `Process.Kept` — `Pending` を返す `poll` が保つこと
-/

namespace FabAccess

open Infra

variable {parse : String → Option Status} {fuel : Nat} {p p' : Process} {i : PollInput}
  {lb lb' : LineBuffer} {turns more : List ReadTurn}

/-! ## 読み出しの loop -/

/-- loop が終わるのは、`Ok` でない答えがあるとき、そのときに限る。 -/
theorem readLoop_isSome_iff : (readLoop lb turns).isSome ↔ Ends turns := by
  induction turns generalizing lb with
  | nil => simp [readLoop, Ends]
  | cons t turns ih =>
    obtain ⟨memory, answer⟩ := t
    cases answer with
    | pending | error => simp [readLoop, Ends]
    | ok data =>
      have hrest : Ends (⟨memory, .ok data⟩ :: turns) ↔ Ends turns := by simp [Ends]
      rw [hrest, readLoop]
      split
      · next hnone => rw [← ih, hnone]
      · next hsome =>
        rw [← ih, hsome]
        simp

/-- 終わった後に届くものは読まれない。 -/
theorem readLoop_append {r : LineBuffer × Bool × List UInt8} (h : readLoop lb turns = some r) :
    readLoop lb (turns ++ more) = some r := by
  induction turns generalizing lb r with
  | nil => cases h
  | cons t turns ih =>
    obtain ⟨memory, answer⟩ := t
    cases answer with
    | pending | error => exact h
    | ok data =>
      rw [readLoop] at h
      split at h
      · cases h
      · next hsome =>
        rw [List.cons_append, readLoop]
        simp only [ih hsome]
        exact h

/-- 読んだ byte 列は、中身の後ろに加わる。 -/
theorem readLoop_keeps {failed : Bool} {read : List UInt8} (hwf : lb.WF)
    (h : readLoop lb turns = some (lb', failed, read)) : lb'.WF ∧ lb'.deref = lb.deref ++ read := by
  have hends : Ends turns := readLoop_isSome_iff.mp (by rw [h]; rfl : (readLoop lb turns).isSome)
  obtain ⟨lb₁, failed₁, read₁, hread, hwf₁, hderef₁⟩ := readLoop_spec hends hwf
  rw [h] at hread
  cases hread
  exact ⟨hwf₁, hderef₁⟩

/-! ## `poll` -/

namespace Process

/-- stderr を読む段階。閉じていれば読まない。 -/
def readErr (p : Process) (i : PollInput) : Option (LineBuffer × Bool × List UInt8) :=
  if p.stderrClosed then some (p.errBuffer, true, []) else readLoop p.errBuffer i.stderr

/-- stderr の行を探す段階。渡されるのは stdout の buffer である。 -/
def scanErr (fuel : Nat) (buffer : LineBuffer) (logged : List (List UInt8)) :
    Option (Nat × List (List UInt8)) :=
  scan (fun logged line => logged ++ [line]) buffer.deref fuel 0 logged

end Process

/-- stdout を読み終えた後の `poll`。 -/
theorem poll_running (hstatus : i.status = .running) {lb : LineBuffer} {read : List UInt8}
    (hread : readLoop p.buffer i.stdout = some (lb, false, read)) :
    p.poll parse fuel i = (tryProcess parse fuel lb.deref p.callbacks).bind fun r =>
      (lb.consume r.1).bind fun buffer => (p.readErr i).bind fun e =>
        (Process.scanErr fuel buffer p.logged).bind fun s => (e.1.consume s.1).map fun errBuffer =>
          (false, ⟨buffer, errBuffer, e.2.1, r.2, p.read ++ read, p.errRead ++ e.2.2, s.2⟩) := by
  cases hclosed : p.stderrClosed with
  | true =>
    simp only [Process.poll, hstatus, hread, Process.readErr, hclosed, if_true]
    simp [Option.map_eq_bind, Process.scanErr]
  | false =>
    simp only [Process.poll, hstatus, hread, Process.readErr, hclosed]
    simp [Option.map_eq_bind, Process.scanErr]

/-- `Pending` を返した `poll` は、どの段階も終えている。 -/
theorem poll_pending_cases (h : p.poll parse fuel i = some (false, p')) :
    ∃ lb read processed callbacks buffer errBuffer closed errRead consumed logged errBuffer',
      i.status = .running ∧ readLoop p.buffer i.stdout = some (lb, false, read) ∧
      tryProcess parse fuel lb.deref p.callbacks = some (processed, callbacks) ∧
      lb.consume processed = some buffer ∧
      p.readErr i = some (errBuffer, closed, errRead) ∧
      Process.scanErr fuel buffer p.logged = some (consumed, logged) ∧
      errBuffer.consume consumed = some errBuffer' ∧
      p' = ⟨buffer, errBuffer', closed, callbacks, p.read ++ read, p.errRead ++ errRead,
        logged⟩ := by
  cases hstatus : i.status with
  | exited | error => simp [Process.poll, hstatus] at h
  | running =>
    cases hread : readLoop p.buffer i.stdout with
    | none => simp [Process.poll, hstatus, hread] at h
    | some r =>
      obtain ⟨lb, failed, read⟩ := r
      cases failed with
      | true => simp [Process.poll, hstatus, hread] at h
      | false =>
        rw [poll_running hstatus hread] at h
        simp only [Option.bind_eq_some_iff, Option.map_eq_some_iff, Prod.mk.injEq, true_and] at h
        obtain ⟨⟨processed, callbacks⟩, htry, buffer, hcons, ⟨errBuffer, closed, errRead⟩, herr,
          ⟨consumed, logged⟩, hscan, errBuffer', hcons', rfl⟩ := h
        exact ⟨_, _, _, _, _, _, _, _, _, _, _, rfl, rfl, htry, hcons, herr, hscan, hcons', rfl⟩

namespace Process

variable (parse fuel) in
/-- `Pending` を返す `poll`。 -/
def pollPending (p : Process) (i : PollInput) : Option Process :=
  match p.poll parse fuel i with
  | some (false, p') => some p'
  | _ => none

theorem pollPending_eq_some (h : p.pollPending parse fuel i = some p') :
    p.poll parse fuel i = some (false, p') := by
  unfold pollPending at h
  split at h
  · next hpoll =>
    cases h
    exact hpoll
  · cases h

end Process

/-! ## 保たれること -/

/-- `try_process` が返した数だけ `consume` すると、改行は残らない。 -/
theorem consume_processed {processed : Nat} {callbacks callbacks' : Callbacks} (hwf : lb.WF)
    (htry : tryProcess parse fuel lb.deref callbacks = some (processed, callbacks'))
    (hcons : lb.consume processed = some lb') : lb'.WF ∧ newline ∉ lb'.deref := by
  have hone : OneLine lb.deref := oneLine_of_tryProcess htry
  obtain ⟨e, _, hdrop, hscan⟩ := scan_oneLine hone (processLine parse) callbacks
  have hmax := scan_mono _ htry (Nat.le_max_left fuel (lb.deref.length + 2))
  rw [hscan _ (Nat.le_max_right _ _)] at hmax
  cases hmax
  obtain ⟨hwf', hderef'⟩ := LineBuffer.consume_keeps hwf hcons
  refine ⟨hwf', ?_⟩
  rw [hderef', hdrop]
  exact notMem_remainder _ _

theorem scanErr_of_notMem (hnone : newline ∉ lb.deref) (logged : List (List UInt8)) :
    Process.scanErr (fuel + 1) lb logged = some (0, logged) := by
  rw [Process.scanErr, scan, List.drop_zero, findIdx?_newline_none hnone]

/-- 改行の無い buffer では、何も記録されず、`err_buffer` からは何も捨てられない。 -/
theorem scanErr_notMem {logged logged' : List (List UInt8)} {consumed : Nat}
    (hnone : newline ∉ lb.deref) (h : Process.scanErr fuel lb logged = some (consumed, logged')) :
    consumed = 0 ∧ logged' = logged := by
  cases fuel with
  | zero => cases h
  | succ fuel =>
    rw [scanErr_of_notMem hnone] at h
    cases h
    exact ⟨rfl, rfl⟩

/--
`Pending` を返す `poll` の後の状態。stdout の buffer に改行は無いので、stderr の行は記録されず、
読んだものはすべて `err_buffer` に残る。
-/
structure Process.Kept (p : Process) : Prop where
  buffer : p.buffer.WF
  errBuffer : p.errBuffer.WF
  noLine : newline ∉ p.buffer.deref
  logged : p.logged = []
  errRead : p.errBuffer.deref = p.errRead

theorem kept_new : Process.new.Kept where
  buffer := LineBuffer.wf_new
  errBuffer := LineBuffer.wf_new
  noLine := by simp [Process.new, LineBuffer.new, LineBuffer.deref]
  logged := rfl
  errRead := rfl

theorem readErr_keeps {errBuffer : LineBuffer} {closed : Bool} {errRead : List UInt8}
    (hwf : p.errBuffer.WF) (h : p.readErr i = some (errBuffer, closed, errRead)) :
    errBuffer.WF ∧ errBuffer.deref = p.errBuffer.deref ++ errRead := by
  unfold Process.readErr at h
  split at h
  · cases h
    exact ⟨hwf, (List.append_nil _).symm⟩
  · exact readLoop_keeps hwf h

theorem kept_pollPending (hp : p.Kept) (h : p.pollPending parse fuel i = some p') : p'.Kept := by
  obtain ⟨lb, read, processed, callbacks, buffer, errBuffer, closed, errRead, consumed, logged,
    errBuffer', _, hread, htry, hcons, herr, hscan, hcons', rfl⟩ :=
    poll_pending_cases (Process.pollPending_eq_some h)
  obtain ⟨hwf, hnone⟩ := consume_processed (readLoop_keeps hp.buffer hread).1 htry hcons
  obtain ⟨hwfe, hderefe⟩ := readErr_keeps hp.errBuffer herr
  obtain ⟨rfl, rfl⟩ := scanErr_notMem hnone hscan
  obtain ⟨hwf', hderef'⟩ := LineBuffer.consume_keeps hwfe hcons'
  refine ⟨hwf, hwf', hnone, hp.logged, ?_⟩
  rw [hderef', List.drop_zero, hderefe, hp.errRead]

/-- **実行が通るどの状態も `Kept` である。** -/
theorem kept_of_visited {is : List PollInput}
    (h : Visited (Process.pollPending parse fuel) Process.new is p) : p.Kept :=
  visited_invariant (fun _ _ _ hp hstep => kept_pollPending hp hstep) kept_new h

end FabAccess
