import FabAccess.Initiators.Properties.Stages

/-!
# 読まれない stderr

`poll` の終わりの loop は、stderr の行を `err_buffer` ではなく stdout の `buffer` に探す。そこには
もう改行が無いので、stderr の行は記録されず、`err_buffer` からは何も捨てられない。

* `consumesValid_of_kept` — `consume` の `assert!` には、どの `poll` でも触れない
* `drained_iff_errRead` — 両方の buffer に改行が無く、stderr の行がすべて記録されているのは、
  stderr からまだ改行を読んでいないとき、そのときに限る
* `drained_iff` — 実行が通るどの状態についての、同じこと
-/

namespace FabAccess

open Infra

variable (parse : String → Option Status) (fuel : Nat)

/-- どちらの buffer にも改行が無く、記録されたのは stderr の空でない行である。 -/
structure Process.Drained (p : Process) : Prop where
  buffer : newline ∉ p.buffer.deref
  errBuffer : newline ∉ p.errBuffer.deref
  logged : p.logged = completeLines newline p.errRead

/-- 一回の `poll` の中の、二つの `consume` に渡る数は `valid` を超えない。 -/
def Process.ConsumesValid (p : Process) (i : PollInput) : Prop :=
  i.status = .running → ∀ lb read processed callbacks,
    readLoop p.buffer i.stdout = some (lb, false, read) →
    tryProcess parse fuel lb.deref p.callbacks = some (processed, callbacks) →
    processed ≤ lb.valid ∧
    ∀ buffer errBuffer closed errRead consumed logged, lb.consume processed = some buffer →
      p.readErr i = some (errBuffer, closed, errRead) →
      Process.scanErr fuel buffer p.logged = some (consumed, logged) → consumed ≤ errBuffer.valid

variable {parse fuel} {p : Process}

theorem consumesValid_of_kept (hp : p.Kept) (i : PollInput) : p.ConsumesValid parse fuel i := by
  intro _ lb read processed callbacks hread htry
  refine ⟨(scan_le_length htry).trans LineBuffer.length_deref_le, ?_⟩
  intro buffer errBuffer _ _ consumed _ hcons _ hscan
  have hnone := (consume_processed (readLoop_keeps hp.buffer hread).1 htry hcons).2
  rw [(scanErr_notMem hnone hscan).1]
  exact Nat.zero_le _

/-- stderr から改行を一つでも読めば、それは `err_buffer` に残り続ける。 -/
theorem drained_iff_errRead (hp : p.Kept) : p.Drained ↔ newline ∉ p.errRead := by
  constructor
  · intro h
    rw [← hp.errRead]
    exact h.errBuffer
  · intro h
    refine ⟨hp.noLine, ?_, ?_⟩
    · rwa [hp.errRead]
    · rw [hp.logged, completeLines_of_notMem h]

/--
**buffer が空になり、stderr の行が記録されるのは、stderr に改行が書かれないとき、そのときに限る。**

どの `poll` の列についても、`Pending` を返したどの `poll` の後の状態についても述べる。`consume` の
`assert!` は、そこからのどの `poll` でも成り立つ。
-/
theorem drained_iff (parse : String → Option Status) (fuel : Nat) (is : List PollInput) :
    (∀ p, Visited (Process.pollPending parse fuel) Process.new is p →
      p.Drained ∧ ∀ i, p.ConsumesValid parse fuel i) ↔
      ∀ p, Visited (Process.pollPending parse fuel) Process.new is p → newline ∉ p.errRead := by
  refine forall₂_congr fun p hp => ?_
  rw [drained_iff_errRead (kept_of_visited hp)]
  exact and_iff_left (consumesValid_of_kept (kept_of_visited hp))

/-- 子 process が stderr に一行を書く。 -/
def complains : PollInput :=
  ⟨.running, [⟨freshMemory, .pending⟩],
    [⟨freshMemory, .ok "x\n".toUTF8.data.toList⟩, ⟨freshMemory, .pending⟩]⟩

/-- `poll` は `Pending` を返すが、その行は記録されず、`err_buffer` に残る。 -/
theorem stderr_line_stays :
    ∃ p, Process.new.pollPending (fun _ => none) 1 complains = some p ∧
      p.errRead = "x\n".toUTF8.data.toList ∧ p.logged = [] ∧
      completeLines newline p.errRead = ["x".toUTF8.data.toList] ∧
      newline ∈ p.errBuffer.deref ∧ ¬ p.Drained := by
  have hpoll : (Process.new.pollPending (fun _ => none) 1 complains).map
      (fun p => (p.errRead, p.logged, p.errBuffer.deref)) =
      some ([120, 10], [], [120, 10]) := by decide +kernel
  obtain ⟨p, hp, heq⟩ := Option.map_eq_some_iff.mp hpoll
  simp only [Prod.mk.injEq] at heq
  obtain ⟨herr, hlogged, hbuffer⟩ := heq
  have hleft : newline ∈ p.errBuffer.deref := by
    rw [hbuffer]
    decide
  refine ⟨p, hp, ?_, hlogged, ?_, hleft, fun h => h.errBuffer hleft⟩
  · rw [herr]
    decide +kernel
  · rw [herr]
    decide +kernel

end FabAccess
