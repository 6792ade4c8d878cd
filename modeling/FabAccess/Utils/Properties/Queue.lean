import FabAccess.Infra.Queue
import FabAccess.Utils.LineBuffer

/-!
# LineBuffer は byte の列である

`get_mut_write` の返した領域に書いて `advance_valid` する操作は後ろに加えること、`consume` は先頭を
捨てることである。`Vec` の長さと容量と `valid` は別々に動くが、`WF` はいつも保たれる。

* `exec_simulates` — 一回の操作は、列への一回の操作である
* `line_buffer_queue` — どの操作の列の後でも、`Deref` で見える byte 列は、書いたものすべてから
  `consume` した数だけ先頭を除いたものである
-/

namespace FabAccess

open Infra

/-- `LineBuffer` の使い手の操作。 -/
inductive BufferOp where
  /-- `get_mut_write` の返した領域の先頭に `data` を書き、その長さだけ `advance_valid` する -/
  | fill (atleast : Nat) (memory data : List UInt8)
  | consume (amount : Nat)

namespace LineBuffer

/-- `Vec::reserve` は、求められただけの領域を確保する。 -/
def Reserves (lb : LineBuffer) (atleast : Nat) (memory : List UInt8) : Prop :=
  lb.buffer.length - lb.valid < atleast →
    atleast - (lb.buffer.length - lb.valid) ≤ memory.length

/-- 使い手の約束。返された領域より長く書かず、ある以上に `consume` しない。 -/
def Allowed (lb : LineBuffer) : BufferOp → Prop
  | .fill atleast memory data =>
    lb.Reserves atleast memory ∧ data.length ≤ (lb.getMutWrite atleast memory).slice.length
  | .consume amount => amount ≤ lb.valid

def exec (lb : LineBuffer) : BufferOp → Option LineBuffer
  | .fill atleast memory data =>
    some (((lb.getMutWrite atleast memory).write data).advanceValid data.length)
  | .consume amount => lb.consume amount

/-- 操作の中の引き算の、引かれる数と引く数。 -/
def subtractions (lb : LineBuffer) : BufferOp → List (Nat × Nat)
  | .fill atleast _ _ =>
    let avail := lb.buffer.length - lb.valid
    (lb.buffer.length, lb.valid) :: if avail < atleast then [(atleast, avail)] else []
  | .consume amount => [(lb.valid, amount)]

end LineBuffer

/-- 列への操作として見たもの。 -/
def BufferOp.toQueue : BufferOp → QueueOp UInt8
  | .fill _ _ data => .push data
  | .consume amount => .drop amount

/-- これまでに書いた byte 列。 -/
def written (ops : List BufferOp) : List UInt8 := pushed (ops.map BufferOp.toQueue)

/-- これまでに `consume` した数。 -/
def consumed (ops : List BufferOp) : Nat := dropped (ops.map BufferOp.toQueue)

namespace LineBuffer

variable {lb lb' : LineBuffer} {op : BufferOp} {ops : List BufferOp}

theorem length_deref (h : lb.WF) : lb.deref.length = lb.valid := List.length_take_of_le h

/-- `get_mut_write` は、求められた長さの領域を返す。 -/
theorem atleast_le_slice (h : lb.WF) {atleast : Nat} {memory : List UInt8}
    (hres : lb.Reserves atleast memory) :
    atleast ≤ (lb.getMutWrite atleast memory).slice.length := by
  unfold Reserves at hres
  unfold WF at h
  unfold getMutWrite slice
  dsimp only
  by_cases hlt : lb.buffer.length - lb.valid < atleast
  · have hmem := hres hlt
    rw [if_pos hlt, List.length_drop, List.length_append]
    dsimp only
    omega
  · rw [if_neg hlt, List.length_drop]
    omega

theorem subtractions_le (h : lb.WF) (hok : lb.Allowed op) :
    ∀ s ∈ lb.subtractions op, s.2 ≤ s.1 := by
  intro s hs
  cases op with
  | consume amount =>
    obtain rfl := List.mem_singleton.mp hs
    exact hok
  | fill atleast memory data =>
    rcases List.mem_cons.mp hs with rfl | hs
    · exact h
    · split at hs
      · next hlt =>
        obtain rfl := List.mem_singleton.mp hs
        exact Nat.le_of_lt hlt
      · cases hs

/-- **許された操作は、列への操作である。** -/
theorem exec_simulates (h : lb.WF) (hok : lb.Allowed op) :
    ∃ lb' q', lb.exec op = some lb' ∧ queueStep lb.deref op.toQueue = some q' ∧
      lb'.WF ∧ lb'.deref = q' := by
  cases op with
  | fill atleast memory data =>
    obtain ⟨hwf, hderef⟩ := getMutWrite_spec h atleast memory
    obtain ⟨hwf', hderef'⟩ := write_advance_spec hwf data
    rw [List.take_of_length_le hok.2] at hwf' hderef'
    exact ⟨_, _, rfl, rfl, hwf', by rw [hderef', hderef]⟩
  | consume amount =>
    obtain ⟨lb', hcons, hwf', hderef'⟩ := consume_spec h hok
    refine ⟨lb', _, hcons, if_pos ?_, hwf', hderef'⟩
    rw [length_deref h]
    exact hok

/-- 許された操作の列は最後まで進み、列への操作の列に写る。 -/
theorem run_exec (hok : ∀ lb op, StepsFrom exec new ops lb op → lb.Allowed op) :
    ∃ lb, runFrom exec new ops = some lb ∧ lb.WF ∧
      lb.deref = (written ops).drop (consumed ops) := by
  obtain ⟨lb, q, hrun, hqueue, hwf, rfl⟩ : ∃ lb q, runFrom exec new ops = some lb ∧
      runFrom queueStep [] (ops.map BufferOp.toQueue) = some q ∧ lb.WF ∧ lb.deref = q := by
    refine run_simulates ?_ ⟨wf_new, rfl⟩ hok
    rintro lb q op ⟨hwf, rfl⟩ hop
    exact exec_simulates hwf hop
  exact ⟨lb, hrun, hwf, queue_run_eq hqueue⟩

/--
**許された操作の列のどこでも、`Deref` で見えるのは、書いたものすべてから `consume` した数だけ
先頭を除いたものである。**

そのとき `valid` は `Vec` の長さを超えず、`get_mut_write` は中身を変えずに、求められた以上の領域を
返す。列の中のどの操作でも、引き算は負にならない。
-/
theorem line_buffer_queue (ops : List BufferOp)
    (hok : ∀ lb op, StepsFrom exec new ops lb op → lb.Allowed op) :
    (∀ pre, pre <+: ops → ∃ lb, runFrom exec new pre = some lb ∧
      lb.deref = (written pre).drop (consumed pre) ∧ lb.valid ≤ lb.buffer.length ∧
      ∀ atleast memory, lb.Reserves atleast memory →
        atleast ≤ (lb.getMutWrite atleast memory).slice.length ∧
        (lb.getMutWrite atleast memory).deref = lb.deref) ∧
    ∀ lb op, StepsFrom exec new ops lb op → ∀ s ∈ lb.subtractions op, s.2 ≤ s.1 := by
  have hwritten : ∀ pre, pre <+: ops → ∃ lb, runFrom exec new pre = some lb ∧ lb.WF ∧
      lb.deref = (written pre).drop (consumed pre) := by
    rintro pre ⟨post, rfl⟩
    refine run_exec fun lb op hstep => hok lb op ?_
    obtain ⟨front, back, rfl, hrun⟩ := hstep
    exact ⟨front, back ++ post, by simp, hrun⟩
  constructor
  · intro pre hpre
    obtain ⟨lb, hrun, hwf, hderef⟩ := hwritten pre hpre
    exact ⟨lb, hrun, hderef, hwf, fun atleast memory hres =>
      ⟨atleast_le_slice hwf hres, (getMutWrite_spec hwf atleast memory).2⟩⟩
  · intro lb op hstep
    obtain ⟨pre, post, heq, hpre⟩ := hstep
    obtain ⟨lb', hrun, hwf, _⟩ := hwritten pre ⟨op :: post, heq.symm⟩
    rw [hpre] at hrun
    cases hrun
    exact subtractions_le hwf (hok lb op ⟨pre, post, heq, hpre⟩)

/-- 二度に分けて書き、途中で `consume` する。 -/
def twoFills : List BufferOp :=
  [.fill 2 [0, 0, 0] [1, 2], .consume 1, .fill 4 [0, 0, 0] [3], .consume 2]

theorem line_buffer_queue_twoFills :
    ∃ lb, runFrom exec new twoFills = some lb ∧
      lb.deref = (written twoFills).drop (consumed twoFills) := by
  have hok : ∀ lb op, StepsFrom exec new twoFills lb op → lb.Allowed op := by
    intro lb op hstep
    rw [twoFills, stepsFrom_cons rfl, stepsFrom_cons rfl, stepsFrom_cons rfl,
      stepsFrom_cons rfl] at hstep
    rcases hstep with ⟨rfl, rfl⟩ | ⟨rfl, rfl⟩ | ⟨rfl, rfl⟩ | ⟨rfl, rfl⟩ | ⟨pre, post, heq, _⟩
    · exact ⟨fun _ => by decide, by decide⟩
    · exact (by decide : 1 ≤ 2)
    · exact ⟨fun _ => by decide, by decide⟩
    · exact (by decide : 2 ≤ 2)
    · simp at heq
  obtain ⟨lb, hrun, hderef, _⟩ := (line_buffer_queue twoFills hok).1 twoFills List.prefix_rfl
  exact ⟨lb, hrun, hderef⟩

end LineBuffer

end FabAccess
