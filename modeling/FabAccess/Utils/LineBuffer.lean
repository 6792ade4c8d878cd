import Mathlib.Data.List.Basic

/-!
# LineBuffer

`bffhd/utils/linebuffer.rs` の埋め込み。`Vec` の後ろに確保だけされた領域が続き、
先頭の `valid` byte だけが中身である。

`Vec::reserve` がどれだけ確保するか、そこに何があるかは決まっていないので、
新しく見えるようになる領域を `memory` として受け取る。
-/

namespace FabAccess

structure LineBuffer where
  buffer : List UInt8
  valid : Nat
  deriving DecidableEq

namespace LineBuffer

def new : LineBuffer := ⟨[], 0⟩

/-- `LineBuffer::get_mut_write`。書き込める領域は `valid` より後である。 -/
def getMutWrite (lb : LineBuffer) (atleast : Nat) (memory : List UInt8) : LineBuffer :=
  let avail := lb.buffer.length - lb.valid
  if avail < atleast then { lb with buffer := lb.buffer ++ memory } else lb

/-- 書き込める領域。 -/
def slice (lb : LineBuffer) : List UInt8 := lb.buffer.drop lb.valid

/-- 書き込める領域の先頭に、入るだけ書く。 -/
def write (lb : LineBuffer) (data : List UInt8) : LineBuffer :=
  { lb with buffer :=
    lb.buffer.take lb.valid ++ data.take lb.slice.length ++ lb.slice.drop data.length }

def advanceValid (lb : LineBuffer) (amount : Nat) : LineBuffer :=
  { lb with valid := lb.valid + amount }

/-- `LineBuffer::consume`。`assert!` に触れれば `none`。 -/
def consume (lb : LineBuffer) (amount : Nat) : Option LineBuffer :=
  if amount ≤ lb.valid then
    let buffer :=
      if amount < lb.valid then
        (lb.buffer.drop amount).take (lb.valid - amount) ++ lb.buffer.drop (lb.valid - amount)
      else lb.buffer
    some ⟨buffer, lb.valid - amount⟩
  else none

/-- `Deref`。 -/
def deref (lb : LineBuffer) : List UInt8 := lb.buffer.take lb.valid

/-- 中身は確保された領域に収まる。 -/
def WF (lb : LineBuffer) : Prop := lb.valid ≤ lb.buffer.length

variable {lb lb' : LineBuffer}

theorem wf_new : new.WF := Nat.le_refl 0

theorem getMutWrite_spec (h : lb.WF) (atleast : Nat) (memory : List UInt8) :
    (lb.getMutWrite atleast memory).WF ∧ (lb.getMutWrite atleast memory).deref = lb.deref := by
  unfold getMutWrite
  dsimp only
  split
  · refine ⟨?_, List.take_append_of_le_length h⟩
    simp only [WF, List.length_append] at h ⊢
    omega
  · exact ⟨h, rfl⟩

/-- 書いて `valid` を進めると、中身の後ろに加わる。 -/
theorem write_advance_spec (h : lb.WF) (data : List UInt8) :
    ((lb.write data).advanceValid (data.take lb.slice.length).length).WF ∧
    ((lb.write data).advanceValid (data.take lb.slice.length).length).deref =
      lb.deref ++ data.take lb.slice.length := by
  have hlen : (lb.buffer.take lb.valid).length = lb.valid := List.length_take_of_le h
  constructor
  · simp only [WF, write, advanceValid, List.length_append, hlen]
    omega
  · simp only [deref, write, advanceValid]
    rw [List.take_append_of_le_length (by simp [hlen]), List.take_of_length_le (by simp [hlen])]

/-- `consume` は先頭を捨てる。 -/
theorem consume_spec (h : lb.WF) {amount : Nat} (hle : amount ≤ lb.valid) :
    ∃ lb', lb.consume amount = some lb' ∧ lb'.WF ∧ lb'.deref = lb.deref.drop amount := by
  unfold WF at h
  unfold consume
  rw [if_pos hle]
  refine ⟨_, rfl, ?_, ?_⟩
  · unfold WF
    dsimp only
    split
    · simp only [List.length_append, List.length_take, List.length_drop]
      omega
    · omega
  · simp only [deref]
    split
    · have hlen : ((lb.buffer.drop amount).take (lb.valid - amount)).length = lb.valid - amount := by
        rw [List.length_take, List.length_drop]
        omega
      rw [List.take_append_of_le_length (by omega), List.take_of_length_le (by omega), List.drop_take]
    · have heq : amount = lb.valid := by omega
      rw [heq, Nat.sub_self, List.take_zero, List.drop_take, Nat.sub_self, List.take_zero]

theorem length_deref_le : lb.deref.length ≤ lb.valid := List.length_take_le _ _

/-- 中身の長さを超えない `consume` は、`assert!` に触れない。 -/
theorem consume_ok (h : lb.WF) {amount : Nat} (hle : amount ≤ lb.deref.length) :
    ∃ lb', lb.consume amount = some lb' ∧ lb'.WF ∧ lb'.deref = lb.deref.drop amount :=
  consume_spec h (Nat.le_trans hle length_deref_le)

theorem consume_keeps (h : lb.WF) {amount : Nat} (hcons : lb.consume amount = some lb') :
    lb'.WF ∧ lb'.deref = lb.deref.drop amount := by
  have hle : amount ≤ lb.valid := by
    by_contra hlt
    rw [consume, if_neg hlt] at hcons
    cases hcons
  obtain ⟨lb₁, hcons₁, hkept⟩ := consume_spec h hle
  rw [hcons] at hcons₁
  cases hcons₁
  exact hkept

end LineBuffer

end FabAccess
