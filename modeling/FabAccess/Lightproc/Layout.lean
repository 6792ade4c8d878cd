import FabAccess.Infra.Align

/-!
# proc の memory layout

`runtime/lightproc/src/layout_helpers.rs`、`proc_layout.rs` と、`raw_proc.rs` の `proc_layout`、
`from_ptr` の埋め込み。

`usize` は `w` bit の word である。`Layout` は標準 library のもので、`align` は必ず 2 の冪である。
`size` の上限は `from_size_align` が確かめるが、`from_size_align_unchecked` は確かめない。
panic は `none` とする。
-/

namespace FabAccess.Lightproc

variable {w : Nat}

/-- `std::alloc::Layout`。 -/
structure Layout (w : Nat) where
  size : BitVec w
  align : BitVec w
  pow : align.toNat.isPowerOfTwo

/-- `std::cmp::max`。 -/
def cmpMax (a b : BitVec w) : BitVec w := if a ≤ b then b else a

/-- `usize::checked_add`。 -/
def checkedAdd (a b : BitVec w) : Option (BitVec w) :=
  if a.toNat + b.toNat < 2 ^ w then some (a + b) else none

namespace Layout

/-- `align` に切り上げた `size` が `isize::MAX` を越えない。 -/
def fromSizeAlign (size align : BitVec w) : Option (Layout w) :=
  if h : align.toNat.isPowerOfTwo ∧ size.toNat + align.toNat ≤ 2 ^ (w - 1) then
    some ⟨size, align, h.1⟩
  else none

def fromSizeAlignUnchecked (size align : BitVec w) (h : align.toNat.isPowerOfTwo) : Layout w :=
  ⟨size, align, h⟩

end Layout

/-- `padding_needed_for`。 -/
def paddingNeededFor (layout : Layout w) (align : BitVec w) : BitVec w :=
  let len := layout.size
  let lenRoundedUp := len + align - 1#w &&& ~~~(align - 1#w)
  lenRoundedUp - len

/-- `extend`。返るのは、つないだ layout と、`next` の位置である。 -/
def extend (layout next : Layout w) : Option (Layout w × BitVec w) :=
  let newAlign := cmpMax layout.align next.align
  let pad := paddingNeededFor layout next.align
  match checkedAdd layout.size pad with
  | none => none
  | some offset =>
    match checkedAdd offset next.size with
    | none => none
    | some newSize =>
      match Layout.fromSizeAlign newSize newAlign with
      | none => none
      | some layout => some (layout, offset)

/-- `ProcLayout`。 -/
structure ProcLayout (w : Nat) where
  layout : Layout w
  offsetSchedule : BitVec w
  offsetFuture : BitVec w
  offsetOutput : BitVec w

theorem pow_cmpMax {a b : BitVec w} (ha : a.toNat.isPowerOfTwo) (hb : b.toNat.isPowerOfTwo) :
    (cmpMax a b).toNat.isPowerOfTwo := by
  unfold cmpMax
  split
  · exact hb
  · exact ha

/-- `RawProc::proc_layout`。四つの layout は `ProcData`、`S`、`F`、`R` のものである。 -/
def procLayout (layoutPdata layoutSchedule layoutFuture layoutOutput : Layout w) :
    Option (ProcLayout w) :=
  let sizeUnion := cmpMax layoutFuture.size layoutOutput.size
  let alignUnion := cmpMax layoutFuture.align layoutOutput.align
  let layoutUnion := Layout.fromSizeAlignUnchecked sizeUnion alignUnion
    (pow_cmpMax layoutFuture.pow layoutOutput.pow)
  match extend layoutPdata layoutSchedule with
  | none => none
  | some (layout, offsetSchedule) =>
    match extend layout layoutUnion with
    | none => none
    | some (layout, offsetUnion) =>
      some { layout, offsetSchedule, offsetFuture := offsetUnion, offsetOutput := offsetUnion }

/-- `RawProc` の四つの pointer。 -/
structure RawProc (w : Nat) where
  pdata : BitVec w
  schedule : BitVec w
  future : BitVec w
  output : BitVec w

/-- `RawProc::from_ptr`。 -/
def fromPtr (procLayout : ProcLayout w) (p : BitVec w) : RawProc w where
  pdata := p
  schedule := p + procLayout.offsetSchedule
  future := p + procLayout.offsetFuture
  output := p + procLayout.offsetOutput

end FabAccess.Lightproc
