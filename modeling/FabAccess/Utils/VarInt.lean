import Mathlib.Algebra.Order.Ring.Nat
import FabAccess.Infra.Base128

/-!
# 可変長整数

`bffhd/utils/varint.rs` の `VarUInt` と `convert_from!`・`convert_into!` の埋め込み。配列の後ろから
桁を詰め、`offset` が初めの桁を指す。

* 添字 `idx` が 0 より下に行こうとすれば panic し、`none` になる
* shift する量が幅に達しても panic し、`none` になる
* `convertLoop_spec` — 桁の数だけ配列があれば panic せず、`as_bytes` は `septets` である
-/

namespace FabAccess

open Infra

/-- `VarUInt<N>`。`N` は `bytes` の長さである。 -/
structure VarUInt where
  offset : Nat
  bytes : List UInt8
  deriving DecidableEq

namespace VarUInt

/-- `Default::default`。 -/
def default (N : Nat) : VarUInt := ⟨N, List.replicate N 0⟩

def asBytes (v : VarUInt) : List UInt8 := v.bytes.drop v.offset

/-- `convert_from!` の loop と、その後の代入。 -/
def convertLoop {w : Nat} (num : BitVec w) (more : UInt8) (bytes : List UInt8) (idx : Nat) :
    Option VarUInt :=
  if 0x7f#w < num then
    let bytes := bytes.set idx (UInt8.ofNat (num &&& 0x7f#w).toNat ||| more)
    match idx with
    | 0 => none
    | idx + 1 => convertLoop (num >>> 7) 0x80 bytes idx
  else some ⟨idx, bytes.set idx (UInt8.ofNat num.toNat ||| more)⟩

/-- `convert_from!`。 -/
def convertFrom {w : Nat} (N : Nat) (inp : BitVec w) : Option VarUInt :=
  let this := default N
  convertLoop inp 0 this.bytes (this.bytes.length - 1)

end VarUInt

/-- `From<u8> for VarU8`。 -/
def VarU8.convertFrom (inp : BitVec 8) : Option VarUInt := VarUInt.convertFrom 2 inp

/-- `From<u16> for VarU16`。 -/
def VarU16.convertFrom (inp : BitVec 16) : Option VarUInt := VarUInt.convertFrom 3 inp

/-- `From<u32> for VarU32`。 -/
def VarU32.convertFrom (inp : BitVec 32) : Option VarUInt := VarUInt.convertFrom 5 inp

/-- `From<u64> for VarU64`。 -/
def VarU64.convertFrom (inp : BitVec 64) : Option VarUInt := VarUInt.convertFrom 10 inp

/-- `From<u128> for VarU128`。 -/
def VarU128.convertFrom (inp : BitVec 128) : Option VarUInt := VarUInt.convertFrom 19 inp

namespace VarUInt

/-- `convert_into!` の loop。`idx = len - neg` なので、後ろの byte から順に渡る。 -/
def intoLoop {w : Nat} (out : BitVec w) (shift : Nat) : List UInt8 → Option (BitVec w)
  | [] => some out
  | byte :: bytes =>
    if shift < w then
      intoLoop (out ||| BitVec.ofNat w (byte &&& 0x7f).toNat <<< shift) (shift + 7) bytes
    else none

/-- `convert_into!`。 -/
def convertInto {w : Nat} (v : VarUInt) : Option (BitVec w) := intoLoop 0 0 v.asBytes.reverse

end VarUInt

/-- `Into<u8> for VarU8`。 -/
def VarU8.convertInto (v : VarUInt) : Option (BitVec 8) := v.convertInto

/-- `Into<u16> for VarU16`。 -/
def VarU16.convertInto (v : VarUInt) : Option (BitVec 16) := v.convertInto

/-- `Into<u32> for VarU32`。 -/
def VarU32.convertInto (v : VarUInt) : Option (BitVec 32) := v.convertInto

/-- `Into<u64> for VarU64`。 -/
def VarU64.convertInto (v : VarUInt) : Option (BitVec 64) := v.convertInto

/-- `Into<u128> for VarU128`。 -/
def VarU128.convertInto (v : VarUInt) : Option (BitVec 128) := v.convertInto

namespace VarUInt

variable {w : Nat} {bytes : List UInt8}

theorem toNat_mask (hw : 8 ≤ w) : (0x7f#w).toNat = 127 := by
  rw [BitVec.toNat_ofNat]
  exact Nat.mod_eq_of_lt (Nat.lt_of_lt_of_le (by decide) (Nat.pow_le_pow_right (by decide) hw))

theorem drop_set_self (b : UInt8) {idx : Nat} (h : idx < bytes.length) :
    (bytes.set idx b).drop idx = b :: bytes.drop (idx + 1) := by
  rw [List.drop_set, if_neg (Nat.lt_irrefl _), Nat.sub_self, List.drop_eq_getElem_cons h]
  rfl

/-- 残りの桁が配列に収まるなら、loop は `septets` を `idx` までに詰める。 -/
theorem convertLoop_spec (hw : 8 ≤ w) (idx : Nat) : ∀ (num : BitVec w) (more : UInt8)
    (bytes : List UInt8), num.toNat < 128 ^ (idx + 1) → idx < bytes.length →
    ∃ v, convertLoop num more bytes idx = some v ∧
      v.asBytes = septets num.toNat more ++ bytes.drop (idx + 1) := by
  induction idx with
  | zero =>
    intro num more bytes hnum hlen
    have hle : ¬ 0x7f#w < num := by
      rw [BitVec.lt_def, toNat_mask hw]
      omega
    refine ⟨_, by rw [convertLoop, if_neg hle], ?_⟩
    rw [asBytes, drop_set_self _ hlen, septets_of_lt (by simpa using hnum), List.singleton_append]
  | succ idx ih =>
    intro num more bytes hnum hlen
    by_cases hlt : 0x7f#w < num
    · have hmask : (num &&& 0x7f#w).toNat = num.toNat % 128 := by
        rw [BitVec.toNat_and, toNat_mask hw]
        exact Nat.and_two_pow_sub_one_eq_mod _ 7
      have hshift : (num >>> 7).toNat = num.toNat / 128 := by
        rw [BitVec.toNat_ushiftRight, Nat.shiftRight_eq_div_pow]
      have hnum' : (num >>> 7).toNat < 128 ^ (idx + 1) := by
        rw [hshift]
        exact Nat.div_lt_of_lt_mul (by rwa [Nat.pow_succ'] at hnum)
      obtain ⟨v, hv, hbytes⟩ := ih (num >>> 7) 0x80
        (bytes.set (idx + 1) (UInt8.ofNat (num &&& 0x7f#w).toNat ||| more)) hnum'
        (by rw [List.length_set]; omega)
      refine ⟨v, by rw [convertLoop, if_pos hlt]; exact hv, ?_⟩
      rw [BitVec.lt_def, toNat_mask hw] at hlt
      rw [hbytes, drop_set_self _ hlen, hshift, hmask, septets_of_le (by omega : 128 ≤ num.toNat),
        List.append_assoc, List.singleton_append]
    · refine ⟨_, by rw [convertLoop, if_neg hlt], ?_⟩
      rw [BitVec.lt_def, toNat_mask hw] at hlt
      rw [asBytes, drop_set_self _ hlen, septets_of_lt (by omega), List.singleton_append]

/-- **`N` byte に収まる数の変換は panic せず、`as_bytes` は `septets` である。** -/
theorem convertFrom_spec (hw : 8 ≤ w) {N : Nat} (hN : 0 < N) (hfit : 2 ^ w ≤ 128 ^ N)
    (inp : BitVec w) :
    ∃ v, convertFrom N inp = some v ∧ v.asBytes = septets inp.toNat 0 := by
  have hlen : (default N).bytes.length = N := List.length_replicate
  have hlast : N - 1 + 1 = N := by omega
  obtain ⟨v, hv, hbytes⟩ := convertLoop_spec hw (N - 1) inp 0 (default N).bytes
    (by rw [hlast]; exact Nat.lt_of_lt_of_le inp.isLt hfit) (by rw [hlen]; omega)
  refine ⟨v, by rw [convertFrom]; simp only [hlen]; exact hv, ?_⟩
  rw [hbytes, hlast, List.drop_of_length_le (Nat.le_of_eq hlen), List.append_nil]

end VarUInt

theorem VarU128.convertFrom_spec (inp : BitVec 128) :
    ∃ v, VarU128.convertFrom inp = some v ∧ v.asBytes = septets inp.toNat 0 :=
  VarUInt.convertFrom_spec (by decide) (by decide) (by decide) inp

end FabAccess
