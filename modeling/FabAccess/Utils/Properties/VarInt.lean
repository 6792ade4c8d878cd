import Mathlib.Tactic.Ring
import FabAccess.Utils.VarInt

/-!
# 可変長整数の往復

* `intoLoop_spec` — 読み戻す loop は、桁の値を足し合わせる
* `selfDelimiting` — 配列の長さが幅に見合えば、往復でき、並べても切り分けられる
* `varint_round_trip` — 五つの幅のすべてでそうである
-/

namespace FabAccess

open Infra

namespace VarUInt

variable {w : Nat}

theorem toNat_low (byte : UInt8) : (byte &&& 0x7f).toNat = byte.toNat % 128 := by
  rw [UInt8.toNat_and]
  exact Nat.and_two_pow_sub_one_eq_mod _ 7

/-- shift の下に収まっている値に、桁を一つ重ねる。 -/
theorem toNat_or_shift {out : BitVec w} {shift : Nat} (hout : out.toNat < 2 ^ shift) (d : Nat) :
    (out ||| BitVec.ofNat w d <<< shift).toNat = (out.toNat + 2 ^ shift * d) % 2 ^ w := by
  have hhigh : (BitVec.ofNat w d <<< shift).toNat = 2 ^ shift * d % 2 ^ w := by
    rw [BitVec.toNat_shiftLeft, BitVec.toNat_ofNat, Nat.shiftLeft_eq, Nat.mod_mul_mod, Nat.mul_comm]
  calc (out ||| BitVec.ofNat w d <<< shift).toNat
      = out.toNat % 2 ^ w ||| 2 ^ shift * d % 2 ^ w := by
        rw [BitVec.toNat_or, hhigh, Nat.mod_eq_of_lt out.isLt]
    _ = (2 ^ shift * d ||| out.toNat) % 2 ^ w := by rw [← Nat.or_mod_two_pow, Nat.or_comm]
    _ = (out.toNat + 2 ^ shift * d) % 2 ^ w := by
      rw [← Nat.two_pow_add_eq_or_of_lt hout, Nat.add_comm]

/-- shift が幅を超えないあいだ、loop は桁の値を足し合わせる。 -/
theorem intoLoop_spec {bytes : List UInt8} : ∀ {out : BitVec w} {shift : Nat},
    out.toNat < 2 ^ shift → shift + 7 * bytes.length < w + 7 →
    intoLoop out shift bytes =
      some (BitVec.ofNat w (out.toNat + 2 ^ shift * septetValue bytes.reverse)) := by
  induction bytes with
  | nil =>
    intro out shift _ _
    simp [intoLoop]
  | cons byte bytes ih =>
    intro out shift hout hlen
    rw [List.length_cons] at hlen
    have hor := toNat_or_shift hout (byte &&& 0x7f).toNat
    have hpow : 2 ^ (shift + 7) = 2 ^ shift * 128 := Nat.pow_add 2 shift 7
    have hlow : byte.toNat % 128 < 128 := Nat.mod_lt _ (by decide)
    have hout' : (out ||| BitVec.ofNat w (byte &&& 0x7f).toNat <<< shift).toNat <
        2 ^ (shift + 7) := by
      have hmul : 2 ^ shift * (byte.toNat % 128 + 1) ≤ 2 ^ shift * 128 := Nat.mul_le_mul_left _ hlow
      rw [hor, toNat_low, hpow]
      refine Nat.lt_of_le_of_lt (Nat.mod_le _ _) (Nat.lt_of_lt_of_le ?_ hmul)
      rw [Nat.mul_succ]
      omega
    rw [intoLoop, if_pos (by omega), ih hout' (by omega), hor, toNat_low, List.reverse_cons,
      septetValue_concat, hpow]
    -- 上の桁が幅からはみ出すのは最後の一周だけで、はみ出した分は落ちる
    congr 1
    apply BitVec.eq_of_toNat_eq
    rw [BitVec.toNat_ofNat, BitVec.toNat_ofNat, Nat.mod_add_mod]
    congr 1
    ring

/-- 桁の数が幅に見合えば、読み戻した値は `septetValue` である。 -/
theorem convertInto_spec {v : VarUInt} (hlen : 7 * v.asBytes.length < w + 7) :
    v.convertInto = some (BitVec.ofNat w (septetValue v.asBytes)) := by
  rw [convertInto, intoLoop_spec (by simp) (by rw [List.length_reverse]; omega),
    List.reverse_reverse]
  simp

end VarUInt

/-- 往復できて、byte 列に余分な桁が無く、並べても切り分けられる。 -/
structure SelfDelimiting {w : Nat} (convertFrom : BitVec w → Option VarUInt)
    (convertInto : VarUInt → Option (BitVec w)) : Prop where
  /-- どの値も panic せずに変換され、panic せずに読み戻される -/
  roundTrip : ∀ x, ∃ v, convertFrom x = some v ∧ convertInto v = some x
  minimal : ∀ x v, convertFrom x = some v → Minimal v.asBytes ∧ septetValue v.asBytes = x.toNat
  delimits : ∀ (xs : List (BitVec w)) (vs : List VarUInt), xs.mapM convertFrom = some vs →
    splitAfter (· < 0x80) (vs.flatMap VarUInt.asBytes) = vs.map VarUInt.asBytes

theorem exists_of_mem_mapM {α β : Type*} {f : α → Option β} {l : List α} {bs : List β} {b : β}
    (h : l.mapM f = some bs) (hb : b ∈ bs) : ∃ a ∈ l, f a = some b := by
  induction l generalizing bs with
  | nil =>
    cases h
    cases hb
  | cons a l ih =>
    rw [List.mapM_cons] at h
    obtain ⟨c, hc, hrest⟩ := Option.bind_eq_some_iff.mp h
    obtain ⟨cs, hcs, heq⟩ := Option.bind_eq_some_iff.mp hrest
    cases heq
    rcases List.mem_cons.mp hb with rfl | hb
    · exact ⟨a, List.mem_cons_self, hc⟩
    · obtain ⟨x, hx, hfx⟩ := ih hcs hb
      exact ⟨x, List.mem_cons_of_mem a hx, hfx⟩

/-- 配列に収まり、最後の桁の shift が幅より小さければよい。 -/
theorem selfDelimiting {w N : Nat} (hw : 8 ≤ w) (hN : 0 < N) (hfit : 2 ^ w ≤ 128 ^ N)
    (hshift : 7 * N < w + 7) :
    SelfDelimiting (VarUInt.convertFrom N) (VarUInt.convertInto (w := w)) := by
  have hspec : ∀ (x : BitVec w) v, VarUInt.convertFrom N x = some v →
      v.asBytes = septets x.toNat 0 := by
    intro x v hv
    obtain ⟨v', hv', hbytes⟩ := VarUInt.convertFrom_spec hw hN hfit x
    rw [hv] at hv'
    cases hv'
    exact hbytes
  have hminimal : ∀ (x : BitVec w) v, VarUInt.convertFrom N x = some v →
      Minimal v.asBytes ∧ septetValue v.asBytes = x.toNat := by
    intro x v hv
    rw [hspec x v hv]
    exact septets_minimal _
  refine ⟨fun x => ?_, hminimal, fun xs vs hvs => splitAfter_flatMap vs fun v hv => ?_⟩
  · obtain ⟨v, hv, hbytes⟩ := VarUInt.convertFrom_spec hw hN hfit x
    have hlen : v.asBytes.length ≤ N := by
      rw [hbytes]
      exact length_septets_le hN (Nat.lt_of_lt_of_le x.isLt hfit)
    refine ⟨v, hv, ?_⟩
    rw [VarUInt.convertInto_spec (by omega), (hminimal x v hv).2, BitVec.ofNat_toNat,
      BitVec.setWidth_eq]
  · obtain ⟨x, _, hx⟩ := exists_of_mem_mapM hvs hv
    exact (hminimal x v hx).1.pieces

/--
**五つの幅のどれでも、可変長整数は往復でき、byte 列に余分な桁が無く、並べても切り分けられる。**
-/
theorem varint_round_trip :
    SelfDelimiting VarU8.convertFrom VarU8.convertInto ∧
    SelfDelimiting VarU16.convertFrom VarU16.convertInto ∧
    SelfDelimiting VarU32.convertFrom VarU32.convertInto ∧
    SelfDelimiting VarU64.convertFrom VarU64.convertInto ∧
    SelfDelimiting VarU128.convertFrom VarU128.convertInto :=
  ⟨selfDelimiting (by decide) (by decide) (by decide) (by decide),
    selfDelimiting (by decide) (by decide) (by decide) (by decide),
    selfDelimiting (by decide) (by decide) (by decide) (by decide),
    selfDelimiting (by decide) (by decide) (by decide) (by decide),
    selfDelimiting (by decide) (by decide) (by decide) (by decide)⟩

example : (VarU32.convertFrom 128).map VarUInt.asBytes = some [129, 0] := by decide

end FabAccess
