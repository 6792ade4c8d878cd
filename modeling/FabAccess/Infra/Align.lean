import Mathlib.Data.Nat.Basic
import Mathlib.Algebra.Order.Ring.Nat

/-!
# 境界に揃える

2 の冪の境界に揃えるための隙間を、mask と回り込む演算で求めること。

* `padding` — 次の境界までの隙間
* `toNat_and_not` — 下の bit を落とすと、境界まで切り捨てられる
* `toNat_padding` — 途中で回り込んでも、mask による計算は正しい隙間を与える
-/

namespace FabAccess.Infra

/-- `len` から、次の `a` の倍数までの隙間。 -/
def padding (len a : Nat) : Nat := (a - len % a) % a

section Padding

variable {len a : Nat}

theorem padding_lt (h : 0 < a) : padding len a < a := Nat.mod_lt _ h

theorem dvd_add_padding (h : 0 < a) : a ∣ len + padding len a := by
  have hlt := Nat.mod_lt len h
  apply Nat.dvd_of_mod_eq_zero
  rw [padding, Nat.add_mod, Nat.mod_mod, ← Nat.add_mod_mod, Nat.mod_mod]
  have hsum : len % a + (a - len % a) = a := by omega
  rw [Nat.add_mod_mod, hsum, Nat.mod_self]

/-- 切り上げてから余りを除いても、同じ隙間になる。 -/
theorem padding_eq (h : 0 < a) : padding len a = a - 1 - (len + (a - 1)) % a := by
  have hlt := Nat.mod_lt len h
  rw [padding, Nat.add_mod]
  by_cases hzero : len % a = 0
  · rw [hzero, Nat.zero_add, Nat.mod_mod, Nat.mod_eq_of_lt (by omega : a - 1 < a), Nat.sub_zero,
      Nat.mod_self, Nat.sub_self]
  · have hone : (a - 1) % a = a - 1 := Nat.mod_eq_of_lt (by omega)
    have hwrap : len % a + (a - 1) = len % a - 1 + a := by omega
    rw [hone, hwrap, Nat.add_mod_right, Nat.mod_eq_of_lt (by omega : len % a - 1 < a),
      Nat.mod_eq_of_lt (by omega : a - len % a < a)]
    omega

end Padding

section Wrapping

variable {w k : Nat} {len a x : BitVec w}

theorem toNat_sub_one (h : a.toNat = 2 ^ k) : k < w ∧ (a - 1#w).toNat = 2 ^ k - 1 := by
  have hkw : k < w := by
    have hlt := a.isLt
    rw [h] at hlt
    exact (Nat.pow_lt_pow_iff_right (by decide)).mp hlt
  have hone : (1#w).toNat = 1 := BitVec.toNat_one (Nat.zero_lt_of_lt hkw)
  have hle : 1#w ≤ a := by
    rw [BitVec.le_def, hone, h]
    exact Nat.two_pow_pos k
  exact ⟨hkw, by rw [BitVec.toNat_sub_of_le hle, hone, h]⟩

/-- `a` が 2 の冪なら、`!(a - 1)` との共通部分は、下の bit を落としたものである。 -/
theorem toNat_and_not (h : a.toNat = 2 ^ k) :
    (x &&& ~~~(a - 1#w)).toNat = x.toNat - x.toNat % 2 ^ k := by
  obtain ⟨_, hmask⟩ := toNat_sub_one h
  have hdiv : x.toNat - x.toNat % 2 ^ k = 2 ^ k * (x.toNat / 2 ^ k) := by
    have hsplit := Nat.mod_add_div x.toNat (2 ^ k)
    omega
  rw [hdiv]
  apply Nat.eq_of_testBit_eq
  intro i
  rw [BitVec.testBit_toNat, BitVec.getLsbD_and, BitVec.getLsbD_not, ← BitVec.testBit_toNat,
    ← BitVec.testBit_toNat, hmask, Nat.testBit_two_pow_sub_one, Nat.testBit_two_pow_mul,
    Nat.testBit_div_two_pow]
  by_cases hik : i < k
  · simp [hik, Nat.not_le.mpr hik]
  · have hidx : i - k + k = i := by omega
    have hout : w ≤ i → x.toNat.testBit i = false := BitVec.getLsbD_of_ge x i
    by_cases hiw : i < w
    · simp [hik, hiw, Nat.not_lt.mp hik]
    · simp [hidx, hout (by omega)]

/-- **回り込む演算で求めた隙間は、いつも正しい。** -/
theorem toNat_padding (h : a.toNat = 2 ^ k) :
    ((len + a - 1#w &&& ~~~(a - 1#w)) - len).toNat = padding len.toNat (2 ^ k) := by
  obtain ⟨hkw, hmask⟩ := toNat_sub_one h
  have hpos : 0 < 2 ^ k := Nat.two_pow_pos k
  have hdvd : 2 ^ k ∣ 2 ^ w := Nat.pow_dvd_pow 2 hkw.le
  have hlen := len.isLt
  have hle : 2 ^ k ≤ 2 ^ w := Nat.le_of_dvd (Nat.two_pow_pos w) hdvd
  have hround : (len + a - 1#w).toNat = (len.toNat + (2 ^ k - 1)) % 2 ^ w := by
    rw [BitVec.sub_eq_add_neg, BitVec.add_assoc, ← BitVec.sub_eq_add_neg, BitVec.toNat_add, hmask]
  have hmod : (len + a - 1#w).toNat % 2 ^ k = (len.toNat + (2 ^ k - 1)) % 2 ^ k := by
    rw [hround, Nat.mod_mod_of_dvd _ hdvd]
  have hrest := Nat.mod_lt (len.toNat + (2 ^ k - 1)) hpos
  have hsub := Nat.mod_le (len + a - 1#w).toNat (2 ^ k)
  rw [BitVec.toNat_sub, toNat_and_not h, padding_eq hpos, ← hmod]
  rw [hmod] at hsub ⊢
  -- 切り上げが回り込むのは高々一度である
  by_cases hwrap : len.toNat + (2 ^ k - 1) < 2 ^ w
  · rw [Nat.mod_eq_of_lt hwrap] at hround
    have hsum : 2 ^ w - len.toNat +
        ((len + a - 1#w).toNat - (len.toNat + (2 ^ k - 1)) % 2 ^ k) =
        2 ^ k - 1 - (len.toNat + (2 ^ k - 1)) % 2 ^ k + 2 ^ w := by omega
    rw [hsum, Nat.add_mod_right]
    exact Nat.mod_eq_of_lt (by omega)
  · rw [Nat.mod_eq_sub_mod (by omega), Nat.mod_eq_of_lt (by omega)] at hround
    have hsum : 2 ^ w - len.toNat +
        ((len + a - 1#w).toNat - (len.toNat + (2 ^ k - 1)) % 2 ^ k) =
        2 ^ k - 1 - (len.toNat + (2 ^ k - 1)) % 2 ^ k := by omega
    rw [hsum]
    exact Nat.mod_eq_of_lt (by omega)

end Wrapping

end FabAccess.Infra
