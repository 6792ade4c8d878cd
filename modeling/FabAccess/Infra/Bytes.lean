import Mathlib.Data.Nat.Digits.Defs
import Mathlib.Data.Nat.Digits.Lemmas

/-!
# byte の並びと、二つの半分

固定長の整数を byte の列にする二つの順と、一つの word に二つの数を詰めること。

* `toNeBytes` / `fromNeBytes` — どちらの順でも、byte の列は元の整数を決める
* `Endian.ofBytes_append` — つないだ列の値は、二つの値を詰めたものである
* `pack_or`、`pack_and`、`pack_add`、`pack_sub` — 詰めた数の演算は、半分ごとの演算である
-/

namespace FabAccess.Infra

/-- 下の桁から並べた `n` byte。 -/
def bytesLE : Nat → Nat → List (BitVec 8)
  | 0, _ => []
  | n + 1, x => BitVec.ofNat 8 x :: bytesLE n (x / 256)

def ofBytesLE (bytes : List (BitVec 8)) : Nat := Nat.ofDigits 256 (bytes.map BitVec.toNat)

section LittleEndian

variable {bytes : List (BitVec 8)}

/-- 幅は値によらない。 -/
@[simp] theorem length_bytesLE (n x : Nat) : (bytesLE n x).length = n := by
  induction n generalizing x with
  | zero => rfl
  | succ n ih => rw [bytesLE, List.length_cons, ih]

/-- 先頭の byte がいちばん下の桁である。 -/
theorem ofBytesLE_cons (b : BitVec 8) (bytes : List (BitVec 8)) :
    ofBytesLE (b :: bytes) = b.toNat + 256 * ofBytesLE bytes := by
  rw [ofBytesLE, List.map_cons, Nat.ofDigits_cons, ofBytesLE]

/-- 後に続く byte 列は、前の長さだけ上の桁に来る。 -/
theorem ofBytesLE_append (bytes bytes' : List (BitVec 8)) :
    ofBytesLE (bytes ++ bytes') = ofBytesLE bytes + 256 ^ bytes.length * ofBytesLE bytes' := by
  rw [ofBytesLE, List.map_append, Nat.ofDigits_append, List.length_map, ofBytesLE, ofBytesLE]

/-- `n` byte で表せるのは `256 ^ n` より小さい数である。 -/
theorem ofBytesLE_lt (bytes : List (BitVec 8)) : ofBytesLE bytes < 256 ^ bytes.length := by
  have hlt := Nat.ofDigits_lt_base_pow_length (b := 256) (l := bytes.map BitVec.toNat)
    (by decide) (by simp only [List.mem_map]; rintro d ⟨b, -, rfl⟩; exact b.isLt)
  rwa [List.length_map] at hlt

/-- 書いて読むと、幅からはみ出した上の桁だけが失われる。 -/
theorem ofBytesLE_bytesLE (n x : Nat) : ofBytesLE (bytesLE n x) = x % 256 ^ n := by
  induction n generalizing x with
  | zero => rw [Nat.pow_zero, Nat.mod_one]; rfl
  | succ n ih =>
    have hmod : x % 256 ^ (n + 1) = x % 256 + 256 * (x / 256 % 256 ^ n) := by
      rw [Nat.pow_succ', Nat.mod_mul]
    rw [bytesLE, ofBytesLE_cons, ih, BitVec.toNat_ofNat, hmod]

/-- 読んで同じ幅に書くと、元の byte 列に戻る。 -/
theorem bytesLE_ofBytesLE (bytes : List (BitVec 8)) :
    bytesLE bytes.length (ofBytesLE bytes) = bytes := by
  induction bytes with
  | nil => rfl
  | cons b bytes ih =>
    have hlt := b.isLt
    have hhead : BitVec.ofNat 8 (b.toNat + 256 * ofBytesLE bytes) = b := by
      apply BitVec.eq_of_toNat_eq
      rw [BitVec.toNat_ofNat]
      omega
    have htail : (b.toNat + 256 * ofBytesLE bytes) / 256 = ofBytesLE bytes := by omega
    rw [List.length_cons, bytesLE, ofBytesLE_cons, hhead, htail, ih]

end LittleEndian

/-- byte の順。 -/
inductive Endian where
  | little
  | big
  deriving DecidableEq, Repr

namespace Endian

def toBytes (e : Endian) (n x : Nat) : List (BitVec 8) :=
  match e with
  | little => bytesLE n x
  | big => (bytesLE n x).reverse

def ofBytes (e : Endian) (bytes : List (BitVec 8)) : Nat :=
  match e with
  | little => ofBytesLE bytes
  | big => ofBytesLE bytes.reverse

variable (e : Endian)

/-- どちらの並びでも、幅は値によらない。 -/
@[simp] theorem length_toBytes (n x : Nat) : (e.toBytes n x).length = n := by
  cases e <;> simp [toBytes]

/-- どちらの並びでも、書いて読むと、幅に収まる部分が残る。 -/
theorem ofBytes_toBytes (n x : Nat) : e.ofBytes (e.toBytes n x) = x % 256 ^ n := by
  cases e with
  | little => exact ofBytesLE_bytesLE n x
  | big => rw [ofBytes, toBytes, List.reverse_reverse, ofBytesLE_bytesLE]

/-- どちらの並びでも、読んで同じ幅に書くと元に戻る。 -/
theorem toBytes_ofBytes (bytes : List (BitVec 8)) :
    e.toBytes bytes.length (e.ofBytes bytes) = bytes := by
  cases e with
  | little => exact bytesLE_ofBytesLE bytes
  | big =>
    have hlen : bytes.length = bytes.reverse.length := by rw [List.length_reverse]
    rw [toBytes, ofBytes, hlen, bytesLE_ofBytesLE, List.reverse_reverse]

/-- どちらの並びでも、読んだ数は幅に収まる。 -/
theorem ofBytes_lt (bytes : List (BitVec 8)) : e.ofBytes bytes < 256 ^ bytes.length := by
  cases e with
  | little => exact ofBytesLE_lt bytes
  | big =>
    have hlt := ofBytesLE_lt bytes.reverse
    rwa [List.length_reverse] at hlt

end Endian

/-- `to_ne_bytes`。 -/
def toNeBytes (e : Endian) {w : Nat} (x : BitVec w) : List (BitVec 8) := e.toBytes (w / 8) x.toNat

/-- `from_ne_bytes`。 -/
def fromNeBytes (e : Endian) (w : Nat) (bytes : List (BitVec 8)) : BitVec w :=
  .ofNat w (e.ofBytes bytes)

section Fixed

variable {e : Endian} {w : Nat}

/-- byte の数で数えた幅と bit の数で数えた幅は合う。 -/
theorem pow_eq {n : Nat} (h : w = 8 * n) : 256 ^ n = 2 ^ w := by
  rw [h, Nat.pow_mul]

/-- 幅が byte の倍数なら、word は byte 列を経ても変わらない。 -/
theorem fromNeBytes_toNeBytes (h : 8 ∣ w) (x : BitVec w) :
    fromNeBytes e w (toNeBytes e x) = x := by
  apply BitVec.eq_of_toNat_eq
  rw [fromNeBytes, toNeBytes, BitVec.toNat_ofNat, Endian.ofBytes_toBytes,
    pow_eq (Nat.mul_div_cancel' h).symm, Nat.mod_mod, Nat.mod_eq_of_lt x.isLt]

/-- word と同じ長さの byte 列は、word を経ても変わらない。 -/
theorem toNeBytes_fromNeBytes {bytes : List (BitVec 8)} (h : w = 8 * bytes.length) :
    toNeBytes e (fromNeBytes e w bytes) = bytes := by
  have hlt : e.ofBytes bytes < 2 ^ w := pow_eq h ▸ e.ofBytes_lt bytes
  have hdiv : w / 8 = bytes.length := by omega
  rw [toNeBytes, fromNeBytes, BitVec.toNat_ofNat, Nat.mod_eq_of_lt hlt, hdiv, e.toBytes_ofBytes]

end Fixed

/-! ## 二つの半分 -/

/-- 下の `w` bit に `lo`、その上に `hi`。 -/
def pack (w lo hi : Nat) : Nat := lo + 2 ^ w * hi

section Pack

variable {w lo hi lo' hi' : Nat}

/-- 半分ずつの byte 列を並べて読むと、little-endian では後の半分が、big-endian では前の半分が上の桁になる。 -/
theorem Endian.ofBytes_append (e : Endian) {bytes bytes' : List (BitVec 8)}
    (h : w = 8 * bytes.length) (h' : w = 8 * bytes'.length) :
    e.ofBytes (bytes ++ bytes') =
      match e with
      | .little => pack w (e.ofBytes bytes) (e.ofBytes bytes')
      | .big => pack w (e.ofBytes bytes') (e.ofBytes bytes) := by
  cases e with
  | little =>
    dsimp only [Endian.ofBytes]
    rw [ofBytesLE_append, pow_eq h, pack]
  | big =>
    dsimp only [Endian.ofBytes]
    rw [List.reverse_append, ofBytesLE_append, List.length_reverse, pow_eq h', pack]

/-- 下の半分の bit は `lo` の、上の半分の bit は `hi` のものである。 -/
theorem testBit_pack (h : lo < 2 ^ w) (i : Nat) :
    (pack w lo hi).testBit i = if i < w then lo.testBit i else hi.testBit (i - w) := by
  rw [pack, Nat.add_comm, Nat.testBit_two_pow_mul_add hi h]

/-- `|||` は半分ごとに働く。 -/
theorem pack_or (h : lo < 2 ^ w) (h' : lo' < 2 ^ w) :
    pack w lo hi ||| pack w lo' hi' = pack w (lo ||| lo') (hi ||| hi') := by
  apply Nat.eq_of_testBit_eq
  intro i
  rw [Nat.testBit_or, testBit_pack h, testBit_pack h', testBit_pack (Nat.or_lt_two_pow h h')]
  split <;> rw [Nat.testBit_or]

/-- `&&&` は半分ごとに働く。 -/
theorem pack_and (h : lo < 2 ^ w) (h' : lo' < 2 ^ w) :
    pack w lo hi &&& pack w lo' hi' = pack w (lo &&& lo') (hi &&& hi') := by
  apply Nat.eq_of_testBit_eq
  intro i
  rw [Nat.testBit_and, testBit_pack h, testBit_pack h', testBit_pack (Nat.and_lt_two_pow _ h')]
  split <;> rw [Nat.testBit_and]

/-- 半分ごとに足して並べたものが、和である。 -/
theorem pack_add : pack w lo hi + pack w lo' hi' = pack w (lo + lo') (hi + hi') := by
  rw [pack, pack, pack, Nat.mul_add]
  omega

/-- 引き算は、どちらの半分も借りないなら半分ごとに働く。 -/
theorem pack_sub (h : lo' ≤ lo) (h' : hi' ≤ hi) :
    pack w lo hi - pack w lo' hi' = pack w (lo - lo') (hi - hi') := by
  have hmul := Nat.mul_le_mul_left (2 ^ w) h'
  rw [pack, pack, pack, Nat.mul_sub]
  omega

/-- 半分ずつが収まれば、全体も収まる。 -/
theorem pack_lt (h : lo < 2 ^ w) (h' : hi < 2 ^ w) : pack w lo hi < 2 ^ (w + w) := by
  have hmul := Nat.mul_le_mul_left (2 ^ w) (Nat.succ_le_of_lt h')
  rw [Nat.mul_succ] at hmul
  rw [Nat.pow_add, pack]
  omega

end Pack

end FabAccess.Infra
