import Mathlib.Data.List.Basic
import FabAccess.Utils.Oid

/-!
# Object identifier の数を読む loop

`convert_to_string` と `from_box` は同じ loop で数を読む。桁の加え方と、読んだ数の渡し先だけが違う。
終わっていない最後の数と、二つ以上の byte の 0 は、どこにも渡されない。

* `foldlM_small` — どの数も `2 ^ 128 - 128` より小さければ、loop は最後まで読む
* `foldlM_over` — 一つでも大き過ぎれば、誤りになる
* `printed_septets` — encoder の作る byte 列からは、元の数がすべて読まれる
-/

namespace FabAccess

open Infra

variable {rest : List UInt8}

/-! ## 数の並び -/

/-- 続きの無い byte。 -/
def ends (b : UInt8) : Bool := b < 0x80

/-- 並んでいる数の byte 列。 -/
def numbers (rest : List UInt8) : List (List UInt8) := splitAfter ends rest

/-- `convert_to_string` の書き出す数。終わっていない数と、二つ以上の byte の 0 は書き出されない。 -/
def writtenNumber (number : List UInt8) : Option Node :=
  if number.getLast?.any ends ∧ (number.length = 1 ∨ 0 < septetValue number) then
    some (BitVec.ofNat 128 (septetValue number))
  else none

/-- 書き出される数の列。 -/
def printed (rest : List UInt8) : List Node := (numbers rest).filterMap writtenNumber

/-- どの数も、読む loop の限りより小さい。 -/
def Small (rest : List UInt8) : Prop := ∀ number ∈ numbers rest, septetValue number < 2 ^ 128 - 128

/-- 続きがあるのは、最上位 bit の立った byte である。 -/
theorem ends_false {a : UInt8} : ends a = false ↔ 128 ≤ a.toNat := by
  rw [ends, decide_eq_false_iff_not, UInt8.lt_iff_toNat_lt, Nat.not_lt]
  exact Iff.rfl

/-- 続きが無いのは、128 より小さい byte である。 -/
theorem ends_true {a : UInt8} : ends a = true ↔ a.toNat < 128 := by
  rw [ends, decide_eq_true_eq, UInt8.lt_iff_toNat_lt]
  exact Iff.rfl

/-- 続きの無い byte までが、一つの番号である。 -/
theorem numbers_piece {init : List UInt8} {b : UInt8} (hinit : ∀ a ∈ init, ends a = false)
    (hb : ends b = true) : numbers (init ++ b :: rest) = (init ++ [b]) :: numbers rest :=
  splitAfter_piece hinit hb rest

/-- 番号が一つずつ、読める大きさでなければならない。 -/
theorem small_piece {init : List UInt8} {b : UInt8} (hinit : ∀ a ∈ init, ends a = false)
    (hb : ends b = true) :
    Small (init ++ b :: rest) ↔ septetValue (init ++ [b]) < 2 ^ 128 - 128 ∧ Small rest := by
  rw [Small, numbers_piece hinit hb, List.forall_mem_cons]
  exact Iff.rfl

/-- 終わらない番号も、読める大きさでなければならない。 -/
theorem small_tail {init : List UInt8} (hinit : ∀ a ∈ init, ends a = false) :
    Small init ↔ septetValue init < 2 ^ 128 - 128 := by
  rw [Small, numbers, splitAfter_tail hinit]
  split
  · next hnil => simp [hnil]
  · simp

/-- 続きの無い byte で終わる番号は、0 を余分な桁で書いたのでなければ、その値に読まれる。 -/
theorem written_number {init : List UInt8} {b : UInt8} (hb : ends b = true) :
    writtenNumber (init ++ [b]) =
      if init = [] ∨ 0 < septetValue (init ++ [b]) then
        some (BitVec.ofNat 128 (septetValue (init ++ [b]))) else none := by
  have hlen : (init ++ [b]).length = 1 ↔ init = [] := by simp
  rw [writtenNumber, List.getLast?_concat, Option.any_some, hb]
  simp only [hlen, true_and]

/-- 終わっていない数は書き出されない。 -/
theorem written_tail {init : List UInt8} (hinit : ∀ a ∈ init, ends a = false) :
    writtenNumber init = none := by
  refine if_neg ?_
  rintro ⟨hlast, _⟩
  obtain ⟨a, ha, hends⟩ := (Option.any_eq_true _ _).mp hlast
  rw [hinit a (List.mem_of_getLast? ha)] at hends
  cases hends

/-- 書かれた番号の列は、番号ごとに切り分けられる。 -/
theorem numbers_septets (children : List Node) :
    numbers (children.flatMap fun c => septets c.toNat 0) =
      children.map fun c => septets c.toNat 0 :=
  splitAfter_flatMap children fun c _ => (septets_minimal c.toNat).1.pieces

/-- 余分な byte の無い数は、どれも書き出される。 -/
theorem written_minimal {number : List UInt8} (h : Minimal number) :
    writtenNumber number = some (BitVec.ofNat 128 (septetValue number)) := by
  obtain ⟨init, b, rfl, hinit, hb⟩ := h.last
  rw [written_number (ends_true.mpr hb), if_pos]
  cases init with
  | nil => exact Or.inl rfl
  | cons a init =>
    have hne : a ≠ 0x80 := fun ha => h.head (by simp [ha])
    exact Or.inr (septetValue_pos (hinit a (by simp)) hne)

/-- encoder の作る byte 列では、数ごとに確かめればよい。 -/
theorem small_septets (children : List Node) :
    Small (children.flatMap fun c => septets c.toNat 0) ↔
      ∀ c ∈ children, c.toNat < 2 ^ 128 - 128 := by
  rw [Small, numbers_septets, List.forall_mem_map]
  exact forall₂_congr fun c _ => by rw [(septets_minimal c.toNat).2]

/-- 書かれた番号の列は、元の番号の列に読まれる。 -/
theorem printed_septets (children : List Node) :
    printed (children.flatMap fun c => septets c.toNat 0) = children := by
  have hwritten : ∀ c ∈ children,
      (writtenNumber ∘ fun c : Node => septets c.toNat 0) c = some c := by
    intro c _
    obtain ⟨hminimal, hvalue⟩ := septets_minimal c.toNat
    rw [Function.comp_apply, written_minimal hminimal, hvalue, BitVec.ofNat_toNat,
      BitVec.setWidth_eq]
  rw [printed, numbers_septets, List.filterMap_map, List.filterMap_congr hwritten,
    List.filterMap_some]

/-! ## 数を読む loop -/

/-- 桁の加え方。`+` でも `|` でも同じである。 -/
structure Joins (join : Node → Node → Node) : Prop where
  zero : ∀ y, join 0 y = y
  shift : ∀ x y : Node, x.toNat < 2 ^ 121 → y.toNat < 128 →
    (join (x <<< 7) y).toNat = x.toNat * 128 + y.toNat

/-- あふれない限り、七 bit ずらすと 128 倍になる。 -/
theorem toNat_shift {x : Node} (h : x.toNat < 2 ^ 121) : (x <<< 7).toNat = x.toNat * 128 := by
  rw [BitVec.toNat_shiftLeft, Nat.shiftLeft_eq]
  omega

/-- 足し算は、桁を継ぎ足せる。 -/
theorem joins_add : Joins (· + ·) where
  zero y := BitVec.zero_add y
  shift x y hx hy := by
    rw [BitVec.toNat_add, toNat_shift hx]
    omega

/-- `|||` は、桁を継ぎ足せる。 -/
theorem joins_or : Joins (· ||| ·) where
  zero y := BitVec.zero_or
  shift x y hx hy := by
    rw [BitVec.toNat_or, toNat_shift hx, Nat.mul_comm]
    exact (Nat.two_pow_add_eq_or_of_lt (i := 7) hy x.toNat).symm

/-- 続きのある byte から、桁と続きの印とが取り出せる。 -/
theorem flagged_byte {d : Nat} (h : d < 128) :
    ¬ UInt8.ofNat d ||| 0x80 < 128 ∧ ((UInt8.ofNat d ||| 0x80) &&& ~~~0x80).toNat = d ∧
      ((UInt8.ofNat d ||| 0x80) &&& 0x80 != 0) = true := by
  have hall : ∀ e ∈ List.range 128, ¬ UInt8.ofNat e ||| 0x80 < 128 ∧
      ((UInt8.ofNat e ||| 0x80) &&& ~~~0x80).toNat = e ∧
      ((UInt8.ofNat e ||| 0x80) &&& 0x80 != 0) = true := by decide +kernel
  exact hall d (List.mem_range.mpr h)

/-- 続きの無い byte から、桁が取り出せる。 -/
theorem last_byte {d : Nat} (h : d < 128) :
    UInt8.ofNat d ||| 0 < 128 ∧ ((UInt8.ofNat d ||| 0) &&& ~~~0x80).toNat = d ∧
      ((UInt8.ofNat d ||| 0) &&& 0x80 != 0) = false := by
  have hall : ∀ e ∈ List.range 128, UInt8.ofNat e ||| 0 < 128 ∧
      ((UInt8.ofNat e ||| 0) &&& ~~~0x80).toNat = e ∧
      ((UInt8.ofNat e ||| 0) &&& 0x80 != 0) = false := by decide +kernel
  exact hall d (List.mem_range.mpr h)

section Reader

variable {β : Type} {join : Node → Node → Node} {emit : β → Nat → β} {s : NodeReader β} {out : β}

theorem toNat_limit : (BitVec.allOnes 128 >>> 7).toNat = 2 ^ 121 - 1 := by decide

/-- 大き過ぎない数に、桁を一つ加える。 -/
theorem absorb_digit (hj : Joins join) {node : UInt8} {d : Nat} (hd : d < 128)
    (hnode : (node &&& ~~~0x80).toNat = d) (hpath : ¬ (s.parsingBigInt = false ∧ node < 128))
    (hs : s.bigInt.toNat < 2 ^ 121 - 1) :
    s.absorb join emit node =
      .ok ⟨node &&& 0x80 != 0, BitVec.ofNat 128 (s.bigInt.toNat * 128 + d), s.out⟩ := by
  have hlimit : ¬ s.bigInt ≥ BitVec.allOnes 128 >>> 7 := by
    rw [ge_iff_le, BitVec.le_def, toNat_limit]
    omega
  have hfirst : (!s.parsingBigInt && decide (node < 128)) = false := by
    simpa using hpath
  have hguard : (decide (s.bigInt > 0) &&
      decide (s.bigInt ≥ BitVec.allOnes 128 >>> 7)) = false := by
    rw [decide_eq_false hlimit, Bool.and_false]
  have hbig : join (if s.bigInt > 0 then s.bigInt <<< 7 else s.bigInt) (BitVec.ofNat 128 d) =
      BitVec.ofNat 128 (s.bigInt.toNat * 128 + d) := by
    by_cases hpos : s.bigInt > 0
    · have hd' : (BitVec.ofNat 128 d).toNat = d := by
        rw [BitVec.toNat_ofNat]
        omega
      rw [if_pos hpos]
      apply BitVec.eq_of_toNat_eq
      rw [hj.shift _ _ (by omega) (by omega), hd', BitVec.toNat_ofNat]
      omega
    · have hzero : s.bigInt = 0 := by
        rw [gt_iff_lt, BitVec.lt_def] at hpos
        apply BitVec.eq_of_toNat_eq
        simpa using hpos
      rw [if_neg hpos, hzero, hj.zero]
      simp
  unfold NodeReader.absorb
  rw [if_neg (by rw [hfirst]; decide), if_neg (by rw [hguard]; decide), hnode]
  dsimp only
  rw [hbig]

/-- 続きのある桁。 -/
theorem read_flagged (hj : Joins join) {d : Nat} (hd : d < 128)
    (hs : s.bigInt.toNat < 2 ^ 121 - 1) :
    s.read join emit (UInt8.ofNat d ||| 0x80) =
      .ok ⟨true, BitVec.ofNat 128 (s.bigInt.toNat * 128 + d), s.out⟩ := by
  obtain ⟨hle, hmask, hmore⟩ := flagged_byte hd
  rw [NodeReader.read, absorb_digit hj hd hmask (fun h => hle h.2) hs, hmore]
  simp [Except.map, NodeReader.settle]

/-- 一桁だけの数。 -/
theorem read_single {d : Nat} (hd : d < 128) :
    (⟨false, 0, out⟩ : NodeReader β).read join emit (UInt8.ofNat d ||| 0) =
      .ok ⟨false, 0, emit out d⟩ := by
  obtain ⟨hlt, _, _⟩ := last_byte hd
  have hval : (UInt8.ofNat d ||| 0).toNat = d := toNat_last hd
  rw [NodeReader.read, NodeReader.absorb, if_pos (by simpa using hlt), hval]
  rfl

/-- 最後の桁で数が終わる。0 は書き出されない。 -/
theorem read_last (hj : Joins join) {n d : Nat} (hd : d < 128) (hlt : n < 2 ^ 121 - 1) :
    (⟨true, BitVec.ofNat 128 n, out⟩ : NodeReader β).read join emit (UInt8.ofNat d ||| 0) =
      .ok ⟨false, 0, if 0 < n * 128 + d then emit out (n * 128 + d) else out⟩ := by
  obtain ⟨_, hmask, hmore⟩ := last_byte hd
  have hn' : (BitVec.ofNat 128 n).toNat = n := by
    rw [BitVec.toNat_ofNat]
    omega
  have hsum : (BitVec.ofNat 128 (n * 128 + d)).toNat = n * 128 + d := by
    rw [BitVec.toNat_ofNat]
    omega
  rw [NodeReader.read, absorb_digit hj hd hmask (by simp) (by rw [hn']; exact hlt), hmore, hn',
    Except.map, NodeReader.settle]
  by_cases hpos : 0 < n * 128 + d
  · have hbig : BitVec.ofNat 128 (n * 128 + d) > 0 := by
      rw [gt_iff_lt, BitVec.lt_def, hsum]
      exact hpos
    rw [if_pos (by rw [decide_eq_true hbig]; rfl), hsum, if_pos hpos]
  · have hzero : n * 128 + d = 0 := Nat.eq_zero_of_not_pos hpos
    rw [hzero, if_neg (by simp), if_neg (Nat.lt_irrefl 0)]
    rfl

/-- 数が大き過ぎれば、次の桁を加える前に誤りになる。 -/
theorem read_error {a : UInt8} (hpath : ¬ (s.parsingBigInt = false ∧ a < 128))
    (hs : 2 ^ 121 - 1 ≤ s.bigInt.toNat) :
    s.read join emit a = .error .illegalChildNodeValue := by
  have hlimit : s.bigInt ≥ BitVec.allOnes 128 >>> 7 := by
    rw [ge_iff_le, BitVec.le_def, toNat_limit]
    exact hs
  have hpos : s.bigInt > 0 := by
    rw [gt_iff_lt, BitVec.lt_def]
    show 0 < s.bigInt.toNat
    omega
  rw [NodeReader.read, NodeReader.absorb, if_neg (by simpa using hpath),
    if_pos (by rw [decide_eq_true hlimit, decide_eq_true hpos]; rfl)]
  rfl

/-- 続きのある byte の列を読む。 -/
theorem foldlM_init (hj : Joins join) {init : List UInt8} (hinit : ∀ a ∈ init, ends a = false) :
    init.foldlM (NodeReader.read join emit) ⟨false, 0, out⟩ =
      if septetValue init < 2 ^ 128 - 128 then
        .ok ⟨!init.isEmpty, BitVec.ofNat 128 (septetValue init), out⟩
      else .error .illegalChildNodeValue := by
  induction init using List.reverseRecOn with
  | nil => rfl
  | append_singleton init a ih =>
    have ha := ends_false.mp (hinit a (by simp))
    have hd : a.toNat % 128 < 128 := Nat.mod_lt _ (by decide)
    rw [List.foldlM_append, ih fun x hx => hinit x (List.mem_append_left _ hx), septetValue_concat]
    by_cases hsmall : septetValue init < 2 ^ 128 - 128
    · have hval : (BitVec.ofNat 128 (septetValue init)).toNat = septetValue init := by
        rw [BitVec.toNat_ofNat]
        omega
      rw [if_pos hsmall]
      show ([a].foldlM _ _ : Except _ _) = _
      rw [List.foldlM_cons]
      by_cases hlimit : septetValue init < 2 ^ 121 - 1
      · rw [← ofNat_flagged ha, read_flagged hj hd (by rw [hval]; exact hlimit), hval,
          ofNat_flagged ha, if_pos (by omega)]
        simp
      · rw [read_error (fun h => ?_) (by rw [hval]; omega), if_neg (by omega)]
        · rfl
        · exact absurd (UInt8.lt_iff_toNat_lt.mp h.2) (Nat.not_lt.mpr ha)
    · rw [if_neg hsmall, if_neg (by omega)]
      rfl

/-- 一つの数を、終わりまで読む。 -/
theorem foldlM_number (hj : Joins join) {init : List UInt8} {b : UInt8}
    (hinit : ∀ a ∈ init, ends a = false) (hb : ends b = true) :
    (init ++ [b]).foldlM (NodeReader.read join emit) ⟨false, 0, out⟩ =
      if septetValue (init ++ [b]) < 2 ^ 128 - 128 then
        .ok ⟨false, 0, if init = [] ∨ 0 < septetValue (init ++ [b]) then
          emit out (septetValue (init ++ [b])) else out⟩
      else .error .illegalChildNodeValue := by
  have hlt := ends_true.mp hb
  have hbyte : UInt8.ofNat b.toNat ||| 0 = b := UInt8.toNat_inj.mp (toNat_last hlt)
  rw [List.foldlM_append, foldlM_init hj hinit, septetValue_concat, Nat.mod_eq_of_lt hlt]
  cases init with
  | nil =>
    rw [septetValue_nil, if_pos (by decide), if_pos (by omega), if_pos (Or.inl rfl)]
    show ([b].foldlM _ _ : Except _ _) = _
    rw [List.foldlM_cons, ← hbyte]
    show (NodeReader.read join emit ⟨false, 0, out⟩ _).bind _ = _
    rw [read_single hlt, hbyte, Nat.zero_mul, Nat.zero_add]
    rfl
  | cons a init =>
    by_cases hsmall : septetValue (a :: init) < 2 ^ 128 - 128
    · have hval : (BitVec.ofNat 128 (septetValue (a :: init))).toNat = septetValue (a :: init) := by
        rw [BitVec.toNat_ofNat]
        omega
      rw [if_pos hsmall]
      show ([b].foldlM _ _ : Except _ _) = _
      rw [List.foldlM_cons]
      by_cases hlimit : septetValue (a :: init) < 2 ^ 121 - 1
      · have hfit : septetValue (a :: init) * 128 + b.toNat < 2 ^ 128 - 128 := by omega
        rw [← hbyte, List.isEmpty_cons, Bool.not_false, read_last hj hlt hlimit, hbyte, if_pos hfit]
        simp only [reduceCtorEq, false_or]
        rfl
      · rw [read_error (fun h => Bool.noConfusion h.1) (by rw [hval]; omega), if_neg (by omega)]
        rfl
    · rw [if_neg hsmall, if_neg (by omega)]
      rfl

/-- **どの数も小さければ、loop は最後まで読み、書き出す数を順に渡す。** -/
theorem foldlM_small (emit : β → Nat → β) (hj : Joins join) (h : Small rest) : ∀ out : β,
    ∃ s, rest.foldlM (NodeReader.read join emit) ⟨false, 0, out⟩ = .ok s ∧
      s.out = (printed rest).foldl (fun out c => emit out c.toNat) out := by
  induction rest using splitAfter_induction (p := ends) with
  | tail init hinit =>
    intro out
    have hprinted : printed init = [] := by
      rw [printed, numbers, splitAfter_tail hinit]
      split
      · rfl
      · rw [List.filterMap_cons_none (written_tail hinit), List.filterMap_nil]
    rw [foldlM_init hj hinit, if_pos ((small_tail hinit).mp h), hprinted]
    exact ⟨_, rfl, rfl⟩
  | piece init b rest hinit hb ih =>
    intro out
    obtain ⟨hvalue, hrest⟩ := (small_piece hinit hb).mp h
    rw [List.append_cons, List.foldlM_append, foldlM_number hj hinit hb, if_pos hvalue]
    obtain ⟨s, hs, hout⟩ := ih hrest (if init = [] ∨ 0 < septetValue (init ++ [b]) then
      emit out (septetValue (init ++ [b])) else out)
    refine ⟨s, hs, ?_⟩
    have hval : (BitVec.ofNat 128 (septetValue (init ++ [b]))).toNat =
        septetValue (init ++ [b]) := by
      rw [BitVec.toNat_ofNat]
      omega
    rw [hout, printed, printed, ← List.append_cons, numbers_piece hinit hb, List.filterMap_cons,
      written_number hb]
    split
    · simp only [List.foldl_cons, hval]
    · rfl

/-- 一つでも大き過ぎれば、誤りである。 -/
theorem foldlM_over (hj : Joins join) (h : ¬ Small rest) : ∀ out : β,
    rest.foldlM (NodeReader.read join emit) ⟨false, 0, out⟩ = .error .illegalChildNodeValue := by
  induction rest using splitAfter_induction (p := ends) with
  | tail init hinit =>
    intro out
    rw [foldlM_init hj hinit, if_neg fun hs => h ((small_tail hinit).mpr hs)]
  | piece init b rest hinit hb ih =>
    intro out
    rw [small_piece hinit hb, not_and] at h
    rw [List.append_cons, List.foldlM_append, foldlM_number hj hinit hb]
    by_cases hvalue : septetValue (init ++ [b]) < 2 ^ 128 - 128
    · rw [if_pos hvalue]
      exact ih (h hvalue) _
    · rw [if_neg hvalue]
      rfl

end Reader

end FabAccess
