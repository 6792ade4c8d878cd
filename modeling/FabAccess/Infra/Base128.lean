import Mathlib.Algebra.Order.Ring.Nat
import Mathlib.Data.List.Basic
import Mathlib.Data.List.Induction

/-!
# 128 進の可変長整数

上の桁から並べ、最後の桁の他は最上位 bit を立てた byte 列。

* `septets` — 一つの数の byte 列
* `septetValues` — byte 列に並んだ数を読む
* `septetValues_flatMap` — 並べた数は、そのまま読める
* `septetValue` / `Minimal` / `minimal_iff` — 一つの数の値と、余分な桁の無い byte 列
* `splitAfter` — 終わりの byte ごとに切る
-/

namespace FabAccess.Infra

/-- `n` の桁。最後の桁には `more` を加え、その前の桁には最上位 bit を立てる。 -/
def septets (n : Nat) (more : UInt8) : List UInt8 :=
  if n < 128 then [UInt8.ofNat n ||| more]
  else septets (n / 128) 0x80 ++ [UInt8.ofNat (n % 128) ||| more]
termination_by n

/-- `value` に続けて読み、最上位 bit の立っていない byte ごとに一つの数を終える。 -/
def septetValues (value : Nat) : List UInt8 → List Nat
  | [] => []
  | b :: bs =>
    if b.toNat < 128 then (value * 128 + b.toNat) :: septetValues 0 bs
    else septetValues (value * 128 + (b.toNat - 128)) bs

variable {n : Nat} {more : UInt8}

/-- 七 bit に収まる数は一 byte で書かれる。 -/
theorem septets_of_lt (h : n < 128) : septets n more = [UInt8.ofNat n ||| more] := by
  rw [septets, if_pos h]

/-- 収まらない数は、上の桁を続きのある byte で書いてから、下の七 bit を書く。 -/
theorem septets_of_le (h : 128 ≤ n) :
    septets n more = septets (n / 128) 0x80 ++ [UInt8.ofNat (n % 128) ||| more] := by
  rw [septets, if_neg (by omega)]

/-- 続きの無い byte は、その値そのものである。 -/
theorem toNat_last (h : n < 128) : (UInt8.ofNat n ||| 0).toNat = n := by
  rw [UInt8.toNat_or, UInt8.toNat_ofNat']
  simp only [UInt8.toNat_zero, Nat.or_zero]
  omega

/-- 続きのある byte は、値に 128 を足したものである。 -/
theorem toNat_flagged (h : n < 128) : (UInt8.ofNat n ||| 0x80).toNat = 128 + n := by
  rw [UInt8.toNat_or, UInt8.toNat_ofNat', Nat.mod_eq_of_lt (by omega), Nat.or_comm]
  exact (Nat.two_pow_add_eq_or_of_lt (i := 7) h 1).symm

/-- 続きのある byte は、書きかけの数に桁を足す。 -/
theorem septetValues_flagged (h : n < 128) (value : Nat) (rest : List UInt8) :
    septetValues value ((UInt8.ofNat n ||| 0x80) :: rest) =
      septetValues (value * 128 + n) rest := by
  rw [septetValues, toNat_flagged h, if_neg (by omega), Nat.add_sub_cancel_left]

/-- 続きの無い byte で、一つの数が終わる。 -/
theorem septetValues_last (h : n < 128) (value : Nat) (rest : List UInt8) :
    septetValues value ((UInt8.ofNat n ||| 0) :: rest) =
      (value * 128 + n) :: septetValues 0 rest := by
  rw [septetValues, toNat_last h, if_pos h]

/-- 最後の桁にも最上位 bit が立っていれば、数はまだ終わらない。 -/
theorem septetValues_septets_flagged (n : Nat) (rest : List UInt8) :
    septetValues 0 (septets n 0x80 ++ rest) = septetValues n rest := by
  induction n using Nat.strongRecOn generalizing rest with
  | ind n ih =>
    by_cases h : n < 128
    · rw [septets_of_lt h, List.singleton_append, septetValues_flagged h, Nat.zero_mul,
        Nat.zero_add]
    · rw [septets_of_le (by omega), List.append_assoc, ih (n / 128) (by omega),
        List.singleton_append, septetValues_flagged (Nat.mod_lt n (by decide)), Nat.div_add_mod']

/-- 書いた数は、後に何が続いていても読み戻される。 -/
theorem septetValues_septets (n : Nat) (rest : List UInt8) :
    septetValues 0 (septets n 0 ++ rest) = n :: septetValues 0 rest := by
  by_cases h : n < 128
  · rw [septets_of_lt h, List.singleton_append, septetValues_last h, Nat.zero_mul, Nat.zero_add]
  · rw [septets_of_le (by omega), List.append_assoc, septetValues_septets_flagged,
      List.singleton_append, septetValues_last (Nat.mod_lt n (by decide)), Nat.div_add_mod']

/-- **並べた数は、そのまま読める。** -/
theorem septetValues_flatMap (ns : List Nat) :
    septetValues 0 (ns.flatMap fun n => septets n 0) = ns := by
  induction ns with
  | nil => rfl
  | cons n ns ih => rw [List.flatMap_cons, septetValues_septets, ih]

/-! ## 一つの数の byte 列 -/

/-- 一つの数の byte 列の値。最上位 bit は見ない。 -/
def septetValue (bytes : List UInt8) : Nat := bytes.foldl (fun v b => v * 128 + b.toNat % 128) 0

/-- 最後の byte だけに最上位 bit が立たず、先頭に 0 の桁が無い。 -/
structure Minimal (bytes : List UInt8) : Prop where
  last : ∃ init b, bytes = init ++ [b] ∧ (∀ a ∈ init, 128 ≤ a.toNat) ∧ b.toNat < 128
  head : bytes.head? ≠ some 0x80

@[simp] theorem septetValue_nil : septetValue [] = 0 := rfl

/-- 最後の byte が、いちばん下の七 bit である。 -/
@[simp] theorem septetValue_concat (init : List UInt8) (b : UInt8) :
    septetValue (init ++ [b]) = septetValue init * 128 + b.toNat % 128 := by
  rw [septetValue, List.foldl_append]
  rfl

/-- byte を読み足しても、数は小さくならない。 -/
theorem septetValue_mono {v : Nat} (bytes : List UInt8) :
    v ≤ bytes.foldl (fun v b => v * 128 + b.toNat % 128) v := by
  induction bytes generalizing v with
  | nil => exact Nat.le_refl v
  | cons b bytes ih =>
    have hle : v ≤ v * 128 + b.toNat % 128 := by omega
    exact Nat.le_trans hle ih

/-- 先頭の桁が 0 でなければ、値も 0 でない。 -/
theorem septetValue_pos {b : UInt8} {bytes : List UInt8} (hb : 128 ≤ b.toNat) (hne : b ≠ 0x80) :
    0 < septetValue (b :: bytes) := by
  have hb' : b.toNat ≠ 128 := fun h => hne (UInt8.toNat_inj.mp h)
  have hlt := b.toNat_lt
  have hmono : 0 * 128 + b.toNat % 128 ≤ septetValue (b :: bytes) := septetValue_mono bytes
  omega

/-- 続きのある形は、最上位 bit の立った byte だけからなり、読むと元の数になる。 -/
theorem septets_flagged (n : Nat) :
    (∀ a ∈ septets n 0x80, 128 ≤ a.toNat) ∧ septetValue (septets n 0x80) = n ∧
      septets n 0x80 ≠ [] := by
  induction n using Nat.strongRecOn with
  | ind n ih =>
    by_cases h : n < 128
    · have hval := toNat_flagged h
      rw [septets_of_lt h]
      refine ⟨?_, ?_, by simp⟩
      · intro a ha
        rw [List.mem_singleton.mp ha]
        omega
      · rw [← List.nil_append [_], septetValue_concat, septetValue_nil]
        omega
    · obtain ⟨hall, hvalue, _⟩ := ih (n / 128) (by omega)
      have hval := toNat_flagged (Nat.mod_lt n (by decide) : n % 128 < 128)
      rw [septets_of_le (by omega)]
      refine ⟨?_, ?_, by simp⟩
      · intro a ha
        rcases List.mem_append.mp ha with ha | ha
        · exact hall a ha
        · rw [List.mem_singleton.mp ha]
          omega
      · rw [septetValue_concat, hvalue]
        omega

/-- 正の数は、余分な 0 の桁から始まらない。 -/
theorem head?_septets_flagged {n : Nat} (hn : 0 < n) : (septets n 0x80).head? ≠ some 0x80 := by
  induction n using Nat.strongRecOn with
  | ind n ih =>
    by_cases h : n < 128
    · rw [septets_of_lt h, List.head?_singleton]
      intro heq
      have hval := toNat_flagged h
      rw [Option.some.inj heq] at hval
      simp at hval
      omega
    · rw [septets_of_le (by omega), List.head?_append_of_ne_nil _ (septets_flagged (n / 128)).2.2]
      exact ih (n / 128) (by omega) (by omega)

/-- `septets` は余分な桁の無い、その数の byte 列である。 -/
theorem septets_minimal (n : Nat) : Minimal (septets n 0) ∧ septetValue (septets n 0) = n := by
  by_cases h : n < 128
  · have hval := toNat_last h
    rw [septets_of_lt h]
    refine ⟨⟨⟨[], _, rfl, by simp, by omega⟩, ?_⟩, ?_⟩
    · rw [List.head?_singleton]
      intro heq
      rw [Option.some.inj heq] at hval
      simp at hval
      omega
    · rw [← List.nil_append [_], septetValue_concat, septetValue_nil]
      omega
  · obtain ⟨hall, hvalue, hne⟩ := septets_flagged (n / 128)
    have hval := toNat_last (Nat.mod_lt n (by decide) : n % 128 < 128)
    rw [septets_of_le (by omega)]
    refine ⟨⟨⟨_, _, rfl, hall, by omega⟩, ?_⟩, ?_⟩
    · rw [List.head?_append_of_ne_nil _ hne]
      exact head?_septets_flagged (by omega)
    · rw [septetValue_concat, hvalue]
      omega

/-- 最上位 bit の立った byte は、下の七 bit から作り直せる。 -/
theorem ofNat_flagged {b : UInt8} (h : 128 ≤ b.toNat) :
    UInt8.ofNat (b.toNat % 128) ||| 0x80 = b := by
  apply UInt8.toNat_inj.mp
  rw [toNat_flagged (Nat.mod_lt _ (by decide))]
  have hlt := b.toNat_lt
  omega

/-- 余分な 0 の桁から始まらない byte 列は、その値を書いたものである。 -/
theorem eq_septets_flagged {bytes : List UInt8} (hne : bytes ≠ [])
    (hall : ∀ a ∈ bytes, 128 ≤ a.toNat) (hhead : bytes.head? ≠ some 0x80) :
    bytes = septets (septetValue bytes) 0x80 := by
  induction bytes using List.reverseRecOn with
  | nil => exact absurd rfl hne
  | append_singleton init b ih =>
    have hb := ofNat_flagged (hall b (by simp))
    cases init with
    | nil =>
      rw [List.nil_append, ← List.nil_append [b], septetValue_concat, septetValue_nil,
        septets_of_lt (by omega), Nat.zero_mul, Nat.zero_add, hb]
      rfl
    | cons a init =>
      have hpos : 0 < septetValue (a :: init) :=
        septetValue_pos (hall a (by simp)) fun h => hhead (by simp [h])
      have hinit := ih (by simp) (fun x hx => hall x (List.mem_append_left _ hx))
        (by simpa using hhead)
      rw [septetValue_concat, septets_of_le (by omega)]
      have hdiv : (septetValue (a :: init) * 128 + b.toNat % 128) / 128 =
          septetValue (a :: init) := by
        omega
      have hmod : (septetValue (a :: init) * 128 + b.toNat % 128) % 128 = b.toNat % 128 := by omega
      rw [hdiv, hmod, hb, ← hinit]

/-- **余分な桁の無い byte 列は、その値の `septets` である。** -/
theorem minimal_iff {bytes : List UInt8} :
    Minimal bytes ↔ bytes = septets (septetValue bytes) 0 := by
  constructor
  · rintro ⟨⟨init, b, rfl, hall, hb⟩, hhead⟩
    have hlast : UInt8.ofNat b.toNat ||| 0 = b := UInt8.toNat_inj.mp (toNat_last hb)
    cases init with
    | nil =>
      rw [List.nil_append, ← List.nil_append [b], septetValue_concat, septetValue_nil,
        septets_of_lt (by omega), Nat.zero_mul, Nat.zero_add, Nat.mod_eq_of_lt hb, hlast]
      rfl
    | cons a init =>
      have hne : a ≠ 0x80 := fun h => hhead (by simp [h])
      have hpos : 0 < septetValue (a :: init) := septetValue_pos (hall a (by simp)) hne
      have hinit := eq_septets_flagged (by simp) hall (by simpa using hne)
      rw [septetValue_concat, septets_of_le (by omega)]
      have hdiv : (septetValue (a :: init) * 128 + b.toNat % 128) / 128 =
          septetValue (a :: init) := by
        omega
      have hmod : (septetValue (a :: init) * 128 + b.toNat % 128) % 128 = b.toNat := by omega
      rw [hdiv, hmod, hlast, ← hinit]
  · intro h
    rw [h]
    exact (septets_minimal _).1

/-- `N` 桁に収まる数は、`N` byte 以内で書かれる。 -/
theorem length_septets_le {N : Nat} (hN : 0 < N) (h : n < 128 ^ N) :
    (septets n more).length ≤ N := by
  induction N generalizing n more with
  | zero => exact absurd hN (Nat.lt_irrefl 0)
  | succ N ih =>
    by_cases hlt : n < 128
    · rw [septets_of_lt hlt, List.length_singleton]
      omega
    · have hpos : 0 < N := by
        by_contra hzero
        rw [Nat.eq_zero_of_not_pos hzero] at h
        omega
      have hdiv : n / 128 < 128 ^ N := Nat.div_lt_of_lt_mul (by rwa [Nat.pow_succ'] at h)
      rw [septets_of_le (by omega), List.length_append, List.length_singleton]
      exact Nat.succ_le_succ (ih hpos hdiv)

/-! ## 切り分け -/

section SplitAfter

variable {α β : Type*} (p : α → Bool)

/-- `p` の成り立つ要素の後ごとに切る。最後に残ったものは、終わっていないかもしれない。 -/
def splitAfter : List α → List (List α)
  | [] => []
  | a :: l =>
    if p a then [a] :: splitAfter l
    else
      match splitAfter l with
      | [] => [[a]]
      | piece :: pieces => (a :: piece) :: pieces

variable {p}

/-- 初めて `p` になる要素までが、一つ目の切れ端である。 -/
theorem splitAfter_piece {init : List α} {b : α} (hinit : ∀ a ∈ init, p a = false) (hb : p b = true)
    (rest : List α) : splitAfter p (init ++ b :: rest) = (init ++ [b]) :: splitAfter p rest := by
  induction init with
  | nil => rw [List.nil_append, splitAfter, if_pos hb]; rfl
  | cons a init ih =>
    have ha : ¬ p a = true := by rw [hinit a (by simp)]; exact Bool.false_ne_true
    rw [List.cons_append, splitAfter, if_neg ha, ih fun x hx => hinit x (by simp [hx])]
    rfl

/-- 終わりの要素が一つずつ、最後にだけある列は、並べても切り分けられる。 -/
theorem splitAfter_flatMap {f : β → List α} (l : List β)
    (h : ∀ x ∈ l, ∃ init b, f x = init ++ [b] ∧ (∀ a ∈ init, p a = false) ∧ p b = true) :
    splitAfter p (l.flatMap f) = l.map f := by
  induction l with
  | nil => rfl
  | cons x l ih =>
    obtain ⟨init, b, hf, hinit, hb⟩ := h x (by simp)
    rw [List.flatMap_cons, hf, List.append_assoc, List.singleton_append, splitAfter_piece hinit hb,
      ih fun y hy => h y (by simp [hy]), List.map_cons, hf]

/-- 列は、終わりの要素を含まないか、初めの終わりの要素で切れる。 -/
theorem splitAfter_induction {motive : List α → Prop}
    (tail : ∀ l, (∀ a ∈ l, p a = false) → motive l)
    (piece : ∀ init b rest, (∀ a ∈ init, p a = false) → p b = true → motive rest →
      motive (init ++ b :: rest)) (l : List α) : motive l := by
  suffices h : ∀ init, (∀ a ∈ init, p a = false) → motive (init ++ l) from h [] (by simp)
  induction l with
  | nil =>
    intro init hinit
    rw [List.append_nil]
    exact tail init hinit
  | cons a l ih =>
    intro init hinit
    cases ha : p a with
    | true => exact piece init a l hinit ha (ih [] (by simp))
    | false =>
      rw [List.append_cons]
      refine ih (init ++ [a]) fun x hx => ?_
      rcases List.mem_append.mp hx with hx | hx
      · exact hinit x hx
      · rw [List.mem_singleton.mp hx, ha]

/-- `p` になる要素が無ければ、切れ端は全体の一つである。 -/
theorem splitAfter_tail {l : List α} (h : ∀ a ∈ l, p a = false) :
    splitAfter p l = if l = [] then [] else [l] := by
  induction l with
  | nil => rfl
  | cons a l ih =>
    have ha : ¬ p a = true := by rw [h a (by simp)]; exact Bool.false_ne_true
    rw [splitAfter, if_neg ha, ih fun x hx => h x (by simp [hx])]
    cases l with
    | nil => rfl
    | cons b l => rfl

/-- 切っても、何も失われない。 -/
theorem flatten_splitAfter (l : List α) : (splitAfter p l).flatten = l := by
  induction l using splitAfter_induction (p := p) with
  | tail l h =>
    rw [splitAfter_tail h]
    split
    · next hnil => rw [hnil, List.flatten_nil]
    · rw [List.flatten_cons, List.flatten_nil, List.append_nil]
  | piece init b rest hinit hb ih =>
    rw [splitAfter_piece hinit hb, List.flatten_cons, ih, List.append_assoc, List.singleton_append]

end SplitAfter

/-- 余分な桁の無い byte 列は、最後の byte で切れる。 -/
theorem Minimal.pieces {bytes : List UInt8} (h : Minimal bytes) :
    ∃ init b, bytes = init ++ [b] ∧ (∀ a ∈ init, decide (a < 0x80) = false) ∧
      decide (b < 0x80) = true := by
  obtain ⟨init, b, rfl, hinit, hb⟩ := h.last
  refine ⟨init, b, rfl, fun a ha => ?_, ?_⟩
  · rw [decide_eq_false_iff_not, UInt8.lt_iff_toNat_lt]
    exact Nat.not_lt.mpr (hinit a ha)
  · rw [decide_eq_true_eq, UInt8.lt_iff_toNat_lt]
    exact hb

end FabAccess.Infra
