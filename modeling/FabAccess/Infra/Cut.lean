import Mathlib.Data.List.Basic

/-!
# 幅のある要素の列を切る

UTF-8 の文字列のように、要素ごとに幅の違う列を、先頭からの幅で切る。要素の途中では切れない。

* `cutAt` / `cutAt_eq_some_iff` — 切れるのは、その幅の先頭があるときだけである
* `isCharBoundary` / `sliceBytes` / `truncateBytes` — byte の位置で文字列を切る。`none` は panic
-/

namespace FabAccess.Infra

section Width

variable {α : Type*} (w : α → Nat)

def width : List α → Nat
  | [] => 0
  | x :: l => w x + width l

/-- 先頭から幅 `n` のところで切る。要素の途中なら `none`。 -/
def cutAt : List α → Nat → Option (List α × List α)
  | l, 0 => some ([], l)
  | [], _ + 1 => none
  | x :: l, n + 1 =>
    if w x ≤ n + 1 then (cutAt l (n + 1 - w x)).map (fun cut => (x :: cut.1, cut.2)) else none

variable {w}

theorem cutAt_append (l m : List α) (hw : ∀ x, 0 < w x) :
    cutAt w (l ++ m) (width w l) = some (l, m) := by
  induction l with
  | nil => simp [width, cutAt]
  | cons x l ih =>
    obtain ⟨n, hn⟩ : ∃ n, width w (x :: l) = n + 1 := by
      have hx := hw x
      refine ⟨w x + width w l - 1, ?_⟩
      rw [width]
      omega
    have hl : n + 1 - w x = width w l := by
      rw [← hn]
      simp [width]
    rw [hn, List.cons_append, cutAt, if_pos (by rw [← hn]; simp [width]), hl, ih]
    rfl

/-- 切れるのは、その幅の先頭があるときだけである。 -/
theorem cutAt_eq_some_iff (hw : ∀ x, 0 < w x) {l a b : List α} {n : Nat} :
    cutAt w l n = some (a, b) ↔ l = a ++ b ∧ width w a = n := by
  constructor
  · intro h
    induction l generalizing a n with
    | nil =>
      cases n with
      | zero =>
        simp only [cutAt, Option.some.injEq, Prod.mk.injEq] at h
        obtain ⟨rfl, rfl⟩ := h
        exact ⟨rfl, rfl⟩
      | succ n => simp [cutAt] at h
    | cons x l ih =>
      cases n with
      | zero =>
        simp only [cutAt, Option.some.injEq, Prod.mk.injEq] at h
        obtain ⟨rfl, rfl⟩ := h
        exact ⟨rfl, rfl⟩
      | succ n =>
        rw [cutAt] at h
        split at h
        · next hx =>
          obtain ⟨⟨a', b'⟩, hcut, heq⟩ := Option.map_eq_some_iff.mp h
          obtain ⟨rfl, rfl⟩ := Prod.mk.injEq .. ▸ heq
          obtain ⟨rfl, hlen⟩ := ih hcut
          refine ⟨rfl, ?_⟩
          rw [width, hlen]
          omega
        · cases h
  · rintro ⟨rfl, rfl⟩
    exact cutAt_append a b hw

end Width

/-! ## 文字列 -/

/-- `str::is_char_boundary`。 -/
def isCharBoundary (s : String) (index : Nat) : Bool := (cutAt Char.utf8Size s.toList index).isSome

/-- `&s[start..stop]`。 -/
def sliceBytes (s : String) (start stop : Nat) : Option String :=
  match cutAt Char.utf8Size s.toList stop with
  | none => none
  | some (head, _) => (cutAt Char.utf8Size head start).map (fun cut => String.ofList cut.2)

/-- `String::truncate`。元より長くしようとしても何も起きない。 -/
def truncateBytes (s : String) (newLen : Nat) : Option String :=
  if newLen ≤ s.utf8ByteSize then
    (cutAt Char.utf8Size s.toList newLen).map (fun cut => String.ofList cut.1)
  else some s

theorem width_ofList (l : List Char) : (String.ofList l).utf8ByteSize = width Char.utf8Size l := by
  induction l with
  | nil => rfl
  | cons c l ih =>
    have hcons : String.ofList (c :: l) = String.singleton c ++ String.ofList l := by
      rw [← String.toList_inj]
      simp
    rw [hcons, String.utf8ByteSize_append, String.utf8ByteSize_singleton, ih]
    simp [width]

theorem width_toList (s : String) : width Char.utf8Size s.toList = s.utf8ByteSize := by
  rw [← width_ofList, String.ofList_toList]

theorem isCharBoundary_iff {s : String} {index : Nat} :
    isCharBoundary s index = true ↔ ∃ a b : String, s = a ++ b ∧ a.utf8ByteSize = index := by
  rw [isCharBoundary, Option.isSome_iff_exists]
  constructor
  · rintro ⟨⟨a, b⟩, hcut⟩
    obtain ⟨hs, hlen⟩ := (cutAt_eq_some_iff Char.utf8Size_pos).mp hcut
    refine ⟨String.ofList a, String.ofList b, String.toList_inj.mp ?_, ?_⟩
    · simpa using hs
    · rw [width_ofList, hlen]
  · rintro ⟨a, b, rfl, rfl⟩
    refine ⟨(a.toList, b.toList), (cutAt_eq_some_iff Char.utf8Size_pos).mpr ?_⟩
    exact ⟨String.toList_append, width_toList a⟩

theorem sliceBytes_append (a b : String) :
    sliceBytes (a ++ b) a.utf8ByteSize (a ++ b).utf8ByteSize = some b := by
  have hall : cutAt Char.utf8Size (a ++ b).toList (a ++ b).utf8ByteSize =
      some ((a ++ b).toList, []) :=
    (cutAt_eq_some_iff Char.utf8Size_pos).mpr ⟨(List.append_nil _).symm, width_toList _⟩
  have hhead : cutAt Char.utf8Size (a ++ b).toList a.utf8ByteSize = some (a.toList, b.toList) :=
    (cutAt_eq_some_iff Char.utf8Size_pos).mpr ⟨String.toList_append, width_toList a⟩
  simp only [sliceBytes, hall, hhead, Option.map_some, String.ofList_toList]

theorem truncateBytes_append (a b : String) :
    truncateBytes (a ++ b) a.utf8ByteSize = some a := by
  have hhead : cutAt Char.utf8Size (a ++ b).toList a.utf8ByteSize = some (a.toList, b.toList) :=
    (cutAt_eq_some_iff Char.utf8Size_pos).mpr ⟨String.toList_append, width_toList a⟩
  rw [truncateBytes, if_pos (by rw [String.utf8ByteSize_append]; omega), hhead]
  simp

/-- 終わりまで切り出せないのは、始まりが文字の境目にないときである。 -/
theorem sliceBytes_eq_none {s : String} {start : Nat} (h : isCharBoundary s start = false) :
    sliceBytes s start s.utf8ByteSize = none := by
  have hall : cutAt Char.utf8Size s.toList s.utf8ByteSize = some (s.toList, []) :=
    (cutAt_eq_some_iff Char.utf8Size_pos).mpr ⟨(List.append_nil _).symm, width_toList s⟩
  have hhead : cutAt Char.utf8Size s.toList start = none := by
    simpa [isCharBoundary] using h
  simp only [sliceBytes, hall, hhead, Option.map_none]

/-- 同じ幅の末尾を持つ文字列は、末尾で分けられる。 -/
theorem append_inj_of_bytes {a b s t : String} (h : a ++ s = b ++ t)
    (hsize : s.utf8ByteSize = t.utf8ByteSize) : a = b ∧ s = t := by
  have hlen := congrArg String.utf8ByteSize h
  rw [String.utf8ByteSize_append, String.utf8ByteSize_append] at hlen
  have hab : a.utf8ByteSize = b.utf8ByteSize := by omega
  have htrunc := truncateBytes_append a s
  have hslice := sliceBytes_append a s
  rw [h, hab, truncateBytes_append] at htrunc
  rw [h, hab, sliceBytes_append] at hslice
  exact ⟨(Option.some.inj htrunc).symm, (Option.some.inj hslice).symm⟩

end FabAccess.Infra
