import Mathlib.Data.List.Basic
import Mathlib.Data.List.TakeWhile

/-!
# 区切りのある列

区切り `sep` で終わる行の列として、流れてくる列を読む。

* `completeLines` — 区切りで終わった、空でない行の列
* `remainder` — まだ区切りの来ていない残り
* `completeLines_append` — 続きが来たときに増える行は、前の残りと続きだけで決まる
* `splitOn_prefix_iff` — 区間の列としての接頭辞と、文字の列としての接頭辞
-/

namespace FabAccess.Infra

variable {α : Type*} [DecidableEq α] (sep : α)

/-- 区切りで終わった、空でない行の列。 -/
def completeLines (s : List α) : List (List α) := ((s.splitOn sep).dropLast).filter (· ≠ [])

/-- 最後の区切りより後。 -/
def remainder (s : List α) : List α := (s.splitOn sep).getLast (List.splitOn_ne_nil sep s)

variable {sep} {s : List α}

/-- 区切りが無ければ、終わった行は無い。 -/
theorem completeLines_of_notMem (h : sep ∉ s) : completeLines sep s = [] := by
  simp [completeLines, List.splitOn_eq_singleton h]

/-- 区切りが無ければ、全部が読みかけである。 -/
theorem remainder_of_notMem (h : sep ∉ s) : remainder sep s = s := by
  simp [remainder, List.splitOn_eq_singleton h]

/-- 区切りまでの行と、その後の行に分かれる。 -/
theorem completeLines_append_cons (a b : List α) :
    completeLines sep (a ++ sep :: b) =
      (a.splitOn sep).filter (· ≠ []) ++ completeLines sep b := by
  simp only [completeLines, List.splitOn_append_cons_self]
  rw [List.dropLast_append_of_ne_nil (List.splitOn_ne_nil sep b), List.filter_append]

/-- 読みかけは、区切りより後だけで決まる。 -/
theorem remainder_append_cons (a b : List α) : remainder sep (a ++ sep :: b) = remainder sep b := by
  simp only [remainder, List.splitOn_append_cons_self]
  exact List.getLast_append_of_ne_nil _ (List.splitOn_ne_nil sep b)

omit [DecidableEq α] in
/-- 区切りを含む列は、最後の区切りで分かれる。 -/
theorem exists_last_sep (h : sep ∈ s) : ∃ a t, s = a ++ sep :: t ∧ sep ∉ t := by
  obtain ⟨t, a, heq, ht⟩ := List.eq_append_cons_of_mem (List.mem_reverse.mpr h)
  refine ⟨a.reverse, t.reverse, ?_, by simpa using ht⟩
  rw [← List.reverse_reverse s, heq]
  simp

/-- 読みかけに区切りは無い。 -/
theorem notMem_remainder (sep : α) (s : List α) : sep ∉ remainder sep s := by
  by_cases h : sep ∈ s
  · obtain ⟨a, t, rfl, ht⟩ := exists_last_sep h
    rw [remainder_append_cons, remainder_of_notMem ht]
    exact ht
  · rw [remainder_of_notMem h]
    exact h

/-- **続きが来たときに増える行は、前の残りと続きの行である。** -/
theorem completeLines_append (sep : α) (s s' : List α) :
    completeLines sep (s ++ s') =
      completeLines sep s ++ completeLines sep (remainder sep s ++ s') := by
  by_cases h : sep ∈ s
  · obtain ⟨a, t, rfl, ht⟩ := exists_last_sep h
    rw [List.append_assoc, List.cons_append, completeLines_append_cons, completeLines_append_cons,
      remainder_append_cons, completeLines_of_notMem ht, remainder_of_notMem ht, List.append_nil]
  · rw [completeLines_of_notMem h, remainder_of_notMem h, List.nil_append]

/-- 読みかけだけを覚えておけば、続きを読める。 -/
theorem remainder_append (sep : α) (s s' : List α) :
    remainder sep (s ++ s') = remainder sep (remainder sep s ++ s') := by
  by_cases h : sep ∈ s
  · obtain ⟨a, t, rfl, ht⟩ := exists_last_sep h
    rw [List.append_assoc, List.cons_append, remainder_append_cons, remainder_append_cons,
      remainder_of_notMem ht]
  · rw [remainder_of_notMem h]

/-! ## 高々一行 -/

/-- 行と、続く区切りと、区切りの無い残り。 -/
theorem completeLines_line {line rest : List α} (n : Nat) (hline : sep ∉ line) (hrest : sep ∉ rest) :
    completeLines sep (line ++ sep :: (List.replicate n sep ++ rest)) =
      [line].filter (· ≠ []) ∧
    remainder sep (line ++ sep :: (List.replicate n sep ++ rest)) = rest := by
  have hseps : completeLines sep (List.replicate n sep ++ rest) = [] ∧
      remainder sep (List.replicate n sep ++ rest) = rest := by
    induction n with
    | zero => exact ⟨completeLines_of_notMem hrest, remainder_of_notMem hrest⟩
    | succ n ih =>
      rw [List.replicate_succ, List.cons_append, ← List.nil_append (sep :: _),
        completeLines_append_cons, remainder_append_cons, ih.1]
      exact ⟨by simp, ih.2⟩
  rw [completeLines_append_cons, remainder_append_cons, hseps.1, List.splitOn_eq_singleton hline]
  exact ⟨List.append_nil _, hseps.2⟩

/-! ## 区間の接頭辞 -/

omit [DecidableEq α] in
theorem intercalate_append {l m : List (List α)} (hl : l ≠ []) (hm : m ≠ []) :
    [sep].intercalate (l ++ m) = [sep].intercalate l ++ sep :: [sep].intercalate m := by
  induction l with
  | nil => exact absurd rfl hl
  | cons x l ih =>
    by_cases hnil : l = []
    · subst hnil
      rw [List.singleton_append, List.intercalate_cons_of_ne_nil hm]
      simp
    · rw [List.cons_append, List.intercalate_cons_of_ne_nil (by simp [hnil]),
        List.intercalate_cons_of_ne_nil hnil, ih hnil]
      simp

theorem takeWhile_of_notMem (h : sep ∉ s) : s.takeWhile (· ≠ sep) = s := by
  rw [List.takeWhile_eq_self_iff]
  intro x hx
  simpa using fun heq : x = sep => h (heq ▸ hx)

/-- 初めの区間は、初めの区切りの前である。 -/
theorem splitOn_eq_cons (sep : α) (s : List α) :
    ∃ parts, s.splitOn sep = s.takeWhile (· ≠ sep) :: parts ∧ (parts = [] ↔ sep ∉ s) := by
  by_cases h : sep ∈ s
  · obtain ⟨a, b, rfl, ha⟩ := List.eq_append_cons_of_mem h
    refine ⟨b.splitOn sep, ?_, iff_of_false (List.splitOn_ne_nil sep b) (by simp)⟩
    rw [List.splitOn_append_cons_self, List.splitOn_eq_singleton ha, List.takeWhile_append_of_pos]
    · simp
    · intro x hx
      simpa using fun heq : x = sep => ha (heq ▸ hx)
  · exact ⟨[], by rw [List.splitOn_eq_singleton h, takeWhile_of_notMem h], iff_of_true rfl h⟩

/-- 切った結果から、元の列が決まる。 -/
theorem splitOn_injective (sep : α) : Function.Injective (List.splitOn sep) := by
  intro s t h
  have hjoin := congrArg (List.intercalate [sep]) h
  rwa [List.intercalate_splitOn, List.intercalate_splitOn] at hjoin

/-- **区間の列として前から一致するのは、同じ列か、区切りを挟んで続く列である。** -/
theorem splitOn_prefix_iff {s t : List α} :
    s.splitOn sep <+: t.splitOn sep ↔ t = s ∨ ∃ r, t = s ++ sep :: r := by
  constructor
  · rintro ⟨rest, hrest⟩
    by_cases hnil : rest = []
    · subst hnil
      rw [List.append_nil] at hrest
      exact Or.inl (splitOn_injective sep hrest.symm)
    · right
      refine ⟨[sep].intercalate rest, ?_⟩
      calc t = [sep].intercalate (t.splitOn sep) := (List.intercalate_splitOn sep).symm
        _ = [sep].intercalate (s.splitOn sep ++ rest) := by rw [hrest]
        _ = s ++ sep :: [sep].intercalate rest := by
          rw [intercalate_append (List.splitOn_ne_nil sep s) hnil, List.intercalate_splitOn]
  · rintro (rfl | ⟨r, rfl⟩)
    · exact List.prefix_rfl
    · rw [List.splitOn_append_cons_self]
      exact List.prefix_append _ _

end FabAccess.Infra
