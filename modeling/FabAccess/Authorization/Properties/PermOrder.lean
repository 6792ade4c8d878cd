import FabAccess.Authorization.Permissions
import FabAccess.Infra.Lines

/-!
# rule の届く範囲

`partial_cmp` は区間の列を左右同時に辿る。その答えを文字の列の言葉に直すと、
rule が当たるのは、その権限そのものか、`.` を挟んで続く権限だけである。

* `cmpLoop_eq_iff` / `cmpLoop_gt_iff` / `cmpLoop_swap` — ループの答え
* `Permission.prefix_iff` — 区間の接頭辞と文字列
* `PermRule.matchPerm_injective` — 許すものが同じなら rule も同じである
* `partialCmp_matchPerm` — 以上をまとめたもの
-/

namespace FabAccess

open Infra

namespace Permission

/-! ## ループ -/

/-- 等しいのは、区切られた語がみな同じときである。 -/
theorem cmpLoop_eq_iff {l r : List (List Char)} : cmpLoop l r = some .eq ↔ l = r := by
  induction l generalizing r with
  | nil => cases r <;> simp [cmpLoop]
  | cons x l ih =>
    cases r with
    | nil => simp [cmpLoop]
    | cons y r =>
      by_cases h : x = y
      · simp [cmpLoop, h, ih]
      · simp [cmpLoop, h]

/-- 左が先に尽きる。 -/
theorem cmpLoop_gt_iff {l r : List (List Char)} :
    cmpLoop l r = some .gt ↔ l <+: r ∧ l ≠ r := by
  induction l generalizing r with
  | nil => cases r <;> simp [cmpLoop]
  | cons x l ih =>
    cases r with
    | nil => simp [cmpLoop]
    | cons y r =>
      by_cases h : x = y
      · simp [cmpLoop, h, ih, List.cons_prefix_cons]
      · simp [cmpLoop, h, List.cons_prefix_cons]

/-- 左右を入れ替えると、大小が逆になる。 -/
theorem cmpLoop_swap (l r : List (List Char)) :
    cmpLoop r l = (cmpLoop l r).map Ordering.swap := by
  induction l generalizing r with
  | nil => cases r <;> rfl
  | cons x l ih =>
    cases r with
    | nil => rfl
    | cons y r =>
      by_cases h : x = y
      · simp [cmpLoop, h, ih]
      · simp [cmpLoop, h, Ne.symm h]

/-! ## 権限の順序 -/

variable {a b c : Permission}

/-- 語の列から、permission が決まる。 -/
theorem iter_injective : Function.Injective iter := by
  intro a b h
  have hlist : a.inner.toList = b.inner.toList := splitOn_injective '.' h
  cases a
  cases b
  simpa using String.toList_inj.mp hlist

/-- 左右を入れ替えると、大小が逆になる。 -/
theorem partialCmp_swap (a b : Permission) :
    b.partialCmp a = (a.partialCmp b).map Ordering.swap := cmpLoop_swap _ _

/-- 等しいのは、同じ permission のときだけである。 -/
theorem partialCmp_eq_iff : a.partialCmp b = some .eq ↔ a = b :=
  cmpLoop_eq_iff.trans iter_injective.eq_iff

/-- 大きいのは、真に前の部分であるときである。 -/
theorem partialCmp_gt_iff : a.partialCmp b = some .gt ↔ a.iter <+: b.iter ∧ a ≠ b :=
  cmpLoop_gt_iff.trans (and_congr_right fun _ => iter_injective.ne_iff)

/-- 小さいのは、真に後へ続くときである。 -/
theorem partialCmp_lt_iff : a.partialCmp b = some .lt ↔ b.iter <+: a.iter ∧ a ≠ b := by
  rw [partialCmp_swap b a, ne_comm, ← partialCmp_gt_iff]
  cases b.partialCmp a with
  | none => simp
  | some o => cases o <;> simp

/-- 語の列の前の部分であるものは、以上である。 -/
theorem ge_iff : a.ge b = true ↔ a.iter <+: b.iter := by
  simp only [ge, Bool.or_eq_true, beq_iff_eq, partialCmp_gt_iff, partialCmp_eq_iff]
  by_cases h : a = b
  · subst h
    simp
  · simp [h]

/-- 比べられないのは、どちらも他方の前の部分でないときである。 -/
theorem partialCmp_none_iff :
    a.partialCmp b = none ↔ ¬ a.iter <+: b.iter ∧ ¬ b.iter <+: a.iter := by
  rw [← ge_iff, ← ge_iff]
  simp only [ge, partialCmp_swap a b]
  cases a.partialCmp b with
  | none => simp
  | some o => cases o <;> simp

/-! ## 文字列として -/

/-- 区間の接頭辞であるのは、同じ文字列か、`.` を挟んで続く文字列である。 -/
theorem prefix_iff :
    a.iter <+: b.iter ↔ b = a ∨ ∃ r : String, b.inner = a.inner ++ "." ++ r := by
  have hsep : (∃ r, b.inner.toList = a.inner.toList ++ '.' :: r) ↔
      ∃ r : String, b.inner = a.inner ++ "." ++ r := by
    constructor
    · rintro ⟨r, hr⟩
      refine ⟨String.ofList r, String.toList_inj.mp ?_⟩
      simp [hr]
    · rintro ⟨r, hr⟩
      exact ⟨r.toList, by simp [hr]⟩
  have heq : b.inner.toList = a.inner.toList ↔ b = a := by
    rw [String.toList_inj]
    cases a
    cases b
    simp
  simp only [iter, asStr, splitOn_prefix_iff, hsep, heq]

/-- `.` を挟んで続く文字列は、元の文字列ではない。 -/
theorem ne_of_sep {r : String} (h : b.inner = a.inner ++ "." ++ r) : a ≠ b := by
  rintro rfl
  have hlen := congrArg String.length h
  simp only [String.length_append] at hlen
  have hdot : ".".length = 1 := rfl
  omega

end Permission

/-! ## rule -/

namespace PermRule

variable {p q : Permission}

/-- `Base` は、その permission だけを許す。 -/
theorem matchPerm_base : (PermRule.base p).matchPerm q = true ↔ q = p := by
  simp only [matchPerm, beq_iff_eq]
  exact eq_comm

/-- `Children` は、それより下だけを許す。 -/
theorem matchPerm_children :
    (PermRule.children p).matchPerm q = true ↔ ∃ r : String, q.inner = p.inner ++ "." ++ r := by
  simp only [matchPerm, Permission.gt, beq_iff_eq, Permission.partialCmp_gt_iff,
    Permission.prefix_iff]
  constructor
  · rintro ⟨rfl | hr, hne⟩
    · exact absurd rfl hne
    · exact hr
  · rintro ⟨r, hr⟩
    exact ⟨Or.inr ⟨r, hr⟩, Permission.ne_of_sep hr⟩

/-- `Subtree` は、それ自身と、それより下を許す。 -/
theorem matchPerm_subtree :
    (PermRule.subtree p).matchPerm q = true ↔
      q = p ∨ ∃ r : String, q.inner = p.inner ++ "." ++ r := by
  simp only [matchPerm, Permission.ge_iff, Permission.prefix_iff]

/-- rule が持つ権限。 -/
def perm : PermRule → Permission
  | .base p | .children p | .subtree p => p

/-- 文字の上で続いているだけの名前には、どの rule も当たらない。 -/
theorem matchPerm_of_char (rule : PermRule) {c : Char} {r : String} (hc : c ≠ '.')
    (hq : q.inner = rule.perm.inner ++ String.singleton c ++ r) : rule.matchPerm q = false := by
  have hne : q ≠ rule.perm := by
    rintro rfl
    have hlen := congrArg String.length hq
    simp only [String.length_append, String.length_singleton] at hlen
    omega
  have hsep : ¬ ∃ r' : String, q.inner = rule.perm.inner ++ "." ++ r' := by
    rintro ⟨r', hr'⟩
    have hlist := congrArg String.toList (hq.symm.trans hr')
    simp at hlist
    exact hc hlist.1
  rw [← Bool.not_eq_true]
  cases rule with
  | base p => rwa [matchPerm_base]
  | children p => rwa [matchPerm_children]
  | subtree p =>
    rw [matchPerm_subtree, not_or]
    exact ⟨hne, hsep⟩

/-! ## rule の許すもの -/

/-- `p` の下の権限。 -/
def below (p : Permission) (r : String) : Permission := ⟨p.inner ++ "." ++ r⟩

/-- 下に付ける語が違えば、違う permission になる。 -/
theorem below_injective (p : Permission) : Function.Injective (below p) := by
  intro r r' h
  have hlist := congrArg (fun q : Permission => q.inner.toList) h
  simpa [below, String.toList_inj] using hlist

/-- 互いに相手の子であるような、一番短い子どうし。 -/
theorem prefix_antisymm {p p' : Permission} {r r' : String}
    (h : p.inner ++ "." = p'.inner ++ "." ++ r) (h' : p'.inner ++ "." = p.inner ++ "." ++ r') :
    p = p' := by
  have hlen := congrArg String.length h
  have hlen' := congrArg String.length h'
  simp only [String.length_append] at hlen hlen'
  have hr : r = "" := by
    rw [← String.length_eq_zero_iff]
    omega
  have hlist := congrArg String.toList h
  cases p
  cases p'
  simpa [hr, String.toList_inj] using hlist

/-- 下の permission は、それ自身ではない。 -/
theorem ne_below (p : Permission) (r : String) : p ≠ below p r :=
  Permission.ne_of_sep rfl

theorem matchPerm_children_below (p : Permission) (r : String) :
    (PermRule.children p).matchPerm (below p r) = true :=
  matchPerm_children.mpr ⟨r, rfl⟩

theorem matchPerm_subtree_below (p : Permission) (r : String) :
    (PermRule.subtree p).matchPerm (below p r) = true :=
  matchPerm_subtree.mpr (Or.inr ⟨r, rfl⟩)

theorem matchPerm_subtree_self (p : Permission) : (PermRule.subtree p).matchPerm p = true :=
  matchPerm_subtree.mpr (Or.inl rfl)

theorem base_ne_children (p p' : Permission) :
    (PermRule.base p).matchPerm ≠ (PermRule.children p').matchPerm := by
  intro h
  have hall : ∀ r, below p' r = p := by
    intro r
    rw [← matchPerm_base, h]
    exact matchPerm_children_below p' r
  have hr : "" = "+" := below_injective p' ((hall "").trans (hall "+").symm)
  simp at hr

theorem base_ne_subtree (p p' : Permission) :
    (PermRule.base p).matchPerm ≠ (PermRule.subtree p').matchPerm := by
  intro h
  have hself : p' = p := by
    rw [← matchPerm_base, h]
    exact matchPerm_subtree_self p'
  have hbelow : below p' "" = p := by
    rw [← matchPerm_base, h]
    exact matchPerm_subtree_below p' ""
  exact ne_below p' "" (hself.trans hbelow.symm)

theorem children_ne_subtree (p p' : Permission) :
    (PermRule.children p).matchPerm ≠ (PermRule.subtree p').matchPerm := by
  intro h
  -- `p'` 自身は `p` の下にあるので、`p'` の下にある `p` の子は無い
  obtain ⟨r, hr⟩ : ∃ r : String, p'.inner = p.inner ++ "." ++ r := by
    rw [← matchPerm_children, h]
    exact matchPerm_subtree_self p'
  have hchild : below p (r ++ "+") = p' ∨
      ∃ t : String, (below p (r ++ "+")).inner = p'.inner ++ "." ++ t := by
    rw [← matchPerm_subtree, ← h]
    exact matchPerm_children_below p _
  rcases hchild with heq | ⟨t, ht⟩
  · have hlen := congrArg (fun q : Permission => q.inner.length) heq
    simp [below, hr] at hlen
  · have hlist := congrArg String.toList ht
    simp [below, hr] at hlist

/-- **許すものが同じ rule は、同じ rule である。** -/
theorem matchPerm_injective : Function.Injective matchPerm := by
  intro rule rule' h
  cases rule with
  | base p =>
    cases rule' with
    | base p' =>
      have hp : p = p' := by
        rw [← matchPerm_base, ← h]
        exact matchPerm_base.mpr rfl
      rw [hp]
    | children p' => exact absurd h (base_ne_children p p')
    | subtree p' => exact absurd h (base_ne_subtree p p')
  | children p =>
    cases rule' with
    | base p' => exact absurd h.symm (base_ne_children p' p)
    | children p' =>
      -- 子のうち一番短いものが、互いに相手の子である
      obtain ⟨r, hr⟩ : ∃ r : String, (below p "").inner = p'.inner ++ "." ++ r := by
        rw [← matchPerm_children, ← h]
        exact matchPerm_children_below p ""
      obtain ⟨r', hr'⟩ : ∃ r' : String, (below p' "").inner = p.inner ++ "." ++ r' := by
        rw [← matchPerm_children, h]
        exact matchPerm_children_below p' ""
      have hp : p = p' := prefix_antisymm (by simpa [below] using hr) (by simpa [below] using hr')
      rw [hp]
    | subtree p' => exact absurd h (children_ne_subtree p p')
  | subtree p =>
    cases rule' with
    | base p' => exact absurd h.symm (base_ne_subtree p' p)
    | children p' => exact absurd h.symm (children_ne_subtree p' p)
    | subtree p' =>
      have hp : p = p' ∨ ∃ r : String, p.inner = p'.inner ++ "." ++ r := by
        rw [← matchPerm_subtree, ← h]
        exact matchPerm_subtree_self p
      have hp' : p' = p ∨ ∃ r : String, p'.inner = p.inner ++ "." ++ r := by
        rw [← matchPerm_subtree, h]
        exact matchPerm_subtree_self p'
      rcases hp with rfl | ⟨r, hr⟩
      · rfl
      rcases hp' with rfl | ⟨r', hr'⟩
      · rfl
      have hlen := congrArg String.length hr
      have hlen' := congrArg String.length hr'
      simp only [String.length_append] at hlen hlen'
      have hdot : ".".length = 1 := rfl
      omega

end PermRule

/--
`partial_cmp` は、区間の列が等しければ `Equal`、左が右の真の接頭辞なら `Greater`、逆なら `Less`、
どちらでもなければ `None` を返す半順序である。rule は、その権限か、`.` を挟んで続く権限だけに当たり、
文字の上で続いているだけの名前には当たらない。
-/
theorem partialCmp_matchPerm :
    (∀ a b : Permission,
      (a.partialCmp b = some .eq ↔ a = b) ∧
      (a.partialCmp b = some .gt ↔ a.iter <+: b.iter ∧ a.iter ≠ b.iter) ∧
      (a.partialCmp b = some .lt ↔ b.iter <+: a.iter ∧ b.iter ≠ a.iter) ∧
      (a.partialCmp b = none ↔ ¬ a.iter <+: b.iter ∧ ¬ b.iter <+: a.iter) ∧
      b.partialCmp a = (a.partialCmp b).map Ordering.swap) ∧
    ((∀ a : Permission, a.ge a = true) ∧
      (∀ a b : Permission, a.ge b = true → b.ge a = true → a = b) ∧
      (∀ a b c : Permission, a.ge b = true → b.ge c = true → a.ge c = true)) ∧
    (∀ p q : Permission,
      ((PermRule.base p).matchPerm q = true ↔ q = p) ∧
      ((PermRule.children p).matchPerm q = true ↔
        ∃ r : String, q.inner = p.inner ++ "." ++ r) ∧
      ((PermRule.subtree p).matchPerm q = true ↔
        q = p ∨ ∃ r : String, q.inner = p.inner ++ "." ++ r)) ∧
    (∀ (rule : PermRule) (q : Permission) (c : Char) (r : String), c ≠ '.' →
      q.inner = rule.perm.inner ++ String.singleton c ++ r → rule.matchPerm q = false) := by
  refine ⟨fun a b => ⟨Permission.partialCmp_eq_iff, Permission.cmpLoop_gt_iff, ?_,
    Permission.partialCmp_none_iff, Permission.partialCmp_swap a b⟩, ⟨?_, ?_, ?_⟩,
    fun p q => ⟨PermRule.matchPerm_base, PermRule.matchPerm_children, PermRule.matchPerm_subtree⟩,
    fun rule q c r hc hq => rule.matchPerm_of_char hc hq⟩
  · rw [Permission.partialCmp_lt_iff, Permission.iter_injective.ne_iff, ne_comm]
  · intro a
    exact Permission.ge_iff.mpr List.prefix_rfl
  · intro a b hab hba
    rw [Permission.ge_iff] at hab hba
    exact Permission.iter_injective (hab.eq_of_length_le hba.length_le)
  · intro a b c hab hbc
    rw [Permission.ge_iff] at hab hbc ⊢
    exact hab.trans hbc

example : (PermRule.subtree ⟨"bffh.perm"⟩).matchPerm ⟨"bffh.permit"⟩ = false := by decide

end FabAccess
