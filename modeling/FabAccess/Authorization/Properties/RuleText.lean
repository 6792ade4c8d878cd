import FabAccess.Authorization.Properties.PermOrder

/-!
# rule の文字列の往復

`TryFrom<String>` は末尾の二 byte で rule の種類を決め、`Into<String>` は `push` で `+` を足す。
二つは別々に書かれていて、次のところで食い違う。

* 末尾の二 byte の始まりが文字の途中にあると、読み取りは panic する（`parsesCleanly_iff`）
* `Subtree` は `+` で書き出され、区切りで終わる `Children` には区切りが足されない
  （`tryFrom_intoString_iff`）
-/

namespace FabAccess

open Infra

namespace PermRule

/-! ## 読み取り -/

/-- 末尾の二 byte が決める rule。 -/
def ofParts (head last : String) : PermRule :=
  if last = ".+" then .children ⟨head⟩
  else if last = ".*" then .subtree ⟨head⟩
  else .base ⟨head ++ last⟩

theorem tryFrom_short {s : String} (h : s.utf8ByteSize ≤ 2) :
    tryFrom s = some (.error "Input string for PermRule is too short") := by
  rw [tryFrom, if_pos h]

theorem tryFrom_append {head last : String} (hhead : head ≠ "") (hlast : last.utf8ByteSize = 2) :
    tryFrom (head ++ last) = some (.ok (ofParts head last)) := by
  have hpos : head.utf8ByteSize ≠ 0 := fun h => hhead (String.utf8ByteSize_eq_zero_iff.mp h)
  have hlen : (head ++ last).utf8ByteSize - 2 = head.utf8ByteSize := by
    rw [String.utf8ByteSize_append, hlast]
    omega
  have hlong : ¬ (head ++ last).utf8ByteSize ≤ 2 := by
    rw [String.utf8ByteSize_append, hlast]
    omega
  simp only [tryFrom, if_neg hlong, hlen, sliceBytes_append, truncateBytes_append, ofParts]
  split
  · next h => cases h
  · next h =>
    cases h
    rfl
  · next h =>
    cases h
    rfl
  · next h1 h2 h =>
    cases h
    rw [if_neg h1, if_neg h2]

theorem tryFrom_panic {s : String} (hlen : 2 < s.utf8ByteSize)
    (h : isCharBoundary s (s.utf8ByteSize - 2) = false) : tryFrom s = none := by
  rw [tryFrom, if_neg (by omega), sliceBytes_eq_none h]

/-- 末尾の二 byte が文字の境目から始まる。 -/
theorem exists_parts {s : String} (hlen : 2 < s.utf8ByteSize)
    (h : isCharBoundary s (s.utf8ByteSize - 2) = true) :
    ∃ head last, s = head ++ last ∧ head ≠ "" ∧ last.utf8ByteSize = 2 := by
  obtain ⟨head, last, rfl, hhead⟩ := isCharBoundary_iff.mp h
  rw [String.utf8ByteSize_append] at hlen hhead
  refine ⟨head, last, rfl, ?_, by omega⟩
  rintro rfl
  rw [String.utf8ByteSize_empty] at hhead hlen
  omega

/-- 受け付けた文字列は、空でない頭と二 byte の末尾からなる。 -/
theorem exists_parts_of_ok {s : String} {rule : PermRule} (h : tryFrom s = some (.ok rule)) :
    ∃ head last, s = head ++ last ∧ head ≠ "" ∧ last.utf8ByteSize = 2 ∧
      rule = ofParts head last := by
  have hlen : 2 < s.utf8ByteSize := by
    by_contra hc
    rw [tryFrom_short (by omega)] at h
    cases h
  cases hb : isCharBoundary s (s.utf8ByteSize - 2) with
  | false =>
    rw [tryFrom_panic hlen hb] at h
    cases h
  | true =>
    obtain ⟨head, last, rfl, hhead, hlast⟩ := exists_parts hlen hb
    rw [tryFrom_append hhead hlast] at h
    cases h
    exact ⟨head, last, rfl, hhead, hlast, rfl⟩

/-- 読み取りの逆になっているのは、`Into<String>` ではなく `Display` である。 -/
theorem display_of_ok {s : String} {rule : PermRule} (h : tryFrom s = some (.ok rule)) :
    rule.display = s := by
  obtain ⟨head, last, rfl, _, _, rfl⟩ := exists_parts_of_ok h
  rw [ofParts]
  split
  · next hl => rw [hl, display, Permission.asStr]
  · split
    · next hl => rw [hl, display, Permission.asStr]
    · rfl

example : tryFrom "bffh.perm.*" = some (.ok (.subtree ⟨"bffh.perm"⟩)) := by decide

/-! ## panic するとき -/

/--
読み取りが panic せず、断るのは二 byte 以下の文字列だけで、切り出しも切り詰めも文字の境目で行われる。
-/
def ParsesCleanly (s : String) : Prop :=
  (∃ r, tryFrom s = some r ∧ ((∃ e, r = .error e) ↔ s.utf8ByteSize ≤ 2)) ∧
    (2 < s.utf8ByteSize → isCharBoundary s (s.utf8ByteSize - 2) = true)

/-- 末尾が二 byte の文字一つか、一 byte の文字二つである。 -/
def EndsInTwoBytes (s : String) : Prop :=
  (∃ (head : String) (c : Char), s = head.push c ∧ c.utf8Size = 2) ∨
    ∃ (head : String) (c d : Char), s = (head.push c).push d ∧ c.utf8Size = 1 ∧ d.utf8Size = 1

theorem utf8ByteSize_eq_two_iff {last : String} : last.utf8ByteSize = 2 ↔
    (∃ c, last = String.ofList [c] ∧ c.utf8Size = 2) ∨
      ∃ c d, last = String.ofList [c, d] ∧ c.utf8Size = 1 ∧ d.utf8Size = 1 := by
  constructor
  · intro h
    rw [← width_toList] at h
    rcases hl : last.toList with _ | ⟨c, _ | ⟨d, l⟩⟩
    · simp [hl, width] at h
    · refine Or.inl ⟨c, by rw [← hl, String.ofList_toList], ?_⟩
      simpa [hl, width] using h
    · have hc := Char.utf8Size_pos c
      have hd := Char.utf8Size_pos d
      simp only [hl, width] at h
      have hnil : l = [] := by
        cases l with
        | nil => rfl
        | cons e l =>
          have he := Char.utf8Size_pos e
          rw [width] at h
          omega
      subst hnil
      rw [width] at h
      exact Or.inr ⟨c, d, by rw [← hl, String.ofList_toList], by omega, by omega⟩
  · rintro (⟨c, rfl, hc⟩ | ⟨c, d, rfl, hc, hd⟩)
    · simp [hc]
    · simp [hc, hd]

theorem endsInTwoBytes_iff {s : String} :
    EndsInTwoBytes s ↔ ∃ head last : String, s = head ++ last ∧ last.utf8ByteSize = 2 := by
  simp only [utf8ByteSize_eq_two_iff, EndsInTwoBytes]
  constructor
  · rintro (⟨head, c, rfl, hc⟩ | ⟨head, c, d, rfl, hc, hd⟩)
    · exact ⟨head, _, String.toList_inj.mp (by simp), Or.inl ⟨c, rfl, hc⟩⟩
    · exact ⟨head, _, String.toList_inj.mp (by simp), Or.inr ⟨c, d, rfl, hc, hd⟩⟩
  · rintro ⟨head, last, rfl, ⟨c, rfl, hc⟩ | ⟨c, d, rfl, hc, hd⟩⟩
    · exact Or.inl ⟨head, c, String.toList_inj.mp (by simp), hc⟩
    · exact Or.inr ⟨head, c, d, String.toList_inj.mp (by simp), hc, hd⟩

theorem isCharBoundary_iff_endsInTwoBytes {s : String} (hlen : 2 < s.utf8ByteSize) :
    isCharBoundary s (s.utf8ByteSize - 2) = true ↔ EndsInTwoBytes s := by
  rw [endsInTwoBytes_iff]
  constructor
  · intro h
    obtain ⟨head, last, hs, _, hlast⟩ := exists_parts hlen h
    exact ⟨head, last, hs, hlast⟩
  · rintro ⟨head, last, rfl, hlast⟩
    rw [isCharBoundary_iff]
    refine ⟨head, last, rfl, ?_⟩
    rw [String.utf8ByteSize_append, hlast]
    omega

end PermRule

/--
rule の読み取りが panic しないのは、文字列が二 byte 以下であるか、その末尾が二 byte の文字一つ、
または一 byte の文字二つであるとき、そのときに限る。
-/
theorem parsesCleanly_iff (s : String) :
    PermRule.ParsesCleanly s ↔ s.utf8ByteSize ≤ 2 ∨ PermRule.EndsInTwoBytes s := by
  by_cases hlen : s.utf8ByteSize ≤ 2
  · have hshort := PermRule.tryFrom_short hlen
    exact ⟨fun _ => Or.inl hlen, fun _ => ⟨⟨_, hshort, by simp [hlen]⟩, by omega⟩⟩
  · have hlong : 2 < s.utf8ByteSize := by omega
    rw [← PermRule.isCharBoundary_iff_endsInTwoBytes hlong]
    constructor
    · intro h
      exact Or.inr (h.2 hlong)
    · rintro (h | hb)
      · exact absurd h hlen
      · obtain ⟨head, last, rfl, hhead, hlast⟩ := PermRule.exists_parts hlong hb
        refine ⟨⟨_, PermRule.tryFrom_append hhead hlast, ?_⟩, fun _ => hb⟩
        constructor
        · rintro ⟨e, he⟩
          cases he
        · intro hshort
          exact absurd hshort hlen

/-- 三 byte の文字で終わる名前は、長さが足りていても読めない。 -/
theorem tryFrom_panics_on_euro :
    PermRule.tryFrom "lab.5€" = none ∧ ¬ PermRule.ParsesCleanly "lab.5€" := by
  have h : PermRule.tryFrom "lab.5€" = none := by decide
  refine ⟨h, ?_⟩
  rintro ⟨⟨r, hr, _⟩, _⟩
  rw [h] at hr
  cases hr

/-! ## 書き出し -/

namespace Permission

theorem push_of_sep {p : Permission} {t : String} (h : p.inner = t ++ ".") (q : Permission) :
    (p.push q).inner = p.inner ++ q.inner := by
  simp [push, asStr, h, isSepChar]

theorem push_of_not_sep {p : Permission} (hne : p.inner ≠ "") (h : ¬ ∃ t, p.inner = t ++ ".")
    (q : Permission) : (p.push q).inner = p.inner ++ "." ++ q.inner := by
  obtain ⟨l, c, hl⟩ : ∃ l c, p.inner.toList = l ++ [c] := by
    rcases List.eq_nil_or_concat p.inner.toList with hnil | ⟨l, c, hl⟩
    · exact absurd (String.toList_eq_nil_iff.mp hnil) hne
    · exact ⟨l, c, by rw [hl, List.concat_eq_append]⟩
  have hc : ¬ c = '.' := by
    rintro rfl
    refine h ⟨String.ofList l, String.toList_inj.mp ?_⟩
    simp [hl]
  simp [push, asStr, hl, isSepChar, hc]

end Permission

namespace PermRule

/-- 区切りで終わらない権限は、書き出した `.+` がそのまま読み戻される。 -/
theorem tryFrom_push_of_not_sep {p : Permission} (hne : p.inner ≠ "")
    (h : ¬ ∃ t, p.inner = t ++ ".") : tryFrom (p.push ⟨"+"⟩).inner = some (.ok (.children p)) := by
  have htext : (p.push ⟨"+"⟩).inner = p.inner ++ ".+" := by
    rw [Permission.push_of_not_sep hne h, String.append_assoc]
    rfl
  rw [htext, tryFrom_append hne (by decide)]
  rfl

/-- 区切りで終わる権限は、読み戻すと最後の区切りを失う。 -/
theorem tryFrom_push_of_sep {p : Permission} {t : String} (h : p.inner = t ++ ".")
    {rule : PermRule} (hok : tryFrom (p.push ⟨"+"⟩).inner = some (.ok rule)) :
    rule = .children ⟨t⟩ := by
  have htext : (p.push ⟨"+"⟩).inner = t ++ ".+" := by
    rw [Permission.push_of_sep h, h, String.append_assoc]
    rfl
  have hne : t ≠ "" := by
    rintro rfl
    rw [htext, tryFrom_short (by decide)] at hok
    cases hok
  rw [htext, tryFrom_append hne (by decide)] at hok
  cases hok
  rfl

theorem exists_children_of_push {p : Permission} (hne : p.inner ≠ "") {rule : PermRule}
    (hok : tryFrom (p.push ⟨"+"⟩).inner = some (.ok rule)) : ∃ q, rule = .children q := by
  by_cases hsep : ∃ t, p.inner = t ++ "."
  · obtain ⟨t, ht⟩ := hsep
    exact ⟨_, tryFrom_push_of_sep ht hok⟩
  · rw [tryFrom_push_of_not_sep hne hsep] at hok
    cases hok
    exact ⟨p, rfl⟩

/-- `.*` でも、区切りを挟んだ `.+` でも終わらない。 -/
def Plain (s : String) : Prop := (¬ ∃ t, s = t ++ ".*") ∧ ¬ ∃ t, s = t ++ "..+"

theorem plain_iff {head last : String} (hlast : last.utf8ByteSize = 2) :
    Plain (head ++ last) ↔ last ≠ ".*" ∧ (last = ".+" → ¬ ∃ t, head = t ++ ".") := by
  have hdots : ∀ t : String, t ++ "..+" = (t ++ ".") ++ ".+" := by
    intro t
    rw [String.append_assoc]
    rfl
  constructor
  · rintro ⟨hstar, hplus⟩
    refine ⟨?_, ?_⟩
    · rintro rfl
      exact hstar ⟨head, rfl⟩
    · rintro rfl ⟨t, rfl⟩
      exact hplus ⟨t, (hdots t).symm⟩
  · rintro ⟨hstar, hplus⟩
    refine ⟨?_, ?_⟩
    · rintro ⟨t, ht⟩
      exact hstar (append_inj_of_bytes ht (hlast.trans (by decide))).2
    · rintro ⟨t, ht⟩
      rw [hdots] at ht
      obtain ⟨hhead, hl⟩ := append_inj_of_bytes ht (hlast.trans (by decide))
      exact hplus hl ⟨t, hhead⟩

end PermRule

/--
受け付けた文字列が書き出しと読み戻しで元の rule に戻るのは、`.*` でも `..+` でも終わらないとき、
そのときに限る。許すものが元のままであるのも、そのときに限る。
-/
theorem tryFrom_intoString_iff {s : String} {rule : PermRule}
    (h : PermRule.tryFrom s = some (.ok rule)) :
    (PermRule.tryFrom rule.intoString = some (.ok rule) ↔ PermRule.Plain s) ∧
    ((∃ rule', PermRule.tryFrom rule.intoString = some (.ok rule') ∧
      ∀ perm, rule'.matchPerm perm = rule.matchPerm perm) ↔ PermRule.Plain s) := by
  have hround : PermRule.tryFrom rule.intoString = some (.ok rule) ↔ PermRule.Plain s := by
    obtain ⟨head, last, rfl, hhead, hlast, hrule⟩ := PermRule.exists_parts_of_ok h
    rw [PermRule.ofParts] at hrule
    split at hrule
    · next hl =>
      subst hl hrule
      rw [PermRule.plain_iff (by decide)]
      constructor
      · refine fun hok => ⟨by decide, fun _ ⟨t, ht⟩ => ?_⟩
        have heq := PermRule.tryFrom_push_of_sep (p := ⟨head⟩) ht hok
        have hlen := congrArg String.length ht
        cases heq
        simp at hlen
      · rintro ⟨_, hno⟩
        exact PermRule.tryFrom_push_of_not_sep hhead (hno rfl)
    · split at hrule
      · next hl =>
        subst hl hrule
        constructor
        · intro hok
          obtain ⟨q, hq⟩ := PermRule.exists_children_of_push (p := ⟨head⟩) hhead hok
          cases hq
        · intro hplain
          exact absurd ⟨head, rfl⟩ hplain.1
      · next h1 h2 =>
        subst hrule
        rw [PermRule.plain_iff hlast]
        exact ⟨fun _ => ⟨h2, fun hl => absurd hl h1⟩, fun _ => h⟩
  refine ⟨hround, ?_⟩
  constructor
  · rintro ⟨rule', hok, hsame⟩
    rw [PermRule.matchPerm_injective (funext hsame)] at hok
    exact hround.mp hok
  · intro hplain
    exact ⟨rule, hround.mpr hplain, fun _ => rfl⟩

theorem tryFrom_intoString_iff_plus :
    PermRule.tryFrom (PermRule.children ⟨"bffh.perm"⟩).intoString =
      some (.ok (.children ⟨"bffh.perm"⟩)) := by
  have hok : PermRule.tryFrom "bffh.perm.+" = some (.ok (.children ⟨"bffh.perm"⟩)) := by decide
  refine (tryFrom_intoString_iff hok).1.mpr ?_
  rw [show "bffh.perm.+" = "bffh.perm" ++ ".+" from rfl, PermRule.plain_iff (by decide)]
  refine ⟨by decide, ?_⟩
  rintro _ ⟨t, ht⟩
  have hlast := congrArg (fun u : String => u.toList.getLast?) ht
  simp at hlast

/-- 部分木の rule は、書き出して読み戻すと、その権限そのものを許さなくなる。 -/
theorem subtree_reads_back_as_children :
    PermRule.tryFrom "bffh.perm.*" = some (.ok (.subtree ⟨"bffh.perm"⟩)) ∧
    PermRule.tryFrom (PermRule.subtree ⟨"bffh.perm"⟩).intoString =
      some (.ok (.children ⟨"bffh.perm"⟩)) ∧
    (PermRule.subtree ⟨"bffh.perm"⟩).matchPerm ⟨"bffh.perm"⟩ = true ∧
    (PermRule.children ⟨"bffh.perm"⟩).matchPerm ⟨"bffh.perm"⟩ = false := by
  decide

end FabAccess
