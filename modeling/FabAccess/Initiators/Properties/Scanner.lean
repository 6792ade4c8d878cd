import FabAccess.Initiators.Properties.Lines

/-!
# 行を探す loop の位置

`try_process` の loop は位置 `end` から先を探し、行を見つけると `end` に、`end` からの距離 `idx` を
そのまま入れる。`end` が 0 のときだけ、これは行の終わりである。

* `Advances` — 一周ごとの位置の移り変わり
* `scan_advances` — `scan` が返す位置は、移り変わりを辿って着いたところである
* `advances_le_length` — 位置は buffer の長さを超えない
* `oneLine_monotone` — 一行だけの buffer では、位置は戻らない
* `scanner_iff` — 終わり、かつ位置が戻らないのは `OneLine` のとき、そのときに限る
-/

namespace FabAccess

open Infra

variable {β : Type} {handle : β → List UInt8 → β} {acc : β} {b : List UInt8} {e e' : Nat}

/-- 一周した後の位置。改行が見つからなければ、loop は終わる。 -/
def scanNext (buffer : List UInt8) (end' : Nat) : Option Nat :=
  match (buffer.drop end').findIdx? (· == newline) with
  | none => none
  | some idx => some (if idx = 0 then end' + 1 else idx)

/-- 何周かの後の位置。 -/
def Advances (buffer : List UInt8) : Nat → Nat → Prop :=
  Relation.ReflTransGen fun e e' => scanNext buffer e = some e'

/-! ## `scan` との対応 -/

theorem scan_stop (h : scanNext b e = none) (fuel : Nat) :
    scan handle b (fuel + 1) e acc = some (e, acc) := by
  cases hidx : (b.drop e).findIdx? (· == newline) with
  | none => simp only [scan, hidx]
  | some idx => simp [scanNext, hidx] at h

/-- 続く一周は、位置を `scanNext` に移す。 -/
theorem scan_continue (handle : β → List UInt8 → β) (acc : β) (h : scanNext b e = some e')
    (fuel : Nat) :
    ∃ acc', scan handle b (fuel + 1) e acc = scan handle b fuel e' acc' := by
  unfold scanNext at h
  split at h
  · cases h
  · next idx hidx =>
    cases h
    rw [scan, hidx]
    by_cases h0 : idx = 0
    · exact ⟨acc, by simp only [if_pos h0]⟩
    · exact ⟨handle acc ((b.drop e).take idx), by simp only [if_neg h0]⟩

theorem scan_advances {fuel : Nat} {r : Nat × β} (h : scan handle b fuel e acc = some r) :
    Advances b e r.1 := by
  induction fuel generalizing e acc with
  | zero => cases h
  | succ fuel ih =>
    cases hnext : scanNext b e with
    | none =>
      rw [scan_stop hnext] at h
      cases h
      exact .refl
    | some e' =>
      obtain ⟨acc', hcont⟩ := scan_continue handle acc hnext fuel
      rw [hcont] at h
      exact .head hnext (ih h)

theorem scanNext_le_length (h : scanNext b e = some e') : e' ≤ b.length := by
  unfold scanNext at h
  split at h
  · cases h
  · next idx hidx =>
    cases h
    have hlt : idx < (b.drop e).length := (List.findIdx?_eq_some_iff_findIdx_eq.mp hidx).1
    rw [List.length_drop] at hlt
    split <;> omega

/-- 位置は buffer の長さを超えない。`consume` に渡しても、`assert!` に触れない。 -/
theorem advances_le_length (h : Advances b e e') (he : e ≤ b.length) : e' ≤ b.length := by
  cases h.cases_tail with
  | inl heq =>
    rw [heq]
    exact he
  | inr hlast =>
    obtain ⟨e₁, _, hstep⟩ := hlast
    exact scanNext_le_length hstep

theorem scan_le_length {fuel : Nat} {r : Nat × β} (h : scan handle b fuel 0 acc = some r) :
    r.1 ≤ b.length :=
  advances_le_length (scan_advances h) (Nat.zero_le _)

/-! ## 位置の戻り -/

/-- 一周は、改行を一つ越えるか、空でない行を見つけて、その長さを位置にするかである。 -/
theorem scanNext_cases (h : scanNext b e = some e') :
    (∃ rest, b.drop e = newline :: rest ∧ e' = e + 1) ∨
    ∃ seg x post, b.drop e = seg ++ x :: newline :: post ∧ newline ∉ seg ∧ x ≠ newline ∧
      e' = seg.length + 1 := by
  unfold scanNext at h
  by_cases hmem : newline ∈ b.drop e
  · obtain ⟨line, post, heq, hline⟩ := List.eq_append_cons_of_mem hmem
    rw [heq, findIdx?_newline_append hline] at h
    cases h
    rcases List.eq_nil_or_concat line with rfl | ⟨seg, x, rfl⟩
    · exact Or.inl ⟨post, heq, rfl⟩
    · rw [List.concat_eq_append, List.mem_append, List.mem_singleton, not_or] at hline
      refine Or.inr ⟨seg, x, post, ?_, hline.1, Ne.symm hline.2, ?_⟩
      · rw [heq, List.concat_eq_append, List.append_assoc, List.singleton_append]
      · rw [List.length_concat, if_neg (Nat.succ_ne_zero _)]
  · rw [findIdx?_newline_none hmem] at h
    cases h

/-- 一行だけの buffer で、loop のいる位置。初めか、改行のあるところか、改行より後である。 -/
def Settled (b : List UInt8) (e : Nat) : Prop :=
  e = 0 ∨ newline ∈ b.take e ∨ ∃ rest, b.drop e = newline :: rest

/-- 空でない行が見つかるのは、初めからだけである。 -/
theorem Settled.line_at_start (h : OneLine b) (he : Settled b e) {seg post : List UInt8} {x : UInt8}
    (hdrop : b.drop e = seg ++ x :: newline :: post) (hseg : newline ∉ seg) (hx : x ≠ newline) :
    e = 0 := by
  rcases he with rfl | hmem | ⟨rest, hhead⟩
  · rfl
  -- 改行の後に空でない行があることは、`OneLine` に反する
  · refine absurd (List.mem_append_left seg hmem) (h (b.take e ++ seg) x post ?_ hx)
    rw [List.append_assoc, ← hdrop, List.take_append_drop]
  · rw [hdrop] at hhead
    cases seg with
    | nil => exact absurd (List.cons.inj hhead).1 hx
    | cons y seg =>
      obtain ⟨rfl, _⟩ := List.cons.inj hhead
      exact absurd (List.mem_cons_self ..) hseg

theorem settled_of_advances (h : OneLine b) (hadv : Advances b 0 e) : Settled b e := by
  induction hadv with
  | refl => exact Or.inl rfl
  | @tail e e' _ hnext ih =>
    rcases scanNext_cases hnext with ⟨rest, hdrop, rfl⟩ | ⟨seg, x, post, hdrop, hseg, hx, rfl⟩
    · refine Or.inr (Or.inl ?_)
      rw [List.take_add, hdrop]
      simp
    · obtain rfl := ih.line_at_start h hdrop hseg hx
      refine Or.inr (Or.inr ⟨post, ?_⟩)
      rw [List.drop_zero] at hdrop
      rw [hdrop, List.append_cons]
      exact List.drop_left' (by simp)

/-- 一行だけの buffer では、位置は戻らない。 -/
theorem oneLine_monotone (h : OneLine b) (hadv : Advances b 0 e) (hnext : scanNext b e = some e') :
    e ≤ e' := by
  rcases scanNext_cases hnext with ⟨rest, _, rfl⟩ | ⟨seg, x, post, hdrop, hseg, hx, rfl⟩
  · exact Nat.le_succ e
  · obtain rfl := (settled_of_advances h hadv).line_at_start h hdrop hseg hx
    exact Nat.zero_le _

/-! ## 終わること -/

/-- 終わった loop は、一行だけの buffer を読んでいる。 -/
theorem oneLine_of_tryProcess {parse : String → Option Status} {fuel : Nat} {b : List UInt8}
    {callbacks : Callbacks} {r : Nat × Callbacks}
    (h : tryProcess parse fuel b callbacks = some r) : OneLine b := by
  by_contra hnot
  rw [tryProcess, scan_diverges hnot] at h
  cases h

/-- loop は終わり、位置は戻らず、返す数は buffer の長さを超えない。 -/
structure ScansWell (parse : String → Option Status) (b : List UInt8) (callbacks : Callbacks) :
    Prop where
  ends : ∃ fuel r, tryProcess parse fuel b callbacks = some r
  forward : ∀ e e', Advances b 0 e → scanNext b e = some e' → e ≤ e'
  bounded : ∀ fuel r, tryProcess parse fuel b callbacks = some r → r.1 ≤ b.length

/--
どの buffer についても、`try_process` の loop が終わり、位置が戻らず、返す数が buffer の長さを
超えないのは、空でない行が高々一つで、その前に改行が無いとき、そのときに限る。
-/
theorem scanner_iff (parse : String → Option Status) (b : List UInt8) (callbacks : Callbacks) :
    ScansWell parse b callbacks ↔ OneLine b := by
  constructor
  · intro h
    obtain ⟨fuel, r, hscan⟩ := h.ends
    exact oneLine_of_tryProcess hscan
  · intro hone
    obtain ⟨e, _, _, hscan⟩ := scan_oneLine hone (processLine parse) callbacks
    exact ⟨⟨b.length + 2, _, hscan _ (Nat.le_refl _)⟩, fun _ _ => oneLine_monotone hone,
      fun _ _ hr => scan_le_length hr⟩

/-- 二行 `a`・`b` では、二行目の後で位置が 2 から 1 に戻り、loop は終わらない。 -/
theorem second_line_goes_back :
    Advances "a\nb\n".toUTF8.data.toList 0 2 ∧ scanNext "a\nb\n".toUTF8.data.toList 2 = some 1 ∧
    ¬ ScansWell (fun _ => none) "a\nb\n".toUTF8.data.toList ⟨[], []⟩ := by
  have hfirst : scanNext "a\nb\n".toUTF8.data.toList 0 = some 1 := by decide +kernel
  have hsecond : scanNext "a\nb\n".toUTF8.data.toList 1 = some 2 := by decide +kernel
  have hback : scanNext "a\nb\n".toUTF8.data.toList 2 = some 1 := by decide +kernel
  have hadv : Advances "a\nb\n".toUTF8.data.toList 0 2 := .tail (.single hfirst) hsecond
  refine ⟨hadv, hback, fun h => ?_⟩
  exact absurd (h.forward 2 1 hadv hback) (by decide)

end FabAccess
