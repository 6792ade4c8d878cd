import FabAccess.Lightproc.Layout

/-!
# proc の部分は重ならない

`padding_needed_for` は回り込む演算で書かれているが、`align` は 2 の冪で word の大きさを割るので、
途中で回り込んでも隙間は正しい。

* `extend_spec` — `extend` の返すもの
* `proc_layout_fits` — 四つの部分は、揃った位置に、重ならずに、全体の中に置かれる
* `fromPtr_aligned` — 揃った番地から始まれば、四つの pointer も揃う
-/

namespace FabAccess.Lightproc

open Infra

variable {w : Nat} {a b : BitVec w} {layout next l : Layout w} {off : BitVec w}

/-! ## 2 の冪の大小 -/

theorem toNat_cmpMax (a b : BitVec w) : (cmpMax a b).toNat = max a.toNat b.toNat := by
  unfold cmpMax
  by_cases h : a ≤ b
  · rw [if_pos h, Nat.max_eq_right (BitVec.le_def.mp h)]
  · rw [if_neg h, Nat.max_eq_left (by rw [BitVec.le_def] at h; omega)]

theorem dvd_max {m n : Nat} (hm : m.isPowerOfTwo) (hn : n.isPowerOfTwo) :
    m ∣ max m n ∧ n ∣ max m n := by
  obtain ⟨i, rfl⟩ := hm
  obtain ⟨j, rfl⟩ := hn
  rcases Nat.le_total i j with h | h
  · rw [Nat.max_eq_right (Nat.pow_le_pow_right (by decide) h)]
    exact ⟨Nat.pow_dvd_pow 2 h, Nat.dvd_refl _⟩
  · rw [Nat.max_eq_left (Nat.pow_le_pow_right (by decide) h)]
    exact ⟨Nat.dvd_refl _, Nat.pow_dvd_pow 2 h⟩

theorem dvd_cmpMax (ha : a.toNat.isPowerOfTwo) (hb : b.toNat.isPowerOfTwo) :
    a.toNat ∣ (cmpMax a b).toNat ∧ b.toNat ∣ (cmpMax a b).toNat := by
  rw [toNat_cmpMax]
  exact dvd_max ha hb

/-! ## 一つの `extend` -/

/-- **`padding_needed_for` は、いつも次の境界までの隙間を返す。** -/
theorem toNat_paddingNeededFor (layout : Layout w) {align : BitVec w}
    (h : align.toNat.isPowerOfTwo) :
    (paddingNeededFor layout align).toNat = padding layout.size.toNat align.toNat := by
  obtain ⟨k, hk⟩ := h
  rw [paddingNeededFor, toNat_padding hk, hk]

theorem checkedAdd_eq_some {c : BitVec w} (h : checkedAdd a b = some c) :
    c.toNat = a.toNat + b.toNat := by
  unfold checkedAdd at h
  split at h
  · next hlt =>
    cases h
    exact BitVec.toNat_add_of_lt hlt
  · cases h

/-- `next` は隙間を置いて後ろに付く。 -/
theorem extend_spec (h : extend layout next = some (l, off)) :
    off.toNat = layout.size.toNat + padding layout.size.toNat next.align.toNat ∧
    l.size.toNat = off.toNat + next.size.toNat ∧
    l.align = cmpMax layout.align next.align ∧
    l.size.toNat + l.align.toNat ≤ 2 ^ (w - 1) := by
  unfold extend at h
  dsimp only at h
  split at h
  · cases h
  · next offset hoffset =>
    split at h
    · cases h
    · next newSize hsize =>
      unfold Layout.fromSizeAlign at h
      split at h
      · cases h
      · next made hmade =>
        split at hmade
        · next hvalid =>
          cases hmade
          cases h
          refine ⟨?_, checkedAdd_eq_some hsize, rfl, hvalid.2⟩
          rw [checkedAdd_eq_some hoffset, toNat_paddingNeededFor layout next.pow]
        · cases hmade

/-- `next` は揃い、前の部分とは `next` の境界より狭い隙間しか空けない。 -/
theorem extend_placed (h : extend layout next = some (l, off)) :
    next.align.toNat ∣ off.toNat ∧ layout.size.toNat ≤ off.toNat ∧
    off.toNat - layout.size.toNat < next.align.toNat := by
  obtain ⟨hoff, -⟩ := extend_spec h
  have hpos : 0 < next.align.toNat := Nat.pos_of_isPowerOfTwo next.pow
  have hlt : padding layout.size.toNat next.align.toNat < next.align.toNat := padding_lt hpos
  rw [hoff]
  exact ⟨dvd_add_padding hpos, Nat.le_add_right _ _, by omega⟩

/-! ## 全体 -/

/-- 四つの部分の置かれ方。 -/
structure ProcLayout.Fits (p : ProcLayout w) (pdata schedule future output : Layout w) : Prop where
  schedule_aligned : schedule.align.toNat ∣ p.offsetSchedule.toNat
  future_aligned : future.align.toNat ∣ p.offsetFuture.toNat
  output_aligned : output.align.toNat ∣ p.offsetOutput.toNat
  schedule_after : pdata.size.toNat ≤ p.offsetSchedule.toNat
  future_after : p.offsetSchedule.toNat + schedule.size.toNat ≤ p.offsetFuture.toNat
  /-- future と output は同じ場所を使う -/
  shared : p.offsetOutput = p.offsetFuture
  future_inside : p.offsetFuture.toNat + future.size.toNat ≤ p.layout.size.toNat
  output_inside : p.offsetOutput.toNat + output.size.toNat ≤ p.layout.size.toNat
  schedule_gap : p.offsetSchedule.toNat - pdata.size.toNat < schedule.align.toNat
  future_gap : p.offsetFuture.toNat - (p.offsetSchedule.toNat + schedule.size.toNat) <
    max future.align.toNat output.align.toNat
  align_le : pdata.align.toNat ≤ p.layout.align.toNat ∧
    schedule.align.toNat ≤ p.layout.align.toNat ∧ future.align.toNat ≤ p.layout.align.toNat ∧
    output.align.toNat ≤ p.layout.align.toNat

variable {pdata schedule future output : Layout w} {p : ProcLayout w}

theorem procLayout_cases (h : procLayout pdata schedule future output = some p) :
    ∃ (layout union : Layout w) (off : BitVec w), union.size = cmpMax future.size output.size ∧
      union.align = cmpMax future.align output.align ∧
      extend pdata schedule = some (layout, p.offsetSchedule) ∧
      extend layout union = some (p.layout, off) ∧ p.offsetFuture = off ∧ p.offsetOutput = off := by
  unfold procLayout at h
  dsimp only at h
  split at h
  · cases h
  · next layout offsetSchedule hschedule =>
    split at h
    · cases h
    · next whole offsetUnion hunion =>
      cases h
      exact ⟨layout, _, offsetUnion, rfl, rfl, hschedule, hunion, rfl, rfl⟩

theorem fits_of_procLayout (h : procLayout pdata schedule future output = some p) :
    p.Fits pdata schedule future output := by
  obtain ⟨layout, union, off, hsize, halign, hschedule, hunion, hfuture, houtput⟩ :=
    procLayout_cases h
  obtain ⟨hsdvd, hsafter, hsgap⟩ := extend_placed hschedule
  obtain ⟨hudvd, huafter, hugap⟩ := extend_placed hunion
  obtain ⟨-, hssize, hsalign, -⟩ := extend_spec hschedule
  obtain ⟨-, husize, hualign, -⟩ := extend_spec hunion
  obtain ⟨hfdvd, hodvd⟩ := dvd_cmpMax future.pow output.pow
  rw [halign] at hudvd hualign hugap
  rw [hsize, toNat_cmpMax] at husize
  rw [hsalign] at hualign
  rw [hssize] at huafter hugap
  exact {
    schedule_aligned := hsdvd
    future_aligned := by rw [hfuture]; exact Nat.dvd_trans hfdvd hudvd
    output_aligned := by rw [houtput]; exact Nat.dvd_trans hodvd hudvd
    schedule_after := hsafter
    future_after := by rw [hfuture]; exact huafter
    shared := by rw [hfuture, houtput]
    future_inside := by rw [hfuture, husize]; omega
    output_inside := by rw [houtput, husize]; omega
    schedule_gap := hsgap
    future_gap := by rw [hfuture, ← toNat_cmpMax]; exact hugap
    align_le := by
      rw [hualign]
      simp only [toNat_cmpMax]
      omega }

/--
**`proc_layout` が panic しなければ、四つの部分は揃った位置に、重ならずに、全体の中に置かれる。**
隙間の計算は、どの `size` とどの 2 の冪についても正しい。
-/
theorem proc_layout_fits (pdata schedule future output : Layout w) :
    (∀ p, procLayout pdata schedule future output = some p →
      p.Fits pdata schedule future output) ∧
    ∀ (layout : Layout w) (align : BitVec w), align.toNat.isPowerOfTwo →
      (paddingNeededFor layout align).toNat =
        (align.toNat - layout.size.toNat % align.toNat) % align.toNat :=
  ⟨fun _ => fits_of_procLayout, fun layout _ => toNat_paddingNeededFor layout⟩

/-- 大きさの違う四つの layout。future だけが 16 の境界を要る。 -/
def smallLayouts : Layout 64 × Layout 64 × Layout 64 × Layout 64 :=
  (⟨72, 8, ⟨3, rfl⟩⟩, ⟨12, 4, ⟨2, rfl⟩⟩, ⟨40, 16, ⟨4, rfl⟩⟩, ⟨1, 1, ⟨0, rfl⟩⟩)

theorem proc_layout_fits_small :
    ∃ p, procLayout smallLayouts.1 smallLayouts.2.1 smallLayouts.2.2.1 smallLayouts.2.2.2 = some p ∧
      p.offsetSchedule = 72 ∧ p.offsetFuture = 96 ∧ p.layout.size = 136 ∧
      p.Fits smallLayouts.1 smallLayouts.2.1 smallLayouts.2.2.1 smallLayouts.2.2.2 := by
  have hsome : (procLayout smallLayouts.1 smallLayouts.2.1 smallLayouts.2.2.1
      smallLayouts.2.2.2).isSome = true := by decide
  obtain ⟨p, hp⟩ := Option.isSome_iff_exists.mp hsome
  have hplaced : (procLayout smallLayouts.1 smallLayouts.2.1 smallLayouts.2.2.1
      smallLayouts.2.2.2).map (fun p => (p.offsetSchedule, p.offsetFuture, p.layout.size)) =
      some (72, 96, 136) := by decide
  rw [hp, Option.map_some, Option.some.injEq, Prod.mk.injEq, Prod.mk.injEq] at hplaced
  exact ⟨p, hp, hplaced.1, hplaced.2.1, hplaced.2.2, (proc_layout_fits _ _ _ _).1 p hp⟩

/-! ## pointer -/

theorem dvd_toNat_add {p off : BitVec w} {align : Nat} (h : align.isPowerOfTwo)
    (hle : align ≤ 2 ^ w) (hp : align ∣ p.toNat) (hoff : align ∣ off.toNat) :
    align ∣ (p + off).toNat := by
  obtain ⟨k, rfl⟩ := h
  have hkw : k ≤ w := (Nat.pow_le_pow_iff_right (by decide)).mp hle
  rw [BitVec.toNat_add]
  exact (Nat.dvd_mod_iff (Nat.pow_dvd_pow 2 hkw)).mpr (Nat.dvd_add hp hoff)

/-- 揃った番地から始まれば、四つの pointer はそれぞれの型の境界に揃う。 -/
theorem fromPtr_aligned (h : procLayout pdata schedule future output = some p) {ptr : BitVec w}
    (hptr : p.layout.align.toNat ∣ ptr.toNat) :
    pdata.align.toNat ∣ (fromPtr p ptr).pdata.toNat ∧
    schedule.align.toNat ∣ (fromPtr p ptr).schedule.toNat ∧
    future.align.toNat ∣ (fromPtr p ptr).future.toNat ∧
    output.align.toNat ∣ (fromPtr p ptr).output.toNat := by
  have hfits := fits_of_procLayout h
  have hdvd : ∀ l : Layout w, l.align.toNat ≤ p.layout.align.toNat →
      l.align.toNat ∣ ptr.toNat := by
    intro l hle
    obtain ⟨i, hi⟩ := l.pow
    obtain ⟨j, hj⟩ := p.layout.pow
    rw [hi, hj] at hle
    have hij : i ≤ j := (Nat.pow_le_pow_iff_right (by decide)).mp hle
    refine Nat.dvd_trans ?_ hptr
    rw [hi, hj]
    exact Nat.pow_dvd_pow 2 hij
  obtain ⟨hpd, hs, hf, ho⟩ := hfits.align_le
  exact ⟨hdvd pdata hpd,
    dvd_toNat_add schedule.pow schedule.align.isLt.le (hdvd schedule hs) hfits.schedule_aligned,
    dvd_toNat_add future.pow future.align.isLt.le (hdvd future hf) hfits.future_aligned,
    dvd_toNat_add output.pow output.align.isLt.le (hdvd output ho) hfits.output_aligned⟩

end FabAccess.Lightproc
