import FabAccess.Lightproc.State

/-!
# proc の局面

state word の四つの flag（SCHEDULED・RUNNING・COMPLETED・CLOSED）と、存在する `LightProc` の数 `q`、
走っている `tick` の数 `r` の間の関係だけを取り出したもの。

```
   wake              start              again / idle
 ┄┄┄┄┄→ scheduled ┄┄┄┄┄→ running ┄┄┄┄┄→ scheduled / 休み
                              ┊ complete        close（どこからでも）
                              ↓
                          completed
```

`LightProc` は高々一つで、生きている間は SCHEDULED か RUNNING の立っていることと一致し、
RUNNING は `tick` の途中であることと一致する。完了すると `LightProc` は無くなり、
閉じられた proc は走っていない。
-/

namespace FabAccess.Lightproc

open StateFlags

structure Phase (f : StateFlags) (q r : Nat) : Prop where
  one : q ≤ 1
  le : r ≤ q
  scheduled : f.closed = false → f.completed = false → q = (f.scheduled || f.running).toNat
  running : f.closed = false → f.completed = false → r = f.running.toNat
  completed : f.completed = true → q = 0
  closed : f.closed = true → r = 0

namespace Phase

variable {f f' : StateFlags} {q r q' r' : Nat}

theorem congr (h : Phase f q r) (hs : f'.scheduled = f.scheduled) (hr : f'.running = f.running)
    (hd : f'.completed = f.completed) (hc : f'.closed = f.closed) : Phase f' q r := by
  refine ⟨h.one, h.le, ?_, ?_, ?_, ?_⟩
  · rw [hs, hr, hd, hc]; exact h.scheduled
  · rw [hr, hd, hc]; exact h.running
  · rw [hd]; exact h.completed
  · rw [hc]; exact h.closed

theorem cast (h : Phase f q r) (hq : q = q') (hr : r = r') : Phase f q' r' := by
  subst hq hr
  exact h

/-- `LightProc` があるなら、完了していない。 -/
theorem not_completed (h : Phase f q r) (hq : 0 < q) : f.completed = false := by
  cases hd : f.completed with
  | false => rfl
  | true =>
    have := h.completed hd
    omega

/-- 走っているなら、閉じられていない。 -/
theorem not_closed (h : Phase f q r) (hr : 0 < r) : f.closed = false := by
  cases hc : f.closed with
  | false => rfl
  | true =>
    have := h.closed hc
    omega

theorem start (h : Phase f q r) (hc : f.closed = false) (hq : r < q) :
    Phase ((f &&& ~~~SCHEDULED) ||| RUNNING) q (r + 1) := by
  have hone := h.one
  have hd := h.not_completed (by omega)
  refine ⟨hone, hq, ?_, ?_, ?_, ?_⟩ <;> simp [SCHEDULED, RUNNING, hc, hd] <;> omega

theorem complete (h : Phase f (q + 1) (r + 1)) : Phase (f ||| COMPLETED) q r := by
  have hone := h.one
  have hle := h.le
  refine ⟨by omega, by omega, ?_, ?_, ?_, fun _ => by omega⟩ <;> simp [COMPLETED]
  omega

theorem again (h : Phase f q (r + 1)) (hs : f.scheduled = true) : Phase (f &&& ~~~RUNNING) q r := by
  have hone := h.one
  have hle := h.le
  have hc := h.not_closed (by omega)
  have hd := h.not_completed (by omega)
  refine ⟨by omega, by omega, ?_, ?_, ?_, ?_⟩ <;> simp [RUNNING, hs, hc, hd] <;> omega

theorem idle (h : Phase f (q + 1) (r + 1)) (hs : f.scheduled = false) :
    Phase (f &&& ~~~RUNNING) q r := by
  have hone := h.one
  have hle := h.le
  have hc := h.not_closed (by omega)
  have hd := h.not_completed (by omega)
  refine ⟨by omega, by omega, ?_, ?_, ?_, ?_⟩ <;> simp [RUNNING, hs, hc, hd] <;> omega

theorem wake (h : Phase f q r) (hc : f.closed = false) (hd : f.completed = false)
    (hs : f.scheduled = false) (hr : f.running = false) : Phase (f ||| SCHEDULED) (q + 1) r := by
  have hq := h.scheduled hc hd
  have hr' := h.running hc hd
  rw [hs, hr] at hq
  rw [hr] at hr'
  simp only [Bool.or_self, Bool.toNat_false] at hq hr'
  refine ⟨by omega, by omega, ?_, ?_, ?_, ?_⟩ <;> simp [SCHEDULED, hc, hd, hr] <;> omega

theorem mark (h : Phase f q r) (hr : f.running = true) : Phase (f ||| SCHEDULED) q r := by
  refine ⟨h.one, h.le, fun hc hd => ?_, fun hc hd => ?_, ?_, ?_⟩
  · simp only [or_closed, or_completed, SCHEDULED, Bool.or_false] at hc hd
    simpa [SCHEDULED, hr] using h.scheduled hc hd
  · simp only [or_closed, or_completed, SCHEDULED, Bool.or_false] at hc hd
    simpa [SCHEDULED] using h.running hc hd
  · simpa [SCHEDULED] using h.completed
  · simpa [SCHEDULED] using h.closed

/-- 走っていない proc を閉じる。`LightProc` は残ってもよい。 -/
theorem close (h : Phase f q r) (hd : f.completed = false) (hq : q' ≤ q) :
    Phase (f ||| CLOSED) q' 0 := by
  have hone := h.one
  refine ⟨by omega, by omega, ?_, ?_, ?_, ?_⟩ <;> simp [CLOSED, hd]

theorem close_completed (h : Phase f q r) (hd : f.completed = true) : Phase (f ||| CLOSED) q r := by
  have hq := h.completed hd
  have hle := h.le
  refine ⟨by omega, by omega, ?_, ?_, ?_, ?_⟩ <;> simp [CLOSED, hd] <;> omega

/-- 終わった proc の `LightProc` を手放す。 -/
theorem release (h : Phase f (q + 1) r) (hdead : f.completed = true ∨ f.closed = true)
    (hr : r ≤ q) : Phase f q r := by
  have hone := h.one
  have hd := h.not_completed (by omega)
  rcases hdead with hd' | hc
  · rw [hd] at hd'
    cases hd'
  · have hr0 := h.closed hc
    refine ⟨by omega, by omega, ?_, ?_, ?_, fun _ => hr0⟩ <;> simp [hc, hd]

end Phase

end FabAccess.Lightproc
