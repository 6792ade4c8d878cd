import FabAccess.Executor.Block

/-!
# `block` は起こされ損ねない

入れ子の呼び出しが同じ parker を使うと、内側の `park` が外側への `unpark` を飲み込む。

* `blockStep_sound` — 一歩は `Blocked.Sound` を保つ
* `block_never_misses_wake` — どの順の実行でも、動いている呼び出しの parker はどれも違い、呼ばれた
  waker は parker が覚えている
-/

namespace FabAccess.Executor

open Infra

/-- 使っている parker と、覚えている parker。 -/
def Blocked.inUse (s : Blocked) : List Nat := s.frames.map Frame.parker ++ s.cache.toList

structure Blocked.Sound (s : Blocked) : Prop where
  nodup : s.inUse.Nodup
  made : ∀ p ∈ s.inUse, p < s.made
  notified : ∀ f ∈ s.frames, f.woken = true → s.notified f.parker = true

theorem wake_parker (parker : Nat) (f : Frame) : (f.wake parker).parker = f.parker := by
  unfold Frame.wake
  split <;> rfl

theorem map_wake_parker (parker : Nat) (frames : List Frame) :
    (frames.map (Frame.wake parker)).map Frame.parker = frames.map Frame.parker := by
  rw [List.map_map]
  exact List.map_congr_left fun f _ => wake_parker parker f

section

variable {cache : Option Nat} {f : Frame} {frames rest : List Frame} {notified : Nat → Bool}
  {made : Nat}

/-- 覚えていた parker で始まる呼び出し。parker は先頭に移るだけである。 -/
theorem Blocked.Sound.reuse {parker : Nat}
    (h : Blocked.Sound ⟨some parker, frames, notified, made⟩) :
    Blocked.Sound ⟨none, ⟨parker, .polling, false⟩ :: frames, notified, made⟩ := by
  obtain ⟨hnodup, hmade, hnotified⟩ := h
  have hperm : (parker :: frames.map Frame.parker ++ ([] : List Nat)).Perm
      (frames.map Frame.parker ++ [parker]) := by
    rw [List.append_nil]
    exact (List.perm_append_singleton parker _).symm
  refine ⟨hperm.nodup_iff.mpr hnodup, fun p hp => hmade p (hperm.mem_iff.mp hp), ?_⟩
  intro g hg hwoken
  rcases List.mem_cons.mp hg with rfl | hg
  · cases hwoken
  · exact hnotified g hg hwoken

/-- 新しい parker で始まる呼び出し。 -/
theorem Blocked.Sound.create (h : Blocked.Sound ⟨none, frames, notified, made⟩) :
    Blocked.Sound ⟨none, ⟨made, .polling, false⟩ :: frames, notified, made + 1⟩ := by
  obtain ⟨hnodup, hmade, hnotified⟩ := h
  refine ⟨?_, fun p hp => ?_, ?_⟩
  · refine List.nodup_cons.mpr ⟨fun hmem => ?_, hnodup⟩
    exact absurd (hmade made hmem) (Nat.lt_irrefl made)
  · rcases List.mem_cons.mp hp with heq | hp
    · rw [heq]
      exact Nat.lt_succ_self made
    · exact Nat.lt_succ_of_lt (hmade p hp)
  · intro g hg hwoken
    rcases List.mem_cons.mp hg with rfl | hg
    · cases hwoken
    · exact hnotified g hg hwoken

theorem Blocked.Sound.pending (h : Blocked.Sound ⟨cache, f :: rest, notified, made⟩) :
    Blocked.Sound ⟨cache, { f with pc := .parking } :: rest, notified, made⟩ := by
  obtain ⟨hnodup, hmade, hnotified⟩ := h
  refine ⟨hnodup, hmade, fun g hg hwoken => ?_⟩
  rcases List.mem_cons.mp hg with rfl | hg
  · exact hnotified f (List.mem_cons_self ..) hwoken
  · exact hnotified g (List.mem_cons_of_mem _ hg) hwoken

/-- `poll` が `Ready` を返した呼び出しの parker は、次のために覚えられる。 -/
theorem Blocked.Sound.ready (h : Blocked.Sound ⟨cache, f :: rest, notified, made⟩) :
    Blocked.Sound ⟨some f.parker, rest, notified, made⟩ := by
  obtain ⟨hnodup, hmade, hnotified⟩ := h
  have hperm : (rest.map Frame.parker ++ [f.parker]).Perm
      (f.parker :: rest.map Frame.parker) := List.perm_append_singleton ..
  have hsub : (f.parker :: rest.map Frame.parker).Sublist
      (f.parker :: rest.map Frame.parker ++ cache.toList) := List.sublist_append_left ..
  refine ⟨hperm.nodup_iff.mpr (hnodup.sublist hsub), fun p hp => ?_, fun g hg => ?_⟩
  · exact hmade p (hsub.subset (hperm.mem_iff.mp hp))
  · exact hnotified g (List.mem_cons_of_mem _ hg)

theorem Blocked.Sound.unwind (h : Blocked.Sound ⟨cache, f :: rest, notified, made⟩) :
    Blocked.Sound ⟨cache, rest, notified, made⟩ := by
  obtain ⟨hnodup, hmade, hnotified⟩ := h
  refine ⟨(List.nodup_cons.mp hnodup).2, fun p hp => ?_, fun g hg => ?_⟩
  · exact hmade p (List.mem_cons_of_mem _ hp)
  · exact hnotified g (List.mem_cons_of_mem _ hg)

/-- `park` が返ると、その parker の `unpark` だけが消える。 -/
theorem Blocked.Sound.resume (h : Blocked.Sound ⟨cache, f :: rest, notified, made⟩) :
    Blocked.Sound ⟨cache, ⟨f.parker, .polling, false⟩ :: rest,
      fun p => if p = f.parker then false else notified p, made⟩ := by
  obtain ⟨hnodup, hmade, hnotified⟩ := h
  refine ⟨hnodup, hmade, fun g hg hwoken => ?_⟩
  rcases List.mem_cons.mp hg with rfl | hg
  · cases hwoken
  -- 外側の呼び出しの parker は違うので、その `unpark` は残る
  have hne : g.parker ≠ f.parker := by
    intro heq
    refine (List.nodup_cons.mp hnodup).1 (List.mem_append_left _ ?_)
    rw [← heq]
    exact List.mem_map.mpr ⟨g, hg, rfl⟩
  show (if g.parker = f.parker then false else notified g.parker) = true
  rw [if_neg hne]
  exact hnotified g (List.mem_cons_of_mem _ hg) hwoken

theorem Blocked.Sound.wake (parker : Nat) (h : Blocked.Sound ⟨cache, frames, notified, made⟩) :
    Blocked.Sound ⟨cache, frames.map (Frame.wake parker),
      fun p => if p = parker then true else notified p, made⟩ := by
  obtain ⟨hnodup, hmade, hnotified⟩ := h
  have hsame : (Blocked.inUse ⟨cache, frames.map (Frame.wake parker),
      fun p => if p = parker then true else notified p, made⟩) =
      Blocked.inUse ⟨cache, frames, notified, made⟩ := by
    show (frames.map (Frame.wake parker)).map Frame.parker ++ cache.toList = _
    rw [map_wake_parker]
    rfl
  refine ⟨hsame ▸ hnodup, fun p hp => hmade p (hsame ▸ hp), fun g hg hwoken => ?_⟩
  obtain ⟨g₀, hg₀, rfl⟩ := List.mem_map.mp hg
  show (if (g₀.wake parker).parker = parker then true else notified (g₀.wake parker).parker) = true
  rw [wake_parker]
  split
  · rfl
  · next hne =>
    rw [Frame.wake, if_neg hne] at hwoken
    exact hnotified g₀ hg₀ hwoken

end

theorem blockStep_sound {s s' : Blocked} {op : BlockOp} (h : s.Sound)
    (hstep : blockStep s op = some s') : s'.Sound := by
  obtain ⟨cache, frames, notified, made⟩ := s
  cases op with
  | call =>
    simp only [blockStep] at hstep
    split at hstep
    · cases cache with
      | some parker =>
        cases hstep
        exact h.reuse
      | none =>
        cases hstep
        exact h.create
    · cases hstep
  | wake parker =>
    simp only [blockStep] at hstep
    split at hstep
    · cases hstep
      exact h.wake parker
    · cases hstep
  | pending | ready | unwind | resume =>
    cases frames with
    | nil => cases hstep
    | cons f rest =>
      simp only [blockStep] at hstep
      split at hstep
      · cases hstep
        first | exact h.pending | exact h.ready | exact h.unwind | exact h.resume
      · cases hstep

theorem start_sound : Blocked.start.Sound where
  nodup := List.nodup_nil
  made _ hp := nomatch hp
  notified _ hf := nomatch hf

/--
**どの順の実行でも、`block` は起こされ損ねない。**

入れ子の呼び出しの parker はどれも違い、次の呼び出しのために覚えている parker とも違う。最後の `poll` が
始まった後で waker が呼ばれたなら、内側の呼び出しがいくつ始まって終わり、眠って起きた後でも、眠った
呼び出しはまた `poll` できる。
-/
theorem block_never_misses_wake (ops : List BlockOp) (s : Blocked)
    (hrun : runFrom blockStep Blocked.start ops = some s) :
    s.inUse.Nodup ∧ (∀ f ∈ s.frames, f.woken = true → s.notified f.parker = true) ∧
      ∀ f rest, s.frames = f :: rest → f.pc = .parking → f.woken = true →
        (blockStep s .resume).isSome := by
  have hsound := run_invariant (fun _ _ _ => blockStep_sound) start_sound hrun
  refine ⟨hsound.nodup, hsound.notified, fun f rest hframes hpc hwoken => ?_⟩
  have hn := hsound.notified f (by rw [hframes]; exact List.mem_cons_self ..) hwoken
  simp only [blockStep, hframes]
  rw [if_pos ⟨hpc, hn⟩]
  rfl

/-- 外側の `poll` の中で内側の呼び出しが眠り、その間に外側の waker も内側の waker も呼ばれる。 -/
def nestedBlock : List BlockOp :=
  [.call, .call, .pending, .wake 0, .wake 1, .resume, .ready, .pending]

theorem block_never_misses_wake_nested :
    ∃ s, runFrom blockStep Blocked.start nestedBlock = some s ∧ s.frames = [⟨0, .parking, true⟩] ∧
      s.inUse.Nodup ∧ (∀ f ∈ s.frames, f.woken = true → s.notified f.parker = true) ∧
      ∀ f rest, s.frames = f :: rest → f.pc = .parking → f.woken = true →
        (blockStep s .resume).isSome := by
  have h : (runFrom blockStep Blocked.start nestedBlock).map Blocked.frames =
      some [⟨0, .parking, true⟩] := by decide
  obtain ⟨s, hrun, hframes⟩ := Option.map_eq_some_iff.mp h
  exact ⟨s, hrun, hframes, block_never_misses_wake nestedBlock s hrun⟩

end FabAccess.Executor
