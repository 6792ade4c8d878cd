import FabAccess.Lightproc.Awaiter

/-!
# awaiter の lock は排他的でない

`swap_awaiter` の loop は、`fetch_or` の返す元の word が locked のときに抜ける。
一人で動く thread は二周目で必ず抜けるが、ほかの thread が中にいるときも同じように抜ける。

排他が保たれる実行は、誰かが中にいる間に `fetch_or` を行う thread の無い実行と
ちょうど一致する（`exclusive_iff_noIntrusion`）。
-/

namespace FabAccess.Lightproc

open Infra System StateFlags

variable {W : Type}

/-- loop を抜けてから lock を放すまでの間にいる。 -/
def Swap.inside : Swap W → Nat
  | .replace _ | .release _ _ => 1
  | .acquire _ | .returned _ => 0

def insiders (c : Config (AwaiterCell W) (Swap W)) : Nat := total Swap.inside c.threads

/-- 一歩の後で、中にいる thread は高々一つである。 -/
def Exclusive (c : Config (AwaiterCell W) (Swap W)) (m : Move (Option W) Unit) : Prop :=
  ∀ c', (swaps W).step c m = some c' → insiders c' ≤ 1

/-- `fetch_or` は、誰も中にいないときにだけ行われる。 -/
def NoIntrusion (c : Config (AwaiterCell W) (Swap W)) : Move (Option W) Unit → Prop
  | .spawn _ => True
  | .exec n _ => ∀ new ∈ c.threads[n]?.bind (fun t =>
      match t with
      | .acquire new => some new
      | _ => none), insiders c = 0

/-- 中に一人いるなら LOCKED が立っている。 -/
structure Locking (c : Config (AwaiterCell W) (Swap W)) : Prop where
  one : insiders c ≤ 1
  locked : insiders c = 1 → c.shared.word.isLocked = true

/-! ## 一歩 -/

/-- 歩ごとの、中にいる数の変わり方。 -/
theorem step_insiders {c c' : Config (AwaiterCell W) (Swap W)} {n : Nat} {u : Unit}
    (h : (swaps W).step c (.exec n u) = some c') :
    ∃ t t' rest, c.threads[n]? = some t ∧ swapNext c.shared t = some (c'.shared, t') ∧
      insiders c = t.inside + rest ∧ insiders c' = t'.inside + rest := by
  obtain ⟨t, sh, t', rest, ht, hn, rfl, h1, h2⟩ := step_exec h
  refine ⟨t, t', total Swap.inside rest, ht, hn, ?_, ?_⟩
  · rw [insiders, total_perm _ h1, total_cons]
  · rw [insiders, total_perm _ h2, total_cons]

theorem step_spawn_insiders {c c' : Config (AwaiterCell W) (Swap W)} {new : Option W}
    (h : (swaps W).step c (.spawn new) = some c') :
    insiders c' = insiders c ∧ c'.shared = c.shared := by
  obtain ⟨sh, ts, hs, rfl⟩ := step_spawn h
  cases hs
  simp [insiders, Swap.inside]

theorem Locking.step {c c' : Config (AwaiterCell W) (Swap W)} {m : Move (Option W) Unit}
    (hc : Locking c) (hex : Exclusive c m) (h : (swaps W).step c m = some c') : Locking c' := by
  refine ⟨hex c' h, ?_⟩
  have hone := hex c' h
  cases m with
  | spawn new =>
    obtain ⟨hi, hsh⟩ := step_spawn_insiders h
    rw [hi, hsh]
    exact hc.locked
  | exec n u =>
    obtain ⟨t, t', rest, _, hn, hi, hi'⟩ := step_insiders h
    intro hin
    cases t with
    | acquire new =>
      simp only [swapNext, Option.some.injEq, Prod.mk.injEq] at hn
      rw [← hn.1]
      simp [State.fetchOr, State.isLocked, lockMask_eq]
    | replace new =>
      simp only [swapNext, Option.some.injEq, Prod.mk.injEq] at hn
      rw [← hn.1]
      refine hc.locked ?_
      have hle := hc.one
      simp only [Swap.inside] at hi
      omega
    | release new old =>
      -- 出ていく thread のほかに、中にいる者はいない
      simp only [swapNext, Option.some.injEq, Prod.mk.injEq] at hn
      rw [← hn.2] at hi'
      have hle := hc.one
      simp only [Swap.inside] at hi hi'
      omega
    | returned old => simp [swapNext] at hn

/-- lock が守られているなら、次の一歩で破れるのは、中に誰かがいる間の `fetch_or` だけである。 -/
theorem Locking.exclusive_iff {c : Config (AwaiterCell W) (Swap W)} {m : Move (Option W) Unit}
    (hc : Locking c) : Exclusive c m ↔ NoIntrusion c m := by
  cases m with
  | spawn new =>
    refine iff_of_true (fun c' h => ?_) trivial
    rw [(step_spawn_insiders h).1]
    exact hc.one
  | exec n u =>
    constructor
    · intro hex new hnew
      simp only [Option.mem_def, Option.bind_eq_some_iff] at hnew
      obtain ⟨t, ht, hnew⟩ := hnew
      split at hnew
      -- 中に誰かがいれば LOCKED は立っているので、`fetch_or` を行う thread は中に入ってしまう
      · next w =>
        by_contra hne
        have hle := hc.one
        have hlocked : c.shared.word.isLocked = true := hc.locked (by omega)
        have hstep : ∃ c', (swaps W).step c (.exec n u) = some c' := by
          simp [System.step, swaps, ht, swapNext]
        obtain ⟨c', hs⟩ := hstep
        obtain ⟨t, t', rest, ht', hn, hi, hi'⟩ := step_insiders hs
        rw [ht] at ht'
        cases ht'
        simp only [swapNext, hlocked, if_true, Option.some.injEq, Prod.mk.injEq] at hn
        rw [← hn.2] at hi'
        have := hex c' hs
        simp only [Swap.inside] at hi hi'
        omega
      · simp at hnew
    · intro hno c' hs
      obtain ⟨t, t', rest, ht, hn, hi, hi'⟩ := step_insiders hs
      have hle := hc.one
      cases t with
      | acquire new =>
        have h0 : insiders c = 0 := hno new (by simp [ht])
        have : t'.inside ≤ 1 := by
          cases t' <;> simp [Swap.inside]
        omega
      | replace new =>
        simp only [swapNext, Option.some.injEq, Prod.mk.injEq] at hn
        rw [← hn.2] at hi'
        simp only [Swap.inside] at hi hi'
        omega
      | release new old =>
        simp only [swapNext, Option.some.injEq, Prod.mk.injEq] at hn
        rw [← hn.2] at hi'
        simp only [Swap.inside] at hi hi'
        omega
      | returned old => simp [swapNext] at hn

/-! ## 実行の全体 -/

/--
誰も中にいない proc から始まるどの実行でも、中にいる thread がいつも高々一つであることと、
誰かが中にいる間に `fetch_or` を行う thread が無いこととは同じである。
-/
theorem exclusive_iff_noIntrusion (cell : AwaiterCell W) (ms : List (Move (Option W) Unit)) :
    (swaps W).Obeys Exclusive ⟨cell, []⟩ ms ↔ (swaps W).Obeys NoIntrusion ⟨cell, []⟩ ms := by
  refine obeys_iff_of_invariant (J := Locking) (fun c m hc => hc.exclusive_iff)
    (fun c m c' hc hex hs => hc.step hex hs) ⟨?_, ?_⟩
  · simp [insiders]
  · intro h
    simp [insiders] at h

/-- 一人目が `fetch_or` を二度行って入り、続けて二人目の `fetch_or` も入る。 -/
def twoSwaps : List (Move (Option Nat) Unit) :=
  [.spawn (some 7), .spawn none, .exec 0 (), .exec 0 (), .exec 1 ()]

theorem twoSwaps_not_exclusive :
    ¬ (swaps Nat).Obeys Exclusive ⟨⟨⟨HANDLE, 1⟩, none⟩, []⟩ twoSwaps := by
  intro h
  have h5 := (((h.tail rfl).tail rfl).tail rfl).tail rfl |>.head
  have := h5 _ rfl
  revert this
  decide

end FabAccess.Lightproc
