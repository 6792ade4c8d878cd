import Mathlib.Data.Int.CardIntervalMod
import Mathlib.Data.Finset.Card
import FabAccess.Executor.Placement

/-!
# 数えるのは 0 からである

`affinity_pinner` は core の数を法として 0 から順に数え、その数をそのまま core の id とする。
id のほうは mask から来るので、mask が 0 から詰まっていなければ、使えない core が選ばれる
（`gap_in_mask`）。

* `startAll_eq` — `k` 番目に始まる thread は、core `k % count` に置かれる
* `placed_iff` — 使える core に均等に置かれるための必要十分条件
-/

namespace FabAccess.Executor

variable {Thread : Type} {cores : List CoreId}

/-- 使える core に、数の差が高々 1 で置かれる。 -/
structure Placed (cores : List CoreId) (started : List (Started Thread)) : Prop where
  available : ∀ s ∈ started, ∀ core ∈ s.affinity cores, core ∈ cores
  even : ∀ core ∈ cores, ∀ core' ∈ cores,
    (started.countP fun s => core ∈ s.affinity cores) ≤
      (started.countP fun s => core' ∈ s.affinity cores) + 1

/-! ## core の列 -/

theorem nodup_getCoreIds (size : Nat) (mask : Nat → Bool) : (getCoreIds size mask).Nodup :=
  ((List.nodup_range).filter mask).map fun _ _ h => CoreId.mk.inj h

/-- 初めの `count` 個の id がどれも使えるなら、使える id はそれだけである。 -/
theorem lt_of_prefix (hnodup : cores.Nodup) (h : ∀ k < cores.length, ⟨k⟩ ∈ cores) :
    ∀ core ∈ cores, core.id < cores.length := by
  intro core hcore
  have hsub : (Finset.range cores.length).image CoreId.mk ⊆ cores.toFinset := by
    intro c hc
    obtain ⟨k, hk, rfl⟩ := Finset.mem_image.mp hc
    exact List.mem_toFinset.mpr (h k (Finset.mem_range.mp hk))
  have hcard : cores.toFinset.card ≤ ((Finset.range cores.length).image CoreId.mk).card := by
    rw [List.toFinset_card_of_nodup hnodup,
      Finset.card_image_of_injective _ fun _ _ h => CoreId.mk.inj h, Finset.card_range]
  have hsame := Finset.eq_of_subset_of_card_le hsub hcard
  have hmem : core ∈ (Finset.range cores.length).image CoreId.mk := by
    rw [hsame]
    exact List.mem_toFinset.mpr hcore
  obtain ⟨k, hk, rfl⟩ := Finset.mem_image.mp hmem
  exact Finset.mem_range.mp hk

/-! ## 始まる順 -/

/-- 一つしか core が無ければ、どの thread も mask のままである。 -/
theorem startAll_single (h : cores.length = 1) (core : CoreId) (threads : List Thread) :
    startAll (.new cores) core threads = some (threads.map fun thread => ⟨thread, none⟩) := by
  induction threads with
  | nil => rfl
  | cons thread threads ih =>
    have hpin : affinityPinner (.new cores) core = some (none, core) :=
      if_neg (not_not.mpr h.symm)
    rw [startAll, hpin]
    dsimp only
    rw [ih]
    rfl

/-- `i` から数え始めて、`k` 番目に始まる thread は `(i + k) % count` に置かれる。 -/
theorem startAll_eq (h : 2 ≤ cores.length) (i : Nat) (threads : List Thread) :
    startAll (.new cores) ⟨i % cores.length⟩ threads =
      some (threads.mapIdx fun k thread => ⟨thread, some ⟨(i + k) % cores.length⟩⟩) := by
  induction threads generalizing i with
  | nil => rfl
  | cons thread threads ih =>
    have hpin : affinityPinner (.new cores) ⟨i % cores.length⟩ =
        some (some ⟨i % cores.length⟩, ⟨(i + 1) % cores.length⟩) := by
      unfold affinityPinner LoadBalancer.new
      rw [if_pos (by dsimp only; omega), if_neg (by dsimp only; omega), Nat.mod_add_mod]
    rw [startAll, hpin]
    dsimp only
    rw [ih, List.mapIdx_cons]
    simp only [Option.map_some, Nat.add_zero, Nat.add_assoc, Nat.add_comm 1]

/-- 一つの core に置かれる thread の数。 -/
theorem countP_mapIdx (count : Nat) (core : CoreId) (threads : List Thread) :
    ((threads.mapIdx fun k thread => (⟨thread, some ⟨k % count⟩⟩ : Started Thread)).countP
      fun s => core ∈ s.affinity cores) = threads.length.count fun k => k % count = core.id := by
  induction threads using List.reverseRecOn with
  | nil => rfl
  | append_singleton threads thread ih =>
    have hcore : (core = ⟨threads.length % count⟩) = (threads.length % count = core.id) := by
      refine propext ⟨fun h => by rw [h], fun h => ?_⟩
      rw [h]
    rw [List.mapIdx_concat, List.countP_append, ih, List.length_append, List.length_singleton,
      Nat.count_succ, List.countP_singleton]
    simp only [Started.affinity, List.mem_singleton, hcore, decide_eq_true_eq]

theorem count_mod_of_lt {count : Nat} (n : Nat) {id : Nat} (h : id < count) :
    (n.count fun k => k % count = id) = n / count + if id < n % count then 1 else 0 := by
  have hmod : (fun k => k % count = id) = (fun k => k ≡ id [MOD count]) := by
    funext k
    rw [Nat.ModEq, Nat.mod_eq_of_lt h]
  simp only [hmod]
  rw [Nat.count_modEq_card n (Nat.zero_lt_of_lt h) id, Nat.mod_eq_of_lt h]

theorem count_mod_of_ge {count : Nat} (hcount : 0 < count) (n : Nat) {id : Nat} (h : count ≤ id) :
    (n.count fun k => k % count = id) = 0 := by
  rw [Nat.count_eq_card_filter_range]
  refine Finset.card_eq_zero.mpr (Finset.filter_eq_empty_iff.mpr fun k _ hk => ?_)
  have hlt := Nat.mod_lt k hcount
  omega

/-! ## 均等に置かれるとき -/

theorem placed_single (h : cores.length = 1) (threads : List Thread) :
    Placed cores (threads.map fun thread => (⟨thread, none⟩ : Started Thread)) := by
  obtain ⟨core, rfl⟩ := List.length_eq_one_iff.mp h
  refine ⟨fun s hs c hc => ?_, fun c hc c' hc' => ?_⟩
  · obtain ⟨thread, _, rfl⟩ := List.mem_map.mp hs
    exact hc
  · rw [List.mem_singleton.mp hc, List.mem_singleton.mp hc']
    exact Nat.le_succ _

theorem placed_many_iff (hnodup : cores.Nodup) (h : 2 ≤ cores.length) (threads : List Thread) :
    Placed cores (threads.mapIdx fun k thread =>
        (⟨thread, some ⟨k % cores.length⟩⟩ : Started Thread)) ↔
      ∀ k, k < threads.length → k < cores.length → ⟨k⟩ ∈ cores := by
  constructor
  · intro hplaced k hk hlt
    refine hplaced.available ⟨threads[k], some ⟨k % cores.length⟩⟩ ?_ ⟨k⟩ ?_
    · exact List.mem_mapIdx.mpr ⟨k, hk, rfl⟩
    · rw [Nat.mod_eq_of_lt hlt]
      exact List.mem_singleton_self _
  · intro hall
    refine ⟨fun s hs core hcore => ?_, fun core hcore core' hcore' => ?_⟩
    · obtain ⟨k, hk, rfl⟩ := List.mem_mapIdx.mp hs
      rw [List.mem_singleton.mp hcore]
      refine hall _ (Nat.lt_of_le_of_lt (Nat.mod_le k _) hk) (Nat.mod_lt k (by omega))
    · rw [countP_mapIdx, countP_mapIdx]
      by_cases hfew : threads.length < cores.length
      · -- どの core にも高々一つしか置かれない
        have hone : (threads.length.count fun k => k % cores.length = core.id) ≤ 1 := by
          by_cases hid : core.id < cores.length
          · rw [count_mod_of_lt _ hid, Nat.div_eq_of_lt hfew]
            split <;> omega
          · rw [count_mod_of_ge (by omega) _ (by omega)]
            exact Nat.zero_le 1
        exact hone.trans (Nat.le_add_left 1 _)
      · -- 使える id は、0 から詰まっている
        have hlt := lt_of_prefix hnodup fun k hk => hall k (by omega) hk
        rw [count_mod_of_lt _ (hlt core hcore), count_mod_of_lt _ (hlt core' hcore')]
        split <;> split <;> omega

/--
**どの thread も使える core に、数の差が高々 1 で置かれるのは、core が一つしか無いか、0 から
`min (thread の数) (core の数)` までのどの数も使える core の id であるとき、そのときに限る。**
-/
theorem placed_iff (size : Nat) (mask : Nat → Bool) (threads : List Thread)
    (hne : getCoreIds size mask ≠ []) :
    ∃ started, startAll (.new (getCoreIds size mask)) ⟨0⟩ threads = some started ∧
      started.map Started.thread = threads ∧
      (Placed (getCoreIds size mask) started ↔ (getCoreIds size mask).length = 1 ∨
        ∀ k, k < threads.length → k < (getCoreIds size mask).length →
          ⟨k⟩ ∈ getCoreIds size mask) := by
  generalize hcores : getCoreIds size mask = cores at hne
  have hnodup : cores.Nodup := hcores ▸ nodup_getCoreIds size mask
  have hpos : 0 < cores.length := List.length_pos_iff.mpr hne
  by_cases hone : cores.length = 1
  · refine ⟨_, startAll_single hone ⟨0⟩ threads, ?_, iff_of_true (placed_single hone threads)
      (Or.inl hone)⟩
    rw [List.map_map]
    exact List.map_id threads
  · have hstart := startAll_eq (by omega : 2 ≤ cores.length) 0 threads
    simp only [Nat.zero_mod, Nat.zero_add] at hstart
    refine ⟨_, hstart, ?_, ?_⟩
    · refine List.ext_getElem? fun k => ?_
      rw [List.getElem?_map, List.getElem?_mapIdx, Option.map_map]
      exact Option.map_id'
    · rw [placed_many_iff hnodup (by omega), or_iff_right hone]

/-- 0 と 1 の core に、三つの thread を始める。 -/
theorem placed_iff_two :
    ∃ started, startAll (.new (getCoreIds 4 fun i => i < 2)) ⟨0⟩ ["rt(0)", "rt(1)", "rt(2)"] =
        some started ∧ Placed (getCoreIds 4 fun i => i < 2) started := by
  obtain ⟨started, hstart, _, hiff⟩ :=
    placed_iff 4 (fun i => i < 2) ["rt(0)", "rt(1)", "rt(2)"] (by decide)
  refine ⟨started, hstart, hiff.mpr (Or.inr fun k _ hk => ?_)⟩
  have htwo : (getCoreIds 4 fun i => i < 2).length = 2 := by decide
  rw [htwo] at hk
  obtain rfl | rfl : k = 0 ∨ k = 1 := by omega
  · decide
  · decide

/-- mask が 1 と 3 だけなら、最初の thread は使えない core 0 に置かれる。 -/
theorem gap_in_mask :
    getCoreIds 4 (fun i => i % 2 = 1) = [⟨1⟩, ⟨3⟩] ∧
    startAll (.new [⟨1⟩, ⟨3⟩]) ⟨0⟩ ["rt(0) [static]", "rt(1) [static]"] =
      some [⟨"rt(0) [static]", some ⟨0⟩⟩, ⟨"rt(1) [static]", some ⟨1⟩⟩] ∧
    ⟨0⟩ ∉ ([⟨1⟩, ⟨3⟩] : List CoreId) := by decide

end FabAccess.Executor
