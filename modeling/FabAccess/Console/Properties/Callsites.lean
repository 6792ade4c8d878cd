import Mathlib.Data.Finset.Card
import FabAccess.Console.Callsites
import FabAccess.Infra.Trace

/-!
# 長さは中身より先に見える

`insert` は `fetch_add` で slot を取り、その後で書く。間に表を読む呼び出しは null を参照する。
また `contains` と `fetch_add` の間に同じ callsite の `insert` が入ると、同じ callsite が二つの slot を取る
（`callsites_unsafe`）。

この二つが起きない実行（`Orderly`）では、表は集合として振る舞う（`callsites_safe`）。

不変条件 `Sound` は、取られた slot の列 `reserved` を軸に書く。書かれた slot の中身は `reserved` の
同じ位置にあり、取られて空いている slot ごとに、書こうとしている呼び出しがちょうど一つある。
-/

namespace FabAccess.Console

open Infra System

variable {max : Nat} {M C : Type} {site : M → C}

/-! ## 条件 -/

/--
位置 `pc` からの一歩の条件。取られてまだ書かれていない slot は読まない。同じ callsite の `insert` が
すでに `fetch_add` を済ませていれば、`fetch_add` をしない。
-/
def Clear (site : M → C) (c : Config (CallsitesWorld max M) (CallsitesCall M)) (callsite : M) :
    CallsitesPc → Prop
  | .read i _ => ∀ t ∈ c.threads, t.pc ≠ .compareExchange i
  | .fetchAdd => site callsite ∉ c.shared.reserved.map site
  | _ => True

instance Clear.decidable [DecidableEq C] (c : Config (CallsitesWorld max M) (CallsitesCall M))
    (callsite : M) : ∀ pc, Decidable (Clear site c callsite pc)
  | .read i _ => inferInstanceAs (Decidable (∀ t ∈ c.threads, t.pc ≠ .compareExchange i))
  | .fetchAdd => inferInstanceAs (Decidable (site callsite ∉ c.shared.reserved.map site))
  | .load | .reload _ | .compareExchange _ | .returned _ | .failed _ =>
    inferInstanceAs (Decidable True)

def Orderly (site : M → C) (c : Config (CallsitesWorld max M) (CallsitesCall M)) :
    Move (CallsitesOp × M) Unit → Prop
  | .spawn _ => True
  | .exec n _ => ∀ t ∈ c.threads[n]?, Clear site c t.callsite t.pc

instance [DecidableEq C] (c : Config (CallsitesWorld max M) (CallsitesCall M)) :
    ∀ m, Decidable (Orderly site c m)
  | .spawn _ => inferInstanceAs (Decidable True)
  | .exec n _ => inferInstanceAs (Decidable (∀ t ∈ c.threads[n]?, _))

/-! ## 不変条件 -/

/-- slot はまだ書かれていない。 -/
def Callsites.isNull (callsites : Callsites max M) (i : Nat) : Bool :=
  match callsites.slot i with
  | some none => true
  | _ => false

/-- 書かれた slot に同じ callsite がある。 -/
def Callsites.Holds (site : M → C) (callsites : Callsites max M) (callsite : M) : Prop :=
  ∃ i m, callsites.slot i = some (some m) ∧ site m = site callsite

/-- この callsite の `insert` が、呼び出しの始まる前に終わっていた。 -/
def CallsitesCall.Known (site : M → C) (t : CallsitesCall M) : Prop :=
  ∃ m ∈ t.before, site m = site t.callsite

/-- 一つの呼び出しについて、各位置で成り立つこと。 -/
def CallsitesCall.Good (site : M → C) (w : CallsitesWorld max M) (t : CallsitesCall M) : Prop :=
  (t.op = .insert → t.callsite ∈ w.called) ∧
  match t.pc with
  | .load => t.Known site → w.callsites.Holds site t.callsite
  | .read i stop => i < stop ∧ stop ≤ w.reserved.length ∧
      (t.Known site → ∃ j m, i ≤ j ∧ j < stop ∧ w.callsites.slot j = some (some m) ∧
        site m = site t.callsite)
  | .reload _ => ¬ t.Known site
  | .fetchAdd => t.op = .insert ∧ ¬ t.Known site
  | .compareExchange i => t.op = .insert ∧ w.reserved[i]? = some t.callsite
  | .returned true => ∃ m ∈ w.called, site m = site t.callsite
  | .returned false => ¬ t.Known site
  | .failed _ => False

def atExchange (i : Nat) (t : CallsitesCall M) : Nat := if t.pc = .compareExchange i then 1 else 0

structure Sound (site : M → C) (bound : Finset C) (w : CallsitesWorld max M)
    (l : List (CallsitesCall M)) : Prop where
  len : w.callsites.len = w.reserved.length
  nodup : (w.reserved.map site).Nodup
  reserved : ∀ m ∈ w.reserved, m ∈ w.called
  called : ∀ m ∈ w.called, site m ∈ bound
  owner : ∀ i m, w.callsites.slot i = some (some m) → w.reserved[i]? = some m
  vacant : ∀ i, total (atExchange i) l =
    if i < w.reserved.length ∧ w.callsites.isNull i = true then 1 else 0
  finished : ∀ m ∈ w.finished, w.callsites.Holds site m
  calls : ∀ t ∈ l, t.Good site w

/-! ## slot -/

namespace Callsites

variable {callsites : Callsites max M} {i idx : Nat} {callsite : M}

@[simp] theorem slot_default (i : Nat) (m : M) :
    (Callsites.default : Callsites max M).slot i ≠ some (some m) := by
  unfold slot
  split <;> simp [Callsites.default]

theorem slot_of_lt (h : i < max) : ∃ o, callsites.slot i = some o := ⟨_, dif_pos h⟩

theorem lt_of_slot {o : Option M} (h : callsites.slot i = some o) : i < max := by
  unfold slot at h
  split at h
  · assumption
  · cases h

theorem slot_store (h : idx < max) :
    (callsites.store idx callsite).slot i = if i = idx then some (some callsite)
      else callsites.slot i := by
  unfold slot store
  by_cases hi : i = idx
  · subst hi
    simp [h]
  · simp [hi]

/-- 置かれた callsite は、書き足しても置かれたままである。 -/
theorem Holds.mono {callsites' : Callsites max M}
    (hslot : ∀ i m, callsites.slot i = some (some m) → callsites'.slot i = some (some m))
    (h : callsites.Holds site callsite) : callsites'.Holds site callsite := by
  obtain ⟨i, m, hi, hm⟩ := h
  exact ⟨i, m, hslot i m hi, hm⟩

end Callsites

/-! ## 一歩 -/

section Steps

variable {bound : Finset C} {w w' : CallsitesWorld max M} {t t' : CallsitesCall M}
  {l rest : List (CallsitesCall M)}

/-- 表と記録は増えるだけである。 -/
structure Grows (w w' : CallsitesWorld max M) : Prop where
  slot : ∀ i m, w.callsites.slot i = some (some m) → w'.callsites.slot i = some (some m)
  called : ∀ m ∈ w.called, m ∈ w'.called
  reserved : ∀ (i : Nat) (m : M), w.reserved[i]? = some m → w'.reserved[i]? = some m
  length : w.reserved.length ≤ w'.reserved.length

/-- ほかの呼び出しが書き足しても、途中の呼び出しの言うことは変わらない。 -/
theorem CallsitesCall.Good.mono (hg : Grows w w') (h : t.Good site w) : t.Good site w' := by
  obtain ⟨hcalled, hpc⟩ := h
  refine ⟨fun hop => hg.called _ (hcalled hop), ?_⟩
  cases ht : t.pc with
  | load =>
    rw [ht] at hpc
    exact fun hk => (hpc hk).mono hg.slot
  | read i stop =>
    rw [ht] at hpc
    refine ⟨hpc.1, hpc.2.1.trans hg.length, fun hk => ?_⟩
    obtain ⟨j, m, hij, hj, hslot, hm⟩ := hpc.2.2 hk
    exact ⟨j, m, hij, hj, hg.slot j m hslot, hm⟩
  | reload idx | fetchAdd | failed fault =>
    rw [ht] at hpc
    exact hpc
  | compareExchange i =>
    rw [ht] at hpc
    exact ⟨hpc.1, hg.reserved i _ hpc.2⟩
  | returned found =>
    rw [ht] at hpc
    cases found with
    | true =>
      obtain ⟨m, hm, hsite⟩ := hpc
      exact ⟨m, hg.called m hm, hsite⟩
    | false => exact hpc

namespace Sound

theorem perm (h : Sound site bound w l) {l' : List (CallsitesCall M)} (hp : l.Perm l') :
    Sound site bound w l' where
  len := h.len
  nodup := h.nodup
  reserved := h.reserved
  called := h.called
  owner := h.owner
  vacant i := by rw [← total_perm _ hp]; exact h.vacant i
  finished := h.finished
  calls t ht := h.calls t (hp.mem_iff.mpr ht)

theorem symm : Symm fun (w : CallsitesWorld max M) l => Sound site bound w l :=
  fun _ _ _ hp h => h.perm hp

/-- 取られた場所の数は、呼び出されうる callsite の数を越えない。 -/
theorem reserved_le [DecidableEq C] (h : Sound site bound w l) :
    w.reserved.length ≤ bound.card := by
  have hsub : (w.reserved.map site).toFinset ⊆ bound := by
    intro c hc
    obtain ⟨m, hm, rfl⟩ := List.mem_map.mp (List.mem_toFinset.mp hc)
    exact h.called m (h.reserved m hm)
  have hcard := Finset.card_le_card hsub
  rwa [List.toFinset_card_of_nodup h.nodup, List.length_map] at hcard

/-- `fetch_add` の前には、まだ空きがある。 -/
theorem reserved_lt [DecidableEq C] (h : Sound site bound w l) {callsite : M}
    (hcalled : callsite ∈ w.called) (hnew : site callsite ∉ w.reserved.map site) :
    w.reserved.length < bound.card := by
  have hsub : insert (site callsite) (w.reserved.map site).toFinset ⊆ bound := by
    intro c hc
    rcases Finset.mem_insert.mp hc with rfl | hc
    · exact h.called _ hcalled
    · obtain ⟨m, hm, rfl⟩ := List.mem_map.mp (List.mem_toFinset.mp hc)
      exact h.called m (h.reserved m hm)
  have hcard := Finset.card_le_card hsub
  rw [Finset.card_insert_of_notMem (by simpa using hnew),
    List.toFinset_card_of_nodup h.nodup, List.length_map] at hcard
  omega

/-- 共有の状態が変わらない一歩。 -/
theorem replace (h : Sound site bound w (t :: rest))
    (ht : ∀ i, t.pc ≠ .compareExchange i) (ht' : ∀ i, t'.pc ≠ .compareExchange i)
    (hgood : t'.Good site w) : Sound site bound w (t' :: rest) where
  len := h.len
  nodup := h.nodup
  reserved := h.reserved
  called := h.called
  owner := h.owner
  vacant i := by
    rw [← h.vacant i, total_cons, total_cons, atExchange, atExchange, if_neg (ht i), if_neg (ht' i)]
  finished := h.finished
  calls u hu := by
    rcases List.mem_cons.mp hu with rfl | hu
    · exact hgood
    · exact h.calls u (List.mem_cons_of_mem t hu)

/-- `insert` の終わりを記録する。 -/
theorem finish (h : Sound site bound w l) {callsite : M}
    (hh : w.callsites.Holds site callsite) :
    Sound site bound { w with finished := w.finished ++ [callsite] } l where
  len := h.len
  nodup := h.nodup
  reserved := h.reserved
  called := h.called
  owner := h.owner
  vacant := h.vacant
  finished m hm := by
    rcases List.mem_append.mp hm with hm | hm
    · exact h.finished m hm
    · rw [List.mem_singleton.mp hm]
      exact hh
  calls u hu := (h.calls u hu).mono ⟨fun _ _ => id, fun _ => id, fun _ _ => id, Nat.le_refl _⟩

/-- 書かれた callsite は、呼ばれたものである。 -/
theorem called_of_slot (h : Sound site bound w l) {i : Nat} {m : M}
    (hslot : w.callsites.slot i = some (some m)) : m ∈ w.called :=
  h.reserved m (List.mem_of_getElem? (h.owner i m hslot))

theorem lt_of_slot (h : Sound site bound w l) {i : Nat} {m : M}
    (hslot : w.callsites.slot i = some (some m)) : i < w.reserved.length :=
  (List.getElem?_eq_some_iff.mp (h.owner i m hslot)).1

/-- `fetch_add` で取った slot は空いている。 -/
theorem isNull_length (h : Sound site bound w l) (hlt : w.reserved.length < max) :
    w.callsites.isNull w.reserved.length = true := by
  obtain ⟨o, ho⟩ : ∃ o, w.callsites.slot w.reserved.length = some o := Callsites.slot_of_lt hlt
  cases o with
  | none => rw [Callsites.isNull, ho]
  | some m => exact absurd (h.lt_of_slot ho) (Nat.lt_irrefl _)

/-- 同じ callsite がまだ場所を取っていなければ、`fetch_add` は不変条件を保つ。 -/
theorem fetchAdd (h : Sound site bound w (t :: rest)) (hlt : w.reserved.length < max)
    (hmax : max < 2 ^ 64) (hpc : t.pc = .fetchAdd) (hop : t.op = .insert)
    (hnew : site t.callsite ∉ w.reserved.map site) :
    Sound site bound
      { w with callsites := w.callsites.fetchAdd, reserved := w.reserved ++ [t.callsite] }
      ({ t with pc := .compareExchange w.callsites.len } :: rest) where
  len := by
    rw [Callsites.fetchAdd, h.len, List.length_append]
    exact Nat.mod_eq_of_lt (Nat.lt_of_le_of_lt hlt hmax)
  nodup := by
    rw [List.map_append]
    exact List.nodup_append.mpr ⟨h.nodup, List.nodup_singleton _, fun a ha b hb heq =>
      hnew (by rw [← List.mem_singleton.mp hb, ← heq]; exact ha)⟩
  reserved m hm := by
    rcases List.mem_append.mp hm with hm | hm
    · exact h.reserved m hm
    · rw [List.mem_singleton.mp hm]
      exact (h.calls t (List.mem_cons_self ..)).1 hop
  called := h.called
  owner i m hslot := by
    rw [List.getElem?_append_left (h.lt_of_slot hslot)]
    exact h.owner i m hslot
  vacant i := by
    have hold := h.vacant i
    have ht : atExchange i t = 0 := by rw [atExchange, if_neg (by rw [hpc]; simp)]
    rw [total_cons, ht, Nat.zero_add] at hold
    rw [total_cons, hold, List.length_append, List.length_singleton]
    change _ = if i < w.reserved.length + 1 ∧ w.callsites.isNull i = true then 1 else 0
    by_cases hi : w.callsites.len = i
    · -- 取ったばかりの slot
      have hnull := h.isNull_length hlt
      rw [h.len] at hi
      subst hi
      simp [atExchange, h.len, hnull]
    · have hne : i ≠ w.reserved.length := fun he => hi (by rw [h.len, he])
      have hiff : i < w.reserved.length + 1 ↔ i < w.reserved.length := by omega
      simp [atExchange, hi, hiff]
  finished := h.finished
  calls u hu := by
    have hgrows : Grows w
        { w with callsites := w.callsites.fetchAdd, reserved := w.reserved ++ [t.callsite] } := by
      exact ⟨fun _ _ => id, fun _ => id, fun _ _ => getElem?_append_of_some, by simp⟩
    rcases List.mem_cons.mp hu with rfl | hu
    · refine ⟨fun _ => (h.calls t (List.mem_cons_self ..)).1 hop, hop, ?_⟩
      simp [h.len]
    · exact (h.calls u (List.mem_cons_of_mem t hu)).mono hgrows

/-- 書こうとしている slot は空いていて、書こうとしている呼び出しは一つしかない。 -/
theorem slot_of_exchange (h : Sound site bound w (t :: rest)) {i : Nat}
    (hpc : t.pc = .compareExchange i) :
    w.callsites.slot i = some none ∧ i < w.reserved.length ∧ total (atExchange i) rest = 0 := by
  have hold := h.vacant i
  have ht : atExchange i t = 1 := if_pos hpc
  rw [total_cons, ht] at hold
  split at hold
  · next hnull =>
    refine ⟨?_, hnull.1, by omega⟩
    have hslot := hnull.2
    unfold Callsites.isNull at hslot
    split at hslot
    · assumption
    · cases hslot
  · omega

/-- 取った場所への書き込みは、不変条件を保つ。 -/
theorem store (h : Sound site bound w (t :: rest)) {i : Nat} (hpc : t.pc = .compareExchange i) :
    Sound site bound { w with callsites := w.callsites.store i t.callsite }
      ({ t with pc := .returned true } :: rest) := by
  obtain ⟨hslot, hlt, hrest⟩ := h.slot_of_exchange hpc
  have himax : i < max := Callsites.lt_of_slot hslot
  have hgood := h.calls t (List.mem_cons_self ..)
  unfold CallsitesCall.Good at hgood
  rw [hpc] at hgood
  obtain ⟨hcalled, hop, howner⟩ := hgood
  have hgrows : Grows w { w with callsites := w.callsites.store i t.callsite } := by
    refine ⟨fun j m hj => ?_, fun _ => id, fun _ _ => id, Nat.le_refl _⟩
    rw [Callsites.slot_store himax]
    by_cases hji : j = i
    · rw [hji, hslot] at hj
      cases hj
    · rw [if_neg hji]
      exact hj
  exact {
    len := h.len
    nodup := h.nodup
    reserved := h.reserved
    called := h.called
    owner := fun j m hj => by
      rw [Callsites.slot_store himax] at hj
      by_cases hji : j = i
      · rw [if_pos hji] at hj
        cases hj
        rw [hji]
        exact howner
      · rw [if_neg hji] at hj
        exact h.owner j m hj
    vacant := fun j => by
      have hold := h.vacant j
      have ht' : atExchange j { t with pc := .returned true } = 0 :=
        if_neg (fun hne => by cases hne)
      have hnull : (w.callsites.store i t.callsite).isNull j =
          if j = i then false else w.callsites.isNull j := by
        unfold Callsites.isNull
        rw [Callsites.slot_store himax]
        by_cases hji : j = i <;> simp [hji]
      rw [total_cons, ht', Nat.zero_add]
      dsimp only
      rw [hnull]
      by_cases hji : j = i
      · rw [hji, hrest]
        simp
      · have ht : atExchange j t = 0 := by
          rw [atExchange, hpc, if_neg]
          simpa using fun he => hji he.symm
        rw [total_cons, ht, Nat.zero_add] at hold
        rw [hold, if_neg hji]
    finished := fun m hm => (h.finished m hm).mono hgrows.slot
    calls := fun u hu => by
      rcases List.mem_cons.mp hu with rfl | hu
      · exact ⟨fun _ => hcalled hop, t.callsite, hcalled hop, rfl⟩
      · exact (h.calls u (List.mem_cons_of_mem t hu)).mono hgrows }

/-- `i` から後を見ていく位置。知られている callsite は、まだ見ていない slot にある。 -/
theorem good_scan {i stop : Nat} (hcalled : t.op = .insert → t.callsite ∈ w.called)
    (hstop : stop ≤ w.reserved.length)
    (hk : t.Known site → ∃ j m, i ≤ j ∧ j < stop ∧ w.callsites.slot j = some (some m) ∧
      site m = site t.callsite) :
    CallsitesCall.Good site w { t with pc := scan i stop } := by
  refine ⟨hcalled, ?_⟩
  unfold scan
  by_cases hlt : i < stop
  · rw [if_pos hlt]
    exact ⟨hlt, hstop, hk⟩
  · rw [if_neg hlt]
    intro hknown
    obtain ⟨j, _, hij, hj, _⟩ := hk hknown
    omega

theorem good_slice (h : Sound site bound w l) (hmax : w.reserved.length ≤ max) {idx : Nat}
    (hcalled : t.op = .insert → t.callsite ∈ w.called)
    (hk : t.Known site → ∃ j m, idx ≤ j ∧ w.callsites.slot j = some (some m) ∧
      site m = site t.callsite) :
    CallsitesCall.Good site w { t with pc := slice max idx w.callsites.len } := by
  unfold slice
  rw [h.len, if_pos hmax]
  refine good_scan hcalled (Nat.le_refl _) (fun hknown => ?_)
  obtain ⟨j, m, hij, hslot, hm⟩ := hk hknown
  exact ⟨j, m, hij, h.lt_of_slot hslot, hslot, hm⟩

theorem scan_ne_exchange (i stop j : Nat) : scan i stop ≠ .compareExchange j := by
  unfold scan
  split <;> simp

theorem slice_ne_exchange (idx stop j : Nat) : slice max idx stop ≠ .compareExchange j := by
  unfold slice
  split
  · exact scan_ne_exchange idx stop j
  · simp

/-- `contains` が `true` を返す。 -/
theorem concluded_true (h : Sound site bound w (t :: rest)) {i : Nat} {m : M}
    (ht : ∀ j, t.pc ≠ .compareExchange j) (hslot : w.callsites.slot i = some (some m))
    (hm : site m = site t.callsite) :
    Sound site bound (concluded w t true).1 ((concluded w t true).2 :: rest) := by
  have hreturned : CallsitesCall.Good site w { t with pc := .returned true } :=
    ⟨(h.calls t (List.mem_cons_self ..)).1, m, h.called_of_slot hslot, hm⟩
  have hsound := h.replace ht (fun _ hne => by cases hne) hreturned
  unfold concluded
  cases hop : t.op with
  | contains =>
    rw [hop] at hsound
    exact hsound
  | insert =>
    rw [hop] at hsound
    exact hsound.finish ⟨i, m, hslot, hm⟩

/-- `contains` が `false` を返す。 -/
theorem concluded_false (h : Sound site bound w (t :: rest))
    (ht : ∀ j, t.pc ≠ .compareExchange j) (hk : ¬ t.Known site) :
    Sound site bound (concluded w t false).1 ((concluded w t false).2 :: rest) := by
  have hcalled := (h.calls t (List.mem_cons_self ..)).1
  unfold concluded
  cases hop : t.op with
  | contains =>
    have hsound : Sound site bound w ({ t with pc := .returned false } :: rest) :=
      h.replace ht (fun _ hne => by cases hne) ⟨hcalled, hk⟩
    rw [hop] at hsound
    exact hsound
  | insert =>
    have hsound : Sound site bound w ({ t with pc := .fetchAdd } :: rest) :=
      h.replace ht (fun _ hne => by cases hne) ⟨hcalled, hop, hk⟩
    rw [hop] at hsound
    exact hsound

end Sound

end Steps

/-! ## 実行 -/

section Runs

variable {bound : Finset C} {c : Config (CallsitesWorld max M) (CallsitesCall M)}

/-- 呼び出しの始まりは、不変条件を保つ。 -/
theorem spawn_sound {w w' : CallsitesWorld max M} {l ts : List (CallsitesCall M)}
    {op : CallsitesOp} {callsite : M} (hs : callsitesSpawn w (op, callsite) = some (w', ts))
    (hbound : op = .insert → site callsite ∈ bound) (h : Sound site bound w l) :
    Sound site bound w' (ts ++ l) := by
  -- 始まったばかりの呼び出しが知っているのは、終わった insert だけである
  have hload : ∀ m ∈ w.finished, site m = site callsite → w.callsites.Holds site callsite := by
    intro m hm hsite
    obtain ⟨i, m', hslot, hm'⟩ := h.finished m hm
    exact ⟨i, m', hslot, hm'.trans hsite⟩
  cases op with
  | contains =>
    cases hs
    refine { h with vacant := fun i => ?_, calls := fun t ht => ?_ }
    · rw [List.singleton_append, total_cons, h.vacant i]
      exact Nat.zero_add _
    · rcases List.mem_cons.mp ht with rfl | ht
      · exact ⟨(fun hop => by cases hop), fun ⟨m, hm, hsite⟩ => hload m hm hsite⟩
      · exact h.calls t ht
  | insert =>
    cases hs
    have hgrows : Grows w { w with called := w.called ++ [callsite] } :=
      ⟨fun _ _ => id, fun _ hm => List.mem_append_left _ hm, fun _ _ => id, Nat.le_refl _⟩
    refine { h with
      reserved := fun m hm => hgrows.called m (h.reserved m hm)
      called := fun m hm => ?_
      vacant := fun i => ?_
      calls := fun t ht => ?_ }
    · rcases List.mem_append.mp hm with hm | hm
      · exact h.called m hm
      · rw [List.mem_singleton.mp hm]
        exact hbound rfl
    · rw [List.singleton_append, total_cons, h.vacant i]
      exact Nat.zero_add _
    · rcases List.mem_cons.mp ht with rfl | ht
      · exact ⟨fun _ => List.mem_append_right _ (List.mem_singleton_self _),
          fun ⟨m, hm, hsite⟩ => hload m hm hsite⟩
      · exact (h.calls t ht).mono hgrows

/-- 条件を守る一歩は、不変条件を保つ。 -/
theorem next_sound [DecidableEq C] {n : Nat} {t t' : CallsitesCall M} {w' : CallsitesWorld max M}
    {rest : List (CallsitesCall M)} (hbound : bound.card ≤ max) (hmax : max < 2 ^ 64)
    (hget : c.threads[n]? = some t) (hperm : c.threads.Perm (t :: rest))
    (hn : callsitesNext site c.shared t = some (w', t')) (hok : Orderly site c (.exec n ()))
    (h : Sound site bound c.shared (t :: rest)) : Sound site bound w' (t' :: rest) := by
  have hclear : Clear site c t.callsite t.pc := hok t hget
  obtain ⟨hcalled, hgood⟩ := h.calls t (List.mem_cons_self ..)
  have hle : c.shared.reserved.length ≤ max := h.reserved_le.trans hbound
  unfold callsitesNext at hn
  cases hpc : t.pc with
  | load =>
    rw [hpc] at hn hgood
    cases hn
    refine h.replace (by simp [hpc]) (Sound.slice_ne_exchange 0 _) (h.good_slice hle hcalled ?_)
    intro hk
    obtain ⟨j, m, hslot, hm⟩ := hgood hk
    exact ⟨j, m, Nat.zero_le j, hslot, hm⟩
  | read i stop =>
    rw [hpc] at hn hgood hclear
    obtain ⟨hi, hstop, hk⟩ := hgood
    obtain ⟨o, hslot⟩ : ∃ o, c.shared.callsites.slot i = some o :=
      Callsites.slot_of_lt (by omega)
    dsimp only at hn
    rw [hslot] at hn
    cases o with
    | none =>
      -- 空いている slot には、書こうとしている呼び出しがある
      exfalso
      have hone := h.vacant i
      rw [if_pos ⟨by omega, by rw [Callsites.isNull, hslot]⟩, ← total_perm _ hperm] at hone
      have hzero : total (atExchange i) c.threads = 0 := by
        refine List.sum_eq_zero (fun k hk => ?_)
        obtain ⟨u, hu, rfl⟩ := List.mem_map.mp hk
        exact if_neg (hclear u hu)
      omega
    | some m =>
      dsimp only at hn
      by_cases hm : site m = site t.callsite
      · rw [if_pos hm] at hn
        have hsound := h.concluded_true (by simp [hpc]) hslot hm
        rw [Option.some.inj hn] at hsound
        exact hsound
      · rw [if_neg hm] at hn
        cases hn
        refine h.replace (by simp [hpc]) (Sound.scan_ne_exchange _ _)
          (Sound.good_scan hcalled hstop fun hknown => ?_)
        obtain ⟨j, m', hij, hj, hslot', hm'⟩ := hk hknown
        refine ⟨j, m', ?_, hj, hslot', hm'⟩
        -- いま見た slot ではない
        have hne : j ≠ i := by
          rintro rfl
          rw [hslot] at hslot'
          cases hslot'
          exact hm hm'
        omega
  | reload idx =>
    rw [hpc] at hn hgood
    dsimp only at hn
    split at hn
    · cases hn
      exact h.replace (by simp [hpc]) (Sound.slice_ne_exchange idx _)
        (h.good_slice hle hcalled fun hk => absurd hk hgood)
    · have hsound := h.concluded_false (by simp [hpc]) hgood
      rw [Option.some.inj hn] at hsound
      exact hsound
  | fetchAdd =>
    rw [hpc] at hn hgood hclear
    have hlt := Nat.lt_of_lt_of_le (h.reserved_lt (hcalled hgood.1) hclear) hbound
    have hidx : c.shared.callsites.len ≤ max := by
      rw [h.len]
      exact hle
    dsimp only at hn
    rw [if_pos hidx] at hn
    cases hn
    exact h.fetchAdd hlt hmax hpc hgood.1 hclear
  | compareExchange i =>
    obtain ⟨hslot, _⟩ := h.slot_of_exchange hpc
    rw [hpc] at hn
    dsimp only at hn
    rw [hslot] at hn
    cases hn
    refine (h.store hpc).finish ⟨i, t.callsite, ?_, rfl⟩
    rw [Callsites.slot_store (Callsites.lt_of_slot hslot), if_pos rfl]
  | returned found | failed fault =>
    rw [hpc] at hn
    cases hn

/-- 位置 `pc` から先の歩数の上限。 -/
def CallsitesPc.left (max : Nat) : CallsitesPc → Nat
  | .load => 2 * max + 4
  | .read i stop => if i < stop then 2 * (max - i) + 2 else 2 * max + 4
  | .reload idx => 2 * (max - idx) + 3
  | .fetchAdd => 2
  | .compareExchange _ => 1
  | .returned _ | .failed _ => 0

/-- 残りの歩数は、見ていない場所の数で抑えられる。 -/
theorem left_scan_le (max i stop : Nat) :
    (scan i stop).left max ≤ 2 * (max - min i stop) + 3 := by
  unfold scan
  split
  · next hlt =>
    rw [CallsitesPc.left, if_pos hlt]
    omega
  · rw [CallsitesPc.left]
    omega

theorem left_slice_le (max idx stop : Nat) :
    (slice max idx stop).left max ≤ 2 * (max - min idx stop) + 3 := by
  unfold slice
  split
  · exact left_scan_le max idx stop
  · exact Nat.zero_le _

theorem left_concluded_le (w : CallsitesWorld max M) (t : CallsitesCall M) (found : Bool) :
    (concluded w t found).2.pc.left max ≤ 2 := by
  unfold concluded
  split <;> simp [CallsitesPc.left]

/-- どの一歩でも、残りの歩数は減る。 -/
theorem callsitesNext_left {w w' : CallsitesWorld max M} {t t' : CallsitesCall M}
    [DecidableEq C] (hn : callsitesNext site w t = some (w', t')) :
    t'.pc.left max < t.pc.left max := by
  have hconcluded : ∀ found, (w', t') = concluded w t found → t'.pc.left max ≤ 2 := by
    intro found heq
    have hle := left_concluded_le w t found
    rw [← heq] at hle
    exact hle
  unfold callsitesNext at hn
  cases hpc : t.pc with
  | load =>
    rw [hpc] at hn
    cases hn
    have hle := left_slice_le max 0 w.callsites.len
    rw [Nat.zero_min] at hle
    exact Nat.lt_succ_of_le hle
  | read i stop =>
    have htwo : 2 < (CallsitesPc.read i stop).left max ∨ max ≤ i := by
      rw [CallsitesPc.left]
      split <;> omega
    rw [hpc] at hn
    dsimp only at hn
    split at hn
    · cases hn
      rw [CallsitesPc.left, CallsitesPc.left]
      split <;> omega
    · cases hn
      rw [CallsitesPc.left, CallsitesPc.left]
      split <;> omega
    · next hslot =>
      have hi := Callsites.lt_of_slot hslot
      split at hn
      · have hle := hconcluded true (Option.some.inj hn).symm
        omega
      · cases hn
        have hle := left_scan_le max (i + 1) stop
        refine Nat.lt_of_le_of_lt hle ?_
        rw [CallsitesPc.left]
        split <;> omega
  | reload idx =>
    rw [hpc] at hn
    dsimp only at hn
    split at hn
    · next hlt =>
      cases hn
      unfold slice scan
      rw [if_pos hlt]
      split
      · rw [CallsitesPc.left, if_pos hlt]
        exact Nat.lt_succ_self _
      · exact Nat.succ_pos _
    · have hle := hconcluded false (Option.some.inj hn).symm
      rw [CallsitesPc.left]
      omega
  | fetchAdd =>
    rw [hpc] at hn
    cases hn
    dsimp only
    split
    · exact Nat.one_lt_two
    · exact Nat.two_pos
  | compareExchange i =>
    rw [hpc] at hn
    dsimp only at hn
    split at hn <;> cases hn <;> exact Nat.one_pos
  | returned found | failed fault =>
    rw [hpc] at hn
    cases hn

/-- 返っても止まってもいなければ、進める。 -/
theorem callsitesNext_isSome [DecidableEq C] (site : M → C) (w : CallsitesWorld max M)
    (t : CallsitesCall M) : (callsitesNext site w t).isSome = true ∨
      (∃ found, t.pc = .returned found) ∨ ∃ fault, t.pc = .failed fault := by
  unfold callsitesNext
  cases hpc : t.pc with
  | load | fetchAdd => exact Or.inl rfl
  | read i stop =>
    dsimp only
    left
    split
    · rfl
    · rfl
    · split <;> rfl
  | reload idx =>
    dsimp only
    left
    split <;> rfl
  | compareExchange i =>
    dsimp only
    left
    split <;> rfl
  | returned found => exact Or.inr (Or.inl ⟨found, rfl⟩)
  | failed fault => exact Or.inr (Or.inr ⟨fault, rfl⟩)

/-- 空の集合は、不変条件を満たす。 -/
theorem start_sound : Sound site bound (CallsitesWorld.start max M) [] where
  len := rfl
  nodup := List.nodup_nil
  reserved m hm := by cases hm
  called m hm := by cases hm
  owner i m hslot := absurd hslot (Callsites.slot_default i m)
  vacant i := by
    rw [if_neg]
    · rfl
    · exact fun h => Nat.not_lt_zero i h.1
  finished m hm := by cases hm
  calls t ht := by cases ht

/-- 条件を守る実行では、どの割り込みでも不変条件が成り立つ。 -/
theorem run_sound [DecidableEq C] {moves : List (Move (CallsitesOp × M) Unit)}
    (hbound : bound.card ≤ max) (hmax : max < 2 ^ 64)
    (hcalls : ∀ callsite, Move.spawn (.insert, callsite) ∈ moves → site callsite ∈ bound)
    (hok : (callsitesCalls max site).Obeys (Orderly site) ⟨.start max M, []⟩ moves)
    (hrun : (callsitesCalls max site).run ⟨.start max M, []⟩ moves = some c) :
    Sound site bound c.shared c.threads := by
  have hspawns : (callsitesCalls max site).Obeys
      (fun _ m => ∀ callsite, m = .spawn (.insert, callsite) → site callsite ∈ bound)
      ⟨.start max M, []⟩ moves :=
    obeys_of_forall (fun m hm _ callsite heq => hcalls callsite (by rw [← heq]; exact hm)) _
  refine run_invariant_of_obeys Sound.symm ?_ ?_ hrun (hok.and hspawns) start_sound
  · rintro w l ⟨op, callsite⟩ w' ts hs ⟨-, hm⟩ h
    exact spawn_sound hs (fun hop => hm callsite (by rw [hop])) h
  · rintro d n t k w' t' rest hget hperm hn ⟨hclear, -⟩ h
    exact next_sound hbound hmax hget hperm hn hclear h

/--
**読む slot に書きかけの `insert` が無く、同じ callsite の `insert` が `fetch_add` を重ねない実行では、
表は安全に共有される。** どの呼び出しも範囲の外や null を見ずに `2 * max + 4` 歩までで返り、
同じ callsite は二度書かれず、`contains` は、始まる前に `insert` が終わった callsite には `true` を返し、
`true` を返すのは `insert` の呼ばれた callsite に限る。
-/
theorem callsites_safe [DecidableEq C] (max : Nat) (site : M → C) (bound : Finset C)
    (moves : List (Move (CallsitesOp × M) Unit))
    (c : Config (CallsitesWorld max M) (CallsitesCall M))
    (hmax : max < 2 ^ 64) (hbound : bound.card ≤ max)
    (hcalls : ∀ callsite, Move.spawn (.insert, callsite) ∈ moves → site callsite ∈ bound)
    (hrun : (callsitesCalls max site).run ⟨.start max M, []⟩ moves = some c)
    (hok : (callsitesCalls max site).Obeys (Orderly site) ⟨.start max M, []⟩ moves) :
    (∀ t ∈ c.threads, ∀ fault, t.pc ≠ .failed fault) ∧
    (∀ i j m m', c.shared.callsites.slot i = some (some m) →
      c.shared.callsites.slot j = some (some m') → site m = site m' → i = j) ∧
    (∀ t ∈ c.threads, ∀ found, t.op = .contains → t.pc = .returned found →
      ((∃ m ∈ t.before, site m = site t.callsite) → found = true) ∧
      (found = true → ∃ m ∈ c.shared.called, site m = site t.callsite)) ∧
    (∀ t ∈ c.threads, (callsitesNext site c.shared t).isSome = true ∨
      ∃ found, t.pc = .returned found) ∧
    ∀ n, moves.countP (Move.execs n) ≤ 2 * max + 4 := by
  have h := run_sound hbound hmax hcalls hok hrun
  have hfail : ∀ t ∈ c.threads, ∀ fault, t.pc ≠ .failed fault := by
    intro t ht fault hpc
    have hgood := (h.calls t ht).2
    rw [hpc] at hgood
    exact hgood
  refine ⟨hfail, ?_, ?_, ?_, ?_⟩
  · intro i j m m' hi hj hsame
    have hi' : (c.shared.reserved.map site)[i]? = some (site m) := by
      rw [List.getElem?_map, h.owner i m hi, Option.map_some]
    have hj' : (c.shared.reserved.map site)[j]? = some (site m) := by
      rw [List.getElem?_map, h.owner j m' hj, Option.map_some, hsame]
    have hlt := (List.getElem?_eq_some_iff.mp hi').1
    exact (List.getElem?_inj hlt h.nodup).mp (hi'.trans hj'.symm)
  · intro t ht found hop hpc
    have hgood := (h.calls t ht).2
    rw [hpc] at hgood
    cases found with
    | true => exact ⟨fun _ => rfl, fun _ => hgood⟩
    | false => exact ⟨fun hk => absurd hk hgood, fun he => by cases he⟩
  · intro t ht
    rcases callsitesNext_isSome site c.shared t with hsome | hreturned | ⟨fault, hpc⟩
    · exact Or.inl hsome
    · exact Or.inr hreturned
    · exact absurd hpc (hfail t ht fault)
  · intro n
    refine (countP_execs_le ?_ ?_ hrun n : _ ≤ leftOf (fun t : CallsitesCall M => t.pc.left max)
      (2 * max + 4) ⟨CallsitesWorld.start max M, []⟩ n)
    · rintro w ⟨op, callsite⟩ w' ts hs t ht
      cases op with
      | insert | contains =>
        cases hs
        rw [List.mem_singleton.mp ht]
        exact Nat.le_refl _
    · intro w t _ w' t' hn
      exact callsitesNext_left hn

/-- `insert` が終わってから `contains` を呼ぶ。 -/
def insertThenContains : List (Move (CallsitesOp × String) Unit) :=
  [.spawn (.insert, "spawn"), .exec 0 (), .exec 0 (), .exec 0 (), .exec 0 (),
   .spawn (.contains, "spawn"), .exec 1 (), .exec 1 ()]

theorem callsites_safe_insertThenContains :
    ∃ c, (callsitesCalls 1 id).run ⟨.start 1 String, []⟩ insertThenContains = some c ∧
      c.threads[1]? = some ⟨.contains, "spawn", ["spawn"], .returned true⟩ ∧
      ∀ t ∈ c.threads, ∀ fault, t.pc ≠ .failed fault := by
  refine ⟨_, rfl, by decide, ?_⟩
  exact (callsites_safe 1 id {"spawn"} insertThenContains _ (by decide) (by decide)
    (by simp [insertThenContains]) rfl (by decide)).1

/-- `fetch_add` と `compare_exchange` の間に `contains` を呼ぶ。 -/
def containsBeforeStore : List (Move (CallsitesOp × String) Unit) :=
  [.spawn (.insert, "spawn"), .exec 0 (), .exec 0 (), .exec 0 (),
   .spawn (.contains, "spawn"), .exec 1 (), .exec 1 ()]

/-- 二つの `insert` が、どちらも `contains` を終えてから `fetch_add` をする。 -/
def insertTwice : List (Move (CallsitesOp × String) Unit) :=
  [.spawn (.insert, "spawn"), .spawn (.insert, "spawn"), .exec 0 (), .exec 0 (), .exec 1 (),
   .exec 1 (), .exec 0 (), .exec 1 (), .exec 0 (), .exec 1 ()]

/--
一つの callsite しか使わないのに、`contains` は null を参照し、二つ目の `insert` は範囲の外に書こうとする。
表に余裕があれば、同じ callsite が二つの slot に書かれる。
-/
theorem callsites_unsafe :
    ((callsitesCalls 1 id).run ⟨.start 1 String, []⟩ containsBeforeStore).map
        (fun c => c.threads.map CallsitesCall.pc) =
      some [.compareExchange 0, .failed .null] ∧
    ((callsitesCalls 1 id).run ⟨.start 1 String, []⟩ insertTwice).map
        (fun c => c.threads.map CallsitesCall.pc) =
      some [.returned true, .failed .index] ∧
    ((callsitesCalls 2 id).run ⟨.start 2 String, []⟩ insertTwice).map
        (fun c => (c.shared.callsites.slot 0, c.shared.callsites.slot 1)) =
      some (some (some "spawn"), some (some "spawn")) := by decide

end Runs

end FabAccess.Console
