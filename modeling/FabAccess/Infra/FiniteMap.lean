import Mathlib.Data.Finmap

/-!
# 有限写像の値の書き換え

key を保ったまま値を変え、あるいは捨てる操作と、新しい key の追加。
-/

namespace FabAccess.Infra

variable {κ α β : Type*}

/-- `f` が値を返す key だけを、その値で残す。 -/
def filterMapValues (f : κ → α → Option β) (m : Finmap (fun _ : κ => α)) :
    Finmap (fun _ : κ => β) where
  entries := m.entries.filterMap fun s => (f s.1 s.2).map (Sigma.mk s.1)
  nodupKeys := by
    obtain ⟨⟨l⟩, hnodup⟩ := m
    have hpair := List.nodupKeys_iff_pairwise.mp (Multiset.coe_nodupKeys.mp hnodup)
    refine List.nodupKeys_iff_pairwise.mpr (hpair.filterMap _ ?_)
    intro s t hne s' hs t' ht
    obtain ⟨b, _, rfl⟩ := Option.map_eq_some_iff.mp hs
    obtain ⟨c, _, rfl⟩ := Option.map_eq_some_iff.mp ht
    exact hne

variable [DecidableEq κ]

@[simp] theorem lookup_filterMapValues (f : κ → α → Option β) (m : Finmap (fun _ : κ => α)) (k : κ) :
    (filterMapValues f m).lookup k = (m.lookup k).bind (f k) := by
  ext c
  rw [Finmap.lookup_eq_some_iff, Option.bind_eq_some_iff]
  simp only [filterMapValues, Multiset.mem_filterMap, Option.map_eq_some_iff]
  constructor
  · rintro ⟨⟨k', a⟩, hmem, b, hb, heq⟩
    cases heq
    exact ⟨a, Finmap.lookup_eq_some_iff.mpr hmem, hb⟩
  · rintro ⟨a, ha, hc⟩
    exact ⟨⟨k, a⟩, Finmap.lookup_eq_some_iff.mp ha, c, hc, rfl⟩

/-- 新しい key の追加は、入っていた値を変えない。 -/
theorem lookup_insert_of_notMem {m : Finmap (fun _ : κ => α)} {k k' : κ} {a b : α} (hk : k ∉ m)
    (h : m.lookup k' = some a) : (m.insert k b).lookup k' = some a := by
  have hne : k' ≠ k := by
    rintro rfl
    exact hk (Finmap.mem_of_lookup_eq_some h)
  rw [Finmap.lookup_insert_of_ne _ hne, h]

/-- 順に入れれば、最後に入れた値が残る。 -/
theorem lookup_foldl_insert (l : List (κ × α)) (m : Finmap (fun _ : κ => α)) (k : κ) :
    (l.foldl (fun m p => m.insert p.1 p.2) m).lookup k =
      ((l.filter (·.1 = k)).getLast?.map Prod.snd).or (m.lookup k) := by
  induction l generalizing m with
  | nil => rfl
  | cons p l ih =>
    rw [List.foldl_cons, ih]
    by_cases hk : p.1 = k
    · rw [List.filter_cons_of_pos (by simpa using hk), ← hk, Finmap.lookup_insert]
      cases hlast : (l.filter (·.1 = p.1)).getLast? with
      | none => rw [List.getLast?_eq_none_iff.mp hlast]; rfl
      | some q => rw [List.getLast?_cons, hlast]; rfl
    · rw [List.filter_cons_of_neg (by simpa using hk), Finmap.lookup_insert_of_ne _ (Ne.symm hk)]

theorem keys_insert (m : Finmap (fun _ : κ => α)) (k : κ) (a : α) :
    (m.insert k a).keys = insert k m.keys := by
  ext k'
  rw [Finset.mem_insert, Finmap.mem_keys, Finmap.mem_keys, Finmap.mem_insert]

end FabAccess.Infra
