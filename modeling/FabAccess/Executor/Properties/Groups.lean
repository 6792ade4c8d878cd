import FabAccess.Executor.Supervision
import FabAccess.Infra.FiniteMap

/-!
# 消えない group

id が捨てられても参照の数は減らず、registry から group を消す code も無い。
したがって、どこからも参照されなくなった group は残り続け、parent の数も減らない。

* `World.Tidy` — 参照されない group が消えていて、その分だけ parent の数が減っている
* `World.Accounted` — registry が、作られた group をすべて持ち続けていること
* `tidy_iff` — いつも `Tidy` なのは、最後の参照が一度も手放されないとき、そのときに限る
-/

namespace FabAccess.Executor

open Infra

variable {w w' w'' : World} {a : Action} {g id : GroupId}

/-- 番号から作った id は、その番号を指す。 -/
theorem idToIdx_idxToId {idx : UInt64} (h : idxToId idx = some id) : idToIdx id = idx := by
  unfold idxToId at h
  split at h
  · cases h
    exact UInt64.add_sub_cancel idx 1
  · cases h

/-- 番号の同じ id は同じである。 -/
theorem idToIdx_injective (h : idToIdx g = idToIdx id) : g = id := by
  cases g
  cases id
  have heq := (UInt64.sub_left_inj 1).mp h
  subst heq
  rfl

namespace World

/-- group が registry にある。 -/
def Registered (w : World) (g : GroupId) : Prop := idToIdx g ∈ w.groups

/-- 生きている proc、thread の current、登録されている子、呼び出し側のどれかが group を指す。 -/
inductive Referenced (w : World) (g : GroupId) : Prop where
  | proc (proc : ProcId) (h : w.procs.lookup proc = some (some g))
  | thread (thread : ThreadId) (h : w.current.lookup thread = some g)
  | child (idx : UInt64) (group : GroupInner) (h : w.groups.lookup idx = some group)
      (hparent : group.parent = some g)
  | owned (h : g ∈ w.owned)

/-- 作られた group のうち、どこからも参照されないもの。 -/
def Gone (w : World) (g : GroupId) (parent : Option GroupId) : Prop :=
  (g, parent) ∈ w.created ∧ ¬ w.Referenced g

/--
参照されない group は registry に無く、parent の参照の数は、数えられた参照から
参照されない子の分だけ減っている。
-/
structure Tidy (w : World) : Prop where
  removed : ∀ g parent, w.Gone g parent → ¬ w.Registered g
  givenBack : ∀ p group, w.groups.lookup (idToIdx p) = some group →
    ∀ gone : Finset GroupId, (∀ g ∈ gone, w.Gone g (some p)) →
      group.refCount.toNat + gone.card ≤ w.counted.count p

/-- 登録されている group への最後の参照を手放す。 -/
def LastReference (w : World) (g : GroupId) (a : Action) : Prop :=
  w.Registered g ∧ (∀ thread, w.current.lookup thread ≠ some g) ∧
  (∀ idx group, w.groups.lookup idx = some group → group.parent ≠ some g) ∧
  ((∃ proc, a = .destroy proc ∧ w.procs.lookup proc = some (some g) ∧
      (∀ other, other ≠ proc → w.procs.lookup other ≠ some (some g)) ∧ g ∉ w.owned) ∨
    (a = .drop g ∧ (∀ proc, w.procs.lookup proc ≠ some (some g)) ∧ w.owned.count g = 1))

/-! ## registry は減らない -/

/-- 作られた group はすべて registry にあり、参照の数は、数えられた参照を超えない。 -/
structure Accounted (w : World) : Prop where
  registered : ∀ g parent, (g, parent) ∈ w.created → w.Registered g
  created : ∀ g, w.Registered g → ∃ parent, (g, parent) ∈ w.created
  counted : ∀ p group, w.groups.lookup (idToIdx p) = some group →
    group.refCount.toNat ≤ w.counted.count p
  card : w.groups.keys.card = w.created.length

/-- registry が何も消さないうえは、`Tidy` は、登録されている group がどれも参照されていることである。 -/
theorem Accounted.tidy_iff_referenced (hacc : w.Accounted) :
    w.Tidy ↔ ∀ g, w.Registered g → w.Referenced g := by
  constructor
  · intro htidy g hg
    obtain ⟨parent, hcreated⟩ := hacc.created g hg
    by_contra href
    exact htidy.removed g parent ⟨hcreated, href⟩ hg
  · intro hall
    have hnone : ∀ g parent, ¬ w.Gone g parent := fun g parent hgone =>
      hgone.2 (hall g (hacc.registered g parent hgone.1))
    refine ⟨fun g parent hgone => absurd hgone (hnone g parent), ?_⟩
    intro p group hgroup gone hgone
    have hempty : gone = ∅ := by
      rw [Finset.eq_empty_iff_forall_notMem]
      intro g hg
      exact hnone g (some p) (hgone g hg)
    rw [hempty, Finset.card_empty, Nat.add_zero]
    exact hacc.counted p group hgroup

/-- 参照を一つも失わない動き。新しく登録された group には、必ず参照が付いている。 -/
structure Grows (w w' : World) : Prop where
  accounted : w.Accounted → w'.Accounted
  referenced : ∀ g, w.Referenced g → w'.Referenced g
  registered : ∀ g, w'.Registered g → w.Registered g ∨ w'.Referenced g

theorem Grows.trans (h : Grows w w') (h' : Grows w' w'') : Grows w w'' where
  accounted hacc := h'.accounted (h.accounted hacc)
  referenced g hg := h'.referenced g (h.referenced g hg)
  registered g hg := by
    rcases h'.registered g hg with hreg | href
    · rcases h.registered g hreg with hreg | href
      · exact Or.inl hreg
      · exact Or.inr (h'.referenced g href)
    · exact Or.inr href

/-- registry と記録が同じである。 -/
def SameRegistry (w w' : World) : Prop :=
  w'.groups = w.groups ∧ w'.created = w.created ∧ w'.counted = w.counted

/-- 登録が同じなら、登録されている group も同じである。 -/
theorem SameRegistry.registered (h : SameRegistry w w') : w'.Registered g ↔ w.Registered g := by
  unfold Registered
  rw [h.1]

/-- registry と記録に触らなければ、合ったままである。 -/
theorem SameRegistry.accounted (h : SameRegistry w w') (hacc : w.Accounted) : w'.Accounted := by
  obtain ⟨hgroups, hcreated, hcounted⟩ := h
  obtain ⟨hreg, hcre, hcou, hcard⟩ := hacc
  refine ⟨?_, ?_, ?_, ?_⟩
  · simpa only [Registered, hgroups, hcreated] using hreg
  · simpa only [Registered, hgroups, hcreated] using hcre
  · simpa only [hgroups, hcounted] using hcou
  · rw [hgroups, hcreated, hcard]

/-- registry に触らず、proc と current を残し、呼び出し側の参照をどこかに残す動き。 -/
theorem SameRegistry.grows (h : SameRegistry w w')
    (hprocs : ∀ proc cgroup, w.procs.lookup proc = some cgroup → w'.procs.lookup proc = some cgroup)
    (hcurrent : ∀ thread id, w.current.lookup thread = some id → w'.current.lookup thread = some id)
    (howned : ∀ g ∈ w.owned, w'.Referenced g) : Grows w w' where
  accounted := h.accounted
  referenced g hg := by
    cases hg with
    | proc proc hproc => exact .proc proc (hprocs proc _ hproc)
    | thread thread hthread => exact .thread thread (hcurrent thread g hthread)
    | child idx group hgroup hparent =>
      rw [← h.1] at hgroup
      exact .child idx group hgroup hparent
    | owned hg => exact howned g hg
  registered _ hg := Or.inl (h.registered.mp hg)

/-- `clone_group` は、登録された group の数を一つ増やすだけである。 -/
theorem cloneGroup_cases (h : w.cloneGroup id = some w') :
    ∃ group, w.groups.lookup (idToIdx id) = some group ∧
      w' = { w with
        groups := w.groups.insert (idToIdx id) { group with refCount := group.refCount + 1 }
        counted := id :: w.counted } := by
  unfold cloneGroup at h
  cases hgroup : w.groups.lookup (idToIdx id) with
  | none =>
    simp only [hgroup] at h
    cases h
  | some group =>
    simp only [hgroup] at h
    split at h
    · cases h
    · cases h
      exact ⟨group, rfl, rfl⟩

/-- `clone_group` は、参照を一つも失わない。 -/
theorem grows_of_cloneGroup (h : w.cloneGroup id = some w') : Grows w w' := by
  obtain ⟨group, hgroup, rfl⟩ := cloneGroup_cases h
  have hmem : ∀ idx, idx ∈ w.groups.insert (idToIdx id)
      { group with refCount := group.refCount + 1 } ↔ idx ∈ w.groups := by
    intro idx
    rw [Finmap.mem_insert]
    refine ⟨?_, Or.inr⟩
    rintro (rfl | hidx)
    · exact Finmap.mem_of_lookup_eq_some hgroup
    · exact hidx
  refine ⟨?_, ?_, ?_⟩
  · rintro ⟨hreg, hcre, hcou, hcard⟩
    refine ⟨?_, ?_, ?_, ?_⟩
    · intro g parent hg
      exact (hmem _).mpr (hreg g parent hg)
    · intro g hg
      exact hcre g ((hmem _).mp hg)
    · intro p group' hp
      by_cases heq : p = id
      · rw [heq, Finmap.lookup_insert, Option.some.injEq] at hp
        have hle := hcou id group hgroup
        rw [heq, ← hp, UInt64.toNat_add, List.count_cons_self]
        have hmod := Nat.mod_le (group.refCount.toNat + UInt64.toNat 1) (2 ^ 64)
        have hone : UInt64.toNat 1 = 1 := rfl
        omega
      · have hidx : idToIdx p ≠ idToIdx id := fun h => heq (idToIdx_injective h)
        rw [Finmap.lookup_insert_of_ne _ hidx] at hp
        rw [List.count_cons_of_ne (Ne.symm heq)]
        exact hcou p group' hp
    · rw [← hcard]
      congr 1
      ext idx
      rw [Finmap.mem_keys, Finmap.mem_keys, hmem]
  · intro g hg
    cases hg with
    | proc proc h => exact .proc proc h
    | thread thread h => exact .thread thread h
    | child idx group' h hparent =>
      by_cases heq : idx = idToIdx id
      · rw [heq, hgroup, Option.some.injEq] at h
        rw [← h] at hparent
        exact .child (idToIdx id) _ (Finmap.lookup_insert _) hparent
      · exact .child idx group' ((Finmap.lookup_insert_of_ne _ heq).trans h) hparent
    | owned h => exact .owned h
  · intro g hg
    exact Or.inl ((hmem _).mp hg)

/-- 新しい group は空いた番号に、数 1 で入り、親の id はそのまま記録される。 -/
theorem newGroupInner_cases {idx : UInt64} {parent : Option GroupId}
    (h : w.newGroupInner idx parent = some w') :
    ∃ id, idx ∉ w.groups ∧ idToIdx id = idx ∧
      w' = { w with
        groups := w.groups.insert idx { parent := parent, refCount := 1 }
        owned := id :: w.owned
        created := (id, parent) :: w.created
        counted := id :: w.counted } := by
  unfold newGroupInner at h
  split at h
  · cases h
  · next hidx =>
    split at h
    · cases h
    · next id hid =>
      cases h
      exact ⟨id, hidx, idToIdx_idxToId hid, rfl⟩

/-- 新しい group には参照が付いていて、ほかの参照も失われない。 -/
theorem grows_of_newGroupInner {idx : UInt64} {parent : Option GroupId}
    (h : w.newGroupInner idx parent = some w') : Grows w w' := by
  obtain ⟨id, hidx, rfl, rfl⟩ := newGroupInner_cases h
  refine ⟨?_, ?_, ?_⟩
  · rintro ⟨hreg, hcre, hcou, hcard⟩
    refine ⟨?_, ?_, ?_, ?_⟩
    · intro g parent' hg
      rcases List.mem_cons.mp hg with heq | hg
      · cases heq
        exact Finmap.mem_insert.mpr (Or.inl rfl)
      · exact Finmap.mem_insert.mpr (Or.inr (hreg g parent' hg))
    · intro g hg
      rcases Finmap.mem_insert.mp hg with heq | hg
      · rw [idToIdx_injective heq]
        exact ⟨parent, List.mem_cons_self⟩
      · obtain ⟨parent', hparent'⟩ := hcre g hg
        exact ⟨parent', List.mem_cons_of_mem _ hparent'⟩
    · intro p group hp
      by_cases heq : p = id
      · rw [heq, Finmap.lookup_insert, Option.some.injEq] at hp
        rw [heq, ← hp, List.count_cons_self]
        exact Nat.le_add_left 1 _
      · have hne : idToIdx p ≠ idToIdx id := fun h => heq (idToIdx_injective h)
        rw [Finmap.lookup_insert_of_ne _ hne] at hp
        rw [List.count_cons_of_ne (Ne.symm heq)]
        exact hcou p group hp
    · have hnot : idToIdx id ∉ w.groups.keys := fun h => hidx (Finmap.mem_keys.mp h)
      rw [keys_insert, Finset.card_insert_of_notMem hnot, hcard, List.length_cons]
  · intro g hg
    cases hg with
    | proc proc h => exact .proc proc h
    | thread thread h => exact .thread thread h
    | child idx group h hparent =>
      exact .child idx group (lookup_insert_of_notMem hidx h) hparent
    | owned h => exact .owned (List.mem_cons_of_mem _ h)
  · intro g hg
    rcases Finmap.mem_insert.mp hg with heq | hg
    · rw [idToIdx_injective heq]
      exact Or.inr (.owned List.mem_cons_self)
    · exact Or.inl hg

/-- `new_group` は、いまの group があればそれを親として数えてから、一つ作る。 -/
theorem newGroup_cases {thread : ThreadId} {idx : UInt64} (h : w.newGroup thread idx = some w') :
    ∃ v parent, (v = w ∨ ∃ id, w.cloneGroup id = some v) ∧ v.newGroupInner idx parent = some w' := by
  unfold newGroup at h
  split at h
  · exact ⟨w, none, Or.inl rfl, h⟩
  · next id _ =>
    obtain ⟨v, hclone, hinner⟩ := Option.bind_eq_some_iff.mp h
    exact ⟨v, some id, Or.inr ⟨id, hclone⟩, hinner⟩

/-- `current_group` は、いまの group があればその数を増やす。 -/
theorem currentGroup_cases {thread : ThreadId} {cgroup : Option GroupId}
    (h : w.currentGroup thread = some (w', cgroup)) : w' = w ∨ ∃ id, w.cloneGroup id = some w' := by
  unfold currentGroup at h
  split at h
  · cases h
    exact Or.inl rfl
  · next id _ =>
    obtain ⟨v, hclone, heq⟩ := Option.map_eq_some_iff.mp h
    cases heq
    exact Or.inr ⟨id, hclone⟩

theorem grows_of_cloned (h : w' = w ∨ ∃ id, w.cloneGroup id = some w') : Grows w w' := by
  rcases h with rfl | ⟨id, hclone⟩
  · exact ⟨fun hacc => hacc, fun _ hg => hg, fun _ hg => Or.inl hg⟩
  · exact grows_of_cloneGroup hclone

/-- proc は一度だけ作られ、group を一つ持つ。 -/
theorem build_cases {proc : ProcId} {cgroup : Option GroupId} (h : w.build proc cgroup = some w') :
    proc ∉ w.procs ∧ w' = { w with procs := w.procs.insert proc cgroup } := by
  unfold build at h
  split at h
  · cases h
  · next hproc =>
    cases h
    exact ⟨hproc, rfl⟩

theorem grows_of_build {proc : ProcId} {cgroup : Option GroupId}
    (h : w.build proc cgroup = some w') : Grows w w' := by
  obtain ⟨hproc, rfl⟩ := build_cases h
  refine SameRegistry.grows ⟨rfl, rfl, rfl⟩ ?_ ?_ ?_
  · intro other cgroup' hother
    exact lookup_insert_of_notMem hproc hother
  · intro thread id hthread
    exact hthread
  · intro g hg
    exact .owned hg

/-- 渡された id は、呼び出し側から proc に移るだけである。 -/
theorem grows_of_spawnLocalCgroup {proc : ProcId} (h : w.spawnLocalCgroup proc id = some w') :
    Grows w w' := by
  obtain ⟨hproc, rfl⟩ := build_cases h
  refine SameRegistry.grows ⟨rfl, rfl, rfl⟩ ?_ ?_ ?_
  · intro other cgroup hother
    exact lookup_insert_of_notMem hproc hother
  · intro thread id hthread
    exact hthread
  · intro g hg
    by_cases heq : g = id
    · rw [heq]
      exact .proc proc (Finmap.lookup_insert _)
    · exact .owned ((List.mem_erase_of_ne heq).mpr hg)

theorem grows_of_setCurrent (w : World) (thread : ThreadId) (id : GroupId) :
    Grows w (w.setCurrent thread id) := by
  unfold setCurrent
  split
  · next hnone =>
    refine SameRegistry.grows ⟨rfl, rfl, rfl⟩ ?_ ?_ ?_
    · intro proc cgroup hproc
      exact hproc
    · intro other id' hother
      exact lookup_insert_of_notMem (Finmap.lookup_eq_none.mp hnone) hother
    · intro g hg
      exact .owned hg
  · exact SameRegistry.grows ⟨rfl, rfl, rfl⟩ (fun _ _ h => h) (fun _ _ h => h) fun _ hg => .owned hg

/-- 呼び出し側の id が増えるだけの動き。 -/
theorem grows_of_owned {owned : List GroupId} (h : ∀ g ∈ w.owned, g ∈ owned) :
    Grows w { w with owned := owned } :=
  SameRegistry.grows ⟨rfl, rfl, rfl⟩ (fun _ _ h => h) (fun _ _ h => h) fun g hg => .owned (h g hg)

/-- 手放す歩みのほかは、参照を失わない。 -/
theorem step_cases (h : w.step a = some w') :
    Grows w w' ∨
    (∃ proc, a = .destroy proc ∧ w' = w.destroy proc) ∨
    (∃ id ∈ w.owned, a = .drop id ∧ w' = { w with owned := w.owned.erase id }) := by
  cases a with
  | newRootGroup idx => exact Or.inl (grows_of_newGroupInner h)
  | newGroup thread idx =>
    obtain ⟨v, parent, hv, hinner⟩ := newGroup_cases h
    exact Or.inl ((grows_of_cloned hv).trans (grows_of_newGroupInner hinner))
  | current thread =>
    obtain ⟨⟨v, cgroup⟩, hcurrent, rfl⟩ := Option.map_eq_some_iff.mp h
    refine Or.inl ((grows_of_cloned (currentGroup_cases hcurrent)).trans ?_)
    exact grows_of_owned fun g hg => List.mem_append_right _ hg
  | setCurrent thread id =>
    simp only [step] at h
    split at h
    · cases h
      exact Or.inl (grows_of_setCurrent w thread id)
    · cases h
  | spawn thread proc =>
    simp only [step, spawn] at h
    split at h
    · cases h
    · next v cgroup hcurrent =>
      exact Or.inl ((grows_of_cloned (currentGroup_cases hcurrent)).trans (grows_of_build h))
  | spawnLocalCgroup proc id =>
    simp only [step] at h
    split at h
    · exact Or.inl (grows_of_spawnLocalCgroup h)
    · cases h
  | clone id =>
    simp only [step] at h
    split at h
    · cases h
      exact Or.inl (grows_of_owned fun g hg => List.mem_cons_of_mem _ hg)
    · cases h
  | destroy proc =>
    simp only [step] at h
    split at h
    · cases h
      exact Or.inr (Or.inl ⟨proc, rfl, rfl⟩)
    · cases h
  | drop id =>
    simp only [step] at h
    split at h
    · next hid =>
      cases h
      exact Or.inr (Or.inr ⟨id, hid, rfl, rfl⟩)
    · cases h

/-- どの動作の後も、registry と記録は合っている。 -/
theorem step_accounted (hacc : w.Accounted) (h : w.step a = some w') : w'.Accounted := by
  rcases step_cases h with hgrows | ⟨proc, _, rfl⟩ | ⟨id, _, _, rfl⟩
  · exact hgrows.accounted hacc
  · have hsame : SameRegistry w (w.destroy proc) := ⟨rfl, rfl, rfl⟩
    exact hsame.accounted hacc
  · have hsame : SameRegistry w { w with owned := w.owned.erase id } := ⟨rfl, rfl, rfl⟩
    exact hsame.accounted hacc

/-! ## 参照が失われるとき -/

/-- 最後の参照を手放さないかぎり、登録されている group は参照され続ける。 -/
theorem step_referenced (hg : w.Referenced g) (hreg : w.Registered g)
    (hlast : ¬ w.LastReference g a) (h : w.step a = some w') : w'.Referenced g := by
  rcases step_cases h with hgrows | ⟨proc, rfl, rfl⟩ | ⟨id, hid, rfl, rfl⟩
  · exact hgrows.referenced g hg
  · by_contra hno
    have hother : ∀ other, other ≠ proc → w.procs.lookup other ≠ some (some g) :=
      fun other hne h => hno (.proc other ((Finmap.lookup_erase_ne hne).trans h))
    have howned : g ∉ w.owned := fun h => hno (.owned h)
    refine hlast ⟨hreg, fun thread h => hno (.thread thread h),
      fun idx group h hparent => hno (.child idx group h hparent),
      Or.inl ⟨proc, rfl, ?_, hother, howned⟩⟩
    cases hg with
    | proc other h =>
      by_cases heq : other = proc
      · rw [← heq]
        exact h
      · exact absurd h (hother other heq)
    | thread thread h => exact absurd (.thread thread h) hno
    | child idx group h hparent => exact absurd (.child idx group h hparent) hno
    | owned h => exact absurd h howned
  · by_contra hno
    have hgone : g ∉ w.owned.erase id := fun h => hno (.owned h)
    have hproc : ∀ proc, w.procs.lookup proc ≠ some (some g) := fun proc h => hno (.proc proc h)
    have howned : g ∈ w.owned := by
      cases hg with
      | proc proc h => exact absurd h (hproc proc)
      | thread thread h => exact absurd (.thread thread h) hno
      | child idx group h hparent => exact absurd (.child idx group h hparent) hno
      | owned h => exact h
    have heq : g = id := by
      by_contra hne
      exact hgone ((List.mem_erase_of_ne hne).mpr howned)
    subst heq
    have hcount : (w.owned.erase g).count g = w.owned.count g - 1 := List.count_erase_self
    rw [List.count_eq_zero_of_not_mem hgone] at hcount
    have hpos := List.count_pos_iff.mpr howned
    refine hlast ⟨hreg, fun thread h => hno (.thread thread h),
      fun idx group h hparent => hno (.child idx group h hparent), Or.inr ⟨rfl, hproc, ?_⟩⟩
    omega

/-- 最後の参照を手放すと、参照されない group が registry に残る。 -/
theorem step_lastReference (hlast : w.LastReference g a) (h : w.step a = some w') :
    w'.Registered g ∧ ¬ w'.Referenced g := by
  obtain ⟨hreg, hthread, hchild, ⟨proc, rfl, _, hother, howned⟩ | ⟨rfl, hproc, hcount⟩⟩ := hlast
  · simp only [step] at h
    split at h
    · cases h
      refine ⟨hreg, ?_⟩
      intro hg
      cases hg with
      | proc other h =>
        by_cases heq : other = proc
        · rw [heq, destroy, Finmap.lookup_erase] at h
          cases h
        · exact hother other heq ((Finmap.lookup_erase_ne heq).symm.trans h)
      | thread thread h => exact hthread thread h
      | child idx group h hparent => exact hchild idx group h hparent
      | owned h => exact howned h
    · cases h
  · simp only [step] at h
    split at h
    · cases h
      refine ⟨hreg, ?_⟩
      intro hg
      cases hg with
      | proc proc h => exact hproc proc h
      | thread thread h => exact hthread thread h
      | child idx group h hparent => exact hchild idx group h hparent
      | owned h =>
        have hpos := List.count_pos_iff.mpr h
        rw [List.count_erase_self] at hpos
        omega
    · cases h

/-- 初めは、registry も記録も空である。 -/
theorem start_accounted : start.Accounted where
  registered g parent h := by cases h
  created g h := absurd h (Finmap.notMem_empty)
  counted p group h := by
    simp only [start, Finmap.lookup_empty] at h
    cases h
  card := rfl

/-- 何も消されていないうえに、登録されている group がどれも参照されている。 -/
def Covered (w : World) : Prop := w.Accounted ∧ ∀ g, w.Registered g → w.Referenced g

/-- 初めは、登録された group が無い。 -/
theorem start_covered : start.Covered :=
  ⟨start_accounted, fun _ h => absurd h (Finmap.notMem_empty)⟩

/-- 最後の参照を手放さない動作の後も、登録された group はどれも参照されている。 -/
theorem Covered.step (hcov : w.Covered) (hlast : ¬ ∃ g, w.LastReference g a)
    (h : w.step a = some w') : w'.Covered := by
  obtain ⟨hacc, hall⟩ := hcov
  have hkeep : ∀ g, w.Registered g → w'.Referenced g := fun g hg =>
    step_referenced (hall g hg) hg (fun hl => hlast ⟨g, hl⟩) h
  refine ⟨step_accounted hacc h, ?_⟩
  intro g hg
  rcases step_cases h with hgrows | ⟨proc, _, rfl⟩ | ⟨id, _, _, rfl⟩
  · rcases hgrows.registered g hg with hreg | href
    · exact hkeep g hreg
    · exact href
  · exact hkeep g hg
  · exact hkeep g hg

/-- 最後の参照を手放すと、参照されない group が registry に残る。 -/
theorem not_covered_of_lastReference (hlast : ∃ g, w.LastReference g a)
    (h : w.step a = some w') : ¬ w'.Covered := by
  obtain ⟨g, hg⟩ := hlast
  obtain ⟨hreg, hno⟩ := step_lastReference hg h
  exact fun hcov => hno (hcov.2 g hreg)

/-- どの実行でも、registry と記録は合っている。 -/
theorem run_accounted {actions : List Action} (h : start.run actions = some w) : w.Accounted :=
  run_invariant (fun _ _ _ hacc hstep => step_accounted hacc hstep) start_accounted h

/-- 片づいているのは、登録された group がどれも参照されているとき、そのときに限る。 -/
theorem tidy_iff_covered {actions : List Action} (h : start.run actions = some w) :
    w.Tidy ↔ w.Covered := by
  have hacc := run_accounted h
  rw [hacc.tidy_iff_referenced]
  exact ⟨fun hall => ⟨hacc, hall⟩, fun hcov => hcov.2⟩

/-! ## 作られた group の数 -/

theorem cloned_created (h : w' = w ∨ ∃ id, w.cloneGroup id = some w') :
    w'.created = w.created := by
  rcases h with rfl | ⟨id, hclone⟩
  · rfl
  · obtain ⟨group, _, rfl⟩ := cloneGroup_cases hclone
    rfl

theorem newGroupInner_created {idx : UInt64} {parent : Option GroupId}
    (h : w.newGroupInner idx parent = some w') : w'.created.length = w.created.length + 1 := by
  obtain ⟨id, _, _, rfl⟩ := newGroupInner_cases h
  exact List.length_cons

/-- 動作が作る group の数だけ、作られた group の記録は伸びる。 -/
theorem step_created (h : w.step a = some w') :
    w'.created.length = w.created.length + if a.creates then 1 else 0 := by
  cases a with
  | newRootGroup idx => exact newGroupInner_created h
  | newGroup thread idx =>
    obtain ⟨v, parent, hv, hinner⟩ := newGroup_cases h
    rw [newGroupInner_created hinner, cloned_created hv]
    rfl
  | current thread =>
    obtain ⟨⟨v, cgroup⟩, hcurrent, rfl⟩ := Option.map_eq_some_iff.mp h
    have hcreated := cloned_created (currentGroup_cases hcurrent)
    exact congrArg List.length hcreated
  | setCurrent thread id =>
    simp only [step, setCurrent] at h
    split at h
    · split at h <;> cases h <;> rfl
    · cases h
  | spawn thread proc =>
    simp only [step, spawn] at h
    split at h
    · cases h
    · next v cgroup hcurrent =>
      obtain ⟨_, rfl⟩ := build_cases h
      have hcreated := cloned_created (currentGroup_cases hcurrent)
      exact congrArg List.length hcreated
  | spawnLocalCgroup proc id =>
    simp only [step] at h
    split at h
    · obtain ⟨_, rfl⟩ := build_cases h
      rfl
    · cases h
  | clone id =>
    simp only [step] at h
    split at h <;> cases h
    rfl
  | destroy proc =>
    simp only [step] at h
    split at h <;> cases h
    rfl
  | drop id =>
    simp only [step] at h
    split at h <;> cases h
    rfl

/-- 実行で作られた group の数は、作る動作の数である。 -/
theorem run_created {actions : List Action} (h : w.run actions = some w') :
    w'.created.length = w.created.length + (actions.filter Action.creates).length := by
  induction actions generalizing w with
  | nil =>
    cases h
    rfl
  | cons a actions ih =>
    simp only [run, runFrom] at h
    split at h
    · cases h
    · next v hstep =>
      rw [ih h, step_created hstep, List.filter_cons]
      split
      · rw [List.length_cons]
        omega
      · rfl

/-! ## もし消されたなら -/

/-- `clear` は消した group の parent の数を一つ減らす。 -/
theorem clear_givesBack {idx : UInt64} {group inner : GroupInner}
    (hgroup : w.groups.lookup idx = some group) (hparent : group.parent = some g)
    (hne : idToIdx g ≠ idx) (hinner : w.groups.lookup (idToIdx g) = some inner) :
    ∃ w', w.clear idx = some w' ∧ w'.groups.lookup idx = none ∧
      w'.groups.lookup (idToIdx g) = some { inner with refCount := inner.refCount - 1 } := by
  have hlookup : (w.groups.erase idx).lookup (idToIdx g) = some inner := by
    rw [Finmap.lookup_erase_ne hne]
    exact hinner
  simp only [clear, hgroup, hparent, tryClose, hlookup, Option.map_some]
  refine ⟨_, rfl, ?_, Finmap.lookup_insert _⟩
  rw [Finmap.lookup_insert_of_ne _ hne.symm]
  exact Finmap.lookup_erase idx w.groups

end World

/--
作り、複製し、proc を作っては壊す歩みをどう並べても、参照されない group がいつも registry から消え、
その parent の数が減っているのは、登録されている group への最後の参照が一度も手放されないとき、
そのときに限る。registry の group の数は、作られた group の数そのものである。
-/
theorem tidy_iff (actions : List Action) (w : World) (hrun : World.start.run actions = some w) :
    ((∀ v, Visited World.step World.start actions v → v.Tidy) ↔
      ∀ v a, StepsFrom World.step World.start actions v a → ¬ ∃ g, v.LastReference g a) ∧
    w.groups.keys.card = (actions.filter Action.creates).length := by
  refine ⟨?_, ?_⟩
  · have hcovered := visited_iff (fun _ _ _ hcov hlast hstep => World.Covered.step hcov hlast hstep)
      (fun _ _ _ _ hlast hstep => World.not_covered_of_lastReference hlast hstep)
      World.start_covered hrun
    rw [← hcovered]
    refine forall₂_congr ?_
    rintro v ⟨pre, post, _, hpre⟩
    exact World.tidy_iff_covered hpre
  · have hcreated := World.run_created hrun
    rw [(World.run_accounted hrun).card, hcreated]
    exact Nat.zero_add _

/-- root の group と、接続の group。 -/
def rootId : GroupId := ⟨1, by decide⟩

def connectionId : GroupId := ⟨2, by decide⟩

/-- server が起き、接続が一つ来ている。 -/
def connected : List Action := executorNew 0 0 rootId ++ handle 0 1 connectionId 0

theorem tidy_iff_connected :
    ∃ w : World, World.start.run connected = some w ∧
      (∀ v, Visited World.step World.start connected v → v.Tidy) ∧ w.groups.keys.card = 2 := by
  refine ⟨_, rfl, ?_, (tidy_iff connected _ rfl).2⟩
  refine (tidy_iff connected _ rfl).1.mpr ?_
  rintro v a ⟨pre, post, heq, _⟩ ⟨g, _, _, _, hlast⟩
  have hmem : a ∈ connected := by
    rw [heq]
    exact List.mem_append_right _ List.mem_cons_self
  rcases hlast with ⟨proc, rfl, _⟩ | ⟨rfl, _⟩
  · simp [connected, executorNew, handle] at hmem
  · simp [connected, executorNew, handle] at hmem

/-- 接続の proc が終わった後の状態。 -/
def disconnected : World where
  groups := (Finmap.insert 0 { parent := none, refCount := 2 } ∅).insert 1
    { parent := some rootId, refCount := 1 }
  current := Finmap.insert 0 rootId ∅
  procs := ∅
  owned := [rootId]
  created := [(connectionId, some rootId), (rootId, none)]
  counted := [connectionId, rootId, rootId]

theorem disconnected_not_referenced : ¬ disconnected.Referenced connectionId := by
  intro h
  cases h with
  | proc proc h =>
    simp only [disconnected, Finmap.lookup_empty] at h
    cases h
  | thread thread h =>
    by_cases heq : thread = 0
    · rw [heq] at h
      exact absurd h (by decide)
    · simp only [disconnected, Finmap.lookup_insert_of_ne _ heq, Finmap.lookup_empty] at h
      cases h
  | child idx group h hparent =>
    by_cases hone : idx = 1
    · rw [hone, disconnected, Finmap.lookup_insert] at h
      cases h
      exact absurd hparent (by decide)
    · rw [disconnected, Finmap.lookup_insert_of_ne _ hone] at h
      by_cases hzero : idx = 0
      · rw [hzero, Finmap.lookup_insert] at h
        cases h
        cases hparent
      · rw [Finmap.lookup_insert_of_ne _ hzero, Finmap.lookup_empty] at h
        cases h
  | owned h => exact absurd h (by decide)

/-- 接続が去った後も、その group は registry に残り、root の数は 2 のままである。 -/
theorem group_outlives_connection :
    World.start.run (connected ++ [.destroy 0]) = some disconnected ∧
      ¬ disconnected.Referenced connectionId ∧ disconnected.Registered connectionId ∧
      disconnected.groups.lookup (idToIdx rootId) = some { parent := none, refCount := 2 } ∧
      ¬ disconnected.Tidy := by
  have hreg : disconnected.Registered connectionId :=
    Finmap.mem_insert.mpr (Or.inl rfl)
  refine ⟨rfl, disconnected_not_referenced, hreg, by decide, ?_⟩
  intro htidy
  exact htidy.removed connectionId (some rootId)
    ⟨List.mem_cons_self, disconnected_not_referenced⟩ hreg

end FabAccess.Executor
