import Mathlib.Data.Finset.Basic
import Mathlib.Data.Set.Finite.Basic
import Mathlib.Logic.Relation
import Mathlib.Order.WellFounded
import Mathlib.Data.Fintype.Order
import Mathlib.Order.OrderIsoNat

/-!
# 覚え書きつきの深さ優先探索

「当たり」の頂点に届くかどうかを、見終わった頂点の集合 `seen` を引き回しながら調べる探索。
頂点は **部分木を調べ終えてから** `seen` に入る。早期の return があるので、
`seen` に入るのは「ここからは当たりに届かない」と分かった頂点だけである。

* `search_spec` — 返った答えは、定義された頂点だけを通る到達可能性に一致する
* `firstHit_returns_iff` — 答えが返るのは、探索の進む先に循環が無いとき、そのときに限る
* `search_returns` — 辺が循環しなければ、必ず答えが返る
* `search_seen` — 当たりが無ければ、`seen` に増えるのは届く頂点のすべてである

探索の深さは `fuel` で数える。`none` は深さが足りなかったこと（呼び出しが終わらないこと）を表す。
-/

namespace FabAccess.Infra

open Relation

variable {α : Type*}

/-- 辺と当たりを持つグラフ。`next a = none` は頂点 `a` が定義されていないこと。 -/
structure Graph (α : Type*) where
  next : α → Option (List α)
  hit : α → Bool

namespace Graph

/-- 列を順に調べ、当たりが出たところで止める。`seen` は左から右へ引き回す。 -/
def firstHit (f : Finset α → α → Option (Bool × Finset α)) :
    Finset α → List α → Option (Bool × Finset α)
  | seen, [] => some (false, seen)
  | seen, a :: rest =>
    match f seen a with
    | none => none
    | some (true, seen') => some (true, seen')
    | some (false, seen') => firstHit f seen' rest

/-- 探索の本体。見終わった頂点は、その先をすべて調べてから `seen` に加える。 -/
def search [DecidableEq α] (g : Graph α) : Nat → Finset α → α → Option (Bool × Finset α)
  | 0, _, _ => none
  | fuel + 1, seen, a =>
    match g.next a with
    | none => some (false, seen)
    | some children =>
      if a ∈ seen then some (false, seen)
      else if g.hit a then some (true, seen)
      else
        match firstHit (g.search fuel) seen children with
        | none => none
        | some (true, seen') => some (true, seen')
        | some (false, seen') => some (false, insert a seen')

/-! ## 到達可能性 -/

/-- 定義された頂点から、その子への一歩。 -/
def Edge (g : Graph α) (a b : α) : Prop := ∃ children, g.next a = some children ∧ b ∈ children

/-- `a` から、定義された頂点だけを通って当たりに届く。 -/
def Finds (g : Graph α) (a : α) : Prop :=
  ∃ b, ReflTransGen g.Edge a b ∧ (g.next b).isSome ∧ g.hit b = true

variable {g : Graph α}

/-- 表に無いものからは、何も見つからない。 -/
theorem not_finds_of_undefined {a : α} (h : g.next a = none) : ¬ g.Finds a := by
  rintro ⟨b, hab, hb, _⟩
  rcases ReflTransGen.cases_head hab with rfl | ⟨c, ⟨children, hc, _⟩, _⟩
  · simp [h] at hb
  · simp [h] at hc

/-- 見つかるのは、自分が当たりか、子のどれかから見つかるときである。 -/
theorem finds_iff {a : α} {children : List α} (h : g.next a = some children) :
    g.Finds a ↔ g.hit a = true ∨ ∃ b ∈ children, g.Finds b := by
  constructor
  · rintro ⟨b, hab, hb, hhit⟩
    rcases ReflTransGen.cases_head hab with rfl | ⟨c, ⟨l, hl, hcl⟩, hcb⟩
    · exact Or.inl hhit
    · rw [h] at hl
      cases hl
      exact Or.inr ⟨c, hcl, b, hcb, hb, hhit⟩
  · rintro (hhit | ⟨c, hc, b, hcb, hb, hhit⟩)
    · exact ⟨a, ReflTransGen.refl, by simp [h], hhit⟩
    · exact ⟨b, ReflTransGen.head ⟨children, h, hc⟩ hcb, hb, hhit⟩

/-! ## 答えの正しさ -/

/-- `seen` の頂点からは当たりに届かない。探索が保つ不変条件である。 -/
def Clean (g : Graph α) (seen : Finset α) : Prop := ∀ a ∈ seen, ¬ g.Finds a

/-- 一つの頂点についての仕様：答えが到達可能性に一致し、外れなら `seen` は clean のまま。 -/
def Answers (g : Graph α) (P : Prop) (r : Bool × Finset α) : Prop :=
  (r.1 = true ↔ P) ∧ (r.1 = false → g.Clean r.2)

/-- 一つ一つの探し方が正しければ、順に探しても正しい。 -/
theorem firstHit_spec {f : Finset α → α → Option (Bool × Finset α)}
    (hf : ∀ seen a r, g.Clean seen → f seen a = some r → g.Answers (g.Finds a) r) :
    ∀ (l : List α) (seen : Finset α) (r : Bool × Finset α), g.Clean seen →
      firstHit f seen l = some r → g.Answers (∃ a ∈ l, g.Finds a) r := by
  intro l
  induction l with
  | nil =>
    intro seen r hs h
    simp only [firstHit, Option.some.injEq] at h
    subst h
    exact ⟨by simp, fun _ => hs⟩
  | cons a rest ih =>
    intro seen r hs h
    simp only [firstHit] at h
    split at h
    · simp at h
    · next seen' ha =>
      cases h
      have hans := hf seen a _ hs ha
      exact ⟨by simpa using Or.inl (hans.1.mp rfl), by simp⟩
    · next seen' ha =>
      have hans := hf seen a _ hs ha
      have hno : ¬ g.Finds a := fun hc => by simpa using hans.1.mpr hc
      have hrest := ih seen' r (hans.2 rfl) h
      refine ⟨?_, hrest.2⟩
      rw [hrest.1]
      simp [hno]

/-- **探索の答えは到達可能性である。** 循環があっても、答えが返った限りでは正しい。 -/
theorem search_spec [DecidableEq α] : ∀ (fuel : Nat) (seen : Finset α) (a : α) (r : Bool × Finset α),
    g.Clean seen → g.search fuel seen a = some r → g.Answers (g.Finds a) r := by
  intro fuel
  induction fuel with
  | zero => intro seen a r _ h; simp [search] at h
  | succ fuel ih =>
    intro seen a r hs h
    simp only [search] at h
    split at h
    · next hu =>
      cases h
      exact ⟨by simp [not_finds_of_undefined hu], fun _ => hs⟩
    · next children hch =>
      split at h
      · next hmem =>
        cases h
        exact ⟨by simp [hs a hmem], fun _ => hs⟩
      · split at h
        · next hhit =>
          cases h
          exact ⟨by simp [finds_iff hch, hhit], by simp⟩
        · next hnohit =>
          -- 子を順に調べる。`seen` の頂点からは当たりに届かないことが、子から子へ渡る
          have hloop := fun r' => firstHit_spec (g := g) ih children seen r' hs
          split at h
          · simp at h
          · next seen' hl =>
            cases h
            have hans := hloop _ hl
            exact ⟨by simpa [finds_iff hch, hnohit] using hans.1, by simp⟩
          · next seen' hl =>
            cases h
            have hans := hloop _ hl
            have hno : ¬ g.Finds a := by
              rw [finds_iff hch]
              rintro (hc | hc)
              · exact hnohit hc
              · simpa using hans.1.mpr hc
            refine ⟨by simp [hno], fun _ b hb => ?_⟩
            rcases Finset.mem_insert.mp hb with rfl | hb
            · exact hno
            · exact hans.2 rfl b hb

/-! ## 見終わった頂点 -/

/-- `a` から、定義された頂点だけを通って定義された頂点 `b` に届く。 -/
def Reaches (g : Graph α) (a b : α) : Prop := ReflTransGen g.Edge a b ∧ (g.next b).isSome

/-- 表に無いものからは、どこにも届かない。 -/
theorem not_reaches_of_undefined {a b : α} (h : g.next a = none) : ¬ g.Reaches a b := by
  rintro ⟨hab, hb⟩
  rcases ReflTransGen.cases_head hab with rfl | ⟨c, ⟨children, hc, _⟩, _⟩
  · simp [h] at hb
  · simp [h] at hc

/-- 届くのは、自分か、子のどれかから届くものである。 -/
theorem reaches_iff {a b : α} {children : List α} (h : g.next a = some children) :
    g.Reaches a b ↔ b = a ∨ ∃ c ∈ children, g.Reaches c b := by
  constructor
  · rintro ⟨hab, hb⟩
    rcases ReflTransGen.cases_head hab with rfl | ⟨c, ⟨l, hl, hcl⟩, hcb⟩
    · exact Or.inl rfl
    · rw [h] at hl
      cases hl
      exact Or.inr ⟨c, hcl, hcb, hb⟩
  · rintro (rfl | ⟨c, hc, hcb, hb⟩)
    · exact ⟨ReflTransGen.refl, by simp [h]⟩
    · exact ⟨ReflTransGen.head ⟨children, h, hc⟩ hcb, hb⟩

theorem Reaches.trans {a b c : α} (hab : g.Reaches a b) (hbc : g.Reaches b c) : g.Reaches a c :=
  ⟨hab.1.trans hbc.1, hbc.2⟩

/-- `seen` の頂点から届く頂点は、すべて `seen` にある。 -/
def Closed (g : Graph α) (seen : Finset α) : Prop := ∀ a ∈ seen, ∀ b, g.Reaches a b → b ∈ seen

/-- `seen` に、`P` から届く頂点を過不足なく加える。 -/
def Adds (g : Graph α) (seen seen' : Finset α) (P : α → Prop) : Prop :=
  ∀ b, b ∈ seen' ↔ b ∈ seen ∨ ∃ a, P a ∧ g.Reaches a b

/-- 閉じた印に、届くものを過不足なく足しても閉じている。 -/
theorem Adds.closed {seen seen' : Finset α} {P : α → Prop} (h : g.Adds seen seen' P)
    (hs : g.Closed seen) : g.Closed seen' := by
  intro b hb c hbc
  rw [h] at hb ⊢
  rcases hb with hb | ⟨a, ha, hab⟩
  · exact Or.inl (hs b hb c hbc)
  · exact Or.inr ⟨a, ha, hab.trans hbc⟩

/-- 当たりが無ければ、順に探したものの全部に印が付く。 -/
theorem firstHit_seen {f : Finset α → α → Option (Bool × Finset α)}
    (hf : ∀ seen a seen', g.Closed seen → f seen a = some (false, seen') →
      g.Adds seen seen' (· = a)) :
    ∀ (l : List α) (seen seen' : Finset α), g.Closed seen →
      firstHit f seen l = some (false, seen') → g.Adds seen seen' (· ∈ l) := by
  intro l
  induction l with
  | nil =>
    intro seen seen' _ h
    cases h
    simp [Adds]
  | cons a rest ih =>
    intro seen seen' hs h
    simp only [firstHit] at h
    split at h
    · cases h
    · cases h
    · next mid hmid =>
      have ha := hf seen a mid hs hmid
      have hrest := ih mid seen' (ha.closed hs) h
      intro b
      rw [hrest b, ha b]
      simp [or_assoc]

/-- **当たりが無ければ、`seen` に増えるのは届く頂点のすべてである。** -/
theorem search_seen [DecidableEq α] : ∀ (fuel : Nat) (seen : Finset α) (a : α) (seen' : Finset α),
    g.Closed seen → g.search fuel seen a = some (false, seen') → g.Adds seen seen' (· = a) := by
  intro fuel
  induction fuel with
  | zero => intro seen a seen' _ h; simp [search] at h
  | succ fuel ih =>
    intro seen a seen' hs h
    simp only [search] at h
    split at h
    · next hu =>
      cases h
      intro b
      simp [not_reaches_of_undefined hu]
    · next children hch =>
      split at h
      · next hmem =>
        cases h
        intro b
        simp only [exists_eq_left, iff_self_or]
        exact hs a hmem b
      · split at h
        · cases h
        · split at h
          · cases h
          · cases h
          · next mid hmid =>
            cases h
            have hloop := firstHit_seen ih children seen mid hs hmid
            intro b
            rw [Finset.mem_insert, hloop b]
            simp only [exists_eq_left, reaches_iff hch]
            tauto

/-! ## 答えが返ること -/

/-- 列を順に調べるとき、`b` の番が来る。それより前からは当たりに届かない。 -/
def Called (g : Graph α) (l : List α) (b : α) : Prop :=
  ∃ pre post, l = pre ++ b :: post ∧ ∀ c ∈ pre, ¬ g.Finds c

/-- 探索が `a` から `b` へ進む。早期の return があるので、辺のすべてを進むわけではない。 -/
def Visits (g : Graph α) (a b : α) : Prop :=
  ∃ children, g.next a = some children ∧ g.hit a = false ∧ g.Called children b

/-- 呼び出しは、辺に沿って起こる。 -/
theorem Visits.edge {a b : α} (h : g.Visits a b) : g.Edge a b := by
  obtain ⟨children, hch, _, pre, post, rfl, _⟩ := h
  exact ⟨_, hch, by simp⟩

theorem called_cons_self (g : Graph α) (a : α) (rest : List α) : g.Called (a :: rest) a :=
  ⟨[], rest, rfl, by simp⟩

/-- 先頭で見つからなければ、残りも呼ばれる。 -/
theorem Called.cons {a b : α} {rest : List α} (ha : ¬ g.Finds a) (h : g.Called rest b) :
    g.Called (a :: rest) b := by
  obtain ⟨pre, post, rfl, hpre⟩ := h
  refine ⟨a :: pre, post, rfl, fun c hc => ?_⟩
  rcases List.mem_cons.mp hc with rfl | hc
  · exact ha
  · exact hpre c hc

/-- 呼ばれるのは、先頭か、先頭で見つからなかったときの残りである。 -/
theorem Called.cons_cases {a b : α} {rest : List α} (h : g.Called (a :: rest) b) :
    b = a ∨ (¬ g.Finds a ∧ g.Called rest b) := by
  obtain ⟨pre, post, heq, hpre⟩ := h
  cases pre with
  | nil =>
    rw [List.nil_append, List.cons.injEq] at heq
    exact Or.inl heq.1.symm
  | cons c pre =>
    rw [List.cons_append, List.cons.injEq] at heq
    obtain ⟨rfl, rfl⟩ := heq
    exact Or.inr ⟨hpre a (by simp), pre, post, rfl, fun c hc => hpre c (by simp [hc])⟩

/-- 探索が `a` から先へ無限には進まない。 -/
def Stops (g : Graph α) (a : α) : Prop := Acc (fun b a => g.Visits a b) a

/-- `n` 以上の深さがあれば、clean な `seen` から答えが返る。 -/
def ReturnsBy [DecidableEq α] (g : Graph α) (n : Nat) (a : α) : Prop :=
  ∀ fuel, n ≤ fuel → ∀ seen, g.Clean seen → (g.search fuel seen a).isSome

/-- fuel を増やしても、返る探索は返る。 -/
theorem ReturnsBy.mono [DecidableEq α] {a : α} {n m : Nat} (h : g.ReturnsBy n a) (hnm : n ≤ m) :
    g.ReturnsBy m a :=
  fun fuel hfuel => h fuel (le_trans hnm hfuel)

/-- 呼ばれるものがどれも返れば、順に探しても返る。 -/
theorem firstHit_isSome [DecidableEq α] {fuel : Nat} : ∀ (l : List α),
    (∀ b, g.Called l b → ∀ seen, g.Clean seen → (g.search fuel seen b).isSome) →
      ∀ seen, g.Clean seen → (firstHit (g.search fuel) seen l).isSome := by
  intro l
  induction l with
  | nil => intro _ seen _; simp [firstHit]
  | cons a rest ih =>
    intro hf seen hs
    obtain ⟨⟨b, seen'⟩, ha⟩ := Option.isSome_iff_exists.mp (hf a (called_cons_self g a rest) seen hs)
    have hans := search_spec fuel seen a _ hs ha
    cases b with
    | true => simp [firstHit, ha]
    | false =>
      have hno : ¬ g.Finds a := fun hc => by simpa using hans.1.mpr hc
      have hrest := ih (fun b hb => hf b (hb.cons hno)) seen' (hans.2 rfl)
      simpa [firstHit, ha] using hrest

/-- 呼ばれる子が fuel `n` で返れば、`n + 1` で返る。 -/
theorem search_succ_isSome [DecidableEq α] {a : α} {n : Nat}
    (h : ∀ b, g.Visits a b → g.ReturnsBy n b) : g.ReturnsBy (n + 1) a := by
  intro fuel hfuel seen hs
  obtain ⟨fuel, rfl⟩ : ∃ m, fuel = m + 1 := ⟨fuel - 1, by omega⟩
  simp only [search]
  split
  · simp
  · next children hch =>
    split
    · simp
    · split
      · simp
      · next hhit =>
        have hloop := firstHit_isSome (g := g) children
          (fun b hb => h b ⟨children, hch, by simpa using hhit, hb⟩ fuel (by omega)) seen hs
        obtain ⟨⟨b, seen'⟩, hb⟩ := Option.isSome_iff_exists.mp hloop
        cases b <;> simp [hb]

/-- 番の来る頂点それぞれに効く深さがあれば、全部に効く深さがある。 -/
theorem returnsBy_called [DecidableEq α] : ∀ (l : List α),
    (∀ b, g.Called l b → ∃ n, g.ReturnsBy n b) → ∃ n, ∀ b, g.Called l b → g.ReturnsBy n b := by
  intro l
  induction l with
  | nil =>
    intro _
    refine ⟨0, ?_⟩
    rintro b ⟨pre, post, heq, _⟩
    simp at heq
  | cons a rest ih =>
    intro h
    obtain ⟨n, hn⟩ := h a (called_cons_self g a rest)
    by_cases ha : g.Finds a
    · refine ⟨n, fun b hb => ?_⟩
      rcases hb.cons_cases with rfl | ⟨hno, _⟩
      · exact hn
      · exact absurd ha hno
    · obtain ⟨m, hm⟩ := ih (fun b hb => h b (hb.cons ha))
      refine ⟨max n m, fun b hb => ?_⟩
      rcases hb.cons_cases with rfl | ⟨_, hb⟩
      · exact hn.mono (le_max_left _ _)
      · exact (hm b hb).mono (le_max_right _ _)

/-- 先へ無限に進まない頂点からの探索は返る。 -/
theorem Stops.returnsBy [DecidableEq α] {a : α} (h : g.Stops a) : ∃ n, g.ReturnsBy n a := by
  induction h with
  | intro a _ ih =>
    cases hn : g.next a with
    | none => exact ⟨1, search_succ_isSome (by rintro b ⟨l, hl, _⟩; simp [hn] at hl)⟩
    | some children =>
      by_cases hhit : g.hit a = false
      · obtain ⟨n, hall⟩ := returnsBy_called (g := g) children
          (fun b hb => ih b ⟨children, hn, hhit, hb⟩)
        refine ⟨n + 1, search_succ_isSome ?_⟩
        rintro b ⟨l, hl, _, hb⟩
        rw [hn] at hl
        cases hl
        exact hall b hb
      · exact ⟨1, search_succ_isSome (by rintro b ⟨_, _, hno, _⟩; exact absurd hno hhit)⟩

/-- `seen` の頂点は調べ終わっている。 -/
def Done (g : Graph α) (seen : Finset α) : Prop := g.Clean seen ∧ ∀ a ∈ seen, g.Stops a

/-- 返った探索が呼んだものは、どれも返る。 -/
theorem firstHit_stops [DecidableEq α] {fuel : Nat}
    (hf : ∀ seen a r, g.Done seen → g.search fuel seen a = some r →
      g.Stops a ∧ (r.1 = false → g.Done r.2)) :
    ∀ (l : List α) (seen : Finset α) (r : Bool × Finset α), g.Done seen →
      firstHit (g.search fuel) seen l = some r →
      (∀ b, g.Called l b → g.Stops b) ∧ (r.1 = false → g.Done r.2) := by
  intro l
  induction l with
  | nil =>
    intro seen r hs h
    simp only [firstHit, Option.some.injEq] at h
    subst h
    refine ⟨?_, fun _ => hs⟩
    rintro b ⟨pre, post, heq, _⟩
    simp at heq
  | cons a rest ih =>
    intro seen r hs h
    simp only [firstHit] at h
    split at h
    · simp at h
    -- 当たりで打ち切られたときに番が来たのは、その頂点までである
    · next seen' ha =>
      cases h
      have hfind : g.Finds a := (search_spec fuel seen a _ hs.1 ha).1.mp rfl
      refine ⟨fun b hb => ?_, by simp⟩
      rcases hb.cons_cases with rfl | ⟨hno, _⟩
      · exact (hf seen b _ hs ha).1
      · exact absurd hfind hno
    · next seen' ha =>
      obtain ⟨hstop, hdone⟩ := hf seen a _ hs ha
      obtain ⟨hrest, hr⟩ := ih seen' r (hdone rfl) h
      refine ⟨fun b hb => ?_, hr⟩
      rcases hb.cons_cases with rfl | ⟨_, hb⟩
      · exact hstop
      · exact hrest b hb

/-- 返った探索は、先へ無限には進まなかった。 -/
theorem search_stops [DecidableEq α] : ∀ (fuel : Nat) (seen : Finset α) (a : α) (r : Bool × Finset α),
    g.Done seen → g.search fuel seen a = some r → g.Stops a ∧ (r.1 = false → g.Done r.2) := by
  intro fuel
  induction fuel with
  | zero => intro seen a r _ h; simp [search] at h
  | succ fuel ih =>
    intro seen a r hs h
    -- 帰納法は深さの上。`a` から呼ばれる頂点がどれも止まれば、`a` も止まる
    have hspec := search_spec (fuel + 1) seen a r hs.1 h
    simp only [search] at h
    split at h
    · next hu =>
      cases h
      refine ⟨Acc.intro a ?_, fun _ => hs⟩
      rintro b ⟨l, hl, _⟩
      simp [hu] at hl
    · next children hch =>
      split at h
      · next hmem =>
        cases h
        exact ⟨hs.2 a hmem, fun _ => hs⟩
      · split at h
        · next hhit =>
          cases h
          refine ⟨Acc.intro a ?_, by simp⟩
          rintro b ⟨_, _, hno, _⟩
          simp [hhit] at hno
        · have hloop := fun r' => firstHit_stops (g := g) ih children seen r' hs
          have hstop : ∀ r', firstHit (g.search fuel) seen children = some r' → g.Stops a := by
            intro r' hr'
            refine Acc.intro a ?_
            rintro b ⟨l, hl, _, hb⟩
            rw [hch] at hl
            cases hl
            exact (hloop r' hr').1 b hb
          split at h
          · simp at h
          · next seen' hl =>
            cases h
            exact ⟨hstop _ hl, by simp⟩
          · next seen' hl =>
            cases h
            refine ⟨hstop _ hl, fun _ => ⟨hspec.2 rfl, fun b hb => ?_⟩⟩
            rcases Finset.mem_insert.mp hb with rfl | hb
            · exact hstop _ hl
            · exact ((hloop _ hl).2 rfl).2 b hb

/-- 空の印は、調べ終わっている。 -/
theorem done_empty (g : Graph α) : g.Done ∅ := ⟨by simp [Clean], by simp⟩

/-- **列の探索が返るのは、番の来るどの頂点からも先へ無限には進まないとき、そのときに限る。** -/
theorem firstHit_returns_iff [DecidableEq α] {l : List α} :
    (∃ n, ∀ fuel, n ≤ fuel → (firstHit (g.search fuel) ∅ l).isSome) ↔
      ∀ b, g.Called l b → g.Stops b := by
  constructor
  · rintro ⟨n, hn⟩
    obtain ⟨r, hr⟩ := Option.isSome_iff_exists.mp (hn n le_rfl)
    exact (firstHit_stops (search_stops n) l ∅ r (done_empty g) hr).1
  · intro h
    obtain ⟨n, hn⟩ := returnsBy_called (g := g) l (fun b hb => (h b hb).returnsBy)
    exact ⟨n, fun fuel hfuel =>
      firstHit_isSome l (fun b hb seen hs => hn b hb fuel hfuel seen hs) ∅ (done_empty g).1⟩

/-! ## 循環 -/

section Cycle

variable {r : α → α → Prop}

/-- 先へ進める頂点が有限なら、無限に進めないことは、循環に届かないことである。 -/
theorem acc_iff_no_cycle (hfin : {a | ∃ b, r a b}.Finite) (a : α) :
    Acc (fun b a => r a b) a ↔ ∀ b, ReflTransGen r a b → ¬ TransGen r b b := by
  constructor
  · intro h b hab
    have hb : Acc (fun b a => r a b) b := by
      induction hab with
      | refl => exact h
      | tail _ hcb ih => exact ih.inv hcb
    clear hab h
    induction hb with
    | intro b _ ih =>
      intro hcycle
      -- 循環を一つ進めても循環である
      obtain ⟨c, hbc, hcb⟩ := TransGen.head'_iff.mp hcycle
      exact ih c hbc (TransGen.tail' hcb hbc)
  · intro h
    let V := {x : α // ReflTransGen r a x ∧ ∃ y, r x y}
    have : Finite V := (hfin.subset fun x hx => hx.2).to_subtype
    have hwf : WellFounded (fun x y : V => TransGen r y.1 x.1) :=
      @Finite.wellFounded_of_trans_of_irrefl V _ _
        ⟨fun _ _ _ hab hbc => hbc.trans hab⟩ ⟨fun x => h x.1 x.2.1⟩
    have hacc : ∀ v : V, Acc (fun b a => r a b) v.1 := by
      intro v
      induction v using hwf.induction with
      | _ v ih =>
        refine Acc.intro v.1 fun c hc => ?_
        by_cases hnext : ∃ y, r c y
        · exact ih ⟨c, v.2.1.tail hc, hnext⟩ (TransGen.single hc)
        · exact Acc.intro c fun d hd => absurd ⟨d, hd⟩ hnext
    by_cases hnext : ∃ y, r a y
    · exact hacc ⟨a, ReflTransGen.refl, hnext⟩
    · exact Acc.intro a fun d hd => absurd ⟨d, hd⟩ hnext

end Cycle

/-- 表が有限なら、返るのは、呼び出しを辿って輪に入らないとき、そのときに限る。 -/
theorem stops_iff (hfin : {a | (g.next a).isSome}.Finite) (a : α) :
    g.Stops a ↔ ∀ b, ReflTransGen g.Visits a b → ¬ TransGen g.Visits b b := by
  refine acc_iff_no_cycle (hfin.subset ?_) a
  rintro x ⟨y, children, hch, _⟩
  simp [hch]

/-- 定義された頂点が有限で、辺が循環しないこと。 -/
structure Acyclic (g : Graph α) : Prop where
  finite : {a | (g.next a).isSome}.Finite
  irrefl : ∀ a, ¬ TransGen g.Edge a a

/-- **循環しないグラフの探索は必ず返る。** -/
theorem search_returns [DecidableEq α] (h : g.Acyclic) (l : List α) :
    ∃ n, ∀ fuel, n ≤ fuel → (firstHit (g.search fuel) ∅ l).isSome := by
  rw [firstHit_returns_iff]
  intro b _
  rw [stops_iff h.finite]
  intro c _ hcycle
  exact h.irrefl c (TransGen.mono (fun _ _ => Visits.edge) c c hcycle)

/-- 頂点と辺と当たりを増やしても、届いていた当たりには届く。 -/
theorem Finds.mono {g' : Graph α}
    (hle : ∀ a children, g.next a = some children → ∃ children', g'.next a = some children' ∧
      (∀ b ∈ children, (g.next b).isSome → b ∈ children') ∧ (g.hit a = true → g'.hit a = true))
    {a : α} (h : g.Finds a) : g'.Finds a := by
  obtain ⟨b, hab, hb, hhit⟩ := h
  induction hab using ReflTransGen.head_induction_on with
  | refl =>
    obtain ⟨l, hl⟩ := Option.isSome_iff_exists.mp hb
    obtain ⟨l', hl', _, hh⟩ := hle b l hl
    exact (finds_iff hl').mpr (Or.inl (hh hhit))
  | @head x y hxy hyb ih =>
    obtain ⟨l, hl, hyl⟩ := hxy
    obtain ⟨l', hl', hsub, _⟩ := hle x l hl
    -- 道の途中の頂点は、次の一歩か終点であることから定義されている
    have hydef : (g.next y).isSome := by
      rcases ReflTransGen.cases_head hyb with rfl | ⟨z, ⟨m, hm, _⟩, _⟩
      · exact hb
      · simp [hm]
    exact (finds_iff hl').mpr (Or.inr ⟨y, hsub y hyl hydef, ih⟩)

end Graph

end FabAccess.Infra
