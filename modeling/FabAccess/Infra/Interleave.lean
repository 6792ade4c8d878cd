import Mathlib.Algebra.Order.BigOperators.Group.List
import Mathlib.Algebra.Order.Ring.Nat
import Mathlib.Data.List.Perm.Basic
import Mathlib.Logic.Relation
import FabAccess.Infra.Run

/-!
# 割り込みのある実行

一つの共有状態の上を、いくつもの手続きが一歩ずつ進む系。手続きの数に上限はない。
どの順に進むかは `Move` の列で与えるので、「あらゆる割り込み」は「あらゆる列」である。

* `System.run` — 列に従った実行
* `System.run_eq_runFrom` — `Run.lean` の一歩ずつの実行としての `System.run`
* `System.run_invariant_of_obeys` — 一歩が保つ性質は、各歩の直前の状態に条件を課した実行の全体で
  成り立つ
* `System.countP_execs_le` — 一歩ごとに減る量があれば、どの手続きの歩数にも上限がある
* `System.Solo` — 一つの手続きだけが進む実行。途中の操作が終わることを述べるのに使う
* `System.run_of_runFrom` — 一つの手続きだけが、選びながら進む実行
* `total` — 手続きごとの重みの和。参照や権利を数える不変条件を書くのに使う

不変条件は手続きの並び順を見ない形で書き、`List.Perm` で持ち運ぶ。
そうすると一歩の証明では、動く手続きを先頭に置いて考えてよい。
-/

namespace FabAccess.Infra

/-- 重みの和。 -/
def total {τ M : Type*} [AddCommMonoid M] (w : τ → M) (l : List τ) : M := (l.map w).sum

section Total

variable {τ M : Type*} [AddCommMonoid M] (w : τ → M)

@[simp] theorem total_nil : total w [] = 0 := rfl

@[simp] theorem total_cons (t : τ) (l : List τ) : total w (t :: l) = w t + total w l := by
  simp [total]

@[simp] theorem total_append (l l' : List τ) : total w (l ++ l') = total w l + total w l' := by
  simp [total]

/-- 重みの和は、並び順によらない。 -/
theorem total_perm {l l' : List τ} (h : l.Perm l') : total w l = total w l' :=
  (h.map w).sum_eq

end Total

/-- 共有状態 `σ`、進行中の手続き `τ`、始め方 `ι`、一歩の選び方 `κ` を持つ系。 -/
structure System (σ τ ι κ : Type*) where
  /-- 新しい手続きを始める。手続きを伴わない環境の変化もここに入る -/
  spawn : σ → ι → Option (σ × List τ)
  /-- 手続きを一歩進める -/
  next : σ → τ → κ → Option (σ × τ)

/-- 実行の一歩の指定。 -/
inductive Move (ι κ : Type*) where
  | spawn (i : ι)
  | exec (n : Nat) (k : κ)
  deriving DecidableEq

/-- `n` 番目の手続きを進める歩である。 -/
def Move.execs {ι κ : Type*} (n : Nat) : Move ι κ → Bool
  | .spawn _ => false
  | .exec m _ => m == n

/-- ある時点の全体。 -/
structure Config (σ τ : Type*) where
  shared : σ
  threads : List τ

namespace System

variable {σ τ ι κ : Type*}

def step (S : System σ τ ι κ) (c : Config σ τ) : Move ι κ → Option (Config σ τ)
  | .spawn i =>
    match S.spawn c.shared i with
    | none => none
    | some (sh, ts) => some ⟨sh, c.threads ++ ts⟩
  | .exec n k =>
    match c.threads[n]? with
    | none => none
    | some t =>
      match S.next c.shared t k with
      | none => none
      | some (sh, t') => some ⟨sh, c.threads.set n t'⟩

def run (S : System σ τ ι κ) (c : Config σ τ) : List (Move ι κ) → Option (Config σ τ)
  | [] => some c
  | m :: ms =>
    match S.step c m with
    | none => none
    | some c' => S.run c' ms

variable {S : System σ τ ι κ}

/-- 実行は、最初の一歩と残りである。 -/
theorem run_cons {c c' : Config σ τ} {m : Move ι κ} {ms : List (Move ι κ)}
    (h : S.run c (m :: ms) = some c') : ∃ d, S.step c m = some d ∧ S.run d ms = some c' := by
  rw [run] at h
  split at h
  · simp at h
  · next d hd => exact ⟨d, hd, h⟩

/-- 割り込みのある実行も、一歩ずつの実行である。 -/
theorem run_eq_runFrom (c : Config σ τ) (ms : List (Move ι κ)) :
    S.run c ms = runFrom S.step c ms := by
  induction ms generalizing c with
  | nil => rfl
  | cons m ms ih =>
    simp only [run, runFrom]
    cases S.step c m with
    | none => rfl
    | some d => exact ih d

/-- 実行の継ぎ足し。 -/
theorem run_append {c d : Config σ τ} {ms : List (Move ι κ)} (h : S.run c ms = some d)
    (ms' : List (Move ι κ)) : S.run c (ms ++ ms') = S.run d ms' := by
  rw [run_eq_runFrom] at h
  rw [run_eq_runFrom, runFrom_append, h, run_eq_runFrom]
  rfl

/-- 最後の一歩を取り出す。 -/
theorem run_concat {c e : Config σ τ} {ms : List (Move ι κ)} {m : Move ι κ}
    (h : S.run c (ms ++ [m]) = some e) : ∃ d, S.run c ms = some d ∧ S.step d m = some e := by
  induction ms generalizing c with
  | nil =>
    obtain ⟨d, hd, hrest⟩ := run_cons h
    cases hrest
    exact ⟨c, rfl, hd⟩
  | cons m' ms ih =>
    obtain ⟨c', hc', hrest⟩ := run_cons h
    obtain ⟨d, hd, hstep⟩ := ih hrest
    refine ⟨d, ?_, hstep⟩
    rw [run, hc']
    exact hd

/-! ## 一歩の場合分け -/

/-- 始まる手続きは、後ろに並ぶ。 -/
theorem step_spawn {c c' : Config σ τ} {i : ι} (h : S.step c (.spawn i) = some c') :
    ∃ sh ts, S.spawn c.shared i = some (sh, ts) ∧ c' = ⟨sh, c.threads ++ ts⟩ := by
  rw [step] at h
  split at h
  · simp at h
  · next sh ts hs => exact ⟨sh, ts, hs, (Option.some.inj h).symm⟩

/-- `n` 番目を置き換えることは、それを先頭に置いて置き換えることと、並び順のほかは同じである。 -/
theorem perm_set {l : List τ} {n : Nat} {t : τ} (h : l[n]? = some t) (t' : τ) :
    ∃ rest, l.Perm (t :: rest) ∧ (l.set n t').Perm (t' :: rest) := by
  induction l generalizing n with
  | nil => simp at h
  | cons a l ih =>
    cases n with
    | zero =>
      rw [List.getElem?_cons_zero, Option.some.injEq] at h
      subst h
      exact ⟨l, List.Perm.refl _, List.Perm.refl _⟩
    | succ n =>
      rw [List.getElem?_cons_succ] at h
      obtain ⟨rest, h1, h2⟩ := ih h
      refine ⟨a :: rest, (h1.cons a).trans (List.Perm.swap t a rest), ?_⟩
      rw [List.set_cons_succ]
      exact (h2.cons a).trans (List.Perm.swap t' a rest)

/-- 手続きが一歩進むとき、ほかの手続き `rest` は動かない。 -/
theorem step_exec {c c' : Config σ τ} {n : Nat} {k : κ} (h : S.step c (.exec n k) = some c') :
    ∃ t sh t' rest, c.threads[n]? = some t ∧ S.next c.shared t k = some (sh, t') ∧
      c' = ⟨sh, c.threads.set n t'⟩ ∧ c.threads.Perm (t :: rest) ∧
      c'.threads.Perm (t' :: rest) := by
  rw [step] at h
  split at h
  · simp at h
  · next t ht =>
    split at h
    · simp at h
    · next sh t' hn =>
      obtain ⟨rest, h1, h2⟩ := perm_set ht t'
      cases h
      exact ⟨t, sh, t', rest, ht, hn, rfl, h1, h2⟩

/-- 手続きの一歩は、全体の一歩である。 -/
theorem step_exec_of_next {c : Config σ τ} {n : Nat} {t t' : τ} {sh : σ} {k : κ}
    (hget : c.threads[n]? = some t) (h : S.next c.shared t k = some (sh, t')) :
    S.step c (.exec n k) = some ⟨sh, c.threads.set n t'⟩ := by
  simp only [step, hget, h]

theorem run_cons_of_step {c d : Config σ τ} {m : Move ι κ} (h : S.step c m = some d)
    (ms : List (Move ι κ)) : S.run c (m :: ms) = S.run d ms := by
  simp only [run, h]

/-! ## 不変条件 -/

/-- 並び順によらない性質。 -/
def Symm (motive : σ → List τ → Prop) : Prop := ∀ sh l l', l.Perm l' → motive sh l → motive sh l'

/-- 実行のどの一歩でも、その直前の全体と歩の指定について `ok` が成り立つ。 -/
def Obeys (S : System σ τ ι κ) (ok : Config σ τ → Move ι κ → Prop) :
    Config σ τ → List (Move ι κ) → Prop
  | _, [] => True
  | c, m :: ms => ok c m ∧
    match S.step c m with
    | none => True
    | some c' => S.Obeys ok c' ms

instance Obeys.decidable (ok : Config σ τ → Move ι κ → Prop) [∀ c m, Decidable (ok c m)] :
    ∀ (ms : List (Move ι κ)) (c : Config σ τ), Decidable (S.Obeys ok c ms)
  | [], _ => inferInstanceAs (Decidable True)
  | m :: ms, c =>
    let : Decidable (match S.step c m with
        | none => True
        | some c' => S.Obeys ok c' ms) :=
      match S.step c m with
      | none => inferInstanceAs (Decidable True)
      | some c' => Obeys.decidable ok ms c'
    inferInstanceAs (Decidable (_ ∧ _))

variable {ok ok' : Config σ τ → Move ι κ → Prop}

/-- 条件は、最初の歩で成り立つ。 -/
theorem Obeys.head {c : Config σ τ} {m : Move ι κ} {ms : List (Move ι κ)}
    (h : S.Obeys ok c (m :: ms)) : ok c m := by
  rw [Obeys] at h
  exact h.1

/-- 条件は、残りの実行でも守られる。 -/
theorem Obeys.tail {c c' : Config σ τ} {m : Move ι κ} {ms : List (Move ι κ)}
    (h : S.Obeys ok c (m :: ms)) (hs : S.step c m = some c') : S.Obeys ok c' ms := by
  rw [Obeys, hs] at h
  exact h.2

theorem obeys_cons {c : Config σ τ} {m : Move ι κ} {ms : List (Move ι κ)} (hm : ok c m)
    (hms : ∀ c', S.step c m = some c' → S.Obeys ok c' ms) : S.Obeys ok c (m :: ms) := by
  rw [Obeys]
  refine ⟨hm, ?_⟩
  split
  · trivial
  · next c' hs => exact hms c' hs

/-- 状態によらずに成り立つ条件は、どの実行も守る。 -/
theorem obeys_of_forall {ms : List (Move ι κ)} (h : ∀ m ∈ ms, ∀ c, ok c m) (c : Config σ τ) :
    S.Obeys ok c ms := by
  induction ms generalizing c with
  | nil => trivial
  | cons m ms ih =>
    exact obeys_cons (h m (by simp) c) (fun c' _ => ih (fun m' hm' => h m' (by simp [hm'])) c')

/-- 条件を守る実行は、最後の一歩までも、最後の一歩でも条件を守る。 -/
theorem Obeys.of_concat {c d : Config σ τ} {ms : List (Move ι κ)} {m : Move ι κ}
    (h : S.Obeys ok c (ms ++ [m])) (hrun : S.run c ms = some d) : S.Obeys ok c ms ∧ ok d m := by
  induction ms generalizing c with
  | nil =>
    cases hrun
    exact ⟨trivial, h.head⟩
  | cons m' ms ih =>
    obtain ⟨c', hc', hrest⟩ := run_cons hrun
    obtain ⟨hms, hm⟩ := ih (h.tail hc') hrest
    refine ⟨obeys_cons h.head (fun c'' hs => ?_), hm⟩
    rw [hc'] at hs
    cases hs
    exact hms

/-- 二つの条件を守る実行は、その両方を守る。 -/
theorem Obeys.and {c : Config σ τ} {ms : List (Move ι κ)} (h : S.Obeys ok c ms)
    (h' : S.Obeys ok' c ms) : S.Obeys (fun c m => ok c m ∧ ok' c m) c ms := by
  induction ms generalizing c with
  | nil => trivial
  | cons m ms ih =>
    exact obeys_cons ⟨h.head, h'.head⟩ (fun c' hs => ih (h.tail hs) (h'.tail hs))

/-- 不変条件 `J` の下で同じことを言う二つの条件は、同じ実行が守る。 -/
theorem obeys_iff_of_invariant {J : Config σ τ → Prop}
    (hiff : ∀ c m, J c → (ok c m ↔ ok' c m))
    (hstep : ∀ c m c', J c → ok c m → S.step c m = some c' → J c')
    {c : Config σ τ} {ms : List (Move ι κ)} (hc : J c) : S.Obeys ok c ms ↔ S.Obeys ok' c ms := by
  induction ms generalizing c with
  | nil => exact Iff.rfl
  | cons m ms ih =>
    constructor
    · intro h
      refine obeys_cons ((hiff c m hc).mp h.head) (fun c' hs => ?_)
      exact (ih (hstep c m c' hc h.head hs)).mp (h.tail hs)
    · intro h
      have hok := (hiff c m hc).mpr h.head
      refine obeys_cons hok (fun c' hs => ?_)
      exact (ih (hstep c m c' hc hok hs)).mpr (h.tail hs)

section Invariant

variable {motive : σ → List τ → Prop} (hsymm : Symm motive)
  (hspawn : ∀ sh l i sh' ts, S.spawn sh i = some (sh', ts) → ok ⟨sh, l⟩ (.spawn i) →
    motive sh l → motive sh' (ts ++ l))
  (hnext : ∀ c n t k sh' t' rest, c.threads[n]? = some t → c.threads.Perm (t :: rest) →
    S.next c.shared t k = some (sh', t') → ok c (.exec n k) →
    motive c.shared (t :: rest) → motive sh' (t' :: rest))

include hsymm hspawn hnext

/-- 始まりと一歩が保つ性質は、全体の一歩が保つ。 -/
theorem step_invariant {c c' : Config σ τ} {m : Move ι κ} (hs : S.step c m = some c')
    (hok : ok c m) (hc : motive c.shared c.threads) : motive c'.shared c'.threads := by
  cases m with
  | spawn i =>
    obtain ⟨sh, ts, hsp, rfl⟩ := step_spawn hs
    exact hsymm _ _ _ List.perm_append_comm (hspawn _ _ i sh ts hsp hok hc)
  | exec n k =>
    obtain ⟨t, sh, t', rest, ht, hn, rfl, h1, h2⟩ := step_exec hs
    exact hsymm _ _ _ h2.symm (hnext c n t k _ t' rest ht h1 hn hok (hsymm _ _ _ h1 hc))

/-- 条件を守る実行は、一歩が保つ性質を保つ。 -/
theorem run_invariant_of_obeys {c c' : Config σ τ} {ms : List (Move ι κ)}
    (hrun : S.run c ms = some c') (hok : S.Obeys ok c ms) (hc : motive c.shared c.threads) :
    motive c'.shared c'.threads := by
  induction ms generalizing c with
  | nil => cases hrun; exact hc
  | cons m ms ih =>
    obtain ⟨d, hd, hrest⟩ := run_cons hrun
    exact ih hrest (hok.tail hd) (step_invariant hsymm hspawn hnext hd hok.head hc)

/-- 条件 `ok` を守る実行は、不変条件の下で `ok` から出る条件 `ok'` も守る。 -/
theorem Obeys.of_invariant (himp : ∀ c m, motive c.shared c.threads → ok c m → ok' c m)
    {c : Config σ τ} {ms : List (Move ι κ)} (hok : S.Obeys ok c ms)
    (hc : motive c.shared c.threads) : S.Obeys ok' c ms := by
  induction ms generalizing c with
  | nil => trivial
  | cons m ms ih =>
    refine obeys_cons (himp c m hc hok.head) (fun c' hs => ?_)
    exact ih (hok.tail hs) (step_invariant hsymm hspawn hnext hs hok.head hc)

end Invariant

/-! ## 歩数の上限 -/

section Count

variable {left : τ → Nat} {most : Nat}

/-- `n` 番目の手続きに残された歩数。まだ始まっていなければ `most` である。 -/
def leftOf (left : τ → Nat) (most : Nat) (c : Config σ τ) (n : Nat) : Nat :=
  match c.threads[n]? with
  | none => most
  | some t => left t

variable (hspawn : ∀ sh i sh' ts, S.spawn sh i = some (sh', ts) → ∀ t ∈ ts, left t ≤ most)
  (hnext : ∀ sh t k sh' t', S.next sh t k = some (sh', t') → left t' < left t)

include hspawn hnext

/-- 手続きの一歩は、残された歩数を一つ以上減らし、ほかの歩は増やさない。 -/
theorem step_leftOf {c c' : Config σ τ} {m : Move ι κ} (hs : S.step c m = some c') (n : Nat) :
    (if m.execs n then 1 else 0) + leftOf left most c' n ≤ leftOf left most c n := by
  unfold leftOf
  cases m with
  | spawn i =>
    obtain ⟨sh, ts, hsp, rfl⟩ := step_spawn hs
    rw [Move.execs, if_neg (by simp), Nat.zero_add]
    dsimp only
    by_cases hlt : n < c.threads.length
    · rw [List.getElem?_append_left hlt]
    · have hnone : c.threads[n]? = none := List.getElem?_eq_none (by omega)
      rw [hnone, List.getElem?_append_right (by omega)]
      dsimp only
      split
      · exact Nat.le_refl _
      · next t ht => exact hspawn _ _ _ _ hsp t (List.mem_of_getElem? ht)
  | exec k choice =>
    obtain ⟨t, sh, t', rest, hget, hn, rfl, -, -⟩ := step_exec hs
    have hdec := hnext _ _ _ _ _ hn
    have hlt := (List.getElem?_eq_some_iff.mp hget).1
    by_cases hkn : k = n
    · subst hkn
      rw [Move.execs, if_pos (beq_self_eq_true k), hget]
      dsimp only
      rw [List.getElem?_set_self hlt]
      dsimp only
      omega
    · rw [Move.execs, if_neg (by simpa using hkn), Nat.zero_add]
      dsimp only
      rw [List.getElem?_set_ne hkn]

/-- **一歩ごとに減る量があれば、どの手続きの歩数もその初めの値を越えない。** -/
theorem countP_execs_le {c c' : Config σ τ} {ms : List (Move ι κ)} (hrun : S.run c ms = some c')
    (n : Nat) : ms.countP (Move.execs n) ≤ leftOf left most c n := by
  induction ms generalizing c with
  | nil => exact Nat.zero_le _
  | cons m ms ih =>
    obtain ⟨d, hd, hrest⟩ := run_cons hrun
    have hstep := step_leftOf hspawn hnext hd n
    have htail := ih hrest
    rw [List.countP_cons]
    omega

end Count

/-! ## 一つだけが進む実行 -/

/-- 一つの手続きだけが、`k` を選びながら進む。 -/
def Solo (S : System σ τ ι κ) (k : κ) : σ × τ → σ × τ → Prop :=
  Relation.ReflTransGen (fun p q => S.next p.1 p.2 k = some q)

variable {k : κ}

theorem Solo.refl (p : σ × τ) : S.Solo k p p := Relation.ReflTransGen.refl

/-- 一歩を先に踏む。 -/
theorem Solo.cons {sh : σ} {t : τ} {q r : σ × τ} (h : S.next sh t k = some q)
    (hr : S.Solo k q r) : S.Solo k (sh, t) r :=
  Relation.ReflTransGen.head h hr

/-- 途中の手続きは、そこからの実行として一つだけで進める。 -/
theorem Solo.run {c : Config σ τ} {n : Nat} {t : τ} {q : σ × τ} (hget : c.threads[n]? = some t)
    (h : S.Solo k (c.shared, t) q) :
    ∃ m, S.run c (List.replicate m (.exec n k)) = some ⟨q.1, c.threads.set n q.2⟩ := by
  generalize hp : (c.shared, t) = p at h
  induction h using Relation.ReflTransGen.head_induction_on generalizing c t with
  | refl =>
    refine ⟨0, ?_⟩
    obtain ⟨hn, hget'⟩ := List.getElem?_eq_some_iff.mp hget
    rw [← hp, ← hget', List.set_getElem_self]
    rfl
  | @head p r hstep _ ih =>
    subst hp
    have hn := (List.getElem?_eq_some_iff.mp hget).1
    obtain ⟨m, hm⟩ := ih (c := ⟨r.1, c.threads.set n r.2⟩) (List.getElem?_set_self hn) rfl
    refine ⟨m + 1, ?_⟩
    rw [List.replicate_succ, System.run, step, hget]
    simp only [hstep]
    simpa [List.set_set] using hm

end System

end FabAccess.Infra
