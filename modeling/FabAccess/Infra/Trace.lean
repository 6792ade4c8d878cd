import Mathlib.Data.List.Basic

/-!
# 記録

起きたことを後ろに足していく記録について、「どの項も、それより前の記録に照らして許される」ことを述べる。

* `Orderly` — 記録のどの項も許される
* `orderly_append_singleton` — 一項を足したときに確かめること。逆も成り立つ
* `getElem?_append_singleton` — 一項を足した記録の `i` 番目
* `since` — 最後の区切りより後の項
-/

namespace FabAccess.Infra

variable {ε : Type*} {ok : List ε → ε → Prop}

/-- 記録のどの項 `e` も、それより前の記録 `pre` に照らして許される。 -/
def Orderly (ok : List ε → ε → Prop) (tr : List ε) : Prop :=
  ∀ pre e post, tr = pre ++ e :: post → ok pre e

theorem orderly_nil : Orderly ok [] := by
  intro pre e post h
  simp at h

/-- 一項を足した記録の中の項は、その足した項か、前からあった項である。 -/
theorem append_singleton_split {tr pre post : List ε} {e e' : ε} (h : tr ++ [e] = pre ++ e' :: post) :
    (pre = tr ∧ e' = e ∧ post = []) ∨ ∃ post', post = post' ++ [e] ∧ tr = pre ++ e' :: post' := by
  rcases List.eq_nil_or_concat post with rfl | ⟨post', last, rfl⟩
  · obtain ⟨rfl, heq⟩ := List.append_inj' h rfl
    cases heq
    exact Or.inl ⟨rfl, rfl, rfl⟩
  · rw [List.concat_eq_append, ← List.cons_append, ← List.append_assoc] at h
    obtain ⟨rfl, heq⟩ := List.append_inj' h rfl
    cases heq
    exact Or.inr ⟨post', by rw [List.concat_eq_append], rfl⟩

/-- 一項を足した記録の `i` 番目は、前からの `i` 番目か、足した項である。 -/
theorem getElem?_append_singleton {tr : List ε} {e e' : ε} {i : Nat}
    (h : (tr ++ [e])[i]? = some e') : tr[i]? = some e' ∨ i = tr.length ∧ e' = e := by
  rcases Nat.lt_or_ge i tr.length with hlt | hge
  · rw [List.getElem?_append_left hlt] at h
    exact Or.inl h
  · rw [List.getElem?_append_right hge, List.getElem?_singleton] at h
    split at h
    · cases h
      exact Or.inr ⟨by omega, rfl⟩
    · cases h

/-- 前からの `i` 番目は、記録が後ろに増えても変わらない。 -/
theorem getElem?_append_of_some {tr post : List ε} {e : ε} {i : Nat} (h : tr[i]? = some e) :
    (tr ++ post)[i]? = some e := by
  rw [List.getElem?_append_left (List.getElem?_eq_some_iff.mp h).1, h]

theorem orderly_append_singleton {tr : List ε} {e : ε} (htr : Orderly ok tr) (he : ok tr e) :
    Orderly ok (tr ++ [e]) := by
  intro pre e' post h
  rcases append_singleton_split h with ⟨rfl, rfl, _⟩ | ⟨post', _, heq⟩
  · exact he
  · exact htr pre e' post' heq

theorem orderly_append_singleton_iff {tr : List ε} {e : ε} :
    Orderly ok (tr ++ [e]) ↔ Orderly ok tr ∧ ok tr e := by
  refine ⟨fun h => ⟨fun pre e' post heq => ?_, h tr e [] rfl⟩, fun h =>
    orderly_append_singleton h.1 h.2⟩
  exact h pre e' (post ++ [e]) (by rw [heq, List.append_assoc]; rfl)

/-- 最後の区切りより後の項。新しいものが先に来る。 -/
def since (mark : ε → Bool) (tr : List ε) : List ε := tr.reverse.takeWhile (fun e => !mark e)

theorem since_append_singleton {mark : ε → Bool} {tr : List ε} {e : ε} :
    since mark (tr ++ [e]) = if mark e then [] else e :: since mark tr := by
  cases h : mark e <;> simp [since, h]

theorem mem_since_append_singleton {mark : ε → Bool} {tr : List ε} {e : ε} (h : mark e = false) :
    e ∈ since mark (tr ++ [e]) := by
  simp [since, h]

end FabAccess.Infra
