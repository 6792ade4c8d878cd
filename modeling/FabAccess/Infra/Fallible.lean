import Mathlib

/-!
# 状態を変えながら失敗しうる計算

`EStateM` の計算を、成功した実行から逆向きに読むための補題。
失敗してもそれまでの変更は残るので、`&mut self` を受け取って `Result` を返す method に対応する。

* `bind_ok` — 続けて行う計算が成功するのは、どちらも成功するときである
* `need_ok`・`ensure_ok` — 早期 return を越えたなら、その条件が成り立っていた
* `Fails` — 決まった理由で抜けるのは、どの条件のときか
* `Meets` — 成功しても失敗しても、終わった状態が満たす条件
* `Sim` — 二つの計算が、関係する状態から歩調を揃えて進む
-/

namespace FabAccess.Infra

variable {ε σ α β : Type}

/-- 値が無ければ `e` で抜ける。 -/
def need (o : Option α) (e : ε) : EStateM ε σ α :=
  match o with
  | some a => pure a
  | none => throw e

/-- 条件が成り立たなければ `e` で抜ける。 -/
def ensure (b : Bool) (e : ε) : EStateM ε σ Unit := if b then pure () else throw e

/-- `Except` の失敗をそのまま引き継ぐ（`?`）。 -/
def attempt (e : Except ε α) : EStateM ε σ α :=
  match e with
  | .ok a => pure a
  | .error e => throw e

/-- 続けて行って成功するのは、前が成功し、その結果について後が成功するときである。 -/
@[simp] theorem bind_ok {x : EStateM ε σ α} {f : α → EStateM ε σ β} {s s' : σ} {b : β} :
    (x >>= f) s = .ok b s' ↔ ∃ a s₁, x s = .ok a s₁ ∧ f a s₁ = .ok b s' := by
  simp only [bind, EStateM.bind]
  cases x s with
  | ok a s₁ => simp
  | error e s₁ => simp

@[simp] theorem pure_ok {s s' : σ} {a b : α} :
    (pure a : EStateM ε σ α) s = .ok b s' ↔ a = b ∧ s = s' := by
  simp [pure, EStateM.pure]

@[simp] theorem get_ok {s s' t : σ} : (get : EStateM ε σ σ) s = .ok t s' ↔ s = t ∧ s = s' := by
  simp [get, getThe, MonadStateOf.get, EStateM.get]

@[simp] theorem modify_ok {f : σ → σ} {s s' : σ} {u : PUnit} :
    (modify f : EStateM ε σ PUnit) s = .ok u s' ↔ f s = s' := by
  simp [modify, modifyGet, MonadStateOf.modifyGet, EStateM.modifyGet]

@[simp] theorem throw_ok {e : ε} {s s' : σ} {a : α} :
    (throw e : EStateM ε σ α) s ≠ .ok a s' := by
  simp [throw, throwThe, MonadExceptOf.throw, EStateM.throw]

/-- `need` が成功するのは値があるときで、状態は変わらない。 -/
@[simp] theorem need_ok {o : Option α} {e : ε} {s s' : σ} {a : α} :
    need o e s = .ok a s' ↔ o = some a ∧ s = s' := by
  cases o with
  | some b => simp [need]
  | none => simp [need]

/-- `ensure` が成功するのは条件が成り立つときで、状態は変わらない。 -/
@[simp] theorem ensure_ok {b : Bool} {e : ε} {s s' : σ} {u : Unit} :
    ensure b e s = .ok u s' ↔ b = true ∧ s = s' := by
  cases b with
  | true => simp [ensure]
  | false => simp [ensure]

/-- `attempt` は、与えられた結果をそのまま返す。 -/
@[simp] theorem attempt_ok {e : Except ε α} {s s' : σ} {a : α} :
    attempt e s = .ok a s' ↔ e = .ok a ∧ s = s' := by
  cases e with
  | ok b => simp [attempt]
  | error e => simp [attempt]

/-! ## 失敗の理由 -/

section Fails

variable {s : σ} {e e' : ε}

/-- `s` から始めると、`e` で抜ける。 -/
def Fails (m : EStateM ε σ α) (s : σ) (e : ε) : Prop := ∃ s', m s = .error e s'

/-- `pure` は失敗しない。 -/
@[simp] theorem fails_pure {a : α} : ¬ Fails (pure a : EStateM ε σ α) s e := by
  simp [Fails, pure, EStateM.pure]

variable {f : α → EStateM ε σ β}

/-- `throw` の後に何を続けても、その error で失敗する。 -/
@[simp] theorem fails_throw : Fails (throw e >>= f) s e' ↔ e = e' := by
  simp [Fails, throw, throwThe, MonadExceptOf.throw, EStateM.throw, bind, EStateM.bind]

/-- 値が無くて失敗するか、値があって後が失敗する。 -/
@[simp] theorem fails_need {o : Option α} :
    Fails (need o e >>= f) s e' ↔ o = none ∧ e = e' ∨ ∃ a, o = some a ∧ Fails (f a) s e' := by
  cases o with
  | some a => simp [need]
  | none => simp [need]

/-- 条件が破れて失敗するか、成り立って後が失敗する。 -/
@[simp] theorem fails_ensure {f : Unit → EStateM ε σ β} {b : Bool} :
    Fails (ensure b e >>= f) s e' ↔ b = false ∧ e = e' ∨ b = true ∧ Fails (f ()) s e' := by
  cases b with
  | true => simp [ensure]
  | false => simp [ensure]

/-- 与えられた結果が error であるか、後が失敗する。 -/
@[simp] theorem fails_attempt {r : Except ε α} :
    Fails (attempt r >>= f) s e ↔ r = .error e ∨ ∃ a, r = .ok a ∧ Fails (f a) s e := by
  cases r with
  | ok a => simp [attempt]
  | error e₁ => simp [attempt]

@[simp] theorem fails_get {f : σ → EStateM ε σ β} : Fails (get >>= f) s e ↔ Fails (f s) s e :=
  Iff.rfl

@[simp] theorem fails_modify {f : PUnit → EStateM ε σ β} {g : σ → σ} :
    Fails (modify g >>= f) s e ↔ Fails (f ⟨⟩) (g s) e :=
  Iff.rfl

end Fails

/-! ## 終わった状態 -/

section Meets

variable {P E : σ → Prop} {Q : β → σ → Prop}

/-- `P` にある状態から、成功して `Q` にあるか、失敗して `E` にある。 -/
def Meets (P : σ → Prop) (m : EStateM ε σ α) (Q : α → σ → Prop) (E : σ → Prop) : Prop :=
  ∀ s, P s →
    match m s with
    | .ok a s' => Q a s'
    | .error _ s' => E s'

/-- 事後条件が事前条件から出るなら、`pure` は満たす。 -/
theorem Meets.pure {b : β} (h : ∀ s, P s → Q b s) : Meets P (pure b : EStateM ε σ β) Q E := h

/-- 値があるときの後を確かめればよい。 -/
theorem Meets.need {f : α → EStateM ε σ β} (he : ∀ s, P s → E s) {o : Option α} {e : ε}
    (h : ∀ a, o = some a → Meets P (f a) Q E) : Meets P (need o e >>= f) Q E := by
  cases o with
  | some a => exact h a rfl
  | none => exact he

/-- 条件が成り立つときの後を確かめればよい。 -/
theorem Meets.ensure {f : Unit → EStateM ε σ β} (he : ∀ s, P s → E s) {b : Bool} {e : ε}
    (h : Meets P (f ()) Q E) : Meets P (ensure b e >>= f) Q E := by
  cases b with
  | true => exact h
  | false => exact he

/-- 与えられた結果が成功であるときの後を確かめればよい。 -/
theorem Meets.attempt {f : α → EStateM ε σ β} (he : ∀ s, P s → E s) {r : Except ε α}
    (h : ∀ a, Meets P (f a) Q E) : Meets P (attempt r >>= f) Q E := by
  cases r with
  | ok a => exact h a
  | error e => exact he

/-- 読んだ値を今の状態と結び付けておく必要の無いときは、条件はそのまま残る。 -/
theorem Meets.read {f : σ → EStateM ε σ β} (h : ∀ s, P s → Meets P (f s) Q E) :
    Meets P (get >>= f) Q E :=
  fun s hs => h s hs s hs

/-- 読み出した状態は、後の始まりの状態である。 -/
theorem Meets.get {f : σ → EStateM ε σ β} (h : ∀ s, P s → Meets (· = s) (f s) Q E) :
    Meets P (get >>= f) Q E :=
  fun s hs => h s hs s rfl

/-- 書き換えた後の状態が満たす条件 `P'` から続ける。 -/
theorem Meets.modify {f : Unit → EStateM ε σ β} (P' : σ → Prop) {g : σ → σ}
    (hg : ∀ s, P s → P' (g s)) (h : Meets P' (f ()) Q E) : Meets P (modify g >>= f) Q E :=
  fun s hs => h (g s) (hg s hs)

end Meets

/-! ## 歩調を揃える二つの計算 -/

section Sim

variable {τ γ δ : Type} {P : σ → τ → Prop} {E : σ → τ → Prop}

/-- 関係 `P` にある状態から、ともに成功して `Q` にあるか、ともに失敗して `E` にある。 -/
def Sim (P : σ → τ → Prop) (m : EStateM ε σ α) (m' : EStateM ε τ β)
    (Q : α → σ → β → τ → Prop) (E : σ → τ → Prop) : Prop :=
  ∀ s t, P s t →
    match m s, m' t with
    | .ok a s', .ok b t' => Q a s' b t'
    | .error _ s', .error _ t' => E s' t'
    | _, _ => False

variable {R : γ → σ → δ → τ → Prop}

/-- 返す値どうしが対応すればよい。 -/
theorem Sim.pure {Q : α → σ → β → τ → Prop} {a : α} {b : β} (h : ∀ s t, P s t → Q a s b t) :
    Sim P (pure a : EStateM ε σ α) (pure b) Q E :=
  h

/-- 同じ値を要るとするので、両方とも失敗するか、同じ値で続く。 -/
theorem Sim.need {f : α → EStateM ε σ γ} {f' : α → EStateM ε τ δ} (he : ∀ s t, P s t → E s t)
    {o : Option α} {e e' : ε} (h : ∀ a, Sim P (f a) (f' a) R E) :
    Sim P (need o e >>= f) (need o e' >>= f') R E := by
  cases o with
  | some a => exact h a
  | none => exact he

/-- 同じ結果によるので、両方とも失敗するか、同じ値で続く。 -/
theorem Sim.attempt {f : α → EStateM ε σ γ} {f' : α → EStateM ε τ δ} (he : ∀ s t, P s t → E s t)
    {r : Except ε α} (h : ∀ a, Sim P (f a) (f' a) R E) :
    Sim P (attempt r >>= f) (attempt r >>= f') R E := by
  cases r with
  | ok a => exact h a
  | error e => exact he

/-- 同じ条件によるので、両方とも失敗するか、両方とも続く。 -/
theorem Sim.ensure {f : Unit → EStateM ε σ γ} {f' : Unit → EStateM ε τ δ}
    (he : ∀ s t, P s t → E s t) {b : Bool} {e e' : ε} (h : Sim P (f ()) (f' ()) R E) :
    Sim P (ensure b e >>= f) (ensure b e' >>= f') R E := by
  cases b with
  | true => exact h
  | false => exact he

/-- 読み出した状態どうしも、状態の関係で対応する。 -/
theorem Sim.get {f : σ → EStateM ε σ γ} {f' : τ → EStateM ε τ δ}
    (h : ∀ s t, P s t → Sim P (f s) (f' t) R E) :
    Sim P (get >>= f) (get >>= f') R E :=
  fun s t hst => h s t hst s t hst

/-- 書き換えた後の状態の関係 `P'` から続ける。 -/
theorem Sim.modify {f : Unit → EStateM ε σ γ} {f' : Unit → EStateM ε τ δ} (P' : σ → τ → Prop)
    {g : σ → σ} {g' : τ → τ} (hg : ∀ s t, P s t → P' (g s) (g' t))
    (h : Sim P' (f ()) (f' ()) R E) : Sim P (modify g >>= f) (modify g' >>= f') R E :=
  fun s t hst => h (g s) (g' t) (hg s t hst)

end Sim

end FabAccess.Infra
