import FabAccess.Resources.Concurrent
import FabAccess.Resources.Properties.Ownership

/-!
# 読んでから書くまでの間

判断は最初に読んだ status に対して下され、書き込みはその後の別の transaction で行われる。
間にほかの書き込みが入ると、表が許さない遷移が書かれる（`bothTake_not_writeAllowed`）。

どの書き込みの直前でも、保存されている status が最初に読んだものと同じである実行では、
manage の無い session の書き込みはすべて表の許す遷移である（`writeAllowed_of_fresh`）。
-/

namespace FabAccess

open Infra System

/-! ## 一歩についての条件 -/

/-- この歩で動く呼び出しと、そのときの環境。 -/
def mover (c : Config World Update) : Move Arrival Weather → Option (Update × Weather)
  | .spawn _ => none
  | .exec n k => c.threads[n]?.map (fun t => (t, k))

/-- 次の一歩が `StateDB::put` である。 -/
def Update.writes (t : Update) : Bool :=
  match t.pc with
  | .put _ => true
  | _ => false

/-- 動く session は manage を持たない。 -/
def NoManager (roles : Roles) (res : Resource) (c : Config World Update)
    (m : Move Arrival Weather) : Prop :=
  ∀ p ∈ mover c m, p.1.pc = .checkManage →
    p.1.session.hasManage roles p.2.fuel c.shared.users res ≠ some true

/-- 書く直前の status は、その呼び出しが最初に読んだ status である。 -/
def Fresh (c : Config World Update) (m : Move Arrival Weather) : Prop :=
  ∀ p ∈ mover c m, p.1.writes = true → c.shared.inner.db.state = p.1.old

/-- 書き込みは、直前に保存されている status から、manage によらずに表が許す遷移である。 -/
def WriteAllowed (c : Config World Update) (m : Move Arrival Weather) : Prop :=
  ∀ p ∈ mover c m, p.1.writes = true →
    p.1.manage = false ∧ p.1.allowedFrom c.shared.inner.db.state = true

/-- 使い始める書き込みは、空いているか、自分が予約した機械にだけ行われる。 -/
def TakesFree (c : Config World Update) (m : Move Arrival Weather) : Prop :=
  ∀ p ∈ mover c m, p.1.writes = true → ∀ who, p.1.request = .tryUpdate (.inUse who) →
    c.shared.inner.db.state = .free ∨ c.shared.inner.db.state = .reserved who

instance (roles : Roles) (res : Resource) (c : Config World Update) (m : Move Arrival Weather) :
    Decidable (NoManager roles res c m) :=
  inferInstanceAs (Decidable (∀ p ∈ mover c m, _))

instance (c : Config World Update) (m : Move Arrival Weather) : Decidable (Fresh c m) :=
  inferInstanceAs (Decidable (∀ p ∈ mover c m, _))

instance (c : Config World Update) (m : Move Arrival Weather) : Decidable (WriteAllowed c m) :=
  inferInstanceAs (Decidable (∀ p ∈ mover c m, _))

/-! ## 判断を終えた呼び出し -/

/-- 判断を終えて書こうとしている呼び出しは、最初に読んだ status から許されている。 -/
def Update.Checked (t : Update) : Prop :=
  match t.pc with
  | .read | .checkManage | .checkWrite => t.manage = false
  | .reread | .put _ => t.manage = false ∧ t.allowedFrom t.old = true
  | .log _ | .notify _ | .done => True

theorem Update.start_checked (session : SessionHandle) (request : Request) :
    (Update.start session request).Checked := rfl

/-- manage が偽と出るかぎり、一歩は `Checked` を保つ。 -/
theorem updateNext_checked {roles : Roles} {res : Resource} {w w' : World} {t t' : Update}
    {k : Weather} (h : updateNext roles res w t k = some (w', t'))
    (hm : t.pc = .checkManage → t.session.hasManage roles k.fuel w.users res ≠ some true)
    (ht : t.Checked) : t'.Checked := by
  unfold updateNext at h
  unfold Update.Checked at ht
  split at h
  · next hpc =>
    rw [hpc] at ht
    cases hr : t.request with
    | tryUpdate new =>
      simp only [hr, Option.some.injEq, Prod.mk.injEq] at h
      obtain ⟨_, rfl⟩ := h
      exact ht
    | giveBack =>
      simp only [hr] at h
      split at h
      · next hg =>
        cases h
        exact ⟨ht, by simpa [Update.allowedFrom, hr] using hg⟩
      · cases h
        trivial
  · next hpc =>
    rw [hpc] at ht
    split at h
    · simp at h
    · next htrue => exact absurd htrue (hm hpc)
    · cases h
      exact ht
  · next hpc =>
    rw [hpc] at ht
    split at h
    · simp at h
    · simp only at h
      split at h
      · next ha =>
        cases h
        exact ⟨ht, ha⟩
      · cases h
        trivial
  · next hpc =>
    rw [hpc] at ht
    cases h
    exact ht
  · cases h; trivial
  · cases h; trivial
  · cases h; trivial
  · simp at h

/-- 使い始めの遷移を表が許すのは、空いているときと、自分の予約からだけである。 -/
theorem allowedFrom_inUse {t : Update} {s : Status} {who : UserRef} (hm : t.manage = false)
    (hr : t.request = .tryUpdate (.inUse who)) (h : t.allowedFrom s = true) :
    s = .free ∨ s = .reserved who := by
  simp only [Update.allowedFrom, hr, updateAllowed, hm, Bool.false_or, Bool.or_eq_true,
    Bool.and_eq_true] at h
  cases s with
  | free => exact Or.inl rfl
  | reserved whom =>
    simp only [writerAllows, everybodyAllows, Bool.and_eq_true, beq_iff_eq] at h
    rcases h with ⟨_, _, rfl⟩ | h
    · exact Or.inr rfl
    · simp at h
  | inUse | toCheck | blocked | disabled => simp [writerAllows, everybodyAllows] at h

/-! ## 実行の全体 -/

section

variable {roles : Roles} {res : Resource}

theorem mem_mover {c : Config World Update} {n : Nat} {k : Weather} {t : Update}
    (h : c.threads[n]? = some t) : (t, k) ∈ mover c (.exec n k) := by
  simp [mover, h]

theorem mover_mem {c : Config World Update} {m : Move Arrival Weather} {p : Update × Weather}
    (h : p ∈ mover c m) : p.1 ∈ c.threads := by
  cases m with
  | spawn i => simp [mover] at h
  | exec n k =>
    simp only [mover, Option.mem_def, Option.map_eq_some_iff] at h
    obtain ⟨t, ht, rfl⟩ := h
    exact List.mem_of_getElem? ht

/-- `Checked` は不変条件であり、そこから `Fresh` な書き込みについての条件 `ok'` が出る。 -/
theorem obeys_of_checked {ok' : Config World Update → Move Arrival Weather → Prop}
    (himp : ∀ c m, (∀ t ∈ c.threads, t.Checked) → Fresh c m → ok' c m) {w : World}
    {ms : List (Move Arrival Weather)}
    (hok : (updates roles res).Obeys (fun c m => NoManager roles res c m ∧ Fresh c m) ⟨w, []⟩ ms) :
    (updates roles res).Obeys ok' ⟨w, []⟩ ms := by
  refine Obeys.of_invariant (motive := fun _ l => ∀ t ∈ l, t.Checked) ?_ ?_ ?_
    (fun c m hc hcm => himp c m hc hcm.2) hok (by simp)
  · intro _ l l' hp hl t ht
    exact hl t (hp.mem_iff.mpr ht)
  · intro sh l i sh' ts hs _ hl t ht
    rcases List.mem_append.mp ht with ht | ht
    · cases i with
      | call session request =>
        simp only [updates, updateSpawn, Option.some.injEq, Prod.mk.injEq] at hs
        obtain ⟨_, rfl⟩ := hs
        rw [List.mem_singleton] at ht
        subst ht
        exact Update.start_checked session request
      | setUsers users =>
        simp only [updates, updateSpawn, Option.some.injEq, Prod.mk.injEq] at hs
        obtain ⟨_, rfl⟩ := hs
        simp at ht
    · exact hl t ht
  · intro c n t k sh' t' rest hget _ hn hok hl t₁ ht₁
    rcases List.mem_cons.mp ht₁ with rfl | hmem
    · exact updateNext_checked hn (hok.1 (t, k) (mem_mover hget)) (hl t (by simp))
    · exact hl t₁ (by simp [hmem])

theorem Fresh.allowed {c : Config World Update} {m : Move Arrival Weather}
    (hf : Fresh c m) (hc : ∀ t ∈ c.threads, t.Checked) : WriteAllowed c m := by
  intro p hp hw
  have hchecked := hc p.1 (mover_mem hp)
  rw [hf p hp hw]
  unfold Update.writes at hw
  unfold Update.Checked at hchecked
  split at hw
  · next hpc =>
    rw [hpc] at hchecked
    exact hchecked
  · simp at hw

end

/--
manage の無い session だけが動き、どの書き込みの直前でも status が最初に読んだものと同じなら、
行われる書き込みはすべて表の許す遷移である。
特に、誰かが使い始めた後で、別の人の使い始めの書き込みが重なることはない。
-/
theorem writeAllowed_of_fresh (roles : Roles) (res : Resource) (w : World)
    (ms : List (Move Arrival Weather))
    (hok : (updates roles res).Obeys (fun c m => NoManager roles res c m ∧ Fresh c m) ⟨w, []⟩ ms) :
    (updates roles res).Obeys (fun c m => WriteAllowed c m ∧ TakesFree c m) ⟨w, []⟩ ms := by
  refine obeys_of_checked (fun c m hc hf => ?_) hok
  have hw : WriteAllowed c m := hf.allowed hc
  refine ⟨hw, fun p hp hwrites who hr => ?_⟩
  obtain ⟨hm, ha⟩ := hw p hp hwrites
  exact allowedFrom_inUse hm hr ha

def calm : Weather := { fuel := 2, logged := true }

/-- `alice` の使い始めが終わってから、`bob` の使い始めが始まる。 -/
def aliceThenBob : List (Move Arrival Weather) :=
  [.spawn (.call ⟨⟨"alice"⟩⟩ (.tryUpdate (.inUse ⟨"alice"⟩)))] ++
    List.replicate 7 (.exec 0 calm) ++
    [.spawn (.call ⟨⟨"bob"⟩⟩ (.tryUpdate (.inUse ⟨"bob"⟩)))] ++ List.replicate 3 (.exec 1 calm)

theorem writeAllowed_of_fresh_aliceThenBob :
    (updates makerRoles laser).Obeys (fun c m => WriteAllowed c m ∧ TakesFree c m)
      ⟨⟨makers, ⟨.free none, .free none, []⟩⟩, []⟩ aliceThenBob :=
  writeAllowed_of_fresh makerRoles laser _ aliceThenBob (by decide)

/-- `alice` と `bob` が、どちらも空いている機械を読んでから、順に書く。 -/
def bothTake : List (Move Arrival Weather) :=
  [.spawn (.call ⟨⟨"alice"⟩⟩ (.tryUpdate (.inUse ⟨"alice"⟩))),
   .spawn (.call ⟨⟨"bob"⟩⟩ (.tryUpdate (.inUse ⟨"bob"⟩))),
   .exec 0 calm, .exec 1 calm] ++
    List.replicate 6 (.exec 0 calm) ++ List.replicate 6 (.exec 1 calm)

/-- 両方の書き込みが行われ、`bob` の書き込みは `alice` が使っている機械を取る。 -/
theorem bothTake_not_writeAllowed :
    (updates makerRoles laser).Obeys (NoManager makerRoles laser)
      ⟨⟨makers, ⟨.free none, .free none, []⟩⟩, []⟩ bothTake ∧
    ((updates makerRoles laser).run
      ⟨⟨makers, ⟨.free none, .free none, []⟩⟩, []⟩ bothTake).map (fun c => c.shared.inner.audit) =
        some [⟨"laser", "inuse alice"⟩, ⟨"laser", "inuse bob"⟩] ∧
    ¬ (updates makerRoles laser).Obeys WriteAllowed
      ⟨⟨makers, ⟨.free none, .free none, []⟩⟩, []⟩ bothTake := by
  decide

end FabAccess
