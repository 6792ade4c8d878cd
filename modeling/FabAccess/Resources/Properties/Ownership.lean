import FabAccess.Authorization.Properties.RoleReach
import FabAccess.Resources.Resource

/-!
# 使っている人の機械は取られない

`try_update` の条件は、manage・write の表・誰にでも許される表の三つの `||` に分かれている。
ここではそれが一つの関係 `Rightful` を超えないことを示し（`accepted_rightful`）、
呼び出しの列の全体について、他人の機械が動かせないことを導く（`ownership_safety`）。

権限の有無は `SessionHandle.May`、すなわち「いまの record の role から届く」ことで述べる。
-/

namespace FabAccess

/-- session の user が今も存在し、その role から `perm` が届く。 -/
def SessionHandle.May (session : SessionHandle) (roles : Roles) (users : Users)
    (perm : Permission) : Prop :=
  ∃ user, users.getUser session.user.id = some user ∧ roles.Grants user.userdata perm

/--
正当な遷移。

manager は何でもできる。write を持つ者は空いている機械を自分のために使い始めるか予約でき、
自分の予約を使い始められる。誰でも、自分が使っているものを返し、自分の予約を取り消せる。
-/
inductive Rightful (roles : Roles) (res : Resource) (users : Users) (session : SessionHandle) :
    Status → Status → Prop where
  | manage {old new : Status} (h : session.May roles users res.desc.privs.manage) :
      Rightful roles res users session old new
  | take (h : session.May roles users res.desc.privs.write) :
      Rightful roles res users session .free (.inUse session.user)
  | reserve (h : session.May roles users res.desc.privs.write) :
      Rightful roles res users session .free (.reserved session.user)
  | unreserve : Rightful roles res users session (.reserved session.user) .free
  | claim (h : session.May roles users res.desc.privs.write) :
      Rightful roles res users session (.reserved session.user) (.inUse session.user)
  | finish : Rightful roles res users session (.inUse session.user) .free
  | check (who : UserRef) :
      Rightful roles res users session (.inUse session.user) (.toCheck who)

variable {roles : Roles} {res : Resource} {users : Users} {session : SessionHandle}

/-! ## 権限の確認 -/

theorem hasPerm_eq_some {fuel : Nat} {perm : Permission} {b : Bool}
    (h : session.hasPerm roles fuel users perm = some b) :
    b = true ↔ session.May roles users perm := by
  unfold SessionHandle.hasPerm at h
  split at h
  · next user hu =>
    rw [Roles.isPermitted_eq_some h]
    constructor
    · intro hg
      exact ⟨user, hu, hg⟩
    · rintro ⟨user', hu', hg⟩
      rw [hu] at hu'
      cases hu'
      exact hg
  · next hu =>
    cases h
    simp [SessionHandle.May, hu]

/-! ## 表と関係 -/

theorem everybodyAllows_rightful {old new : Status}
    (h : everybodyAllows session.user old new = true) :
    Rightful roles res users session old new := by
  unfold everybodyAllows at h
  split at h
  · rw [beq_iff_eq] at h; subst h; exact .finish
  · rw [beq_iff_eq] at h; subst h; exact .check _
  · rw [beq_iff_eq] at h; subst h; exact .unreserve
  · simp at h

theorem writerAllows_rightful {old new : Status}
    (hw : session.May roles users res.desc.privs.write)
    (h : writerAllows session.user old new = true) : Rightful roles res users session old new := by
  unfold writerAllows at h
  split at h
  · rw [beq_iff_eq] at h; subst h; exact .take hw
  · rw [beq_iff_eq] at h; subst h; exact .reserve hw
  · rw [beq_iff_eq] at h; subst h; exact .finish
  · rw [beq_iff_eq] at h; subst h; exact .check _
  · rw [beq_iff_eq] at h; subst h; exact .unreserve
  · rw [Bool.and_eq_true, beq_iff_eq, beq_iff_eq] at h
    obtain ⟨h1, h2⟩ := h
    subst h1 h2
    exact .claim hw
  · simp at h

theorem tryUpdateAllowed_rightful {fuel : Nat} {old new : Status}
    (h : tryUpdateAllowed session roles res fuel users old new = some true) :
    Rightful roles res users session old new := by
  unfold tryUpdateAllowed at h
  split at h
  · simp at h
  · next hm => exact .manage ((hasPerm_eq_some hm).mp rfl)
  · split at h
    · simp at h
    · next write hw =>
      rw [Option.some.injEq, updateAllowed, Bool.false_or, Bool.or_eq_true, Bool.and_eq_true] at h
      rcases h with ⟨hwt, ht⟩ | ht
      · exact writerAllows_rightful ((hasPerm_eq_some hw).mp hwt) ht
      · exact everybodyAllows_rightful ht

/-- 通った呼び出しは正当な遷移である。 -/
theorem accepted_rightful {c : Call} {old : Status}
    (h : c.accepted roles res users old = some true) :
    Rightful roles res users c.session old c.request.target := by
  unfold Call.accepted at h
  cases hr : c.request with
  | tryUpdate new =>
    rw [hr] at h
    exact tryUpdateAllowed_rightful h
  | giveBack =>
    rw [hr, Option.some.injEq] at h
    simp only [giveBackAllowed] at h
    split at h
    · rw [beq_iff_eq] at h; subst h; exact .finish
    · simp at h

/-! ## 一回の呼び出し -/

/-- 返った呼び出しは、通って要求どおりの status を書くか、断られて何も変えないかである。 -/
theorem exec_cases {c : Call} {inner inner' : Inner}
    (h : c.exec roles res users inner = some inner') :
    (c.accepted roles res users inner.db.state = some true ∧
      inner'.db.state = c.request.target ∧ inner'.signal = inner'.db) ∨
    (c.accepted roles res users inner.db.state = some false ∧ inner' = inner) := by
  unfold Call.exec at h
  unfold Call.accepted
  cases hr : c.request with
  | tryUpdate new =>
    rw [hr] at h
    simp only [tryUpdate, Inner.getState] at h
    split at h
    · simp at h
    · next ha =>
      cases h
      exact Or.inl ⟨ha, rfl, rfl⟩
    · next ha =>
      cases h
      exact Or.inr ⟨ha, rfl⟩
  | giveBack =>
    rw [hr] at h
    simp only [giveBack, Option.some.injEq] at h
    split at h
    · next ha =>
      subst h
      exact Or.inl ⟨congrArg some ha, rfl, rfl⟩
    · next ha =>
      exact Or.inr ⟨congrArg some (Bool.eq_false_iff.mpr ha), h.symm⟩

theorem step_call {w w' : World} {c : Call} (h : w.step roles res (.call c) = some w') :
    ∃ inner', c.exec roles res w.users w.inner = some inner' ∧
      w' = { w with inner := inner' } := by
  simp only [World.step, Option.map_eq_some_iff] at h
  obtain ⟨inner', he, rfl⟩ := h
  exact ⟨inner', he, rfl⟩

/-- 正当でない遷移を求める呼び出しは、resource を変えない。 -/
theorem exec_eq_of_not_rightful {c : Call} {inner inner' : Inner}
    (h : c.exec roles res users inner = some inner')
    (hno : ¬ Rightful roles res users c.session inner.db.state c.request.target) :
    inner' = inner := by
  rcases exec_cases h with ⟨ha, _⟩ | ⟨_, he⟩
  · exact absurd (accepted_rightful ha) hno
  · exact he

/-! ## 呼び出しの列 -/

/-- 実行の中のどの呼び出しについても、その直前の状態で `P` が成り立つ。 -/
def World.Each (roles : Roles) (res : Resource) (P : World → Call → Prop) :
    World → List Event → Prop
  | _, [] => True
  | w, e :: es => (∀ c, e = .call c → P w c) ∧
      ∀ w', w.step roles res e = some w' → w'.Each roles res P es

/-- manage を持たず、`s` から出る正当な遷移も持たない session ばかりなら、`s` は動かない。 -/
theorem run_inner_eq {s : Status} {P : World → Call → Prop}
    (hP : ∀ w c, w.inner.db.state = s → P w c → ∀ new,
      ¬ Rightful roles res w.users c.session s new) :
    ∀ (events : List Event) (w w' : World), w.inner.db.state = s →
      w.Each roles res P events → w.run roles res events = some w' → w'.inner = w.inner := by
  intro events
  induction events with
  | nil => intro w w' _ _ h; cases h; rfl
  | cons e es ih =>
    intro w w' hs heach h
    rw [World.run] at h
    split at h
    · simp at h
    · next w1 hstep =>
      have hsame : w1.inner = w.inner := by
        cases e with
        | call c =>
          obtain ⟨inner', he, rfl⟩ := step_call hstep
          refine exec_eq_of_not_rightful he ?_
          rw [hs]
          exact hP w c hs (heach.1 c rfl) _
        | setUsers users => cases hstep; rfl
      rw [ih w1 w' (by rw [hsame]; exact hs) (heach.2 w1 hstep) h, hsame]

/-- 他人が使っている、または予約している機械から出る正当な遷移は manage だけである。 -/
theorem not_rightful_of_other {u : UserRef} {s new : Status}
    (hs : s = .inUse u ∨ s = .reserved u) (hne : session.user ≠ u)
    (hm : ¬ session.May roles users res.desc.privs.manage) :
    ¬ Rightful roles res users session s new := by
  intro h
  cases h with
  | manage h => exact hm h
  | take | reserve => simp at hs
  | unreserve | claim | finish | check => simp_all

/-- 点検待ち・閉鎖・停止から出る正当な遷移は manage だけである。 -/
theorem not_rightful_of_withdrawn {s new : Status}
    (hs : (∃ u, s = .toCheck u) ∨ (∃ u, s = .blocked u) ∨ s = .disabled)
    (hm : ¬ session.May roles users res.desc.privs.manage) :
    ¬ Rightful roles res users session s new := by
  intro h
  cases h with
  | manage h => exact hm h
  | take | reserve | unreserve | claim | finish | check => simp at hs

/--
どんな role の表と呼び出しの列の後でも、呼び出しが status を変えるのは `Rightful` のときだけで、
断られた呼び出しは database・signal・監査記録のどれも変えない。
特に、使用中や予約中の機械は manage の無い他人の呼び出しでは動かず、
点検待ち・閉鎖・停止は manage の無い呼び出しでは終わらない。
-/
theorem ownership_safety (roles : Roles) (res : Resource) (w₀ w : World) (events : List Event)
    (hrun : w₀.run roles res events = some w) :
    (∀ c w', w.step roles res (.call c) = some w' →
      (w'.inner.db.state ≠ w.inner.db.state →
        Rightful roles res w.users c.session w.inner.db.state w'.inner.db.state) ∧
      (c.accepted roles res w.users w.inner.db.state = some true ∨
        c.accepted roles res w.users w.inner.db.state = some false ∧ w' = w)) ∧
    (∀ u, w₀.inner.db.state = .inUse u ∨ w₀.inner.db.state = .reserved u →
      w₀.Each roles res (fun v c => c.session.user ≠ u ∧
        ¬ c.session.May roles v.users res.desc.privs.manage) events → w.inner = w₀.inner) ∧
    ((∃ u, w₀.inner.db.state = .toCheck u) ∨ (∃ u, w₀.inner.db.state = .blocked u) ∨
        w₀.inner.db.state = .disabled →
      w₀.Each roles res (fun v c => ¬ c.session.May roles v.users res.desc.privs.manage) events →
      w.inner = w₀.inner) := by
  refine ⟨?_, ?_, ?_⟩
  · intro c w' hstep
    obtain ⟨inner', he, rfl⟩ := step_call hstep
    rcases exec_cases he with ⟨ha, htarget, _⟩ | ⟨ha, rfl⟩
    · refine ⟨fun _ => ?_, Or.inl ha⟩
      rw [htarget]
      exact accepted_rightful ha
    · exact ⟨fun hne => absurd rfl hne, Or.inr ⟨ha, rfl⟩⟩
  · intro u hs heach
    exact run_inner_eq (fun v c hv hc new => not_rightful_of_other hs hc.1 hc.2)
      events w₀ w rfl heach hrun
  · intro hs heach
    exact run_inner_eq (fun v c hv hc new => not_rightful_of_withdrawn hs hc)
      events w₀ w rfl heach hrun

/-- 書き込みだけを許す role。 -/
def makerRoles : Roles where
  roles := (∅ : Finmap (fun _ : String => Role)).insert "maker"
    { parents := [], permissions := [.base ⟨"lab.laser.write"⟩] }

def laser : Resource where
  id := "laser"
  desc := {
    name := "Laser", description := none, wiki := none, category := some "cutter"
    privs := ⟨⟨"lab.laser.disclose"⟩, ⟨"lab.laser.read"⟩, ⟨"lab.laser.write"⟩,
      ⟨"lab.laser.manage"⟩⟩ }

/-- `alice` も `bob` も write だけを持つ。 -/
def makers : Users where
  userdb := ((∅ : Finmap (fun _ : String => User)).insert "alice"
    ⟨"alice", ⟨["maker"], none, ∅⟩⟩).insert "bob" ⟨"bob", ⟨["maker"], none, ∅⟩⟩

/-- `alice` が使い始め、`bob` の横取りは断られる。 -/
def takeThenSteal : List Event :=
  [.call ⟨⟨⟨"alice"⟩⟩, .tryUpdate (.inUse ⟨"alice"⟩), 2, true⟩,
   .call ⟨⟨⟨"bob"⟩⟩, .tryUpdate (.inUse ⟨"bob"⟩), 2, true⟩,
   .call ⟨⟨⟨"bob"⟩⟩, .giveBack, 2, true⟩]

theorem ownership_safety_takeThenSteal :
    ∃ w, World.run makerRoles laser ⟨makers, ⟨.free none, .free none, []⟩⟩ takeThenSteal = some w ∧
      w.inner.db.state = .inUse ⟨"alice"⟩ ∧
      ∀ c w', w.step makerRoles laser (.call c) = some w' →
        w'.inner.db.state ≠ w.inner.db.state →
        Rightful makerRoles laser w.users c.session w.inner.db.state w'.inner.db.state := by
  have hrun : World.run makerRoles laser ⟨makers, ⟨.free none, .free none, []⟩⟩ takeThenSteal
      = some ⟨makers, ⟨⟨.inUse ⟨"alice"⟩, none⟩, ⟨.inUse ⟨"alice"⟩, none⟩,
        [⟨"laser", "inuse alice"⟩]⟩⟩ := by decide
  refine ⟨_, hrun, rfl, fun c w' hstep => ?_⟩
  exact ((ownership_safety makerRoles laser _ _ takeThenSteal hrun).1 c w' hstep).1

end FabAccess
