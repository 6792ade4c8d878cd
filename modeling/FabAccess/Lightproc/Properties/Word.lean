import FabAccess.Lightproc.Word

/-!
# state word は flag と数の組である

`u64` の演算は二つの半分の演算に分かれる。桁上がりも桁借りも無ければ、半分の間を行き来するものは無い。
byte の順が変わると上下が入れ替わるだけである。

* `join_or`、`join_and`、`join_add`、`join_sub` — 演算は半分ごとに行われる
* `packed_pair` — どの演算も、組への演算である
* `ofState_fetchOr`、`ofState_fetchAnd`、`ofState_refcount` — `State.lean` の state の演算との対応
-/

namespace FabAccess.Lightproc.Packed

open Infra

variable {e : Endian} {f g : StateFlags} {r v : BitVec 32}

/-! ## 二つの半分 -/

/-- 前半が `a`、後半が `b` の word。 -/
def join (e : Endian) (a b : BitVec 32) : BitVec 64 :=
  fromNeBytes e 64 (toNeBytes e a ++ toNeBytes e b)

theorem length_toNeBytes (e : Endian) (a : BitVec 32) : (toNeBytes e a).length = 4 := by
  simp [toNeBytes]

theorem ofBytes_toNeBytes (e : Endian) (a : BitVec 32) : e.ofBytes (toNeBytes e a) = a.toNat := by
  rw [toNeBytes, Endian.ofBytes_toBytes]
  exact Nat.mod_eq_of_lt a.isLt

/-- 参照の数は、little-endian では下の、big-endian では上の半分になる。 -/
theorem toNat_join (e : Endian) (a b : BitVec 32) :
    (join e a b).toNat =
      match e with
      | .little => pack 32 a.toNat b.toNat
      | .big => pack 32 b.toNat a.toNat := by
  have ha : 32 = 8 * (toNeBytes e a).length := by rw [length_toNeBytes]
  have hb : 32 = 8 * (toNeBytes e b).length := by rw [length_toNeBytes]
  have happ := e.ofBytes_append ha hb
  rw [ofBytes_toNeBytes, ofBytes_toNeBytes] at happ
  rw [join, fromNeBytes, BitVec.toNat_ofNat, happ]
  cases e with
  | little => exact Nat.mod_eq_of_lt (pack_lt a.isLt b.isLt)
  | big => exact Nat.mod_eq_of_lt (pack_lt b.isLt a.isLt)

section Halves

variable {a b a' b' : BitVec 32}

/-- `|||` は、数と flag に別々に働く。 -/
theorem join_or : join e a b ||| join e a' b' = join e (a ||| a') (b ||| b') := by
  apply BitVec.eq_of_toNat_eq
  rw [BitVec.toNat_or, toNat_join, toNat_join, toNat_join, BitVec.toNat_or, BitVec.toNat_or]
  cases e with
  | little => exact pack_or a.isLt a'.isLt
  | big => exact pack_or b.isLt b'.isLt

/-- `&&&` は、数と flag に別々に働く。 -/
theorem join_and : join e a b &&& join e a' b' = join e (a &&& a') (b &&& b') := by
  apply BitVec.eq_of_toNat_eq
  rw [BitVec.toNat_and, toNat_join, toNat_join, toNat_join, BitVec.toNat_and, BitVec.toNat_and]
  cases e with
  | little => exact pack_and a.isLt a'.isLt
  | big => exact pack_and b.isLt b'.isLt

/-- どちらの半分も桁上がりしない。 -/
theorem join_add (h : a.toNat + a'.toNat < 2 ^ 32) (h' : b.toNat + b'.toNat < 2 ^ 32) :
    join e a b + join e a' b' = join e (a + a') (b + b') := by
  apply BitVec.eq_of_toNat_eq
  rw [BitVec.toNat_add, toNat_join, toNat_join, toNat_join, BitVec.toNat_add_of_lt h,
    BitVec.toNat_add_of_lt h']
  cases e with
  | little =>
    dsimp only
    rw [pack_add]
    exact Nat.mod_eq_of_lt (pack_lt h h')
  | big =>
    dsimp only
    rw [pack_add]
    exact Nat.mod_eq_of_lt (pack_lt h' h)

/-- どちらの半分も桁借りしない。 -/
theorem join_sub (h : a'.toNat ≤ a.toNat) (h' : b'.toNat ≤ b.toNat) :
    join e a b - join e a' b' = join e (a - a') (b - b') := by
  apply BitVec.eq_of_toNat_eq
  have hle : (join e a' b').toNat ≤ (join e a b).toNat := by
    rw [toNat_join, toNat_join]
    cases e with
    | little => exact Nat.add_le_add h (Nat.mul_le_mul_left _ h')
    | big => exact Nat.add_le_add h' (Nat.mul_le_mul_left _ h)
  rw [BitVec.toNat_sub_of_le hle, toNat_join, toNat_join, toNat_join,
    BitVec.toNat_sub_of_le h, BitVec.toNat_sub_of_le h']
  cases e with
  | little => exact pack_sub h h'
  | big => exact pack_sub h' h

end Halves

/-! ## byte の列 -/

/-- byte 列の同じ state は同じである。 -/
theorem State.ext_bytes {s s' : State} (h : s.bytes = s'.bytes) : s = s' := by
  cases s
  cases s'
  cases h
  rfl

@[simp] theorem intoU64_new : (State.new e f r).intoU64 e = join e r f.bits := rfl

/-- word から戻した state は、その数と flag を持つ。 -/
@[simp] theorem fromU64_join (a : BitVec 32) : State.fromU64 e (join e a f.bits) = .new e f a := by
  apply State.ext_bytes
  exact toNeBytes_fromNeBytes (by rw [List.length_append, length_toNeBytes, length_toNeBytes])

/-- `parts` は、作ったときの flag と数を返す。 -/
theorem new_parts (e : Endian) (f : StateFlags) (r : BitVec 32) :
    (State.new e f r).parts e = (f, r) := by
  have htake : (State.new e f r).bytes.take 4 = toNeBytes e r :=
    List.take_left' (length_toNeBytes e r)
  have hdrop : (State.new e f r).bytes.drop 4 = toNeBytes e f.bits :=
    List.drop_left' (length_toNeBytes e r)
  rw [State.parts, htake, hdrop, fromNeBytes_toNeBytes (by decide),
    fromNeBytes_toNeBytes (by decide)]

/-- どの state も、その組から作られる。 -/
theorem new_of_parts (e : Endian) (s : State) : State.new e (s.parts e).1 (s.parts e).2 = s := by
  apply State.ext_bytes
  have hlen := s.length_eq
  change toNeBytes e (fromNeBytes e 32 (s.bytes.take 4)) ++
    toNeBytes e (fromNeBytes e 32 (s.bytes.drop 4)) = s.bytes
  rw [toNeBytes_fromNeBytes (by rw [List.length_take, hlen]; rfl),
    toNeBytes_fromNeBytes (by rw [List.length_drop, hlen]), List.take_append_drop]

/-- `set_refcount` は、flag に触らない。 -/
theorem new_setRefcount (e : Endian) (f : StateFlags) (r v : BitVec 32) :
    (State.new e f r).setRefcount e v = .new e f v := by
  apply State.ext_bytes
  have hdrop : (State.new e f r).bytes.drop 4 = toNeBytes e f.bits :=
    List.drop_left' (length_toNeBytes e r)
  exact congrArg (toNeBytes e v ++ ·) hdrop

theorem setRefcount_parts (e : Endian) (s : State) (v : BitVec 32) :
    (s.setRefcount e v).parts e = ((s.parts e).1, v) := by
  have hs := new_of_parts e s
  rw [← hs, new_setRefcount, new_parts, new_parts]

/-! ## `AtomicState` -/

section Atomic

/-- `[0, 0, 0, 0]` は、どちらの順でも 0 である。 -/
theorem zero_bytes (e : Endian) : [0, 0, 0, 0] = toNeBytes e 0#32 := by
  cases e <;> decide

theorem ones_bytes (e : Endian) :
    [~~~0, ~~~0, ~~~0, ~~~0] = toNeBytes e (BitVec.allOnes 32) := by
  cases e <;> decide

/-- `fetch_or` は flag を立て、数には触らない。 -/
theorem fetchOr_new (e : Endian) (f g : StateFlags) (r : BitVec 32) :
    (AtomicState.new e (.new e f r)).fetchOr e g =
      (.new e f r, .new e (.new e (f ||| g) r)) := by
  have hstore : fromNeBytes e 64 ([0, 0, 0, 0] ++ toNeBytes e g.bits) = join e 0#32 g.bits := by
    rw [zero_bytes e, join]
  have hword : join e r f.bits ||| join e 0#32 g.bits = join e r (f ||| g).bits := by
    rw [join_or, BitVec.or_zero]
    rfl
  simp only [AtomicState.fetchOr, AtomicState.new, intoU64_new, fromU64_join, hstore, hword]

/-- `fetch_and` は flag を下ろし、数には触らない。 -/
theorem fetchAnd_new (e : Endian) (f g : StateFlags) (r : BitVec 32) :
    (AtomicState.new e (.new e f r)).fetchAnd e g =
      (.new e f r, .new e (.new e (f &&& g) r)) := by
  have hstore : fromNeBytes e 64 ([~~~0, ~~~0, ~~~0, ~~~0] ++ toNeBytes e g.bits) =
      join e (BitVec.allOnes 32) g.bits := by
    rw [ones_bytes e, join]
  have hword : join e r f.bits &&& join e (BitVec.allOnes 32) g.bits =
      join e r (f &&& g).bits := by
    rw [join_and, BitVec.and_allOnes]
    rfl
  simp only [AtomicState.fetchAnd, AtomicState.new, intoU64_new, fromU64_join, hstore, hword]

/-- `fetch_add` は、あふれない限り、数だけを増やす。 -/
theorem fetchAdd_new (h : r.toNat + v.toNat < 2 ^ 32) :
    (AtomicState.new e (.new e f r)).fetchAdd e v =
      (.new e f r, .new e (.new e f (r + v))) := by
  have hstore : fromNeBytes e 64 (toNeBytes e v ++ [0, 0, 0, 0]) = join e v 0#32 := by
    rw [zero_bytes e, join]
  have hword : join e r f.bits + join e v 0#32 = join e (r + v) f.bits := by
    rw [join_add h (by rw [BitVec.toNat_zero]; exact f.bits.isLt), BitVec.add_zero]
  simp only [AtomicState.fetchAdd, AtomicState.new, intoU64_new, fromU64_join, hstore, hword]

/-- `fetch_sub` は、数が足りる限り、数だけを減らす。 -/
theorem fetchSub_new (h : v.toNat ≤ r.toNat) :
    (AtomicState.new e (.new e f r)).fetchSub e v =
      (.new e f r, .new e (.new e f (r - v))) := by
  have hstore : fromNeBytes e 64 (toNeBytes e v ++ [0, 0, 0, 0]) = join e v 0#32 := by
    rw [zero_bytes e, join]
  have hword : join e r f.bits - join e v 0#32 = join e (r - v) f.bits := by
    rw [join_sub h (by rw [BitVec.toNat_zero]; exact Nat.zero_le _), BitVec.sub_zero]
  simp only [AtomicState.fetchSub, AtomicState.new, intoU64_new, fromU64_join, hstore, hword]

/--
**どちらの byte の順でも、state word は flag と数の組として振る舞う。** flag の演算は数を変えず、
範囲を出ない数の演算は flag を変えない。
-/
theorem packed_pair (e : Endian) (f g : StateFlags) (r v : BitVec 32) :
    (State.new e f r).parts e = (f, r) ∧
    (∀ s : State, (s.setRefcount e v).parts e = ((s.parts e).1, v)) ∧
    (AtomicState.new e (.new e f r)).fetchOr e g =
      (.new e f r, .new e (.new e (f ||| g) r)) ∧
    (AtomicState.new e (.new e f r)).fetchAnd e g =
      (.new e f r, .new e (.new e (f &&& g) r)) ∧
    (r.toNat + v.toNat < 2 ^ 32 → (r + v).toNat = r.toNat + v.toNat ∧
      (AtomicState.new e (.new e f r)).fetchAdd e v =
        (.new e f r, .new e (.new e f (r + v)))) ∧
    (v.toNat ≤ r.toNat → (r - v).toNat = r.toNat - v.toNat ∧
      (AtomicState.new e (.new e f r)).fetchSub e v =
        (.new e f r, .new e (.new e f (r - v)))) :=
  ⟨new_parts e f r, fun s => setRefcount_parts e s v, fetchOr_new e f g r, fetchAnd_new e f g r,
    fun h => ⟨BitVec.toNat_add_of_lt h, fetchAdd_new h⟩,
    fun h => ⟨BitVec.toNat_sub_of_le h, fetchSub_new h⟩⟩

/-- `compare_exchange` は組を比べる。 -/
theorem compareExchange_new (e : Endian) (f g : StateFlags) (r v : BitVec 32) (s : State) :
    (AtomicState.new e (.new e f r)).compareExchange e (.new e g v) s =
      if f = g ∧ r = v then (.ok (.new e f r), .new e s)
      else (.error (.new e f r), .new e (.new e f r)) := by
  have hinj : join e r f.bits = join e v g.bits ↔ f = g ∧ r = v := by
    constructor
    · intro h
      have hstates := congrArg (State.fromU64 e) h
      rw [fromU64_join, fromU64_join] at hstates
      have hparts := congrArg (State.parts e) hstates
      rw [new_parts, new_parts] at hparts
      exact Prod.mk.inj hparts
    · rintro ⟨rfl, rfl⟩
      rfl
  simp only [AtomicState.compareExchange, AtomicState.new, intoU64_new, fromU64_join, hinj]

end Atomic

/-! ## `State.lean` の state -/

/-- 名前のある七つの bit。 -/
def StateFlags.ofFlags (f : Lightproc.StateFlags) : StateFlags :=
  ⟨(BitVec.ofBool f.locked ++ BitVec.ofBool f.awaiter ++ BitVec.ofBool f.handle ++
    BitVec.ofBool f.closed ++ BitVec.ofBool f.completed ++ BitVec.ofBool f.running ++
    BitVec.ofBool f.scheduled).setWidth 32⟩

/-- flag の七つの bit と、word の中の flag とで、`|||` は同じである。 -/
theorem ofFlags_or (f g : Lightproc.StateFlags) :
    StateFlags.ofFlags (f ||| g) = StateFlags.ofFlags f ||| StateFlags.ofFlags g := by
  apply congrArg StateFlags.mk
  simp only [StateFlags.ofFlags, ← BitVec.setWidth_or, BitVec.or_append, BitVec.ofBool_or_ofBool]
  rfl

/-- flag の七つの bit と、word の中の flag とで、`&&&` は同じである。 -/
theorem ofFlags_and (f g : Lightproc.StateFlags) :
    StateFlags.ofFlags (f &&& g) = StateFlags.ofFlags f &&& StateFlags.ofFlags g := by
  apply congrArg StateFlags.mk
  simp only [StateFlags.ofFlags, ← BitVec.setWidth_and, BitVec.and_append,
    BitVec.ofBool_and_ofBool]
  rfl

theorem not_setWidth : ∀ x : BitVec 7, (~~~x).setWidth 32 = ~~~x.setWidth 32 &&& 0x7f := by
  decide

theorem ofFlags_not (f : Lightproc.StateFlags) :
    StateFlags.ofFlags (~~~f) = (StateFlags.ofFlags f).not := by
  have hnot : BitVec.ofBool (~~~f).locked ++ BitVec.ofBool (~~~f).awaiter ++
      BitVec.ofBool (~~~f).handle ++ BitVec.ofBool (~~~f).closed ++
      BitVec.ofBool (~~~f).completed ++ BitVec.ofBool (~~~f).running ++
      BitVec.ofBool (~~~f).scheduled =
      ~~~(BitVec.ofBool f.locked ++ BitVec.ofBool f.awaiter ++ BitVec.ofBool f.handle ++
        BitVec.ofBool f.closed ++ BitVec.ofBool f.completed ++ BitVec.ofBool f.running ++
        BitVec.ofBool f.scheduled) := by
    simp only [BitVec.not_append, BitVec.not_ofBool]
    rfl
  rw [StateFlags.ofFlags, hnot, StateFlags.ofFlags, StateFlags.not]
  exact congrArg StateFlags.mk (not_setWidth _)

/-- 七つの flag の値は、source の定数である。 -/
theorem ofFlags_names :
    StateFlags.ofFlags .SCHEDULED = .SCHEDULED ∧ StateFlags.ofFlags .RUNNING = .RUNNING ∧
    StateFlags.ofFlags .COMPLETED = .COMPLETED ∧ StateFlags.ofFlags .CLOSED = .CLOSED ∧
    StateFlags.ofFlags .HANDLE = .HANDLE ∧ StateFlags.ofFlags .AWAITER = .AWAITER ∧
    StateFlags.ofFlags .LOCKED = .LOCKED := by decide

/-- `State.lean` の state の word。 -/
def State.ofState (e : Endian) (s : Lightproc.State) : State :=
  .new e (.ofFlags s.flags) (.ofNat 32 s.refcount)

theorem ofState_fetchOr (e : Endian) (s : Lightproc.State) (val : Lightproc.StateFlags) :
    (AtomicState.new e (.ofState e s)).fetchOr e (.ofFlags val) =
      (.ofState e s, .new e (.ofState e (s.fetchOr val))) := by
  rw [State.ofState, fetchOr_new, ← ofFlags_or]
  rfl

theorem ofState_fetchAnd (e : Endian) (s : Lightproc.State) (val : Lightproc.StateFlags) :
    (AtomicState.new e (.ofState e s)).fetchAnd e (.ofFlags val) =
      (.ofState e s, .new e (.ofState e (s.fetchAnd val))) := by
  rw [State.ofState, fetchAnd_new, ← ofFlags_and]
  rfl

/-- 参照を一つ増やし、一つ減らす。 -/
theorem ofState_refcount (e : Endian) (s : Lightproc.State) (h : s.refcount < 2 ^ 32 - 1) :
    (AtomicState.new e (.ofState e s)).fetchAdd e 1 =
        (.ofState e s, .new e (.ofState e { s with refcount := s.refcount + 1 })) ∧
    (0 < s.refcount → (AtomicState.new e (.ofState e s)).fetchSub e 1 =
        (.ofState e s, .new e (.ofState e { s with refcount := s.refcount - 1 }))) := by
  have hcount : (BitVec.ofNat 32 s.refcount).toNat = s.refcount := by
    rw [BitVec.toNat_ofNat]
    omega
  have hone : (1 : BitVec 32).toNat = 1 := rfl
  refine ⟨?_, fun hpos => ?_⟩
  · rw [State.ofState, fetchAdd_new (by omega), State.ofState, BitVec.ofNat_add]
    rfl
  · have hsub : BitVec.ofNat 32 (s.refcount - 1) = BitVec.ofNat 32 s.refcount - 1 := by
      apply BitVec.eq_of_toNat_eq
      rw [BitVec.toNat_sub_of_le (by rw [BitVec.le_def]; omega), BitVec.toNat_ofNat]
      omega
    rw [State.ofState, fetchSub_new (by omega), State.ofState, hsub]

end FabAccess.Lightproc.Packed
