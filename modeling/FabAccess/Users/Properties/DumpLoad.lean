import FabAccess.Users.Properties.Record

/-!
# dump と load の往復

`dump_file` は record の `id` を捨て、`kv` を `roles`・`passwd` と同じ高さに並べる。
`load_file` は key から `id` を作り直し、hash に見えない password を hash にする。

* `deserialize_serialize` — `kv` に名前のある field と同じ key が無ければ、table から元に戻る
* `load_dump` — 空の database から作れるどの database も、dump を読み込むと元に戻る
-/

namespace FabAccess

open FabAccess.Infra

variable {x : Codec} {toml : Toml} {rules : Rules}

/-! ## 一つの record の往復 -/

/-- `kv` の key が、名前のある field とぶつからない。 -/
def UserData.Plain (userdata : UserData) : Prop :=
  "roles" ∉ userdata.kv ∧ "passwd" ∉ userdata.kv

theorem deserialize_of_lookup {table : Table} {userdata : UserData} (h : userdata.Plain)
    (hroles : table.lookup "roles" = some (.strings userdata.roles))
    (hpasswd : table.lookup "passwd" = userdata.passwd.map Value.string)
    (hkv : ∀ key, key ≠ "roles" → key ≠ "passwd" →
      table.lookup key = (userdata.kv.lookup key).map Value.string) :
    UserData.deserialize table = some userdata := by
  obtain ⟨roles, passwd, kv⟩ := userdata
  -- 名前のある field を除いた残りが、ちょうど `kv` になる
  have hkeys : filterMapValues (fun key value =>
      if key = "roles" ∨ key = "passwd" then none else value.string?) table = kv := by
    refine Finmap.ext_lookup (fun key => ?_)
    rw [lookup_filterMapValues]
    by_cases hr : key = "roles"
    · rw [hr, Finmap.lookup_eq_none.mpr h.1]
      simp
    · by_cases hp : key = "passwd"
      · rw [hp, Finmap.lookup_eq_none.mpr h.2]
        simp
      · rw [hkv key hr hp]
        simp only [hr, hp, or_self, if_false]
        cases kv.lookup key <;> rfl
  have hstrings : ∀ key ∈ table.keys, key ≠ "roles" →
      ((table.lookup key).bind Value.string?).isSome := by
    intro key hmem hr
    have hsome : (table.lookup key).isSome := Finmap.lookup_isSome.mpr (Finmap.mem_keys.mp hmem)
    by_cases hp : key = "passwd"
    · rw [hp, hpasswd] at hsome ⊢
      cases passwd with
      | none => cases hsome
      | some pw => rfl
    · rw [hkv key hr hp] at hsome ⊢
      cases hk : kv.lookup key with
      | none =>
        rw [hk] at hsome
        cases hsome
      | some s => rfl
  unfold UserData.deserialize
  rw [hroles, hpasswd]
  dsimp only
  rw [if_pos hstrings, hkeys]
  cases passwd <;> rfl

theorem deserialize_serialize {userdata : UserData} (h : userdata.Plain) :
    ∃ table, userdata.serialize = some table ∧ UserData.deserialize table = some userdata := by
  unfold UserData.serialize
  rw [if_neg (by simp [h.1, h.2])]
  cases hpw : userdata.passwd with
  | some pw =>
    refine ⟨_, rfl, deserialize_of_lookup h ?_ ?_ (fun key hr hp => ?_)⟩
    · rw [Finmap.lookup_insert_of_ne _ (by decide), Finmap.lookup_insert]
    · rw [Finmap.lookup_insert, hpw]
      rfl
    · rw [Finmap.lookup_insert_of_ne _ hp, Finmap.lookup_insert_of_ne _ hr, lookup_filterMapValues,
        Option.map_eq_bind]
      rfl
  | none =>
    refine ⟨_, rfl, deserialize_of_lookup h ?_ ?_ (fun key hr hp => ?_)⟩
    · rw [Finmap.lookup_insert]
    · rw [Finmap.lookup_insert_of_ne _ (by decide), lookup_filterMapValues,
        Finmap.lookup_eq_none.mpr h.2, hpw]
      rfl
    · rw [Finmap.lookup_insert_of_ne _ hr, lookup_filterMapValues, Option.map_eq_bind]
      rfl

/-! ## 書かれる record -/

/-- 元に戻る record。 -/
structure Storable (uid : String) (user : User) : Prop where
  key : Users.validKey uid = true
  recorded : Recorded uid user
  plain : user.userdata.Plain

theorem plain_insertCard {user : User} (h : user.userdata.Plain) (token cardKey : String) :
    (user.insertCard token cardKey).userdata.Plain := by
  constructor
  · simpa [User.insertCard] using h.1
  · simpa [User.insertCard] using h.2

theorem plain_removeCard {user : User} (h : user.userdata.Plain) :
    user.removeCard.userdata.Plain := by
  constructor
  · simpa [User.removeCard] using h.1
  · simpa [User.removeCard] using h.2

theorem storable_edited (hx : x.Argon2) {uid : String} {seen : Option User} {user : User}
    (hkey : Users.validKey uid = true) (h : Edited x uid seen user)
    (hseen : ∀ u, seen = some u → Storable uid u) : Storable uid user := by
  refine ⟨hkey, recorded_edited hx h (fun u hu => (hseen u hu).recorded), ?_⟩
  cases h with
  | setPw user pw salt => exact (hseen user rfl).plain
  | pushRole user _ => exact (hseen user rfl).plain
  | retainRoles user rolename => exact (hseen user rfl).plain
  | insertCard user token cardKey => exact plain_insertCard (hseen user rfl).plain token cardKey
  | removeCard user => exact plain_removeCard (hseen user rfl).plain
  | same => exact (hseen user rfl).plain
  | new password salt =>
    exact ⟨by simp [User.newWithPlainPw, Finmap.notMem_empty],
      by simp [User.newWithPlainPw, Finmap.notMem_empty]⟩

/-- 読み込んだ `kv` は、名前のある field の key を持たない。 -/
theorem plain_deserialize {table : Table} {userdata : UserData}
    (h : UserData.deserialize table = some userdata) : userdata.Plain := by
  have hkv : userdata.kv = filterMapValues (fun key value =>
      if key = "roles" ∨ key = "passwd" then none else value.string?) table := by
    unfold UserData.deserialize at h
    split at h
    · dsimp only at h
      split at h
      · split at h
        · cases h
          rfl
        · cases h
        · cases h
          rfl
      · cases h
    · cases h
  constructor
  · rw [hkv, ← Finmap.lookup_eq_none, lookup_filterMapValues]
    simp
  · rw [hkv, ← Finmap.lookup_eq_none, lookup_filterMapValues]
    simp

theorem storable_load (hx : x.Argon2) (call : UserCall) : call.Loads x toml Storable := by
  cases call with
  | loadFile file salt =>
    intro users hload uid user hget
    have hrec : Recorded uid user := recorded_load hx (.loadFile file salt) users hload uid user hget
    obtain ⟨_, table, userdata, _, _, hud, hkey, rfl⟩ := getUser_loadFile hload hget
    obtain ⟨hroles, hpasswd⟩ := plain_deserialize hud
    exact ⟨hkey, hrec, hroles, hpasswd⟩
  | _ => trivial

/-! ## database の往復 -/

theorem entry_eq {salt : String → ByteArray} {uid : String} {user : User} (h : Recorded uid user) :
    Users.entry x salt uid user.userdata = user := by
  obtain ⟨id, roles, passwd, kv⟩ := user
  obtain ⟨rfl, hpw⟩ := h
  cases passwd with
  | none => rfl
  | some pw => simp [Users.entry, Users.hashPlain, hpw pw rfl]

theorem load_document {users : Users} (h : users.All Storable) {file : ByteArray}
    (hfile : toml.fromSlice file = some users.document) (salt : String → ByteArray) :
    Users.loadFile x toml file salt = some users := by
  have hlookup : ∀ uid, (users.document.lookup uid) =
      (users.getUser uid).bind (·.userdata.serialize) :=
    fun uid => lookup_filterMapValues _ _ uid
  have hread : ∀ uid ∈ users.document.keys,
      ((users.document.lookup uid).bind UserData.deserialize).isSome := by
    intro uid hmem
    have hsome := Finmap.lookup_isSome.mpr (Finmap.mem_keys.mp hmem)
    rw [hlookup] at hsome ⊢
    cases hget : users.getUser uid with
    | none =>
      rw [hget] at hsome
      cases hsome
    | some user =>
      obtain ⟨table, hs, hd⟩ := deserialize_serialize (h uid user hget).plain
      simp [hs, hd]
  simp only [Users.loadFile, hfile, Option.bind_eq_bind, Option.bind_some, if_pos hread,
    Option.some.injEq]
  refine Users.ext_getUser (fun uid => ?_)
  rw [Users.getUser, lookup_filterMapValues, hlookup]
  cases hget : users.getUser uid with
  | none => rfl
  | some user =>
    have hst := h uid user hget
    obtain ⟨table, hs, hd⟩ := deserialize_serialize hst.plain
    simp only [Option.bind_some, hs, hst.key, if_true, hd, Option.map_some, entry_eq hst.recorded]

theorem dumpFile_eq {users : Users} (h : users.All Storable) :
    users.dumpFile toml = some (toml.toVec users.document) := by
  have hall : ∀ uid ∈ users.userdb.keys,
      ((users.getUser uid).bind (·.userdata.serialize)).isSome := by
    intro uid hmem
    have hsome : (users.getUser uid).isSome := Finmap.lookup_isSome.mpr (Finmap.mem_keys.mp hmem)
    obtain ⟨user, hget⟩ := Option.isSome_iff_exists.mp hsome
    obtain ⟨table, hs, _⟩ := deserialize_serialize (h uid user hget).plain
    simp [hget, hs]
  rw [Users.dumpFile, if_pos hall]

/--
空の database から `load_file` と user の API のどの割り込みの実行で作った database も、
`dump_file` で書いた file を `load_file` で読むと、同じ key と同じ record の database に戻る。
-/
theorem load_dump (x : Codec) (toml : Toml) (rules : Rules) (hx : x.Argon2)
    (ms : List (Move UserCall Unit)) (c : Config Users Pending)
    (hrun : (userApi x toml rules).run ⟨⟨∅⟩, []⟩ ms = some c)
    (htoml : toml.fromSlice (toml.toVec c.shared.document) = some c.shared.document)
    (salt : String → ByteArray) :
    ∃ file, c.shared.dumpFile toml = some file ∧
      Users.loadFile x toml file salt = some c.shared := by
  have hall : c.shared.All Storable :=
    run_records (fun uid seen user => storable_edited hx) hrun
      (fun call _ => storable_load hx call) Users.all_empty
  exact ⟨_, dumpFile_eq hall, load_document hall htoml salt⟩

theorem load_dump_alice :
    ∃ c, (userApi idleCodec aliceToml laserRules).run ⟨⟨∅⟩, []⟩
        [.spawn (.loadFile aliceText (fun _ => ByteArray.empty)), .exec 0 ()] = some c ∧
      ∃ file, c.shared.dumpFile aliceToml = some file ∧
        Users.loadFile idleCodec aliceToml file (fun _ => ByteArray.empty) = some c.shared := by
  have h : ((userApi idleCodec aliceToml laserRules).run ⟨⟨∅⟩, []⟩
      [.spawn (.loadFile aliceText (fun _ => ByteArray.empty)), .exec 0 ()]).map
      (fun c => decide (aliceToml.fromSlice (aliceToml.toVec c.shared.document) =
        some c.shared.document)) = some true := by decide
  obtain ⟨c, hrun, hc⟩ := Option.map_eq_some_iff.mp h
  exact ⟨c, hrun, load_dump idleCodec aliceToml laserRules idleCodec_argon2 _ c hrun
    (of_decide_eq_true hc) _⟩

end FabAccess
