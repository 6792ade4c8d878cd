import FabAccess.Users.Properties.Record

/-!
# user file の読み込みと、拒まれた書き込み

`load_file` は一つの transaction の中で表を空にし、entry を一つずつ `put` し、最後に commit する。
LMDB の誤りはどの操作でも起こりうる。`put` の誤りだけは、誤りを log に残して飛ばされる。
ここでは transaction の中の一歩ずつを写し、`File.lean` の `loadFile` がその特別な場合であることも示す。

* `lookup_storeAll` / `mem_refused_iff` — 飛ばされた entry のほかは、すべて書かれる
* `load_file_skips` — `Ok` のとき database にあるものと、`Err` のとき変わらないこと
* `loadPath_eq_loadFile` — 誤りの起こらない LMDB では `loadFile` になる
-/

namespace FabAccess

open FabAccess.Infra

/-- `load_file` の誤り。 -/
inductive LoadError where
  /-- `load takes a file, not a directory` -/
  | isDir
  | read
  | parse
  | db
  deriving DecidableEq, Repr

/-- `path` にあるもの。 -/
inductive PathEntry where
  | dir
  | unreadable
  | file (bytes : ByteArray)
  deriving DecidableEq

/-- `HashMap<String, UserData>` を、辿られる順に並べたもの。 -/
structure UserMap where
  entries : List (String × UserData)
  nodup : (entries.map Prod.fst).Nodup

def UserMap.get (map : UserMap) (uid : String) : Option UserData := map.entries.lookup uid

/-- transaction の中で LMDB の操作が成功するか。`put` はそれまでの中身にもよる。 -/
structure Txn where
  begins : Bool
  clears : Bool
  accepts : Users → String → User → Bool
  commits : Bool

/-- 呼び出しの結果と、その後の database。`refused` は `put` を拒まれた entry の名前の記録で、source は
持たない（`warn!` に出るのは誤りだけである）。 -/
structure Loaded where
  result : Except LoadError Unit
  users : Users
  refused : List String

namespace Users

variable (x : Codec) (txn : Txn) (salt : String → ByteArray)

/-- `for (uid, mut userdata) in map` の loop。二つ目は、拒まれた entry の名前の記録である。 -/
def storeAll : List (String × UserData) → Users → Users × List String
  | [], users => (users, [])
  | (uid, userdata) :: rest, users =>
    let user := entry x salt uid userdata
    if txn.accepts users uid user then storeAll rest ⟨users.userdb.insert uid user⟩
    else
      let (users, refused) := storeAll rest users
      (users, uid :: refused)

/-- `Users::load_file`。commit しない transaction は、何も残さない。 -/
def loadPath (parse : ByteArray → Option UserMap) (path : PathEntry) (users : Users) : Loaded :=
  match path with
  | .dir => ⟨.error .isDir, users, []⟩
  | .unreadable => ⟨.error .read, users, []⟩
  | .file bytes =>
    match parse bytes with
    | none => ⟨.error .parse, users, []⟩
    | some map =>
      if !txn.begins then ⟨.error .db, users, []⟩
      else if !txn.clears then ⟨.error .db, users, []⟩
      else
        let (stored, refused) := storeAll x txn salt map.entries ⟨∅⟩
        if !txn.commits then ⟨.error .db, users, refused⟩ else ⟨.ok (), stored, refused⟩

variable {x txn salt} {entries : List (String × UserData)} {users : Users} {uid : String}

/-! ## loop -/

theorem refused_sublist : (storeAll x txn salt entries users).2.Sublist (entries.map Prod.fst) := by
  induction entries generalizing users with
  | nil => exact .slnil
  | cons e rest ih =>
    obtain ⟨uid, userdata⟩ := e
    simp only [storeAll, List.map_cons]
    split
    · exact ih.cons uid
    · exact ih.cons_cons uid

theorem lookup_eq_none_of_notMem (h : uid ∉ entries.map Prod.fst) : entries.lookup uid = none := by
  rw [List.lookup_eq_none_iff]
  rintro ⟨uid', userdata⟩ hmem
  rw [bne_iff_ne]
  rintro rfl
  exact h (List.mem_map.mpr ⟨_, hmem, rfl⟩)

/-- loop の後、file にある user の record は、飛ばされていなければ file のとおりである。 -/
theorem lookup_storeAll (hnodup : (entries.map Prod.fst).Nodup) :
    (storeAll x txn salt entries users).1.getUser uid =
      match entries.lookup uid with
      | some userdata =>
        if uid ∈ (storeAll x txn salt entries users).2 then users.getUser uid
        else some (entry x salt uid userdata)
      | none => users.getUser uid := by
  induction entries generalizing users with
  | nil => rfl
  | cons e rest ih =>
    obtain ⟨uid', userdata⟩ := e
    rw [List.map_cons, List.nodup_cons] at hnodup
    obtain ⟨hfresh, hrest⟩ := hnodup
    have hnone := lookup_eq_none_of_notMem hfresh
    by_cases heq : uid = uid'
    -- 同じ名前の entry はほかに無いので、残りの loop はこの record に触れない
    · subst heq
      simp only [storeAll, List.lookup_cons_self]
      split
      · have hnot : uid ∉ (storeAll x txn salt rest
            ⟨users.userdb.insert uid (entry x salt uid userdata)⟩).2 :=
          fun hmem => hfresh (refused_sublist.subset hmem)
        rw [ih hrest, hnone, if_neg hnot]
        exact Finmap.lookup_insert _
      · rw [ih hrest, hnone, if_pos (List.mem_cons_self ..)]
    · have hlookup : List.lookup uid ((uid', userdata) :: rest) = rest.lookup uid := by
        rw [List.lookup_cons, beq_false_of_ne heq]
      simp only [storeAll, hlookup]
      split
      · rw [ih hrest]
        have hget : getUser ⟨users.userdb.insert uid' (entry x salt uid' userdata)⟩ uid =
            users.getUser uid := Finmap.lookup_insert_of_ne _ heq
        rw [hget]
      · rw [ih hrest]
        simp only [List.mem_cons, heq, false_or]

/-- 飛ばされるのは、その時点の transaction が `put` を拒んだ entry である。 -/
theorem mem_refused_iff {pre post : List (String × UserData)} {userdata : UserData}
    (hnodup : ((pre ++ (uid, userdata) :: post).map Prod.fst).Nodup) :
    uid ∈ (storeAll x txn salt (pre ++ (uid, userdata) :: post) users).2 ↔
      txn.accepts (storeAll x txn salt pre users).1 uid (entry x salt uid userdata) = false := by
  induction pre generalizing users with
  | nil =>
    rw [List.nil_append, List.map_cons, List.nodup_cons] at hnodup
    simp only [List.nil_append, storeAll]
    split
    · next haccept =>
      rw [haccept]
      constructor
      · intro hmem
        exact absurd (refused_sublist.subset hmem) hnodup.1
      · intro hfalse
        cases hfalse
    · next haccept =>
      rw [Bool.not_eq_true] at haccept
      exact ⟨fun _ => haccept, fun _ => List.mem_cons_self ..⟩
  | cons e pre ih =>
    obtain ⟨uid', userdata'⟩ := e
    rw [List.cons_append, List.map_cons, List.nodup_cons] at hnodup
    have hne : uid ≠ uid' := by
      rintro rfl
      exact hnodup.1 (by simp)
    simp only [List.cons_append, storeAll]
    split
    · exact ih hnodup.2
    · simp only [List.mem_cons, hne, false_or]
      exact ih hnodup.2

/-- 空にした表から始めると、拒まれた user のほかは file のとおりになる。 -/
theorem getUser_storeAll (map : UserMap) (uid : String) :
    (storeAll x txn salt map.entries ⟨∅⟩).1.getUser uid =
      if uid ∈ (storeAll x txn salt map.entries ⟨∅⟩).2 then none
      else (map.get uid).map (entry x salt uid) := by
  have hempty : getUser ⟨∅⟩ uid = none := Finmap.lookup_empty uid
  rw [lookup_storeAll map.nodup, hempty, UserMap.get]
  cases map.entries.lookup uid with
  | none => exact (ite_self none).symm
  | some userdata => rfl

/-! ## 呼び出しの全体 -/

section Outcome

variable {parse : ByteArray → Option UserMap} {path : PathEntry}

/-- 呼び出しは、誤りを返して何も変えないか、loop の結果を commit して `Ok` を返すかである。 -/
theorem loadPath_cases (x : Codec) (txn : Txn) (salt : String → ByteArray)
    (parse : ByteArray → Option UserMap) (path : PathEntry) (users : Users) :
    ((∃ e, (loadPath x txn salt parse path users).result = .error e) ∧
      (loadPath x txn salt parse path users).users = users) ∨
    ∃ bytes map, path = .file bytes ∧ parse bytes = some map ∧
      loadPath x txn salt parse path users =
        ⟨.ok (), (storeAll x txn salt map.entries ⟨∅⟩).1,
          (storeAll x txn salt map.entries ⟨∅⟩).2⟩ := by
  cases path with
  | dir => exact Or.inl ⟨⟨_, rfl⟩, rfl⟩
  | unreadable => exact Or.inl ⟨⟨_, rfl⟩, rfl⟩
  | file bytes =>
    cases hparse : parse bytes with
    | none =>
      refine Or.inl ⟨⟨.parse, ?_⟩, ?_⟩ <;> simp only [loadPath, hparse]
    | some map =>
      simp only [loadPath, hparse]
      split
      · exact Or.inl ⟨⟨_, rfl⟩, rfl⟩
      · split
        · exact Or.inl ⟨⟨_, rfl⟩, rfl⟩
        · split
          · exact Or.inl ⟨⟨_, rfl⟩, rfl⟩
          · exact Or.inr ⟨bytes, map, rfl, hparse, rfl⟩

/--
**`load_file` は、飛ばした entry のほかは全か無かである。**

誤りを返せば database は元のままである。`Ok` なら、database にあるのは、transaction が `put` を
受け入れた entry の record ちょうど一つずつで、ほかには何も無い。
-/
theorem load_file_skips (x : Codec) (txn : Txn) (salt : String → ByteArray)
    (parse : ByteArray → Option UserMap) (path : PathEntry) (users : Users) :
    (∀ e, (loadPath x txn salt parse path users).result = .error e →
      (loadPath x txn salt parse path users).users = users) ∧
    ((loadPath x txn salt parse path users).result = .ok () →
      ∃ bytes map, path = .file bytes ∧ parse bytes = some map ∧
        (∀ uid, (loadPath x txn salt parse path users).users.getUser uid =
          if uid ∈ (loadPath x txn salt parse path users).refused then none
          else (map.get uid).map (entry x salt uid)) ∧
        ∀ pre uid userdata post, map.entries = pre ++ (uid, userdata) :: post →
          (uid ∈ (loadPath x txn salt parse path users).refused ↔
            txn.accepts (storeAll x txn salt pre ⟨∅⟩).1 uid (entry x salt uid userdata) = false)) := by
  rcases loadPath_cases x txn salt parse path users with
    ⟨⟨e, herr⟩, hsame⟩ | ⟨bytes, map, hpath, hparse, heq⟩
  · refine ⟨fun _ _ => hsame, fun hok => ?_⟩
    rw [herr] at hok
    cases hok
  · rw [heq]
    refine ⟨fun e herr => (nomatch herr), fun _ =>
      ⟨bytes, map, hpath, hparse, getUser_storeAll map, ?_⟩⟩
    intro pre uid userdata post hsplit
    have hnodup := map.nodup
    rw [hsplit] at hnodup ⊢
    exact mem_refused_iff hnodup

/-- 誤りの起こらない LMDB。拒まれるのは、長さの合わない key だけである。 -/
def soundTxn : Txn := ⟨true, true, fun _ uid _ => validKey uid, true⟩

/-- 名前の無い user のいる file。 -/
def namelessText : ByteArray := "[\"\"]\nroles = [\"maker\"]\n\n[alice]\nroles = [\"maker\"]\n".toUTF8

def namelessMap : UserMap :=
  ⟨[("", ⟨["maker"], none, ∅⟩), ("alice", ⟨["maker"], none, ∅⟩)], by decide⟩

def readNameless (bytes : ByteArray) : Option UserMap :=
  if bytes == namelessText then some namelessMap else none

/-- LMDB は空の key を拒むので、`load_file` は `Ok` を返すが、名前の無い user は現れない。 -/
theorem nameless_user_skipped :
    ∃ loaded, loadPath idleCodec soundTxn (fun _ => ByteArray.empty) readNameless
        (.file namelessText) ⟨∅⟩ = loaded ∧
      loaded.result = .ok () ∧ (namelessMap.get "").isSome ∧ loaded.users.getUser "" = none ∧
      (loaded.users.getUser "alice").isSome ∧ loaded.refused = [""] :=
  ⟨_, rfl, by decide, by decide, by decide, by decide, by decide⟩

/-! ## `loadFile` との一致 -/

theorem mem_refused_soundTxn {map : UserMap} {userdata : UserData}
    (h : map.get uid = some userdata) :
    uid ∈ (storeAll x soundTxn salt map.entries users).2 ↔ validKey uid = false := by
  have hnodup := map.nodup
  obtain ⟨pre, post, hsplit, _⟩ := List.lookup_eq_some_iff.mp h
  rw [hsplit] at hnodup ⊢
  exact mem_refused_iff hnodup

/-- `soundTxn` では、database は同じ内容の file を読む `loadFile` の結果になる。 -/
theorem loadPath_eq_loadFile {toml : Toml} {bytes : ByteArray} {map : UserMap}
    {document : Document} (hparse : parse bytes = some map)
    (htoml : toml.fromSlice bytes = some document)
    (hread : ∀ uid, map.get uid = (document.lookup uid).bind UserData.deserialize)
    (hall : ∀ uid ∈ document.keys, ((document.lookup uid).bind UserData.deserialize).isSome) :
    loadFile x toml bytes salt =
      some (loadPath x soundTxn salt parse (.file bytes) users).users := by
  simp only [loadFile, htoml, Option.bind_eq_bind, Option.bind_some, if_pos hall, loadPath, hparse,
    soundTxn, Bool.not_true, Bool.false_eq_true, if_false, Option.some.injEq]
  refine ext_getUser fun uid => ?_
  have hstored : (storeAll x soundTxn salt map.entries ⟨∅⟩).1.getUser uid = _ :=
    getUser_storeAll map uid
  have hfile : getUser ⟨filterMapValues (fun uid table => if validKey uid then
      (UserData.deserialize table).map (entry x salt uid) else none) document⟩ uid =
      (document.lookup uid).bind fun table => if validKey uid then
        (UserData.deserialize table).map (entry x salt uid) else none :=
    lookup_filterMapValues _ document uid
  have hmap := hread uid
  rw [hfile]
  refine Eq.trans ?_ hstored.symm
  cases hget : map.get uid with
  | none =>
    rw [Option.map_none, ite_self]
    rw [hget] at hmap
    cases hlookup : document.lookup uid with
    | none => rfl
    | some table =>
      rw [hlookup, Option.bind_some] at hmap
      rw [Option.bind_some, ← hmap, Option.map_none, ite_self]
  | some userdata =>
    rw [hget] at hmap
    obtain ⟨table, hlookup, hdeser⟩ := Option.bind_eq_some_iff.mp hmap.symm
    rw [hlookup, Option.bind_some, hdeser, Option.map_some]
    by_cases hkey : validKey uid = true
    · have hkept : uid ∉ (storeAll x soundTxn salt map.entries ⟨∅⟩).2 := by
        rw [mem_refused_soundTxn hget, hkey]
        exact Bool.noConfusion
      rw [if_pos hkey, if_neg hkept]
    · rw [if_neg hkey, if_pos ((mem_refused_soundTxn hget).mpr (Bool.not_eq_true _ ▸ hkey))]

end Outcome

end Users

end FabAccess
