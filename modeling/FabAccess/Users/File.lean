import FabAccess.Infra.FiniteMap
import FabAccess.Users

/-!
# user file

`Users::load_file` と `Users::dump_file`（`bffhd/users/mod.rs`）、それに `UserData` の serde の形
（`bffhd/users/db.rs`）の埋め込み。file の読み書きそのものは成功するとする。

`UserData` は一つの table になり、`kv` の entry は `roles`・`passwd` と同じ高さに並ぶ（`flatten`）。
TOML の byte 列との変換は `Toml` として受け取る。
-/

namespace FabAccess

open FabAccess.Infra

/-- TOML の値。`UserData` が読み書きするものだけを区別する。 -/
inductive Value where
  | string (s : String)
  | strings (l : List String)
  | other
  deriving DecidableEq

def Value.string? : Value → Option String
  | .string s => some s
  | _ => none

abbrev Table := Finmap (fun _ : String => Value)

/-- file の中身。user ごとに一つの table がある。 -/
abbrev Document := Finmap (fun _ : String => Table)

/-- `toml::from_slice` と `toml::ser::to_vec`。 -/
structure Toml where
  fromSlice : ByteArray → Option Document
  toVec : Document → ByteArray

namespace UserData

/--
table にする。`passwd` は有るときだけ書く。

`kv` に同じ名前の key があると、一つの table に同じ key が二度現れる。そのような file は読み戻せない。
-/
def serialize (userdata : UserData) : Option Table :=
  if "roles" ∈ userdata.kv ∨ (userdata.passwd.isSome ∧ "passwd" ∈ userdata.kv) then none
  else
    let table := (filterMapValues (fun _ s => some (Value.string s)) userdata.kv).insert
      "roles" (.strings userdata.roles)
    match userdata.passwd with
    | some pw => some (table.insert "passwd" (.string pw))
    | none => some table

/-- table から読む。`roles` は必ず要り、名前の無い key はすべて `kv` に入る。 -/
def deserialize (table : Table) : Option UserData :=
  match table.lookup "roles", table.lookup "passwd" with
  | some (.strings roles), passwd =>
    let kv := filterMapValues (fun key value =>
      if key = "roles" ∨ key = "passwd" then none else value.string?) table
    if ∀ key ∈ table.keys, key ≠ "roles" → ((table.lookup key).bind Value.string?).isSome then
      match passwd with
      | some (.string pw) => some ⟨roles, some pw, kv⟩
      | some _ => none
      | none => some ⟨roles, none, kv⟩
    else none
  | _, _ => none

end UserData

namespace Users

variable (x : Codec) (toml : Toml)

/-- `pw.starts_with("$argon2")`。 -/
def isHashed (pw : String) : Bool := "$argon2".toList.isPrefixOf pw.toList

/-- 平文の password は hash にする。 -/
def hashPlain (pw : String) (salt : ByteArray) : String :=
  if isHashed pw then pw else x.hashEncoded pw.toUTF8 salt

/-- file の一つの entry から作る record。 -/
def entry (salt : String → ByteArray) (uid : String) (userdata : UserData) : User :=
  ⟨uid, { userdata with passwd := userdata.passwd.map fun pw => hashPlain x pw (salt uid) }⟩

/--
`Users::load_file`。読めない file なら誤りで、database は変わらない。

表を空にしてから一つずつ `put` する。`put` の失敗は log に残るだけである。
key は互いに異なるので、順序には依らない。
-/
def loadFile (file : ByteArray) (salt : String → ByteArray) : Option Users := do
  let document ← toml.fromSlice file
  if ∀ uid ∈ document.keys, ((document.lookup uid).bind UserData.deserialize).isSome then
    some ⟨filterMapValues (fun uid table =>
      if validKey uid then (UserData.deserialize table).map (entry x salt uid) else none) document⟩
  else none

/-- `UserDB::get_all` の結果を serde の形にしたもの。record の `id` は残らない。 -/
def document (users : Users) : Document :=
  filterMapValues (fun _ user => user.userdata.serialize) users.userdb

/-- `Users::dump_file` が書く file。 -/
def dumpFile (users : Users) : Option ByteArray :=
  if ∀ uid ∈ users.userdb.keys, ((users.getUser uid).bind (·.userdata.serialize)).isSome then
    some (toml.toVec users.document)
  else none

end Users

end FabAccess
