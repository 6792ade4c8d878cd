import FabAccess.Authorization.Permissions
import FabAccess.Users

/-!
# role の解決

`bffhd/authorization/roles.rs` の埋め込み。role は親を持ち、親の権限を受け継ぐ。
親の関係が循環していないかどうかは、設定を読むときにも調べない。
循環の上では再帰が終わらないので、呼び出しの深さを `fuel` として数え、
足りないときは `none` とする。
-/

namespace FabAccess

/-- `Role`。 -/
structure Role where
  parents : List String
  permissions : List PermRule
  deriving DecidableEq, Repr

/-- 設定から一度だけ作られる role の表（`Roles`）。 -/
structure Roles where
  roles : Finmap (fun _ : String => Role)

namespace Roles

/-- `Roles::get`。 -/
def get (this : Roles) (roleid : String) : Option Role := this.roles.lookup roleid

/--
`for` で role の列を順に調べ、`true` が返ったらその場で `return true` する。
`permitted_tally` の親の列と `is_permitted` の user の列が、この同じ形をしている。
-/
def anyPermitted (tally : Finset String → String → Option (Bool × Finset String)) :
    Finset String → List String → Option (Bool × Finset String)
  | roles, [] => some (false, roles)
  | roles, roleId :: rest =>
    match tally roles roleId with
    | none => none
    | some (true, roles') => some (true, roles')
    | some (false, roles') => anyPermitted tally roles' rest

/-- `Roles::permitted_tally`。集合 `roles` への挿入は、親をすべて調べた後で行われる。 -/
def permittedTally (this : Roles) (perm : Permission) :
    Nat → Finset String → String → Option (Bool × Finset String)
  | 0, _, _ => none
  | fuel + 1, roles, roleId =>
    match this.get roleId with
    | none => some (false, roles)
    | some role =>
      if roleId ∈ roles then some (false, roles)
      else if role.permissions.any (fun permRule => permRule.matchPerm perm) then some (true, roles)
      else
        match anyPermitted (this.permittedTally perm fuel) roles role.parents with
        | none => none
        | some (true, roles') => some (true, roles')
        | some (false, roles') => some (false, insert roleId roles')

/-- `Roles::is_permitted`。 -/
def isPermitted (this : Roles) (fuel : Nat) (user : UserData) (perm : Permission) : Option Bool :=
  (anyPermitted (this.permittedTally perm fuel) ∅ user.roles).map Prod.fst

/-- `for` で role の列を順に集める。`tally_role` の親の列と `collect_permrules` の user の列である。 -/
def tallyAll
    (tally : Finmap (fun _ : String => Role) → String → Option (Finmap fun _ : String => Role)) :
    Finmap (fun _ : String => Role) → List String → Option (Finmap fun _ : String => Role)
  | roles, [] => some roles
  | roles, roleId :: rest =>
    match tally roles roleId with
    | none => none
    | some roles' => tallyAll tally roles' rest

/-- `Roles::tally_role`。ここでも挿入は親をすべて集めた後で行われる。 -/
def tallyRole (this : Roles) :
    Nat → Finmap (fun _ : String => Role) → String → Option (Finmap fun _ : String => Role)
  | 0, _, _ => none
  | fuel + 1, roles, roleId =>
    match this.get roleId with
    | none => some roles
    | some role =>
      if roleId ∈ roles then some roles
      else
        match tallyAll (this.tallyRole fuel) roles role.parents with
        | none => none
        | some roles' => some (roles'.insert roleId role)

/-- `Roles::collect_permrules`。`HashMap` を辿る順序は決まっていない。 -/
def collectPermrules (this : Roles) (fuel : Nat) (user : UserData) : Option (Multiset PermRule) :=
  (tallyAll (this.tallyRole fuel) ∅ user.roles).map fun roleset =>
    roleset.entries.bind fun e => (e.2.permissions : Multiset PermRule)

/-- `is_permitted` の呼び出しが返り、答えが `b` である。 -/
def Answers (this : Roles) (user : UserData) (perm : Permission) (b : Bool) : Prop :=
  ∃ n, ∀ fuel, n ≤ fuel → this.isPermitted fuel user perm = some b

/-- 定義された role から親への一歩。 -/
def ParentStep (this : Roles) (child parent : String) : Prop :=
  ∃ role, this.get child = some role ∧ parent ∈ role.parents

/-- どの role も自分の先祖にならない。 -/
def Acyclic (this : Roles) : Prop := ∀ roleid, ¬ Relation.TransGen this.ParentStep roleid roleid

/-- user の role から親を辿って届く定義済みの role に、`perm` に当たる rule がある。 -/
def Grants (this : Roles) (user : UserData) (perm : Permission) : Prop :=
  ∃ start ∈ user.roles, ∃ roleid role, Relation.ReflTransGen this.ParentStep start roleid ∧
    this.get roleid = some role ∧ ∃ permRule ∈ role.permissions, permRule.matchPerm perm = true

/-- 表 `this` の role と、定義された親と、rule が、すべて `other` にもある。 -/
def Le (this other : Roles) : Prop :=
  ∀ roleid role, this.get roleid = some role → ∃ role', other.get roleid = some role' ∧
    (∀ parent ∈ role.parents, (this.get parent).isSome → parent ∈ role'.parents) ∧
    ∀ permRule ∈ role.permissions, permRule ∈ role'.permissions

end Roles

end FabAccess
