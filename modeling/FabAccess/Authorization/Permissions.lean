import FabAccess.Infra.Cut

/-!
# 権限と権限の rule

`bffhd/authorization/permissions.rs` の埋め込み。権限は `.` で区切られた文字列で、
区切りの列の間に「途中まで同じ」という半順序がある。rule はその半順序を使って権限に当たる。

文字列の分割は文字の列の上で行う。`str::split('.')` は空の区間も残すので、
`List.splitOn` がそのまま対応する。rule は文字列として読み書きされる。byte の位置での切り出しは
文字の途中では panic するので、`Infra.sliceBytes` の `none` がそれを表す。
-/

namespace FabAccess

open Infra

def isSepChar (c : Char) : Bool := c == '.'

/-- `Permission` と `PermissionBuf`。借用か所有かの違いしかなく、中身は文字列である。 -/
structure Permission where
  inner : String
  deriving DecidableEq, Repr

namespace Permission

def asStr (p : Permission) : String := p.inner

def intoString (p : Permission) : String := p.inner

/-- `PermissionBuf::push`。空でなく、末尾が区切りでもないときだけ、間に区切りを足す。 -/
def push (this perm : Permission) : Permission where
  inner :=
    let needSep := (this.inner.toList.getLast?.map (fun c => !isSepChar c)).getD false
    (if needSep then this.inner ++ "." else this.inner) ++ perm.asStr

/-- `Permission::iter`。`.` で区切った列。 -/
def iter (p : Permission) : List (List Char) := p.asStr.toList.splitOn '.'

/-- `partial_cmp` のループ。左右を一つずつ進め、違えば比較できない。 -/
def cmpLoop : List (List Char) → List (List Char) → Option Ordering
  | [], [] => some .eq
  | _ :: _, [] => some .lt
  | [], _ :: _ => some .gt
  | l :: i, r :: j => if l != r then none else cmpLoop i j

/-- `PartialOrd::partial_cmp`。根に近い方が大きい。 -/
def partialCmp (a b : Permission) : Option Ordering := cmpLoop a.iter b.iter

/-- `PartialOrd` の `>`。 -/
def gt (a b : Permission) : Bool := a.partialCmp b == some .gt

/-- `PartialOrd` の `>=`。 -/
def ge (a b : Permission) : Bool := a.partialCmp b == some .gt || a.partialCmp b == some .eq

end Permission

/-- 一つの物に対する四つの権限（`PrivilegesBuf`）。 -/
structure PrivilegesBuf where
  disclose : Permission
  read : Permission
  write : Permission
  manage : Permission
  deriving DecidableEq, Repr

/-- 権限を与える rule（`PermRule`）。 -/
inductive PermRule where
  /-- その権限だけ -/
  | base (perm : Permission)
  /-- その下だけ。自分自身は含まない -/
  | children (parent : Permission)
  /-- その下と自分自身 -/
  | subtree (parent : Permission)
  deriving DecidableEq, Repr

/-- `PermRule::match_perm`。 -/
def PermRule.matchPerm (rule : PermRule) (perm : Permission) : Bool :=
  match rule with
  | .base granted => granted == perm
  | .children parent => parent.gt perm
  | .subtree parent => parent.ge perm

/-! ## rule の文字列 -/

namespace PermRule

/-- `Display for PermRule`。 -/
def display : PermRule → String
  | .base perm => perm.asStr
  | .children parent => parent.asStr ++ ".+"
  | .subtree parent => parent.asStr ++ ".*"

/-- `Into<String> for PermRule`。serde が rule を書き出す形。`Subtree` でも `+` を足している。 -/
def intoString : PermRule → String
  | .base perm => perm.intoString
  | .children perm => (perm.push ⟨"+"⟩).intoString
  | .subtree perm => (perm.push ⟨"+"⟩).intoString

/-- `TryFrom<String> for PermRule`。末尾の二 byte を見る。`none` は panic である。 -/
def tryFrom (input : String) : Option (Except String PermRule) :=
  let len := input.utf8ByteSize
  if len ≤ 2 then some (.error "Input string for PermRule is too short")
  else
    match sliceBytes input (len - 2) len with
    | none => none
    | some ".+" => (truncateBytes input (len - 2)).map fun input => .ok (.children ⟨input⟩)
    | some ".*" => (truncateBytes input (len - 2)).map fun input => .ok (.subtree ⟨input⟩)
    | some _ => some (.ok (.base ⟨input⟩))

end PermRule

end FabAccess
