import FabAccess.Utils.VarInt

/-!
# Object identifier

`bffhd/utils/oid.rs` の `ObjectIdentifier` の埋め込み。

* `nodes[0]`・`assert!`・`expect` の panic は `none` である
* `from_box` と `convert_to_string` の loop は、桁の加え方と、数を書き出すかどうかだけが違う
* 文字列は `.` で分けるので、`List.splitOn` がそのまま対応する
-/

namespace FabAccess

/-- `Node`。 -/
abbrev Node := BitVec 128

inductive ObjectIdentifierRoot where
  | ituT
  | iso
  | jointIsoItuT
  deriving DecidableEq

inductive ObjectIdentifierError where
  | illegalRootNode
  | illegalFirstChildNode
  | illegalChildNodeValue
  deriving DecidableEq

namespace ObjectIdentifierRoot

/-- `self as u8`。 -/
def toU8 : ObjectIdentifierRoot → UInt8
  | ituT => 0
  | iso => 1
  | jointIsoItuT => 2

/-- `TryFrom<u8>`。 -/
def tryFrom (value : UInt8) : Except ObjectIdentifierError ObjectIdentifierRoot :=
  if value = 0 then .ok ituT
  else if value = 1 then .ok iso
  else if value = 2 then .ok jointIsoItuT
  else .error .illegalRootNode

end ObjectIdentifierRoot

/-- `ObjectIdentifier`。 -/
@[ext] structure ObjectIdentifier where
  nodes : List UInt8
  deriving DecidableEq

/-! ## byte 列を読む loop -/

/-- loop の変数。`out` はそれまでに読んだ数から作ったものである。 -/
structure NodeReader (β : Type) where
  parsingBigInt : Bool
  bigInt : Node
  out : β

namespace NodeReader

variable {β : Type} (join : Node → Node → Node) (emit : β → Nat → β)

/-- 一つの byte を読む。`if` の二つの枝である。 -/
def absorb (s : NodeReader β) (node : UInt8) : Except ObjectIdentifierError (NodeReader β) :=
  if !s.parsingBigInt && node < 128 then .ok { s with out := emit s.out node.toNat }
  else if s.bigInt > 0 && s.bigInt ≥ BitVec.allOnes 128 >>> 7 then .error .illegalChildNodeValue
  else
    let bigInt := if s.bigInt > 0 then s.bigInt <<< 7 else s.bigInt
    .ok { s with
      bigInt := join bigInt (BitVec.ofNat 128 (node &&& ~~~0x80).toNat)
      parsingBigInt := node &&& 0x80 != 0 }

/-- 数が終わっていれば書き出す。 -/
def settle (s : NodeReader β) : NodeReader β :=
  if s.bigInt > 0 && !s.parsingBigInt then
    { s with out := emit s.out s.bigInt.toNat, bigInt := 0 }
  else s

def read (s : NodeReader β) (node : UInt8) : Except ObjectIdentifierError (NodeReader β) :=
  (s.absorb join emit node).map (settle emit)

end NodeReader

/-- `convert_to_string`。 -/
def convertToString : List UInt8 → Option (Except ObjectIdentifierError String)
  | [] => none
  | first :: rest =>
    let out := toString (first / 40).toNat ++ "." ++ toString (first % 40).toNat
    let push (out : String) (n : Nat) := out ++ "." ++ toString n
    some ((rest.foldlM (NodeReader.read (· + ·) push) ⟨false, 0, out⟩).map (·.out))

/-! ## 整数の読み取り -/

/-- `from_str_radix` の loop。`max` を超えれば `none`。 -/
def parseDigits (max : Nat) : List Char → Nat → Option Nat
  | [], result => some result
  | c :: cs, result =>
    if c.isDigit then
      if max < result * 10 then none
      else
        let result := result * 10 + (c.toNat - '0'.toNat)
        if max < result then none else parseDigits max cs result
    else none

/-- 符号の無い整数の `str::parse`。先頭の `+` は読み飛ばす。 -/
def parseUnsigned (max : Nat) : List Char → Option Nat
  | [] => none
  | c :: cs =>
    if cs = [] ∧ (c = '+' ∨ c = '-') then none
    else if c = '+' then parseDigits max cs 0
    else parseDigits max (c :: cs) 0

/-- `parse::<u8>`。 -/
def parseU8 (s : List Char) : Option UInt8 := (parseUnsigned (2 ^ 8 - 1) s).map UInt8.ofNat

/-- `parse::<u128>`。 -/
def parseNode (s : List Char) : Option Node :=
  (parseUnsigned (2 ^ 128 - 1) s).map (BitVec.ofNat 128)

/-- `parse_string_first_node`。 -/
def parseStringFirstNode (firstChildNode : List Char) : Except ObjectIdentifierError UInt8 :=
  match parseU8 firstChildNode with
  | none => .error .illegalFirstChildNode
  | some first => if first > 39 then .error .illegalFirstChildNode else .ok first

/-! ## `ObjectIdentifier` -/

namespace ObjectIdentifier

/-- `ObjectIdentifier::from_box`。 -/
def fromBox (nodes : List UInt8) : Except ObjectIdentifierError ObjectIdentifier :=
  match nodes with
  | [] => .error .illegalRootNode
  | first :: rest => do
    let _ ← ObjectIdentifierRoot.tryFrom (first / 40)
    let _ ← rest.foldlM (NodeReader.read (· ||| ·) fun _ _ => ()) ⟨false, 0, ()⟩
    return ⟨nodes⟩

/-- `ObjectIdentifier::build`。 -/
def build (root : ObjectIdentifierRoot) (first : UInt8) (children : List Node) :
    Option (Except ObjectIdentifierError ObjectIdentifier) :=
  if first > 40 then some (.error .illegalFirstChildNode)
  else do
    let vars ← children.mapM VarU128.convertFrom
    return .ok ⟨(root.toU8 * 40 + first) :: vars.flatMap VarUInt.asBytes⟩

/-- `ObjectIdentifier::root`。 -/
def root (oid : ObjectIdentifier) : Option (Except ObjectIdentifierError ObjectIdentifierRoot) :=
  oid.nodes.head?.map fun node => ObjectIdentifierRoot.tryFrom (node / 40)

/-- `ObjectIdentifier::first_node`。 -/
def firstNode (oid : ObjectIdentifier) : Option UInt8 := oid.nodes.head?.map (· % 40)

/-- `Into<String>`。 -/
def toText (oid : ObjectIdentifier) : Option String :=
  match convertToString oid.nodes with
  | some (.ok out) => some out
  | _ => none

/-- `FromStr::from_str`。 -/
def fromStr (value : String) : Option (Except ObjectIdentifierError ObjectIdentifier) :=
  let nodes := value.toList.splitOn '.'
  match (nodes[0]?.bind parseU8).bind fun n => (ObjectIdentifierRoot.tryFrom n).toOption with
  | none => some (.error .illegalRootNode)
  | some root =>
    match nodes[1]?.bind fun n => (parseStringFirstNode n).toOption with
    | none => some (.error .illegalFirstChildNode)
    | some first =>
      match (nodes.drop 2).mapM parseNode with
      | none => some (.error .illegalChildNodeValue)
      | some children => build root first children

end ObjectIdentifier

end FabAccess
