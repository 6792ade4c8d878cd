import FabAccess.Utils.Properties.OidRead

/-!
# Object identifier の往復

`build` した object identifier を書き出して読み戻す。`build` は 40 までの first node を受け取るが、
`from_str` が認めるのは 39 までである。数を読む loop は、`2 ^ 128 - 128` 以上の数を誤りとする。

* `build_eq` — `build` の byte 列
* `toText_of_read` — 書き出した文字列
* `parseUnsigned_toDigits` — 十進の数は読み戻せる
* `oid_survives_iff` — 往復できるのは、どの制限にも触れないとき、そのときに限る
-/

namespace FabAccess

open Infra

variable {root root' : ObjectIdentifierRoot} {first first' : UInt8} {children children' : List Node}
  {oid : ObjectIdentifier}

/-! ## `build` -/

/-- 子の番号は、どれも base-128 で書ける。 -/
theorem mapM_convertFrom (children : List Node) :
    ∃ vars, children.mapM VarU128.convertFrom = some vars ∧
      vars.flatMap VarUInt.asBytes = children.flatMap fun c => septets c.toNat 0 := by
  induction children with
  | nil => exact ⟨[], rfl, rfl⟩
  | cons c children ih =>
    obtain ⟨v, hv, hbytes⟩ := VarU128.convertFrom_spec c
    obtain ⟨vars, hvars, hrest⟩ := ih
    refine ⟨v :: vars, ?_, by rw [List.flatMap_cons, List.flatMap_cons, hbytes, hrest]⟩
    rw [List.mapM_cons, hv, hvars]
    rfl

/-- `build` は panic しない。受け取られた数は、そのまま並ぶ。 -/
theorem build_eq (root : ObjectIdentifierRoot) (first : UInt8) (children : List Node) :
    ObjectIdentifier.build root first children =
      if first > 40 then some (.error .illegalFirstChildNode)
      else some (.ok ⟨(root.toU8 * 40 + first) ::
        children.flatMap fun c => septets c.toNat 0⟩) := by
  obtain ⟨vars, hvars, hbytes⟩ := mapM_convertFrom children
  unfold ObjectIdentifier.build
  split
  · rfl
  · rw [hvars, ← hbytes]
    rfl

/-- `build` が返すのは、先頭の番号が 40 までのときで、根と先頭は一つの byte になる。 -/
theorem build_eq_ok (h : ObjectIdentifier.build root first children = some (.ok oid)) :
    first ≤ 40 ∧
      oid.nodes = (root.toU8 * 40 + first) :: children.flatMap fun c => septets c.toNat 0 := by
  rw [build_eq] at h
  split at h
  · cases h
  · next hle =>
    cases h
    exact ⟨UInt8.not_lt.mp hle, rfl⟩

/-! ## 初めの byte -/

theorem toU8_le (root : ObjectIdentifierRoot) : root.toU8.toNat ≤ 2 := by
  cases root with
  | ituT | iso | jointIsoItuT => decide

/-- 初めの byte は溢れない。 -/
theorem toNat_head (root : ObjectIdentifierRoot) (h : first ≤ 40) :
    (root.toU8 * 40 + first).toNat = root.toU8.toNat * 40 + first.toNat := by
  have hle : first.toNat ≤ 40 := UInt8.le_iff_toNat_le.mp h
  have hroot := toU8_le root
  rw [UInt8.toNat_add, UInt8.toNat_mul]
  show (root.toU8.toNat * 40 % 256 + first.toNat) % 256 = _
  omega

/-- 先頭の番号が 39 までなら、byte から根が読み戻される。 -/
theorem head_div (root : ObjectIdentifierRoot) (h : first ≤ 39) :
    (root.toU8 * 40 + first) / 40 = root.toU8 := by
  have hle : first.toNat ≤ 39 := UInt8.le_iff_toNat_le.mp h
  apply UInt8.toNat_inj.mp
  rw [UInt8.toNat_div, toNat_head root (UInt8.le_trans h (by decide))]
  show (root.toU8.toNat * 40 + first.toNat) / 40 = root.toU8.toNat
  omega

/-- 先頭の番号が 39 までなら、byte からその番号が読み戻される。 -/
theorem head_mod (root : ObjectIdentifierRoot) (h : first ≤ 39) :
    (root.toU8 * 40 + first) % 40 = first := by
  have hle : first.toNat ≤ 39 := UInt8.le_iff_toNat_le.mp h
  apply UInt8.toNat_inj.mp
  rw [UInt8.toNat_mod, toNat_head root (UInt8.le_trans h (by decide))]
  show (root.toU8.toNat * 40 + first.toNat) % 40 = first.toNat
  omega

/-- 書いた根は読み戻される。 -/
theorem tryFrom_toU8 (root : ObjectIdentifierRoot) :
    ObjectIdentifierRoot.tryFrom root.toU8 = .ok root := by
  cases root with
  | ituT | iso | jointIsoItuT => rfl

/-! ## 文字列 -/

/-- root と first node と children を、十進で `.` でつなぐ。 -/
def dotted (root : ObjectIdentifierRoot) (first : UInt8) (children : List Node) : String :=
  ".".intercalate
    ((root.toU8.toNat :: first.toNat :: children.map BitVec.toNat).map Nat.repr)

/-- 番号を一つずつ書き足したものは、点で繋いだものである。 -/
theorem foldl_push (pieces : List String) (hne : pieces ≠ []) (children : List Node) :
    children.foldl (fun out c => out ++ "." ++ toString c.toNat) (".".intercalate pieces) =
      ".".intercalate (pieces ++ children.map fun c => c.toNat.repr) := by
  induction children generalizing pieces with
  | nil => simp
  | cons c children ih =>
    have hstep : ".".intercalate pieces ++ "." ++ toString c.toNat =
        ".".intercalate (pieces ++ [c.toNat.repr]) := by
      rw [String.intercalate_append_of_ne_nil hne (by simp), String.intercalate_singleton]
      rfl
    rw [List.foldl_cons, hstep, ih _ (by simp)]
    simp

/-- 数を読む loop が終われば、文字列は root と first node と、渡された数からなる。 -/
theorem toText_of_read {node : UInt8} {rest : List UInt8} {s : NodeReader String}
    (hroot : root.toU8 = node / 40)
    (hread : rest.foldlM (NodeReader.read (· + ·) fun out n => out ++ "." ++ toString n)
      ⟨false, 0, toString (node / 40).toNat ++ "." ++ toString (node % 40).toNat⟩ = .ok s)
    (hout : s.out = children.foldl (fun out c => out ++ "." ++ toString c.toNat)
      (toString (node / 40).toNat ++ "." ++ toString (node % 40).toNat)) :
    ObjectIdentifier.toText ⟨node :: rest⟩ = some (dotted root (node % 40) children) := by
  have hhead : toString (node / 40).toNat ++ "." ++ toString (node % 40).toNat =
      ".".intercalate [root.toU8.toNat.repr, (node % 40).toNat.repr] := by
    rw [hroot, String.intercalate_cons_cons, String.intercalate_singleton]
    rfl
  rw [ObjectIdentifier.toText, convertToString, hread]
  rw [hhead, foldl_push _ (by simp)] at hout
  simp only [Except.map, hout, dotted]
  simp [Function.comp_def]

theorem le_ofDigitChars (cs : List Char) (n : Nat) : n ≤ Nat.ofDigitChars 10 cs n := by
  rw [Nat.ofDigitChars_eq_ofDigitChars_zero]
  exact Nat.le_add_right_of_le (Nat.le_mul_of_pos_left n (Nat.pow_pos (by decide)))

/-- 溢れない数字の列は、その値として読まれる。 -/
theorem parseDigits_eq {max : Nat} {cs : List Char} : ∀ {n : Nat}, (∀ c ∈ cs, c.isDigit) →
    Nat.ofDigitChars 10 cs n ≤ max → parseDigits max cs n = some (Nat.ofDigitChars 10 cs n) := by
  induction cs with
  | nil => intro n _ _; rfl
  | cons c cs ih =>
    intro n hdigits hmax
    rw [Nat.ofDigitChars_cons, Nat.mul_comm] at hmax ⊢
    have hle := le_ofDigitChars cs (n * 10 + (c.toNat - '0'.toNat))
    rw [parseDigits, if_pos (hdigits c (by simp)), if_neg (by omega)]
    dsimp only
    rw [if_neg (by omega), ih (fun x hx => hdigits x (by simp [hx])) hmax]

/-- 溢れない十進の数は読み戻せる。 -/
theorem parseUnsigned_toDigits {max n : Nat} (h : n ≤ max) :
    parseUnsigned max (Nat.toDigits 10 n) = some n := by
  have hdigits : ∀ c ∈ Nat.toDigits 10 n, c.isDigit := fun c hc =>
    Nat.isDigit_of_mem_toDigits (by decide) (by decide) hc
  have hvalue : Nat.ofDigitChars 10 (Nat.toDigits 10 n) 0 = n := Nat.ofDigitChars_ten_toDigits
  cases hcs : Nat.toDigits 10 n with
  | nil => exact absurd hcs Nat.toDigits_ne_nil
  | cons c cs =>
    rw [hcs] at hdigits hvalue
    have hc := hdigits c (by simp)
    have hplus : c ≠ '+' := by
      rintro rfl
      exact absurd hc (by decide)
    have hminus : c ≠ '-' := by
      rintro rfl
      exact absurd hc (by decide)
    rw [parseUnsigned, if_neg (by simp [hplus, hminus]), if_neg hplus, parseDigits_eq hdigits
      (by rw [hvalue]; exact h), hvalue]

/-- 十進で書いた byte は読み戻される。 -/
theorem parseU8_toDigits (n : UInt8) : parseU8 (Nat.toDigits 10 n.toNat) = some n := by
  have hlt := n.toNat_lt
  rw [parseU8, parseUnsigned_toDigits (by omega), Option.map_some, UInt8.ofNat_toNat]

/-- 十進で書いた番号は読み戻される。 -/
theorem parseNode_toDigits (c : Node) : parseNode (Nat.toDigits 10 c.toNat) = some c := by
  have hlt := c.isLt
  rw [parseNode, parseUnsigned_toDigits (by omega), Option.map_some, BitVec.ofNat_toNat,
    BitVec.setWidth_eq]

/-- 十進で書いた番号の列は読み戻される。 -/
theorem mapM_parseNode (children : List Node) :
    (children.map fun c => Nat.toDigits 10 c.toNat).mapM parseNode = some children := by
  induction children with
  | nil => rfl
  | cons c children ih =>
    rw [List.map_cons, List.mapM_cons, parseNode_toDigits, ih]
    rfl

/-- 十進の数に `.` は無いので、つないだ文字列は元の数に分かれる。 -/
theorem splitOn_dotted (root : ObjectIdentifierRoot) (first : UInt8) (children : List Node) :
    (dotted root first children).toList.splitOn '.' =
      Nat.toDigits 10 root.toU8.toNat :: Nat.toDigits 10 first.toNat ::
        children.map fun c => Nat.toDigits 10 c.toNat := by
  have hpoint : ".".toList = ['.'] := by decide
  rw [dotted, String.toList_intercalate, hpoint, List.splitOn_intercalate '.' _ (by simp)]
  · simp
  · intro l hl
    simp only [List.map_map, List.mem_map, Function.comp_apply, Nat.toList_repr] at hl
    obtain ⟨n, _, rfl⟩ := hl
    intro hmem
    have hdigit := Nat.isDigit_of_mem_toDigits (by decide) (by decide) hmem
    exact absurd hdigit (by decide)

/-- 書き出した文字列は、39 までの first node なら、元の数から作り直される。 -/
theorem fromStr_dotted (h : first ≤ 39) :
    ObjectIdentifier.fromStr (dotted root first children) =
      ObjectIdentifier.build root first children := by
  have hfirst : parseStringFirstNode (Nat.toDigits 10 first.toNat) = .ok first := by
    rw [parseStringFirstNode, parseU8_toDigits]
    exact if_neg (UInt8.not_lt.mpr h)
  unfold ObjectIdentifier.fromStr
  rw [splitOn_dotted]
  simp [-List.mapM_map, parseU8_toDigits, tryFrom_toU8, hfirst, mapM_parseNode, Except.toOption]

/-! ## 往復 -/

/-- 書き出したものから、`build` に渡したものがすべて読み戻せる。 -/
structure ObjectIdentifier.Survives (oid : ObjectIdentifier) (root : ObjectIdentifierRoot)
    (first : UInt8) (children : List Node) : Prop where
  rootNode : oid.root = some (.ok root)
  firstNode : oid.firstNode = some first
  text : oid.toText = some (dotted root first children)
  bytes : fromBox oid.nodes = .ok oid
  parsed : fromStr (dotted root first children) = some (.ok oid)

/-- 先頭が 39 までで、どの番号も読める大きさなら、文字列を経ても変わらない。 -/
theorem survives_of_fits (h : ObjectIdentifier.build root first children = some (.ok oid))
    (hfirst : first ≤ 39) (hfit : ∀ c ∈ children, c.toNat < 2 ^ 128 - 128) :
    oid.Survives root first children := by
  obtain ⟨_, hnodes⟩ := build_eq_ok h
  have hroot : ObjectIdentifierRoot.tryFrom ((root.toU8 * 40 + first) / 40) = .ok root := by
    rw [head_div root hfirst, tryFrom_toU8]
  have hsmall := (small_septets children).mpr hfit
  refine ⟨?_, ?_, ?_, ?_, ?_⟩
  · rw [ObjectIdentifier.root, hnodes, List.head?_cons, Option.map_some, hroot]
  · rw [ObjectIdentifier.firstNode, hnodes, List.head?_cons, Option.map_some, head_mod root hfirst]
  · obtain ⟨s, hread, hout⟩ := foldlM_small (fun out n => out ++ "." ++ toString n) joins_add
      hsmall (toString ((root.toU8 * 40 + first) / 40).toNat ++ "." ++
        toString ((root.toU8 * 40 + first) % 40).toNat)
    rw [printed_septets] at hout
    have htext := toText_of_read (head_div root hfirst).symm hread hout
    rwa [← hnodes, head_mod root hfirst] at htext
  · obtain ⟨s, hread, _⟩ := foldlM_small (fun _ _ => ()) joins_or hsmall ()
    rw [hnodes, ObjectIdentifier.fromBox, hroot, hread, ← hnodes]
    rfl
  · rw [fromStr_dotted hfirst, h]

/-- 文字列を経て変わらないなら、先頭は 39 までで、どの番号も読める大きさである。 -/
theorem fits_of_survives (h : ObjectIdentifier.build root first children = some (.ok oid))
    (hsurv : oid.Survives root first children) :
    first ≤ 39 ∧ ∀ c ∈ children, c.toNat < 2 ^ 128 - 128 := by
  obtain ⟨_, hnodes⟩ := build_eq_ok h
  constructor
  · have hmod := hsurv.firstNode
    rw [ObjectIdentifier.firstNode, hnodes, List.head?_cons, Option.map_some,
      Option.some.injEq] at hmod
    rw [UInt8.le_iff_toNat_le, ← hmod, UInt8.toNat_mod]
    exact Nat.le_of_lt_succ (Nat.mod_lt _ (by decide))
  · by_contra hnot
    have htext := hsurv.text
    rw [ObjectIdentifier.toText, hnodes, convertToString,
      foldlM_over joins_add fun hsmall => hnot ((small_septets children).mp hsmall)] at htext
    cases htext

theorem toU8_injective : Function.Injective ObjectIdentifierRoot.toU8 := by
  intro root root' h
  cases root with
  | ituT | iso | jointIsoItuT => cases root' with
    | ituT | iso | jointIsoItuT => first | rfl | exact absurd h (by decide)

/-- 数の列は、並べた byte 列から決まる。 -/
theorem children_of_septets (h : (children.flatMap fun c => septets c.toNat 0) =
    children'.flatMap fun c => septets c.toNat 0) : children = children' := by
  have hvalues : ∀ l : List Node,
      septetValues 0 (l.flatMap fun c => septets c.toNat 0) = l.map BitVec.toNat := by
    intro l
    rw [← septetValues_flatMap (l.map BitVec.toNat), List.flatMap_map]
  have hmap : children.map BitVec.toNat = children'.map BitVec.toNat := by
    rw [← hvalues, h, hvalues]
  exact List.map_injective_iff.mpr (fun _ _ => BitVec.eq_of_toNat_eq) hmap

/-- 同じ byte 列になる入力が等しいのは、first node が 40 かどうかで等しいとき、そのときに限る。 -/
theorem build_inj_iff (h : ObjectIdentifier.build root first children = some (.ok oid))
    (h' : ObjectIdentifier.build root' first' children' = some (.ok oid)) :
    (root' = root ∧ first' = first ∧ children' = children) ↔ (first' = 40 ↔ first = 40) := by
  obtain ⟨hle, hnodes⟩ := build_eq_ok h
  obtain ⟨hle', hnodes'⟩ := build_eq_ok h'
  rw [hnodes, List.cons.injEq] at hnodes'
  obtain ⟨hhead, htail⟩ := hnodes'
  constructor
  · rintro ⟨_, rfl, _⟩
    exact Iff.rfl
  · intro hiff
    have hnat := congrArg UInt8.toNat hhead
    rw [toNat_head root hle, toNat_head root' hle'] at hnat
    have hfirst : first'.toNat = 40 ↔ first.toNat = 40 := by
      have heq : ∀ x : UInt8, x.toNat = 40 ↔ x = 40 := fun x => UInt8.toNat_inj (b := 40)
      rw [heq, heq, hiff]
    rw [UInt8.le_iff_toNat_le] at hle hle'
    have h40 : (40 : UInt8).toNat = 40 := rfl
    refine ⟨toU8_injective (UInt8.toNat_inj.mp (by omega)), UInt8.toNat_inj.mp (by omega),
      (children_of_septets htail).symm⟩

/--
**object identifier が往復できるのは、first node が 39 までで、どの数も `2 ^ 128 - 128` より
小さいとき、そのときに限る。**

`build` の受け取るどの root と first node と children についても述べる。同じ object identifier に
なる入力が等しいのは、first node が 40 かどうかで等しいとき、そのときに限る。
-/
theorem oid_survives_iff (root : ObjectIdentifierRoot) (first : UInt8) (children : List Node)
    (oid : ObjectIdentifier)
    (h : ObjectIdentifier.build root first children = some (.ok oid)) :
    (oid.Survives root first children ↔
      first ≤ 39 ∧ ∀ c ∈ children, c.toNat < 2 ^ 128 - 128) ∧
    ∀ root' first' children',
      ObjectIdentifier.build root' first' children' = some (.ok oid) →
      ((root' = root ∧ first' = first ∧ children' = children) ↔ (first' = 40 ↔ first = 40)) := by
  refine ⟨⟨fits_of_survives h, fun hfit => survives_of_fits h hfit.1 hfit.2⟩, ?_⟩
  intro root' first' children' h'
  exact build_inj_iff h h'

theorem oid_survives_iff_threeChildren :
    ∃ oid, ObjectIdentifier.build .jointIsoItuT 39 [42, 2501, 65535] = some (.ok oid) ∧
      oid.nodes = [0x77, 0x2a, 0x93, 0x45, 0x83, 0xff, 0x7f] ∧
      oid.Survives .jointIsoItuT 39 [42, 2501, 65535] := by
  have hbuild : ObjectIdentifier.build .jointIsoItuT 39 [42, 2501, 65535] =
      some (.ok ⟨[0x77, 0x2a, 0x93, 0x45, 0x83, 0xff, 0x7f]⟩) := by decide +kernel
  have hfit : ∀ c ∈ ([42, 2501, 65535] : List Node), c.toNat < 2 ^ 128 - 128 := by
    simp
  exact ⟨_, hbuild, rfl,
    (oid_survives_iff .jointIsoItuT 39 [42, 2501, 65535] _ hbuild).1.mpr ⟨by decide, hfit⟩⟩

/--
first node が 40 なら、次の root の 0 と区別がつかない。最大の数を持つものは、文字列にできず
panic する。
-/
theorem forty_and_maximum_lost :
    ObjectIdentifier.build .ituT 40 [] = some (.ok ⟨[40]⟩) ∧
    ObjectIdentifier.build .iso 0 [] = some (.ok ⟨[40]⟩) ∧
    ¬ (⟨[40]⟩ : ObjectIdentifier).Survives .ituT 40 [] ∧
    ∃ oid, ObjectIdentifier.build .iso 3 [BitVec.allOnes 128] = some (.ok oid) ∧
      oid.toText = none ∧ ObjectIdentifier.fromBox oid.nodes = .error .illegalChildNodeValue := by
  refine ⟨by decide +kernel, by decide +kernel, fun h => ?_, ?_⟩
  · exact absurd h.firstNode (by decide)
  · have hbuild : ObjectIdentifier.build .iso 3 [BitVec.allOnes 128] =
        some (.ok ⟨43 :: 0x83 :: (List.replicate 17 0xff ++ [0x7f])⟩) := by decide +kernel
    refine ⟨_, hbuild, by decide +kernel, by decide +kernel⟩

end FabAccess
