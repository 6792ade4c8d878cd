import FabAccess.Utils.Properties.OidText

/-!
# Object identifier の byte 列の検査

`from_box` は数の大きさしか見ない。先頭の 0x80 も、終わっていない最後の数も通す。

* `fromBox_iff` / `image_iff` — 通る byte 列と、`build` の作る byte 列
* `fromStr_text` — 通った byte 列の文字列を読み戻すと、余分な byte が除かれる
* `oid_bytes_iff` — 検査が正しいのは、余分な byte も、最大に近い数も無いとき、そのときに限る
-/

namespace FabAccess

open Infra

variable {node : UInt8} {rest rest' nodes nodes' : List UInt8}

/-! ## 検査と `build` -/

/-- どの数も `u128` に収まり、余分な byte を持たない。 -/
def Encoded (rest : List UInt8) : Prop :=
  ∀ number ∈ numbers rest, Minimal number ∧ septetValue number < 2 ^ 128

/-- 120 より小さい初めの byte は、root と first node から作られる。 -/
theorem tryFrom_div (h : node < 120) :
    ∃ root, ObjectIdentifierRoot.tryFrom (node / 40) = .ok root ∧ root.toU8 = node / 40 := by
  have hdiv : (node / 40).toNat = node.toNat / 40 := UInt8.toNat_div node 40
  have hlt : node.toNat < 120 := UInt8.lt_iff_toNat_lt.mp h
  have hcases : node / 40 = 0 ∨ node / 40 = 1 ∨ node / 40 = 2 := by
    simp only [← UInt8.toNat_inj, hdiv]
    show node.toNat / 40 = 0 ∨ node.toNat / 40 = 1 ∨ node.toNat / 40 = 2
    omega
  rcases hcases with hnode | hnode | hnode <;> rw [hnode]
  · exact ⟨.ituT, rfl, rfl⟩
  · exact ⟨.iso, rfl, rfl⟩
  · exact ⟨.jointIsoItuT, rfl, rfl⟩

theorem tryFrom_div_error (h : ¬ node < 120) :
    ObjectIdentifierRoot.tryFrom (node / 40) = .error .illegalRootNode := by
  have hdiv : (node / 40).toNat = node.toNat / 40 := UInt8.toNat_div node 40
  have hle : 120 ≤ node.toNat := UInt8.le_iff_toNat_le.mp (UInt8.not_lt.mp h)
  have hne : ∀ x : UInt8, x.toNat < 3 → node / 40 ≠ x := by
    rintro _ hx rfl
    omega
  rw [ObjectIdentifierRoot.tryFrom, if_neg (hne 0 (by decide)), if_neg (hne 1 (by decide)),
    if_neg (hne 2 (by decide))]

theorem fromBox_ok (hnode : node < 120) (hsmall : Small rest) :
    ObjectIdentifier.fromBox (node :: rest) = .ok ⟨node :: rest⟩ := by
  obtain ⟨root, hroot, _⟩ := tryFrom_div hnode
  obtain ⟨s, hs, _⟩ := foldlM_small (fun _ _ => ()) joins_or hsmall ()
  rw [ObjectIdentifier.fromBox, hroot, hs]
  rfl

/-- **検査を通るのは、初めの byte が 120 より小さく、どの数も小さいとき、そのときに限る。** -/
theorem fromBox_iff {oid : ObjectIdentifier} :
    ObjectIdentifier.fromBox (node :: rest) = .ok oid ↔
      oid = ⟨node :: rest⟩ ∧ node < 120 ∧ Small rest := by
  constructor
  · intro h
    by_cases hnode : node < 120
    · by_cases hsmall : Small rest
      · rw [fromBox_ok hnode hsmall] at h
        cases h
        exact ⟨rfl, hnode, hsmall⟩
      · obtain ⟨root, hroot, _⟩ := tryFrom_div hnode
        rw [ObjectIdentifier.fromBox, hroot, foldlM_over joins_or hsmall] at h
        cases h
    · rw [ObjectIdentifier.fromBox, tryFrom_div_error hnode] at h
      cases h
  · rintro ⟨rfl, hnode, hsmall⟩
    exact fromBox_ok hnode hsmall

/-- `build` の作る byte 列である。first node は 39 までとする。 -/
def Image (nodes : List UInt8) : Prop :=
  ∃ root first children, first ≤ 39 ∧
    ObjectIdentifier.build root first children = some (.ok ⟨nodes⟩)

theorem encoded_septets (children : List Node) :
    Encoded (children.flatMap fun c => septets c.toNat 0) := by
  intro number hnumber
  rw [numbers_septets] at hnumber
  obtain ⟨c, _, rfl⟩ := List.mem_map.mp hnumber
  obtain ⟨hminimal, hvalue⟩ := septets_minimal c.toNat
  exact ⟨hminimal, by rw [hvalue]; exact c.isLt⟩

/-- 余分な byte が無ければ、byte 列は書き出される数から作り直される。 -/
theorem septets_printed (h : Encoded rest) :
    ((printed rest).flatMap fun c => septets c.toNat 0) = rest := by
  have hwritten : ∀ number ∈ numbers rest, writtenNumber number =
      some (BitVec.ofNat 128 (septetValue number)) :=
    fun number hn => written_minimal (h number hn).1
  have hback : ∀ number ∈ numbers rest,
      septets (BitVec.ofNat 128 (septetValue number)).toNat 0 = number := by
    intro number hn
    obtain ⟨hminimal, hlt⟩ := h number hn
    rw [BitVec.toNat_ofNat, Nat.mod_eq_of_lt hlt]
    exact (minimal_iff.mp hminimal).symm
  calc ((printed rest).flatMap fun c => septets c.toNat 0)
      = ((numbers rest).map fun n => BitVec.ofNat 128 (septetValue n)).flatMap
          fun c : Node => septets c.toNat 0 := by
        rw [printed, List.filterMap_congr hwritten, List.filterMap_eq_map']
    _ = (numbers rest).flatMap fun n => n := by
        rw [List.flatMap_map]
        exact List.flatMap_congr hback
    _ = rest := by
      rw [List.flatMap_id']
      exact flatten_splitAfter rest

/-- 初めの byte は、作られた root と first node に戻る。 -/
theorem head_parts {root : ObjectIdentifierRoot} (hroot : root.toU8 = node / 40) :
    node % 40 ≤ 39 ∧ root.toU8 * 40 + node % 40 = node := by
  have hmod : (node % 40).toNat = node.toNat % 40 := UInt8.toNat_mod node 40
  have hfirst : node % 40 ≤ 39 := by
    rw [UInt8.le_iff_toNat_le, hmod]
    exact Nat.le_of_lt_succ (Nat.mod_lt _ (by decide))
  refine ⟨hfirst, UInt8.toNat_inj.mp ?_⟩
  rw [toNat_head root (UInt8.le_trans hfirst (by decide)), hroot, UInt8.toNat_div, hmod]
  exact Nat.div_add_mod' node.toNat 40

/-- **`build` の作る byte 列は、初めの byte が 120 より小さく、余分な byte を持たない。** -/
theorem image_iff : Image (node :: rest) ↔ node < 120 ∧ Encoded rest := by
  constructor
  · rintro ⟨root, first, children, hfirst, hbuild⟩
    obtain ⟨_, hnodes⟩ := build_eq_ok hbuild
    obtain ⟨rfl, rfl⟩ := List.cons.inj hnodes
    refine ⟨?_, encoded_septets children⟩
    have hle : first.toNat ≤ 39 := UInt8.le_iff_toNat_le.mp hfirst
    have hroot := toU8_le root
    rw [UInt8.lt_iff_toNat_lt, toNat_head root (UInt8.le_trans hfirst (by decide))]
    show _ < 120
    omega
  · rintro ⟨hnode, hencoded⟩
    obtain ⟨root, _, hroot⟩ := tryFrom_div hnode
    obtain ⟨hfirst, hhead⟩ := head_parts hroot
    refine ⟨root, node % 40, printed rest, hfirst, ?_⟩
    rw [build_eq, if_neg (UInt8.not_lt.mpr (UInt8.le_trans hfirst (by decide))), hhead,
      septets_printed hencoded]

/-! ## 文字列との往復 -/

/-- 通った byte 列の文字列。 -/
theorem toText_eq (hnode : node < 120) (hsmall : Small rest) :
    ∃ root : ObjectIdentifierRoot, root.toU8 = node / 40 ∧
      ObjectIdentifier.toText ⟨node :: rest⟩ = some (dotted root (node % 40) (printed rest)) := by
  obtain ⟨root, _, hroot⟩ := tryFrom_div hnode
  refine ⟨root, hroot, ?_⟩
  obtain ⟨s, hs, hprinted⟩ := foldlM_small (fun out n => out ++ "." ++ toString n)
    joins_add hsmall (toString (node / 40).toNat ++ "." ++ toString (node % 40).toNat)
  exact toText_of_read hroot hs hprinted

/-- 読み戻すと、余分な byte の無い byte 列になる。 -/
theorem fromStr_text (hnode : node < 120) (hsmall : Small rest) :
    ∃ text, ObjectIdentifier.toText ⟨node :: rest⟩ = some text ∧
      ObjectIdentifier.fromStr text =
        some (.ok ⟨node :: (printed rest).flatMap fun c => septets c.toNat 0⟩) := by
  obtain ⟨root, hroot, htext⟩ := toText_eq hnode hsmall
  obtain ⟨hfirst, hhead⟩ := head_parts hroot
  refine ⟨_, htext, ?_⟩
  rw [fromStr_dotted hfirst, build_eq,
    if_neg (UInt8.not_lt.mpr (UInt8.le_trans hfirst (by decide))), hhead]

/-- 同じ文字列になるのは、初めの byte と書き出される数が同じとき、そのときに限る。 -/
theorem toText_inj_iff {node' : UInt8} (hnode : node < 120) (hsmall : Small rest)
    (hnode' : node' < 120) (hsmall' : Small rest') :
    ObjectIdentifier.toText ⟨node :: rest⟩ = ObjectIdentifier.toText ⟨node' :: rest'⟩ ↔
      node = node' ∧ printed rest = printed rest' := by
  constructor
  · intro h
    obtain ⟨text, htext, hparse⟩ := fromStr_text hnode hsmall
    obtain ⟨text', htext', hparse'⟩ := fromStr_text hnode' hsmall'
    rw [htext, htext', Option.some.injEq] at h
    rw [h, hparse'] at hparse
    simp only [Option.some.injEq, Except.ok.injEq, ObjectIdentifier.mk.injEq,
      List.cons.injEq] at hparse
    exact ⟨hparse.1.symm, (children_of_septets hparse.2).symm⟩
  · rintro ⟨rfl, hprinted⟩
    obtain ⟨root, hroot, htext⟩ := toText_eq hnode hsmall
    obtain ⟨root', hroot', htext'⟩ := toText_eq hnode hsmall'
    have hroots : root = root' := toU8_injective (hroot.trans hroot'.symm)
    rw [htext, htext', hprinted, hroots]

/-! ## 検査の正しさ -/

/-- 検査を通る。 -/
def Accepted (nodes : List UInt8) : Prop := ∃ oid, ObjectIdentifier.fromBox nodes = .ok oid

/-- 通る byte 列は `build` の作るものだけで、文字列との往復で変わらない。 -/
structure Validated (nodes : List UInt8) : Prop where
  accepted_iff : Accepted nodes ↔ Image nodes
  roundTrip : ∀ oid, ObjectIdentifier.fromBox nodes = .ok oid →
    ∃ text, oid.toText = some text ∧
      (ObjectIdentifier.fromStr text).map (Except.map ObjectIdentifier.nodes) = some (.ok nodes)

/-- どの数も小さいが、0x80 で始まる数か、終わっていない最後の数がある。 -/
def Padded : List UInt8 → Prop
  | [] => False
  | node :: rest => node < 120 ∧ Small rest ∧ ∃ number ∈ numbers rest, ¬ Minimal number

/-- 余分な byte は無く、どの数も `u128` に収まるが、`2 ^ 128 - 128` 以上の数がある。 -/
def Refused : List UInt8 → Prop
  | [] => False
  | node :: rest =>
    node < 120 ∧ Encoded rest ∧ ∃ number ∈ numbers rest, 2 ^ 128 - 128 ≤ septetValue number

/-- 先頭の 0x80 と、終わっていない数と、二つ以上の byte の 0 を除いた byte 列。 -/
def trimmed : List UInt8 → List UInt8
  | [] => []
  | node :: rest => node :: (printed rest).flatMap fun c => septets c.toNat 0

theorem not_accepted_nil : ¬ Accepted [] := by
  rintro ⟨_, h⟩
  cases h

theorem accepted_cons : Accepted (node :: rest) ↔ node < 120 ∧ Small rest := by
  constructor
  · rintro ⟨oid, h⟩
    exact (fromBox_iff.mp h).2
  · rintro ⟨hnode, hsmall⟩
    exact ⟨_, fromBox_ok hnode hsmall⟩

theorem not_image_nil : ¬ Image [] := by
  rintro ⟨root, first, children, _, hbuild⟩
  obtain ⟨_, hnodes⟩ := build_eq_ok hbuild
  cases hnodes

theorem encoded_of_not_padded (hnode : node < 120) (hsmall : Small rest)
    (h : ¬ Padded (node :: rest)) : Encoded rest := by
  intro number hnumber
  have hlt := hsmall number hnumber
  refine ⟨?_, by omega⟩
  by_contra hminimal
  exact h ⟨hnode, hsmall, number, hnumber, hminimal⟩

theorem small_of_not_refused (hnode : node < 120) (hencoded : Encoded rest)
    (h : ¬ Refused (node :: rest)) : Small rest := by
  intro number hnumber
  by_contra hle
  exact h ⟨hnode, hencoded, number, hnumber, Nat.not_lt.mp hle⟩

/-- 余分な byte も、最大に近い数も無ければ、検査は正しい。 -/
theorem validated_of_clean (hpadded : ¬ Padded (node :: rest))
    (hrefused : ¬ Refused (node :: rest)) : Validated (node :: rest) := by
  refine ⟨?_, ?_⟩
  · rw [accepted_cons, image_iff]
    constructor
    · rintro ⟨hnode, hsmall⟩
      exact ⟨hnode, encoded_of_not_padded hnode hsmall hpadded⟩
    · rintro ⟨hnode, hencoded⟩
      exact ⟨hnode, small_of_not_refused hnode hencoded hrefused⟩
  · intro oid h
    obtain ⟨rfl, hnode, hsmall⟩ := fromBox_iff.mp h
    obtain ⟨text, htext, hparse⟩ := fromStr_text hnode hsmall
    refine ⟨text, htext, ?_⟩
    rw [hparse, septets_printed (encoded_of_not_padded hnode hsmall hpadded)]
    rfl

theorem Validated.clean (h : Validated (node :: rest)) :
    ¬ Padded (node :: rest) ∧ ¬ Refused (node :: rest) := by
  have hiff := h.accepted_iff
  rw [accepted_cons, image_iff] at hiff
  constructor
  · rintro ⟨hnode, hsmall, number, hnumber, hminimal⟩
    exact hminimal ((hiff.mp ⟨hnode, hsmall⟩).2 number hnumber).1
  · rintro ⟨hnode, hencoded, number, hnumber, hle⟩
    exact absurd ((hiff.mpr ⟨hnode, hencoded⟩).2 number hnumber) (Nat.not_lt.mpr hle)

theorem validated_iff (nodes : List UInt8) :
    Validated nodes ↔ ¬ Padded nodes ∧ ¬ Refused nodes := by
  cases nodes with
  | nil =>
    refine ⟨fun _ => ⟨id, id⟩, fun _ => ⟨?_, ?_⟩⟩
    · exact iff_of_false not_accepted_nil not_image_nil
    · intro oid h
      exact absurd ⟨oid, h⟩ not_accepted_nil
  | cons node rest => exact ⟨Validated.clean, fun h => validated_of_clean h.1 h.2⟩

/-- 通った byte 列が同じ文字列になるのは、余分な byte を除くと同じになるとき、そのときに限る。 -/
theorem same_text_iff (h : Accepted nodes) (h' : Accepted nodes') :
    ObjectIdentifier.toText ⟨nodes⟩ = ObjectIdentifier.toText ⟨nodes'⟩ ↔
      trimmed nodes = trimmed nodes' := by
  cases nodes with
  | nil => exact absurd h not_accepted_nil
  | cons node rest =>
    cases nodes' with
    | nil => exact absurd h' not_accepted_nil
    | cons node' rest' =>
      obtain ⟨hnode, hsmall⟩ := accepted_cons.mp h
      obtain ⟨hnode', hsmall'⟩ := accepted_cons.mp h'
      rw [toText_inj_iff hnode hsmall hnode' hsmall', trimmed, trimmed, List.cons.injEq]
      refine and_congr_right fun _ => ⟨fun hprinted => by rw [hprinted], children_of_septets⟩

/--
**検査が正しいのは、余分な byte も、最大に近い数も無いとき、そのときに限る。**

どの byte 列についても述べる。通った二つの byte 列が別の文字列になるのは、同じ byte 列でなければ、
余分な byte を除いても異なるとき、そのときに限る。
-/
theorem oid_bytes_iff (nodes : List UInt8) :
    (Validated nodes ↔ ¬ Padded nodes ∧ ¬ Refused nodes) ∧
    ∀ nodes', Accepted nodes ∧ Accepted nodes' →
      ((ObjectIdentifier.toText ⟨nodes⟩ = ObjectIdentifier.toText ⟨nodes'⟩ → nodes = nodes') ↔
        nodes = nodes' ∨ trimmed nodes ≠ trimmed nodes') := by
  refine ⟨validated_iff nodes, ?_⟩
  rintro nodes' ⟨h, h'⟩
  rw [same_text_iff h h', imp_iff_or_not, ne_eq]

/-- 検査は `[0, 0x81]` を通すが、書き出した `0.0` を読み戻すと `[0]` になる。最大の数は通さない。 -/
theorem padded_bytes_accepted :
    ObjectIdentifier.fromBox [0, 0x81] = .ok ⟨[0, 0x81]⟩ ∧
    ObjectIdentifier.toText ⟨[0, 0x81]⟩ = some "0.0" ∧
    ObjectIdentifier.toText ⟨[0, 0x80, 0]⟩ = some "0.0" ∧
    ¬ Validated [0, 0x81] ∧ ¬ Validated (43 :: 0x83 :: (List.replicate 17 0xff ++ [0x7f])) := by
  have hbox : ObjectIdentifier.fromBox [0, 0x81] = .ok ⟨[0, 0x81]⟩ := by decide +kernel
  have htext : ObjectIdentifier.toText ⟨[0, 0x81]⟩ = some "0.0" := by decide +kernel
  refine ⟨hbox, htext, by decide +kernel, fun h => ?_, fun h => ?_⟩
  · obtain ⟨text, htext', hparse⟩ := h.roundTrip _ hbox
    rw [htext] at htext'
    cases htext'
    exact absurd hparse (by decide +kernel)
  · have hbuild : ObjectIdentifier.build .iso 3 [BitVec.allOnes 128] =
        some (.ok ⟨43 :: 0x83 :: (List.replicate 17 0xff ++ [0x7f])⟩) := by decide +kernel
    obtain ⟨oid, hoid⟩ := h.accepted_iff.mpr ⟨_, _, _, by decide, hbuild⟩
    have herror : ObjectIdentifier.fromBox (43 :: 0x83 :: (List.replicate 17 0xff ++ [0x7f])) =
        .error .illegalChildNodeValue := by decide +kernel
    rw [herror] at hoid
    cases hoid

end FabAccess
