import FabAccess.Infra.Lines
import FabAccess.Resources.Machine

/-!
# 公表された URN

`build_into` は id をそのまま URN の末尾に書き、`get_by_urn` は `:` で分けた四つ目の区間だけを id と
みなす。id に `:` があると、その前までが別の id になる。

* `getByUrn_urn` — 公表された URN は、id の初めの区間で引かれる
* `published_urn_iff` — 元の resource に戻るのは、id が空でなく `:` を含まないとき、そのときに限る
-/

namespace FabAccess

open Infra

variable {resources : ResourcesHandle} {m : Resource} {id : String}

/-- 公表される URN。 -/
theorem urn_of_buildInto {session : SessionHandle} {roles : Roles} {fuel : Nat} {users : Users}
    {inner : Inner} {reply : MachineReply}
    (h : Machine.buildInto ⟨session, m⟩ roles fuel users inner = some reply) :
    reply.urn = "urn:fabaccess:resource:" ++ m.id := by
  unfold Machine.buildInto at h
  split at h
  · cases h
    rfl
  · cases h

/-- 初めの `:` の前。 -/
def firstPart (id : String) : String := String.ofList (id.toList.takeWhile (· ≠ ':'))

theorem splitOn_urn (id : String) :
    ("urn:fabaccess:resource:" ++ id).toList.splitOn ':' =
      "urn".toList :: "fabaccess".toList :: "resource".toList :: id.toList.splitOn ':' := by
  have hurn : "urn:fabaccess:resource:".toList =
      "urn".toList ++ ':' :: ("fabaccess".toList ++ ':' :: ("resource".toList ++ [':'])) := by
    decide
  rw [String.toList_append, hurn]
  simp only [List.append_assoc, List.cons_append, List.nil_append]
  rw [List.splitOn_append_cons_self, List.splitOn_append_cons_self, List.splitOn_append_cons_self,
    List.splitOn_eq_singleton (by decide), List.splitOn_eq_singleton (by decide),
    List.splitOn_eq_singleton (by decide)]
  rfl

theorem splitTerminator_urn (hid : id ≠ "") :
    ∃ parts, splitTerminator ("urn:fabaccess:resource:" ++ id) ':' =
      "urn" :: "fabaccess" :: "resource" :: firstPart id :: parts := by
  obtain ⟨parts, hparts, hnil⟩ := splitOn_eq_cons ':' id.toList
  have hmap : ∀ l, ("urn".toList :: "fabaccess".toList :: "resource".toList ::
      id.toList.takeWhile (· ≠ ':') :: l).map String.ofList =
      "urn" :: "fabaccess" :: "resource" :: firstPart id :: l.map String.ofList := fun l => by
    simp only [List.map_cons, String.ofList_toList, firstPart]
  unfold splitTerminator
  rw [splitOn_urn, hparts]
  cases parts with
  | nil =>
    have hself : id.toList.takeWhile (· ≠ ':') = id.toList := takeWhile_of_notMem (hnil.mp rfl)
    have hlast : ¬ ("urn".toList :: "fabaccess".toList :: "resource".toList ::
        [id.toList.takeWhile (· ≠ ':')]).getLast? = some [] := by
      rw [hself]
      simpa using hid
    simp only [if_neg hlast]
    exact ⟨_, hmap []⟩
  | cons part parts =>
    -- 最後の区間が落ちても、初めの区間は残る
    dsimp only
    split
    · exact ⟨_, hmap (part :: parts).dropLast⟩
    · exact ⟨_, hmap (part :: parts)⟩

/-- **公表された URN では、id の初めの `:` の前までが引かれる。** -/
theorem getByUrn_urn (resources : ResourcesHandle) (id : String) :
    resources.getByUrn ("urn:fabaccess:resource:" ++ id) =
      if id = "" then none else resources.getById (firstPart id) := by
  unfold ResourcesHandle.getByUrn
  by_cases hid : id = ""
  · have hempty : splitTerminator ("urn:fabaccess:resource:" ++ "") ':' =
        ["urn", "fabaccess", "resource"] := by decide
    rw [if_pos hid, hid, hempty]
    rfl
  · obtain ⟨parts, hparts⟩ := splitTerminator_urn hid
    rw [if_neg hid, hparts]
    rfl

theorem firstPart_eq_self (h : ':' ∉ id.toList) : firstPart id = id := by
  rw [firstPart, takeWhile_of_notMem h, String.ofList_toList]

theorem firstPart_ne (h : ':' ∈ id.toList) : firstPart id ≠ id := by
  intro heq
  rw [← heq, firstPart, String.toList_ofList] at h
  simpa using List.mem_takeWhile_imp h

/-- 公表された URN で引くと、その resource に戻る。 -/
theorem getByUrn_self_iff (hm : m ∈ resources.resources) :
    resources.getByUrn ("urn:fabaccess:resource:" ++ m.id) = some m ↔
      m.id ≠ "" ∧ ':' ∉ m.id.toList := by
  rw [getByUrn_urn]
  constructor
  · intro h
    split at h
    · cases h
    · next hid =>
      refine ⟨hid, fun hmem => ?_⟩
      have hsame : firstPart m.id = m.id := (ResourcesHandle.id_of_getById h).symm
      exact firstPart_ne hmem hsame
  · rintro ⟨hid, hmem⟩
    rw [if_neg hid, firstPart_eq_self hmem]
    exact ResourcesHandle.getById_id hm

/-- 別の resource が引かれるのは、`:` の前がその id であるときに限る。 -/
theorem getByUrn_only_self_iff (hm : m ∈ resources.resources) :
    (∀ m', resources.getByUrn ("urn:fabaccess:resource:" ++ m.id) = some m' → m' = m) ↔
      ¬ (':' ∈ m.id.toList ∧ ∃ m' ∈ resources.resources, m'.id = firstPart m.id) := by
  constructor
  · rintro hself ⟨hmem, m', hm', hid'⟩
    have hne : m.id ≠ "" := by
      intro h
      rw [h] at hmem
      cases hmem
    have hfound : resources.getByUrn ("urn:fabaccess:resource:" ++ m.id) = some m' := by
      rw [getByUrn_urn, if_neg hne, ← hid']
      exact ResourcesHandle.getById_id hm'
    rw [hself m' hfound] at hid'
    exact firstPart_ne hmem hid'.symm
  · intro hnone m' h
    have hm' := ResourcesHandle.mem_of_getByUrn h
    have hid' : m'.id = firstPart m.id := by
      rw [getByUrn_urn] at h
      by_cases hid : m.id = ""
      · rw [if_pos hid] at h
        cases h
      · rw [if_neg hid] at h
        exact ResourcesHandle.id_of_getById h
    have hmem : ':' ∉ m.id.toList := fun hmem => hnone ⟨hmem, m', hm', hid'⟩
    rw [firstPart_eq_self hmem] at hid'
    exact ResourcesHandle.eq_of_id_eq hm' hm hid'

/--
**公表された URN で引くと元の resource に戻るのは、id が空でなく `:` を含まないとき、そのときに限る。**
別の resource が引かれるのは、id が `:` を含み、その前までを id とする resource があるときである。
-/
theorem published_urn_iff (resources : ResourcesHandle) (m : Resource) (session : SessionHandle)
    (roles : Roles) (fuel : Nat) (users : Users) (inner : Inner) (reply : MachineReply)
    (hm : m ∈ resources.resources)
    (h : Machine.buildInto ⟨session, m⟩ roles fuel users inner = some reply) :
    resources.getById m.id = some m ∧
    (resources.getByUrn reply.urn = some m ↔ m.id ≠ "" ∧ ':' ∉ m.id.toList) ∧
    ((∀ m', resources.getByUrn reply.urn = some m' → m' = m) ↔
      ¬ (':' ∈ m.id.toList ∧ ∃ m' ∈ resources.resources, m'.id = firstPart m.id)) := by
  rw [urn_of_buildInto h]
  exact ⟨ResourcesHandle.getById_id hm, getByUrn_self_iff hm, getByUrn_only_self_iff hm⟩

/-- `printer` と、そこに `:` を継いだ id。 -/
def printer (id : String) : Resource where
  id := id
  desc := {
    name := "Printer", description := none, wiki := none, category := none
    privs := ⟨⟨"lab.printer.disclose"⟩, ⟨"lab.printer.read"⟩, ⟨"lab.printer.write"⟩,
      ⟨"lab.printer.manage"⟩⟩ }

def printers : ResourcesHandle where
  resources := [printer "printer", printer "printer:xl"]
  nodup := by decide

/-- 一人も居ない database では、権限はどれも確かめられ、どれも無い。 -/
def printerReply (id : String) : MachineReply where
  id := id
  name := "Printer"
  description := none
  wiki := none
  category := none
  urn := "urn:fabaccess:resource:" ++ id
  state := none
  use := none
  inuse := none
  manage := none
  info := some ⟨⟨⟨"alice"⟩⟩, printer id⟩

theorem published_urn_printer :
    Machine.buildInto ⟨⟨⟨"alice"⟩⟩, printer "printer"⟩ ⟨∅⟩ 1 ⟨∅⟩ ⟨.free none, .free none, []⟩ =
      some (printerReply "printer") ∧
    printers.getByUrn (printerReply "printer").urn = some (printer "printer") := by
  have hreply : Machine.buildInto ⟨⟨⟨"alice"⟩⟩, printer "printer"⟩ ⟨∅⟩ 1 ⟨∅⟩
      ⟨.free none, .free none, []⟩ = some (printerReply "printer") := by decide
  exact ⟨hreply, (published_urn_iff printers (printer "printer") _ _ _ _ _ _ (by decide)
    hreply).2.1.mpr ⟨by decide, by decide⟩⟩

/-- `printer:xl` の URN では、別の `printer` が引かれる。 -/
theorem printer_xl_resolves_to_printer :
    Machine.buildInto ⟨⟨⟨"alice"⟩⟩, printer "printer:xl"⟩ ⟨∅⟩ 1 ⟨∅⟩
        ⟨.free none, .free none, []⟩ = some (printerReply "printer:xl") ∧
      printer "printer:xl" ∈ printers.resources ∧
      printers.getById "printer:xl" = some (printer "printer:xl") ∧
      printers.getByUrn (printerReply "printer:xl").urn = some (printer "printer") ∧
      printer "printer" ≠ printer "printer:xl" := by decide

end FabAccess
