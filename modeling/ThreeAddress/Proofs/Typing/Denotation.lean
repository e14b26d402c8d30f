import Mathlib.Data.List.Forall2
import ThreeAddress.Proofs.Pass.Inversion
import ThreeAddress.Ty.Table

/-!
# What texts denote

The types that texts denote against a table of structs, given by rules, and what it takes to define one
more struct. What the table answers depends only on the structs it finds, so an answer stays when more
structs can be found.

## Main definitions

* `TypeTable.Denotes`: the rules by which a text denotes a type.
* `TypeTable.Extends`: every struct of one table is found in another.

## Main statements

* `TypeTable.denoteChars_eq_ok_iff`: texts are read by the rules.
* `TypeTable.Denotes.mono`: an answer stays in a larger table.
* `TypeTable.define_eq_ok_iff`: when a struct can be defined.
-/

namespace ThreeAddress

namespace TypeTable

variable {table : TypeTable}

/-- The rules by which a name denotes a type. -/
inductive Names (table : TypeTable) : String → Ty → Prop where
  | int {name : String} {width : Width} (h : Width.ofName? name = some width) : Names table name (.int width)
  | result : Names table Ty.result.source .result
  | struct {name : String} {definition : StructTy} (hprimitive : Width.ofName? name = none)
      (hresult : name ≠ Ty.result.source) (hfound : table.find? name = some definition) :
      Names table name (.struct definition)

/-- The rules by which a text denotes a type. -/
inductive Denotes (table : TypeTable) : List Char → Ty → Prop where
  | name {text : List Char} {name : String} {ty : Ty}
      (hread : TypeText.read (Text.trim text) = .name name) (hname : table.Names name ty) :
      Denotes table text ty
  | ref {text target : List Char} {ty : Ty} (hread : TypeText.read (Text.trim text) = .ref target) :
      Denotes table target ty → Denotes table text (.ref ty)
  | array {text member : List Char} {ty : Ty} {extent : Extent}
      (hread : TypeText.read (Text.trim text) = .array member extent) :
      Denotes table member ty → Denotes table text (.array ty extent)

theorem named_eq_ok_iff {name : String} {ty : Ty} : table.named name = .ok ty ↔ table.Names name ty := by
  constructor
  · intro h
    unfold named at h
    split at h
    · next hwidth =>
      cases h
      exact .int hwidth
    · next hprimitive =>
      by_cases hresult : name = Ty.result.source
      · rw [if_pos hresult] at h
        cases h
        exact hresult ▸ .result
      · rw [if_neg hresult] at h
        split at h
        · next hfound =>
          cases h
          exact .struct hprimitive hresult hfound
        · cases h
  · intro h
    cases h with
    | int hwidth => simp [named, hwidth]
    | result => rfl
    | struct hprimitive hresult hfound => simp [named, hprimitive, hresult, hfound]

theorem denotes_of_denoteChars {text : List Char} {ty : Ty} (h : table.denoteChars text = .ok ty) :
    table.Denotes text ty := by
  rw [denoteChars] at h
  split at h
  · next target hread =>
    have hshorter := TypeText.length_of_read_ref hread
    have htrimmed := Text.length_trim_le text
    cases hinner : table.denoteChars target with
    | error diagnostic =>
      rw [hinner] at h
      cases h
    | ok found =>
      rw [hinner] at h
      cases h
      exact .ref hread (denotes_of_denoteChars hinner)
  · next member extent hread =>
    have hshorter := TypeText.length_of_read_array hread
    have htrimmed := Text.length_trim_le text
    cases hinner : table.denoteChars member with
    | error diagnostic =>
      rw [hinner] at h
      cases h
    | ok found =>
      rw [hinner] at h
      cases h
      exact .array hread (denotes_of_denoteChars hinner)
  · next name hread => exact .name hread (named_eq_ok_iff.mp h)
  · cases h
termination_by text.length
decreasing_by all_goals omega

/-- Texts are read by the rules. -/
theorem denoteChars_eq_ok_iff {text : List Char} {ty : Ty} :
    table.denoteChars text = .ok ty ↔ table.Denotes text ty := by
  refine ⟨denotes_of_denoteChars, fun h => ?_⟩
  induction h with
  | name hread hname =>
    rw [denoteChars]
    split <;> simp_all [named_eq_ok_iff]
  | ref hread _ ih =>
    rw [denoteChars]
    split <;> simp_all [Except.map]
  | array hread _ ih =>
    rw [denoteChars]
    split <;> simp_all [Except.map]

/-- Every struct of one table is found in another. -/
def Extends (table larger : TypeTable) : Prop :=
  ∀ name definition, table.find? name = some definition → larger.find? name = some definition

theorem Denotes.mono {larger : TypeTable} (hextends : table.Extends larger) {text : List Char} {ty : Ty}
    (h : table.Denotes text ty) : larger.Denotes text ty := by
  induction h with
  | name hread hname =>
    refine .name hread ?_
    cases hname with
    | int hwidth => exact .int hwidth
    | result => exact .result
    | struct hprimitive hresult hfound => exact .struct hprimitive hresult (hextends _ _ hfound)
  | ref hread _ ih => exact .ref hread ih
  | array hread _ ih => exact .array hread ih

theorem forall₂_denoteMembers {fields : List TypedName} {members : List Member}
    (h : table.denoteMembers fields = .ok members) :
    List.Forall₂ (fun field member => table.denote field.ty = .ok (Member.ty member)) fields members := by
  induction fields generalizing members with
  | nil =>
    cases h
    exact .nil
  | cons field rest ih =>
    simp only [denoteMembers, bind, Except.bind, pure, Except.pure] at h
    split at h
    · simp at h
    · next hfield =>
      split at h
      · simp at h
      · next hrest =>
        cases h
        exact .cons hfield (ih hrest)

/-- The type of every member is denoted by some text. -/
theorem exists_denote_of_mem {fields : List TypedName} {members : List Member}
    (h : table.denoteMembers fields = .ok members) {member : Member} (hmem : member ∈ members) :
    ∃ text, table.denote text = .ok member.ty := by
  have hall := forall₂_denoteMembers h
  obtain ⟨position, hlt, rfl⟩ := List.mem_iff_getElem.mp hmem
  exact ⟨_, hall.get (hall.length_eq ▸ hlt) hlt⟩

/-- A definition fails before it touches the table: at a name that is taken, and else at the first member
of an unknown type. -/
theorem define_eq (table : TypeTable) (definition : StructDef) :
    define definition table =
      if table.isReserved definition.name then
        ⟨.error (.repeatedType definition.name), table, []⟩
      else
        match table.denoteMembers definition.fields with
        | .error diagnostic => ⟨.error diagnostic, table, []⟩
        | .ok members => ⟨.ok ⟨definition.name, members⟩,
            ⟨table.structs ++ [⟨definition.name, members⟩]⟩, [.structDefined definition.name]⟩ := by
  show (Pass.require (!table.isReserved definition.name) _ >>= fun _ =>
    Pass.ofExcept (table.denoteMembers definition.fields) >>= _) table = _
  cases table.isReserved definition.name with
  | true => rfl
  | false => cases table.denoteMembers definition.fields <;> rfl

theorem state_define_of_error {definition : StructDef} {diagnostic : Diagnostic}
    (h : (define definition table).result = .error diagnostic) :
    (define definition table).state = table := by
  rw [define_eq] at h ⊢
  cases hreserved : table.isReserved definition.name with
  | true => rfl
  | false =>
    cases hmembers : table.denoteMembers definition.fields with
    | error => rfl
    | ok => simp [hreserved, hmembers] at h

/-- A struct can be defined if its name is free and the types of its members are known. It goes to the
end of the table. -/
theorem define_eq_ok_iff {definition : StructDef} {struct : StructTy} {extended : TypeTable} :
    (define definition).eval table = .ok (struct, extended) ↔
      ¬table.isReserved definition.name ∧ struct.name = definition.name ∧
        table.denoteMembers definition.fields = .ok struct.members ∧
        extended = ⟨table.structs ++ [struct]⟩ := by
  obtain ⟨name, members⟩ := struct
  rw [Pass.eval, define_eq]
  by_cases hreserved : table.isReserved definition.name
  · simp [hreserved, Except.map]
  · cases hmembers : table.denoteMembers definition.fields with
    | error diagnostic => simp [hreserved, Except.map]
    | ok found =>
      simp only [hreserved, Except.map]
      grind

end TypeTable

end ThreeAddress
