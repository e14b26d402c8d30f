import ThreeAddress.Proofs.Typing.Grounded

/-!
# Tables that definitions lead to

Structs are defined one after another, and a definition that fails leaves the table as it was. No name is ever
defined twice, so what a text denotes stays the same from then on. Every type that a text denotes can be
stored, down to its parts, and the structs among its parts are the very structs of the table.

## Main definitions

* `TypeTable.attempt`, `TypeTable.attemptAll`: definitions that may fail.
* `Ty.parts`: the types that occur in a type at any depth.
* `TypeTable.Coherent`: the tables whose structs are made of structs of the table.

## Main statements

* `TypeTable.extends_attempt`: a definition keeps what is found.
* `TypeTable.Coherent.attempt`: a definition keeps a table coherent.
* `denote_attemptAll`: what texts denote against tables that definitions lead to.
-/

namespace ThreeAddress

namespace TypeTable

variable {table : TypeTable}

/-- The table that a definition leaves behind, whether it succeeds or fails. -/
def attempt (table : TypeTable) (definition : StructDef) : TypeTable :=
  (define definition table).state

/-- The table that some definitions leave behind. -/
def attemptAll (table : TypeTable) (definitions : List StructDef) : TypeTable :=
  definitions.foldl attempt table

theorem attempt_cases (table : TypeTable) (definition : StructDef) :
    table.attempt definition = table ∨
      ∃ struct, (define definition).eval table = .ok (struct, table.attempt definition) := by
  cases h : (define definition table).result with
  | error diagnostic => exact Or.inl (state_define_of_error h)
  | ok struct => exact Or.inr ⟨struct, Pass.eval_eq_ok_iff.mpr ⟨h, rfl⟩⟩

/-- A new struct is found under its name, and whatever was found before still is. -/
theorem find?_define {definition : StructDef} {struct : StructTy} {extended : TypeTable}
    (h : (define definition).eval table = .ok (struct, extended)) :
    extended.find? struct.name = some struct ∧ table.Extends extended := by
  obtain ⟨hfree, hname, -, rfl⟩ := define_eq_ok_iff.mp h
  have hnew : table.find? struct.name = none := by
    rw [hname, ← Option.not_isSome_iff_eq_none]
    exact fun hfound => hfree (by simp [isReserved, hfound])
  constructor
  · rw [find?, List.find?_append, ← find?, hnew]
    simp
  · intro name other hfound
    rw [find?, List.find?_append, ← find?, hfound]
    rfl

theorem extends_attempt (table : TypeTable) (definition : StructDef) :
    table.Extends (table.attempt definition) := by
  rcases table.attempt_cases definition with heq | ⟨struct, hdefine⟩
  · rw [heq]
    exact fun _ _ => id
  · exact (find?_define hdefine).2

theorem extends_attemptAll (table : TypeTable) (definitions : List StructDef) :
    table.Extends (table.attemptAll definitions) := by
  induction definitions generalizing table with
  | nil => exact fun _ _ => id
  | cons definition rest ih =>
    exact fun name found h => ih _ name found (table.extends_attempt definition name found h)

end TypeTable

mutual

/-- The types that occur in a type at any depth: the type itself, and those in what it refers to or is
made of. -/
def Ty.parts : Ty → List Ty
  | .ref target => .ref target :: target.parts
  | .array member extent => .array member extent :: member.parts
  | .struct definition => .struct definition :: definition.parts
  | .int width => [.int width]
  | .result => [.result]
  | .function signature => [.function signature]
  | .label => [.label]
  | .dynamic => [.dynamic]
  | .unknown => [.unknown]

/-- The types that occur in a struct. -/
def StructTy.parts : StructTy → List Ty
  | ⟨_, members⟩ => Member.allParts members

/-- The types that occur in members. -/
def Member.allParts : List Member → List Ty
  | [] => []
  | ⟨_, ty⟩ :: rest => ty.parts ++ Member.allParts rest

end

theorem StructTy.mem_parts {definition : StructTy} {part : Ty} :
    part ∈ definition.parts ↔ ∃ member ∈ definition.members, part ∈ member.ty.parts := by
  have hmembers (members : List Member) :
      part ∈ Member.allParts members ↔ ∃ member ∈ members, part ∈ member.ty.parts := by
    induction members with
    | nil => simp [Member.allParts]
    | cons member rest ih =>
      obtain ⟨name, ty⟩ := member
      simp [Member.allParts, ih]
  obtain ⟨name, members⟩ := definition
  rw [StructTy.parts, hmembers]

/-- The parts of a type with a runtime representation have one themselves. -/
theorem Ty.Grounded.of_mem_parts {ty part : Ty} (h : ty.Grounded) (hmem : part ∈ ty.parts) :
    part.Grounded := by
  induction h with
  | int | result =>
    rw [List.mem_singleton.mp hmem]
    constructor
  | ref hty ih =>
    rcases List.mem_cons.mp hmem with rfl | hmem
    · exact .ref hty
    · exact ih hmem
  | array extent hty ih =>
    rcases List.mem_cons.mp hmem with rfl | hmem
    · exact .array extent hty
    · exact ih hmem
  | struct hmembers ih =>
    rcases List.mem_cons.mp hmem with rfl | hmem
    · exact .struct hmembers
    · obtain ⟨member, hmember, hpart⟩ := StructTy.mem_parts.mp hmem
      exact ih member hmember hpart

namespace TypeTable

/-- The structs that occur in a type are those that a table has under their names. -/
def Covers (table : TypeTable) (ty : Ty) : Prop :=
  ∀ definition, .struct definition ∈ ty.parts → table.find? definition.name = some definition

theorem Covers.mono {table larger : TypeTable} {ty : Ty} (h : table.Covers ty)
    (hextends : table.Extends larger) : larger.Covers ty :=
  fun definition hmem => hextends _ _ (h definition hmem)

/-- The structs of a table have a runtime representation and are made of structs of the table. -/
structure Coherent (table : TypeTable) : Prop where
  grounded : table.Grounded
  covers : ∀ definition ∈ table.structs, table.Covers (.struct definition)

namespace Coherent

variable {table : TypeTable}

theorem empty : Coherent {} := ⟨grounded_empty, by simp⟩

theorem covers_of_denotes (h : table.Coherent) {text : List Char} {ty : Ty}
    (hdenotes : table.Denotes text ty) : table.Covers ty := by
  induction hdenotes with
  | name _ hname =>
    cases hname with
    | int | result =>
      intro definition hmem
      cases List.mem_singleton.mp hmem
    | struct _ _ hfound => exact h.covers _ (List.mem_of_find?_eq_some hfound)
  | ref _ _ ih =>
    intro definition hmem
    exact ih definition ((List.mem_cons.mp hmem).resolve_left (by simp))
  | array _ _ ih =>
    intro definition hmem
    exact ih definition ((List.mem_cons.mp hmem).resolve_left (by simp))

theorem attempt (h : table.Coherent) (definition : StructDef) : (table.attempt definition).Coherent := by
  rcases table.attempt_cases definition with heq | ⟨struct, hdefine⟩
  · rwa [heq]
  · refine ⟨h.grounded.define hdefine, ?_⟩
    obtain ⟨hfound, hextends⟩ := find?_define hdefine
    obtain ⟨-, -, hmembers, hextended⟩ := define_eq_ok_iff.mp hdefine
    intro other hmem
    rw [hextended, List.mem_append, List.mem_singleton] at hmem
    rcases hmem with hmem | rfl
    · exact (h.covers other hmem).mono hextends
    · intro part hpart
      rcases List.mem_cons.mp hpart with heq | hpart
      · cases heq
        exact hfound
      · obtain ⟨member, hmember, hpart⟩ := StructTy.mem_parts.mp hpart
        obtain ⟨text, htext⟩ := exists_denote_of_mem hmembers hmember
        exact hextends _ _ (h.covers_of_denotes (denoteChars_eq_ok_iff.mp htext) part hpart)

theorem attemptAll (h : table.Coherent) (definitions : List StructDef) :
    (table.attemptAll definitions).Coherent := by
  induction definitions generalizing table with
  | nil => exact h
  | cons definition rest ih => exact ih (h.attempt definition)

end Coherent

end TypeTable

/-- Against any table that definitions leave behind, successful or not: a definition that fails leaves the
same table, a text that denotes a type goes on to denote it after further definitions, the type can be
stored and has a size, and so for its parts at any depth, among which every struct is the one that the
table has under its name. -/
theorem denote_attemptAll (definitions further : List StructDef) :
    (∀ definition diagnostic,
      (TypeTable.define definition (TypeTable.attemptAll {} definitions)).result = .error diagnostic →
      (TypeTable.define definition (TypeTable.attemptAll {} definitions)).state =
        TypeTable.attemptAll {} definitions) ∧
    ∀ text ty, (TypeTable.attemptAll {} definitions).denote text = .ok ty →
      (TypeTable.attemptAll {} (definitions ++ further)).denote text = .ok ty ∧
      ty.isStorable ∧ ty.layout?.isSome ∧ (∃ size, ty.size = .ok size) ∧
      ∀ part ∈ ty.parts, part.isStorable ∧
        ∀ struct, part = .struct struct →
          (TypeTable.attemptAll {} definitions).get struct.name = .ok struct := by
  have happend (more : List StructDef) : TypeTable.attemptAll {} (definitions ++ more) =
      (TypeTable.attemptAll {} definitions).attemptAll more := List.foldl_append
  have hcoherent := TypeTable.Coherent.empty.attemptAll definitions
  constructor
  · intro definition diagnostic hfails
    exact TypeTable.state_define_of_error hfails
  · intro text ty hdenote
    have hdenotes := TypeTable.denoteChars_eq_ok_iff.mp hdenote
    have hgrounded := hcoherent.grounded.denote hdenote
    refine ⟨?_, hgrounded.isStorable, hgrounded.isSome_layout?, hgrounded.exists_size, ?_⟩
    · rw [happend]
      exact TypeTable.denoteChars_eq_ok_iff.mpr
        (hdenotes.mono (TypeTable.extends_attemptAll _ further))
    · intro part hpart
      refine ⟨(hgrounded.of_mem_parts hpart).isStorable, ?_⟩
      rintro struct rfl
      rw [TypeTable.get, hcoherent.covers_of_denotes hdenotes struct hpart]

/-- Definitions of which the third, the fourth and the fifth fail: they have a name that is taken, a
primitive name, and a member of an unknown type. -/
def attempted : List StructDef := [
  ⟨"Point", [⟨"x", "i32"⟩, ⟨"y", "i32"⟩]⟩,
  ⟨"Line", [⟨"from", "Point"⟩, ⟨"to", "&Point"⟩]⟩,
  ⟨"Point", []⟩,
  ⟨"bool", []⟩,
  ⟨"Ring", [⟨"inner", "&Ring"⟩]⟩,
  ⟨"Shape", [⟨"lines", "[Line; 4]"⟩, ⟨"anchor", "Point"⟩]⟩]

theorem denote_attempted :
    (TypeTable.define ⟨"Line", []⟩ (TypeTable.attemptAll {} attempted)).state =
      TypeTable.attemptAll {} attempted ∧
    ∃ ty,
    (TypeTable.attemptAll {} attempted).denote " &[ Shape ; * ] " = .ok ty ∧
    (TypeTable.attemptAll {} attempted).structs.map StructTy.name = ["Point", "Line", "Shape"] ∧
    ty.parts.length = 15 ∧
    (TypeTable.attemptAll {} (attempted ++ [⟨"Ring", []⟩, ⟨"Shape", []⟩])).denote " &[ Shape ; * ] " =
      .ok ty ∧
    ∀ part ∈ ty.parts, part.isStorable := by
  have hrepeated : (TypeTable.define ⟨"Line", []⟩ (TypeTable.attemptAll {} attempted)).result =
      .error (.repeatedType "Line") := by
    rw [TypeTable.define_eq, if_pos (by decide +kernel)]
  refine ⟨(denote_attemptAll attempted []).1 _ _ hrepeated, ?_⟩
  have hany : ((TypeTable.attemptAll {} attempted).denote " &[ Shape ; * ] ").toOption.any
    fun ty => ty.parts.length = 15 := by decide +kernel
  cases hdenote : (TypeTable.attemptAll {} attempted).denote " &[ Shape ; * ] " with
  | error diagnostic =>
    rw [hdenote] at hany
    cases hany
  | ok ty =>
    rw [hdenote] at hany
    obtain ⟨hkept, -, -, -, hparts⟩ :=
      (denote_attemptAll attempted [⟨"Ring", []⟩, ⟨"Shape", []⟩]).2 _ ty hdenote
    exact ⟨ty, rfl, by decide +kernel, of_decide_eq_true hany, hkept, fun part hpart => (hparts part hpart).1⟩

end ThreeAddress
