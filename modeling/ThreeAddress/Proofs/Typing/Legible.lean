import ThreeAddress.Proofs.Tally.Record
import ThreeAddress.Proofs.Typing.Supply

/-!
# Types in the text of a program

Some types stand for what is not known, and the text of a program is not meant to spell them. An
instruction that mentions such a type is refused, and the types that a module writes down hold none.
There are two gaps. A function of the prelude is declared at whatever signature it has, and the
address of an element is computed over its array, whose spelling shows the members of the array. So an
unknown type in the text comes from the prelude: from the signature of a declared function, or from
two arrays, one in the other, in the type of a name.

## Main definitions

* `Program.spelled`: the types that the text of a program spells.
* `Setting.traced`: the setting in which arrays of arrays of unknown types have a known origin.

## Main statements

* `exists_origin_of_mem_spelled`: where the unknown types in the text of a program come from.
* `exists_dynamic_spelled_deferring`: an unknown type is spelled where a function is declared.
-/

namespace ThreeAddress

theorem Ty.Grounded.isObscure {ty : Ty} (h : ty.Grounded) : ty.isObscure = false := by
  cases h with
  | array extent h =>
    cases extent with
    | sized => simp [Ty.isObscure, h.isConcrete]
    | unsized => rfl
  | int | result | ref | struct => rfl

-- ════════════════════════
-- Spelled types
-- ════════════════════════

/-- The type that is spelled for memory of a type: that of the members, if it is a sized array. -/
def Ty.inMemory : Ty → Ty
  | .array member (.sized _) => member
  | ty => ty

/-- The types that are spelled in a signature. -/
def Signature.spelled (signature : Signature) : List Ty :=
  signature.returns.toList ++ signature.parameters

/-- The types that the text of an instruction spells. -/
def Instr.spelled : Instr → List Ty
  | elementAddress _ base _ indices _ => base.inMemory :: indices.map Value.ty
  | branchIf _ _ _ => [.bool]
  | instruction => instruction.mentions

/-- The types that the text of a declaration spells. -/
def Declaration.spelled : Declaration → List Ty
  | structType _ members => members
  | textConstant _ _ => [.i8]
  | arrayConstant _ member _ => [member]
  | external _ signature => signature.spelled

/-- The types that the text of a function spells. -/
def FunctionCode.spelled (function : FunctionCode) : List Ty :=
  function.signature.spelled ++ function.instructions.flatMap Instr.spelled

/-- The types that the text of a program spells. -/
def Program.spelled (program : Program) : List Ty :=
  program.declarations.flatMap Declaration.spelled ++
    program.functions.flatMap FunctionCode.spelled ++
    program.externals.flatMap fun (symbol, signature) => (Declaration.external symbol signature).spelled

theorem Signature.Grounded.spelled {signature : Signature} (h : signature.Grounded) :
    ∀ ty ∈ signature.spelled, ty.Grounded := by
  intro ty hmem
  rcases List.mem_append.mp hmem with hmem | hmem
  · exact h.returns ty (Option.mem_toList.mp hmem)
  · exact h.parameters ty hmem

/-- An instruction that is not refused spells an unknown type only as the member of an array. -/
theorem Instr.exists_base_of_mem_spelled {instruction : Instr} {ty : Ty}
    (h : instruction.placeholder? = none) (hmem : ty ∈ instruction.spelled)
    (hunknown : ty.isConcrete = false) :
    ∃ target length address indices inbounds, instruction =
      .elementAddress target (.array ty (.sized length)) address indices inbounds := by
  have hmentions : ∀ ty ∈ instruction.mentions, ty.isConcrete := by
    simpa [placeholder?] using h
  have hnot : ty ∉ instruction.mentions := fun hmem => by
    simp [hmentions ty hmem] at hunknown
  cases instruction with
  | elementAddress target base address indices inbounds =>
    rcases List.mem_cons.mp hmem with rfl | hmem
    · cases base with
      | array member extent =>
        cases extent with
        | sized length => exact ⟨target, length, address, indices, inbounds, rfl⟩
        | unsized => exact absurd List.mem_cons_self hnot
      | _ => exact absurd List.mem_cons_self hnot
    · exact absurd (List.mem_cons_of_mem _ hmem) hnot
  | branchIf =>
    rw [List.mem_singleton.mp hmem] at hunknown
    cases hunknown
  | _ => exact absurd hmem hnot

-- ════════════════════════
-- Instructions that are not refused
-- ════════════════════════

/-- Code as lowering writes it mentions no unknown type. -/
theorem Written.placeholder?_eq_none {literal : Int → Prop} {code : List Instr}
    (h : Written literal code) : ∀ instruction ∈ code, instruction.placeholder? = none := by
  induction h with
  | nil => simp
  | append _ _ ih ih' => exact List.forall_mem_append.mpr ⟨ih, ih'⟩
  | drawn hdrawn => exact List.forall_mem_singleton.mpr hdrawn.concrete
  | member => exact List.forall_mem_singleton.mpr rfl
  | allocation _ _ _ hstore =>
    exact List.forall_mem_cons.mpr ⟨rfl, List.forall_mem_singleton.mpr hstore.concrete⟩
  | constant _ _ constant => cases constant <;> exact List.forall_mem_singleton.mpr rfl

theorem Prologue.placeholder?_code {prologue : Prologue}
    (hparameters : ∀ parameter ∈ prologue.parameters,
      parameter.incoming.ty.isConcrete ∧ parameter.slot.ty.isConcrete)
    (hslot : ∀ slot ∈ prologue.returnSlot, slot.ty.isConcrete) :
    ∀ instruction ∈ prologue.code, instruction.placeholder? = none := by
  intro instruction hmem
  rcases List.mem_append.mp hmem with hmem | hmem
  · obtain ⟨parameter, hparameter, hmem⟩ := List.mem_flatMap.mp hmem
    obtain ⟨hincoming, hcopy⟩ := hparameters parameter hparameter
    rcases List.mem_pair.mp hmem with rfl | rfl
    · simp [Instr.placeholder?, Instr.mentions, hcopy]
    · simp [Instr.placeholder?, Instr.mentions, Var.value, hincoming]
  · obtain ⟨slot, hreturned, rfl⟩ := List.mem_map.mp hmem
    simp [Instr.placeholder?, Instr.mentions, hslot slot (Option.mem_toList.mp hreturned)]

/-- No instruction of a function mentions an unknown type if its signature does not. -/
theorem Stages.Of.placeholder?_eq_none {unchecked : Prop} {function : FunctionCode}
    {stages : Stages unchecked function} {globals : Globals} {table : TypeTable}
    {definition : FunctionDef} {signature : Signature}
    (h : stages.Of globals table definition signature)
    (hlength : definition.parameters.length = signature.parameters.length)
    (hsignature : signature.Grounded) :
    ∀ instruction ∈ function.instructions, instruction.placeholder? = none := by
  have hwritten : Written (fun _ => True) function.code := h.written fun _ _ => trivial
  have hrecords : stages.start.Records (fun _ => True) _ _ := h.records fun _ _ => trivial
  obtain ⟨slots, -, hslots⟩ := hrecords.slots
  have hprologue : ∀ instruction ∈ stages.prologue.code, instruction.placeholder? = none := by
    refine Prologue.placeholder?_code ?_ ?_
    · intro parameter hmem
      have hall := h.forall₂_parameters hlength
      obtain ⟨position, hlt, rfl⟩ := List.mem_iff_getElem.mp hmem
      have hlt' : position < signature.parameters.length := hall.length_eq ▸ hlt
      obtain ⟨hincoming, hslot⟩ := hall.get hlt hlt'
      have hty := (hsignature.parameters _ (List.getElem_mem hlt')).isConcrete
      exact ⟨hincoming ▸ hty, hslot ▸ hty⟩
    · intro slot hmem
      refine (hsignature.returns slot.ty ?_).isConcrete
      rw [← h.signature_eq, ← stages.returns_eq, h.frame_eq, Option.mem_def.mp hmem]
      rfl
  refine List.forall_mem_append.mpr ⟨?_, hwritten.placeholder?_eq_none⟩
  have hfunction : function.entry = stages.prologue.code ++
      slots.map fun slot => .alloca slot.1.register slot.1.ty := by
    rw [stages.entry_eq, ← stages.entry_start]
    exact (Body.entry_append _ _).symm.trans hslots.entry
  rw [hfunction]
  refine List.forall_mem_append.mpr ⟨hprologue, fun instruction hmem => ?_⟩
  obtain ⟨slot, hreserved, rfl⟩ := List.mem_map.mp hmem
  simp [Instr.placeholder?, Instr.mentions, hslots.concrete slot hreserved]

-- ════════════════════════
-- Where unknown types come from
-- ════════════════════════

/-- The arrays in a type whose members are obscure have a known origin. -/
def Ty.Traced (origin : Ty → Prop) (ty : Ty) : Prop :=
  ∀ ⦃base extent⦄, ty.Holds (.array base extent) → base.isObscure → origin base

theorem Ty.Grounded.traced {ty : Ty} (h : ty.Grounded) (origin : Ty → Prop) : ty.Traced origin := by
  intro base extent hholds hobscure
  cases h.holds hholds with
  | array _ hbase =>
    rw [hbase.isObscure] at hobscure
    cases hobscure

theorem Signature.Grounded.traced {signature : Signature} (h : signature.Grounded)
    (origin : Ty → Prop) : (Ty.function signature).Traced origin := by
  intro base extent hholds
  cases hholds with
  | returns hmem hholds => exact (h.returns _ hmem).traced origin hholds
  | parameter hmem hholds => exact (h.parameters _ hmem).traced origin hholds

variable {table : TypeTable}

/-- The setting in which arrays of obscure types have a known origin. Those that lowering makes itself
have members that are not obscure. -/
def Setting.traced (htable : table.Grounded) (origin : Ty → Prop) : Setting table where
  checked := False
  value ty := ty.Traced origin
  known _ := True
  callable _ signature := (Ty.function signature).Traced origin
  kept := []
  stage _ := True
  int width := (Ty.Grounded.int width).traced origin
  result := Ty.Grounded.result.traced origin
  ref h := by
    intro base extent hholds
    cases hholds with
    | ref hholds => exact h hholds
  array extent hclear h := by
    intro base extent' hholds hobscure
    cases hholds with
    | here =>
      rw [hclear] at hobscure
      cases hobscure
    | array _ hholds => exact h hholds hobscure
  struct hmem := (htable _ hmem).traced origin
  target h _ _ hholds := h (.ref hholds)
  element h _ _ hholds := h (.array _ hholds)
  member h _ hmem _ _ hholds := h (.struct hmem hholds)
  function h _ := h
  returns h _ hmem _ _ hholds := h (.returns hmem hholds)
  parameters h _ hmem _ _ hholds := h (.parameter hmem hholds)
  support function := function.grounded.traced origin
  grow _ _ := trivial
  temporary _ := trivial

/-- The support functions that are declared have their own signatures. -/
theorem exists_support_of_mem {functions : List Support} {declared : List (String × Signature)}
    {globals last : Globals} (h : (declareSupport functions).eval globals = .ok (declared, last)) :
    ∀ entry ∈ declared, ∃ function : Support, entry.2 = function.signature := by
  induction functions generalizing globals declared with
  | nil =>
    obtain ⟨rfl, -⟩ := Pass.eval_pure_eq_ok_iff.mp h
    simp
  | cons function rest ih =>
    simp only [declareSupport, Pass.eval_bind_eq_ok_iff, Pass.eval_get_eq_ok_iff] at h
    obtain ⟨_, _, ⟨rfl, rfl⟩, h⟩ := h
    split at h
    · exact ih h
    · simp only [Pass.eval_bind_eq_ok_iff, Pass.eval_pure_eq_ok_iff] at h
      obtain ⟨var, middle, -, others, _, hrest, rfl, rfl⟩ := h
      exact List.forall_mem_cons.mpr ⟨⟨function, rfl⟩, ih hrest⟩

/-- The declarations of types and constants spell no unknown type. -/
theorem isConcrete_of_mem_declarations {program : Program}
    (h : ∀ definition ∈ program.structs, (Ty.struct definition).Grounded) :
    ∀ ty ∈ program.declarations.flatMap Declaration.spelled, ty.isConcrete := by
  intro ty hmem
  obtain ⟨declaration, hdeclaration, hmem⟩ := List.mem_flatMap.mp hmem
  rcases List.mem_append.mp hdeclaration with hdeclaration | hdeclaration
  · rcases List.mem_cons.mp hdeclaration with rfl | hdeclaration
    · rcases List.mem_pair.mp hmem with rfl | rfl <;> rfl
    · obtain ⟨definition, hdefinition, rfl⟩ := List.mem_map.mp hdeclaration
      obtain ⟨member, hmember, rfl⟩ := List.mem_map.mp hmem
      cases h definition hdefinition with
      | struct hmembers => exact (hmembers member hmember).isConcrete
  · obtain ⟨⟨constant, symbol⟩, -, rfl⟩ := List.mem_map.mp hdeclaration
    cases constant <;> rw [List.mem_singleton.mp hmem] <;> rfl

/-- An unknown type in the text of a function is the member of an array that has a known origin. -/
theorem Stages.Of.exists_origin {unchecked : Prop} {function : FunctionCode}
    {stages : Stages unchecked function} {globals : Globals} {definition : FunctionDef}
    {signature : Signature} {htable : table.Grounded} {origin : Ty → Prop}
    (h : stages.Of globals table definition signature)
    (hsignature : table.denoteSignature definition = .ok signature)
    (hadmits : (Setting.traced htable origin).Admits globals.root stages.prologue)
    {ty : Ty} (hmem : ty ∈ function.spelled) (hunknown : ty.isConcrete = false) :
    ∃ length, origin (.array ty (.sized length)) := by
  have hgrounded := htable.denoteSignature hsignature
  rcases List.mem_append.mp hmem with hmem | hmem
  · rw [h.signature_eq] at hmem
    simp [(hgrounded.spelled ty hmem).isConcrete] at hunknown
  obtain ⟨instruction, hinstruction, hmem⟩ := List.mem_flatMap.mp hmem
  have hconcrete := h.placeholder?_eq_none (TypeTable.length_denoteSignature hsignature) hgrounded
  obtain ⟨target, length, address, indices, inbounds, rfl⟩ :=
    Instr.exists_base_of_mem_spelled (hconcrete instruction hinstruction) hmem hunknown
  have hcode := (List.mem_append.mp hinstruction).resolve_left fun hentry => stages.entry_cases
    (P := (· ≠ .elementAddress target (.array ty (.sized length)) address indices inbounds))
    (by simp) (by simp) _ hentry rfl
  have hsound := h.sound_code hsignature hadmits False.elim _ hcode
  have hobscure : (Ty.array ty (.sized length)).isObscure := by simp [Ty.isObscure, hunknown]
  obtain ⟨extent, htraced⟩ := (hsound.bases rfl).2 hobscure
  exact ⟨length, htraced (.here _) hobscure⟩

/-- An unknown type in the text of a program comes from the prelude: it is declared in the signature of
a function, or it stands in an array that is the member of another, in the type of a name. -/
theorem exists_origin_of_mem_spelled {levels : List (List (String × Ty))} {module : Module}
    {program : Program} (h : (lowerWith (Scope.ofPrelude levels).1 module).result = .ok program)
    {ty : Ty} (hmem : ty ∈ program.spelled) (hunknown : ty.isConcrete = false) :
    (∃ symbol signature, (symbol, signature) ∈ (Scope.ofPrelude levels).1.ownFunctions ∧
      ty ∈ signature.spelled) ∨
    ∃ name var length extent, (Scope.ofPrelude levels).1.find? name = some var ∧
      var.ty.Holds (.array (.array ty (.sized length)) extent) := by
  obtain ⟨support, declared, table, bound, named, last, hsupport, hstructs, hbind, hcodes,
    hprogram, -, hexternals, -⟩ := eval_lowerWith h
  obtain ⟨-, hsignatures, -⟩ := eval_bindFunctions hbind
  have htable := grounded_of_eval_defineStructs hstructs
  have hgrounded {ty : Ty} (h : ty.Grounded) : ty.isConcrete ≠ false := by simp [h.isConcrete]
  rcases List.mem_append.mp hmem with hmem | hmem
  · rcases List.mem_append.mp hmem with hmem | hmem
    · have hconcrete : ty.isConcrete := isConcrete_of_mem_declarations
        (fun definition hdefinition => htable definition (hprogram ▸ hdefinition)) ty hmem
      simp [hconcrete] at hunknown
    · let setting := Setting.traced htable fun base => ∃ name var extent,
        (Scope.ofPrelude levels).1.find? name = some var ∧ var.ty.Holds (.array base extent)
      have hprelude : setting.Binds [] (Scope.ofPrelude levels).1.nest := by
        refine ⟨fun hfound _ => ?_, fun hfound hty => ?_⟩ <;> rw [Scope.find?_nest] at hfound
        · exact ⟨fun _ _ hholds _ => ⟨_, _, _, hfound, hholds⟩, Or.inr trivial⟩
        · exact fun _ _ hholds _ => ⟨_, _, _, hfound, hty ▸ hholds⟩
      have hkeyed : (Scope.ofPrelude levels).1.Keyed := by
        rw [← Scope.performAll_ofPrelude]
        exact (Scope.Recorded.empty.performAll _).keyed
      obtain ⟨function, hfunction, hmem⟩ := List.mem_flatMap.mp hmem
      have hadmitted := hprelude.forall₂_admits hkeyed hsupport hbind hcodes
        (fun function _ _ => function.grounded.traced _)
        (fun function hmem => (htable.denoteSignature (hsignatures function hmem)).traced _)
        (fun _ => trivial) (fun _ => trivial) rfl rfl
      obtain ⟨definition, -, globals, signature, stages, hstages, hsignature, hadmits⟩ :=
        exists_mem_of_forall₂ hadmitted hfunction
      obtain ⟨length, name, var, extent, hfound, hholds⟩ :=
        hstages.exists_origin hsignature hadmits hmem hunknown
      exact Or.inr ⟨name, var, length, extent, hfound, hholds⟩
  · obtain ⟨⟨symbol, signature⟩, hentry, hmem⟩ := List.mem_flatMap.mp hmem
    rw [hexternals] at hentry
    rcases List.mem_append.mp hentry with hentry | hentry
    · exact Or.inl ⟨symbol, signature, hentry, hmem⟩
    · obtain ⟨function, rfl⟩ := exists_support_of_mem hsupport _ hentry
      exact absurd hunknown (hgrounded (function.grounded.spelled ty hmem))

/-- A prelude with an array of arrays of which no more is known. -/
def gridded : List (List (String × Ty)) :=
  [[("grid", .array (.array .dynamic (.sized 3)) (.sized 2))]]

/-- A module that reads an element of it. -/
def gridding : Module where
  items := [.function {
    name := "main"
    parameters := []
    returns := none
    body := [.eval (.element "grid" (.integer 0))] }]

theorem exists_origin_gridding : ∃ program,
    (lowerWith (Scope.ofPrelude gridded).1 gridding).result = .ok program ∧
    .dynamic ∈ program.spelled ∧
    ((∃ symbol signature, (symbol, signature) ∈ (Scope.ofPrelude gridded).1.ownFunctions ∧
      .dynamic ∈ signature.spelled) ∨
    ∃ name var length extent, (Scope.ofPrelude gridded).1.find? name = some var ∧
      var.ty.Holds (.array (.array .dynamic (.sized length)) extent)) := by
  obtain ⟨program, h, hspelled⟩ := exists_program_of_any (Scope.ofPrelude gridded).1 gridding
    (P := fun program => .dynamic ∈ program.spelled) (by decide +kernel)
  have hmem := of_decide_eq_true hspelled
  exact ⟨program, h, hmem, exists_origin_of_mem_spelled h hmem rfl⟩

/-- A function of the prelude is declared at an unknown type. -/
theorem exists_dynamic_spelled_deferring : ∃ program,
    (lowerWith (Scope.ofPrelude [[("defer", .function ⟨none, [.dynamic], false⟩)]]).1
      { items := [] }).result = .ok program ∧
    .dynamic ∈ program.spelled ∧
    "declare void @defer(<\x7bdynamic\x7d>)" ∈ program.listing.lines := by
  obtain ⟨program, h, hspelled⟩ := exists_program_of_any
    (Scope.ofPrelude [[("defer", .function ⟨none, [.dynamic], false⟩)]]).1 { items := [] }
    (P := fun program => decide (.dynamic ∈ program.spelled ∧
      "declare void @defer(<\x7bdynamic\x7d>)" ∈ program.listing.lines)) (by decide +kernel)
  exact ⟨program, h, of_decide_eq_true hspelled⟩

end ThreeAddress
