import ThreeAddress.Proofs.SingleDefinition
import ThreeAddress.Proofs.Typing.Function

/-!
# Well-typed code

Where every variable is declared before it is mentioned, every register of a lowered function is read
at the type it is written at, and its text shows it at that type. Addresses are registers or symbols,
indices are integers, and a stack slot is read at the type it was reserved for.

## Main definitions

* `Operand.ShownIn`: a text with an operand at a type.
* `FunctionCode.Produces`: the type at which a register of a function is written.
* `FunctionCode.WellTyped`: a function whose registers are read at the types they are written at.

## Main statements

* `Instr.shownIn_of_mem_typedUses`: the text of an instruction shows its operands at their types.
* `wellTyped_of_mem_functions`: lowered functions are well typed.
-/

namespace ThreeAddress

-- ════════════════════════
-- The text of typed operands
-- ════════════════════════

theorem exists_commaSeparated_eq {texts : List String} {text : String} (h : text ∈ texts) :
    ∃ before after, commaSeparated texts = before ++ text ++ after := by
  induction texts with
  | nil => cases h
  | cons first rest ih =>
    cases rest with
    | nil => exact ⟨"", "", by simp [commaSeparated, List.mem_singleton.mp h]⟩
    | cons second rest =>
      have hcons : commaSeparated (first :: second :: rest) =
          first ++ ", " ++ commaSeparated (second :: rest) := String.intercalate_cons_cons
      rcases List.mem_cons.mp h with rfl | h
      · exact ⟨"", ", " ++ commaSeparated (second :: rest), by simp [hcons, String.append_assoc]⟩
      · obtain ⟨before, after, heq⟩ := ih h
        exact ⟨first ++ ", " ++ before, after, by simp only [hcons, heq, String.append_assoc]⟩

namespace Operand

/-- A text shows an operand at a type: the type stands in front of it, or in front of the other
operand of two that share their type. -/
def ShownIn (operand : Operand) (spelling text : String) : Prop :=
  ∃ before first after, text = before ++ spelling ++ " " ++ first ++ operand.text ++ after ∧
    (first = "" ∨ ∃ other : Operand, first = other.text ++ ", ")

namespace ShownIn

theorem within {operand : Operand} {spelling text whole : String}
    (h : operand.ShownIn spelling text) (before after : String)
    (hwhole : whole = before ++ text ++ after) : operand.ShownIn spelling whole := by
  obtain ⟨before', first, after', rfl, hfirst⟩ := h
  exact ⟨before ++ before', first, after' ++ after,
    by simp only [hwhole, String.append_assoc], hfirst⟩

theorem value (value : Value) : value.operand.ShownIn value.ty.spelling value.text :=
  ⟨"", "", "", by simp [Value.text], Or.inl rfl⟩

theorem values {values : List Value} {value : Value} (h : value ∈ values) :
    value.operand.ShownIn value.ty.spelling (commaSeparated (values.map Value.text)) := by
  obtain ⟨before, after, heq⟩ := exists_commaSeparated_eq (List.mem_map_of_mem (f := Value.text) h)
  exact (ShownIn.value value).within before after heq

theorem address (address : Operand) : address.ShownIn "ptr" ("ptr " ++ address.text) :=
  ⟨"", "", "", by simp, Or.inl rfl⟩

theorem operands {lhs rhs operand : Operand} (spelling : String)
    (h : operand = lhs ∨ operand = rhs) :
    operand.ShownIn spelling (spelling ++ " " ++ commaSeparated [lhs.text, rhs.text]) := by
  have hpair : commaSeparated [lhs.text, rhs.text] = lhs.text ++ ", " ++ rhs.text := by
    simp [commaSeparated]
  rcases h with rfl | rfl
  · exact ⟨"", "", ", " ++ rhs.text, by simp [hpair, String.append_assoc], Or.inl rfl⟩
  · exact ⟨"", lhs.text ++ ", ", "", by simp [hpair, String.append_assoc], Or.inr ⟨lhs, rfl⟩⟩

end ShownIn

end Operand

open Operand in
/-- The text of an instruction shows its operands at the types it reads them at. -/
theorem Instr.shownIn_of_mem_typedUses {instruction : Instr} {operand : Operand}
    {spelling : String} (h : (operand, spelling) ∈ instruction.typedUses) :
    operand.ShownIn spelling instruction.text := by
  have hptr : ", ptr " = ", " ++ "ptr " := by decide
  have hbool : "br i1 " = "br " ++ (Ty.bool.spelling ++ " ") := by decide
  cases instruction with
  | label | alloca | branch => cases h
  | load target ty address =>
    obtain ⟨rfl, rfl⟩ := Prod.mk.inj (List.mem_singleton.mp h)
    refine (ShownIn.address operand).within
      (registerText target ++ " = " ++ ("load " ++ ty.spelling ++ ", ")) "" ?_
    simp only [text, assignText, hptr, String.append_assoc, String.append_empty]
  | store value address =>
    rcases List.mem_pair.mp h with heq | heq <;> obtain ⟨rfl, rfl⟩ := Prod.mk.inj heq
    · refine (ShownIn.value value).within "store " (", ptr " ++ address.text) ?_
      simp only [text, String.append_assoc]
    · refine (ShownIn.address operand).within ("store " ++ value.text ++ ", ") "" ?_
      simp only [text, hptr, String.append_assoc, String.append_empty]
  | elementAddress target base address indices inbounds =>
    let opening := registerText target ++ " = " ++ ("getelementptr " ++
      ((if inbounds then "inbounds " else "") ++ (base.memorySpelling ++ ", ")))
    simp only [typedUses, List.mem_cons, List.mem_map, Prod.mk.injEq] at h
    rcases h with ⟨rfl, rfl⟩ | ⟨index, hmem, rfl, rfl⟩
    · refine (ShownIn.address operand).within opening
        (", " ++ commaSeparated (indices.map Value.text)) ?_
      simp only [opening, text, assignText, hptr, String.append_assoc]
    · refine (ShownIn.values hmem).within (opening ++ ("ptr " ++ address.text) ++ ", ") "" ?_
      simp only [opening, text, assignText, hptr, String.append_assoc, String.append_empty]
  | arithmetic opcode target ty lhs rhs =>
    rw [typedUses, List.mem_pair, Prod.mk.injEq, Prod.mk.injEq, ← or_and_right] at h
    refine h.2 ▸ (ShownIn.operands _ h.1).within
      (registerText target ++ " = " ++ (opcode.text ++ " ")) "" ?_
    simp only [text, assignText, String.append_assoc, String.append_empty]
  | compare predicate target ty lhs rhs =>
    rw [typedUses, List.mem_pair, Prod.mk.injEq, Prod.mk.injEq, ← or_and_right] at h
    refine h.2 ▸ (ShownIn.operands _ h.1).within
      (registerText target ++ " = " ++ ("icmp " ++ predicate.text ++ " ")) "" ?_
    simp only [text, assignText, String.append_assoc, String.append_empty]
  | extend extension target value ty =>
    obtain ⟨rfl, rfl⟩ := Prod.mk.inj (List.mem_singleton.mp h)
    refine (ShownIn.value value).within (registerText target ++ " = " ++ (extension.text ++ " "))
      (" to " ++ ty.spelling) ?_
    simp only [text, assignText, String.append_assoc]
  | call target callee signature arguments =>
    obtain ⟨argument, hmem, heq⟩ := List.mem_map.mp h
    obtain ⟨rfl, rfl⟩ := Prod.mk.inj heq
    let opening := "call " ++ signature.returnSpelling ++ " " ++ signature.parameterList ++ " " ++
      globalText callee ++ "("
    cases target with
    | none =>
      refine (ShownIn.values hmem).within opening ")" ?_
      simp only [opening, text]
    | some target =>
      refine (ShownIn.values hmem).within (registerText target ++ " = " ++ opening) ")" ?_
      simp only [opening, text, assignText, String.append_assoc]
  | extractMember target aggregate position =>
    obtain ⟨rfl, rfl⟩ := Prod.mk.inj (List.mem_singleton.mp h)
    refine (ShownIn.value aggregate).within (registerText target ++ " = " ++ "extractvalue ")
      (", " ++ toString position) ?_
    simp only [text, assignText, String.append_assoc]
  | branchIf condition positive negative =>
    obtain ⟨rfl, rfl⟩ := Prod.mk.inj (List.mem_singleton.mp h)
    refine ⟨"br ", "", ", " ++ targetText positive ++ ", " ++ targetText negative, ?_, Or.inl rfl⟩
    simp only [text, hbool, String.append_assoc, String.empty_append]
  | ret value =>
    cases value with
    | none => cases h
    | some value =>
      obtain ⟨rfl, rfl⟩ := Prod.mk.inj (List.mem_singleton.mp h)
      refine (ShownIn.value value).within "ret " "" ?_
      simp only [text, String.append_empty]

-- ════════════════════════
-- Well-typed functions
-- ════════════════════════

namespace FunctionCode

/-- A register of a function is written at a type, as the emitted code spells it: it holds an
argument of that type, or an instruction produces a value of that type in it. -/
def Produces (function : FunctionCode) (register spelling : String) : Prop :=
  (∃ position : Nat, function.parameters[position]? = some register ∧
    function.signature.parameters[position]?.map Ty.spelling = some spelling) ∨
  ∃ instruction ∈ function.instructions,
    instruction.target? = some register ∧ instruction.produces = some spelling

/-- A function whose registers are read at the types they are written at. -/
structure WellTyped (function : FunctionCode) : Prop where
  /-- Every operand of an instruction has a type, and the text of the instruction shows it at that type. -/
  shown : ∀ instruction ∈ function.instructions,
    instruction.typedUses.map Prod.fst = instruction.operands ∧
    ∀ operand spelling, (operand, spelling) ∈ instruction.typedUses →
      operand.ShownIn spelling instruction.text
  /-- A register is read at the one type at which it is written. -/
  uses : ∀ instruction ∈ function.instructions, ∀ register spelling,
    (.register register, spelling) ∈ instruction.typedUses →
      ∀ found, function.Produces register found ↔ found = spelling
  /-- Addresses are registers or symbols of the module. -/
  addresses : ∀ instruction ∈ function.instructions, ∀ address ∈ instruction.address?,
    address.isLocation
  indices : ∀ instruction ∈ function.instructions, ∀ index ∈ instruction.indices, index.ty.isInteger
  /-- A stack slot is read at the type it was reserved for. -/
  loads : ∀ target slot ty reserved, .load target ty (.register slot) ∈ function.instructions →
    .alloca slot reserved ∈ function.instructions → ty = reserved

/-- Where names differ from each other, a register is written by one instruction. -/
theorem eq_of_target?_eq_of_mem {function : FunctionCode} (h : function.names.Nodup)
    {instruction other : Instr} {register : String} (hmem : instruction ∈ function.instructions)
    (hmem' : other ∈ function.instructions) (htarget : instruction.target? = some register)
    (htarget' : other.target? = some register) : instruction = other := by
  obtain ⟨first, hfirst⟩ := List.getElem?_of_mem hmem
  obtain ⟨second, hsecond⟩ := List.getElem?_of_mem hmem'
  obtain rfl := eq_of_target?_eq h hfirst hsecond htarget htarget'
  exact Option.some.inj (hfirst.symm.trans hsecond)

/-- Where names differ from each other, a register is written at one type. -/
theorem Produces.iff_eq {function : FunctionCode} {register spelling : String}
    (hproduces : function.Produces register spelling) (h : function.names.Nodup) (found : String) :
    function.Produces register found ↔ found = spelling := by
  refine ⟨fun hfound => ?_, fun heq => heq ▸ hproduces⟩
  obtain ⟨hparameters, -, hdisjoint⟩ := List.nodup_append.mp h
  -- A register that an instruction writes is not that of an argument.
  have hwritten : ∀ {position : Nat} {instruction}, function.parameters[position]? = some register →
      instruction ∈ function.instructions → instruction.target? = some register → False :=
    fun hposition hmem htarget => hdisjoint _ (List.mem_of_getElem? hposition) _
      (List.mem_filterMap.mpr ⟨_, hmem, Instr.defined?_of_target? htarget⟩) rfl
  rcases hproduces with ⟨position, hposition, hty⟩ | ⟨instruction, hmem, htarget, hty⟩ <;>
    rcases hfound with ⟨position', hposition', hty'⟩ | ⟨instruction', hmem', htarget', hty'⟩
  · obtain ⟨hlt, -⟩ := List.getElem?_eq_some_iff.mp hposition
    obtain rfl := (List.getElem?_inj hlt hparameters).mp (hposition.trans hposition'.symm)
    exact Option.some.inj (hty'.symm.trans hty)
  · exact (hwritten hposition hmem' htarget').elim
  · exact (hwritten hposition' hmem htarget).elim
  · obtain rfl := eq_of_target?_eq_of_mem h hmem hmem' htarget htarget'
    exact Option.some.inj (hty'.symm.trans hty)

end FunctionCode

-- ════════════════════════
-- Lowered functions
-- ════════════════════════

/-- The setting of a module in which every variable is declared. The slots that are kept are for
returned values. -/
def Setting.declared (table : TypeTable) (kept : List String) : Setting table where
  checked := True
  value _ := True
  known _ := True
  callable _ _ := True
  kept
  stage _ := True
  int _ := trivial
  result := trivial
  ref _ := trivial
  array _ _ _ := trivial
  struct _ := trivial
  target _ := trivial
  element _ := trivial
  member _ _ _ := trivial
  function _ _ := trivial
  returns _ _ _ := trivial
  parameters _ _ _ := trivial
  support _ := trivial
  grow _ _ := trivial
  temporary _ := trivial

theorem Setting.admits_declared (table : TypeTable) {kept : List String} {root : Scope}
    {prologue : Prologue} (hkeyed : root.Keyed)
    (hkept : ∀ register ∈ kept, ∃ slot ∈ prologue.returnSlot, slot.register = register) :
    (Setting.declared table kept).Admits root prologue :=
  ⟨hkeyed, ⟨fun _ _ => ⟨trivial, Or.inr trivial⟩, fun _ _ => trivial⟩, fun _ _ => trivial,
    fun _ _ => trivial, trivial, rfl, hkept⟩

namespace Stages.Of

variable {unchecked : Prop} {function : FunctionCode} {stages : Stages unchecked function}
  {globals : Globals} {table : TypeTable} {definition : FunctionDef} {signature : Signature}

theorem types_code (h : stages.Of globals table definition signature)
    (hsignature : table.denoteSignature definition = .ok signature) (hkeyed : globals.root.Keyed)
    (hscoped : definition.isScoped) :
    ∀ instruction ∈ function.code,
      (stages.ending.append (.ret stages.value)).Types [] instruction := by
  have hadmits : (Setting.declared table []).Admits globals.root stages.prologue :=
    Setting.admits_declared table hkeyed (by simp)
  exact fun instruction hmem =>
    (h.sound_code hsignature hadmits (fun _ => hscoped) instruction hmem).types trivial

/-- The arguments are stored at the types of the header. -/
theorem produces_incoming (h : stages.Of globals table definition signature)
    (hlength : definition.parameters.length = signature.parameters.length) {parameter : Parameter}
    (hparameter : parameter ∈ stages.prologue.parameters) :
    function.Produces parameter.incoming.register parameter.incoming.ty.spelling := by
  have hall := h.forall₂_parameters hlength
  obtain ⟨position, hlt, rfl⟩ := List.mem_iff_getElem.mp hparameter
  have hlt' : position < signature.parameters.length := hall.length_eq ▸ hlt
  refine Or.inl ⟨position, ?_, ?_⟩
  · rw [stages.parameters_eq, List.getElem?_map, List.getElem?_eq_getElem hlt]
    rfl
  · have hty : stages.prologue.parameters[position].incoming.ty = signature.parameters[position] :=
      (hall.get hlt hlt').1
    rw [h.signature_eq, List.getElem?_eq_getElem hlt', hty]
    rfl

theorem wellTyped (h : stages.Of globals table definition signature)
    (hsignature : table.denoteSignature definition = .ok signature) (hkeyed : globals.root.Keyed)
    (hscoped : definition.isScoped) : function.WellTyped := by
  let last := stages.ending.append (.ret stages.value)
  have hcode := h.types_code hsignature hkeyed hscoped
  have hinstructions : function.instructions = last.entry ++ last.code := by
    rw [FunctionCode.instructions, stages.entry_eq, stages.code_eq, Body.code_append,
      Body.entry_append]
  have hproduces : ∀ {register spelling}, last.Produces register spelling →
      ∀ found, function.Produces register found ↔ found = spelling := by
    rintro register spelling ⟨instruction, hmem, hwrites⟩
    have hwritten : function.Produces register spelling :=
      Or.inr ⟨instruction, hinstructions ▸ hmem, hwrites⟩
    exact hwritten.iff_eq stages.nodup_names
  have hentry : ∀ {parameter}, parameter ∈ stages.prologue.parameters →
      .alloca parameter.slot.register parameter.slot.ty ∈ last.entry := by
    intro parameter hparameter
    obtain ⟨slots, hslots⟩ := stages.steps.entry_eq
    have hmem := Prologue.mem_code_of_mem hparameter
    rw [← stages.entry_start] at hmem
    rw [Body.entry_append, hslots]
    exact List.mem_append_left _ hmem
  -- The entry reads the arguments and the slots that it reserves for them.
  have hcases : ∀ {P : Instr → Prop}, (∀ register ty, P (.alloca register ty)) →
      (∀ parameter ∈ stages.prologue.parameters,
        P (.store parameter.incoming.value parameter.slot.operand)) →
      (∀ instruction ∈ function.code, P instruction) →
      ∀ instruction ∈ function.instructions, P instruction :=
    fun halloca hstore hbehind instruction hmem => (List.mem_append.mp hmem).elim
      (stages.entry_cases halloca hstore instruction) (hbehind instruction)
  constructor
  · exact fun instruction _ => ⟨instruction.map_fst_typedUses, fun _ _ => Instr.shownIn_of_mem_typedUses⟩
  · refine hcases (by simp [Instr.typedUses]) ?_ fun instruction hmem register spelling huse =>
      hproduces ((hcode instruction hmem).uses huse)
    intro parameter hparameter register spelling hmem
    rcases List.mem_pair.mp hmem with heq | heq <;> cases heq
    · exact (h.produces_incoming (TypeTable.length_denoteSignature hsignature) hparameter).iff_eq
        stages.nodup_names
    · exact hproduces ⟨_, List.mem_append_left _ (hentry hparameter), rfl, rfl⟩
  · exact hcases (by simp [Instr.address?]) (by simp [Instr.address?, Var.operand, Operand.isLocation])
      fun instruction hmem => (hcode instruction hmem).address
  · exact hcases (by simp [Instr.indices]) (by simp [Instr.indices])
      fun instruction hmem => (hcode instruction hmem).indices
  · intro target slot ty reserved hload halloca
    rw [FunctionCode.instructions, List.mem_append] at hload
    have hmem : .load target ty (.register slot) ∈ function.code := hload.resolve_left fun hmem =>
      stages.entry_cases (P := fun instruction => instruction ≠ .load target ty (.register slot))
        (by simp) (by simp) _ hmem rfl
    rcases ((hcode _ hmem).loads rfl).1 with hslot | ⟨writer, hwriter, htarget, -⟩
    · have hslot : .alloca slot ty ∈ function.instructions :=
        hinstructions ▸ List.mem_append_left _ hslot
      cases FunctionCode.eq_of_target?_eq_of_mem stages.nodup_names hslot halloca rfl rfl
      rfl
    · -- Slots are only reserved in the entry.
      have hwriter : writer ∈ function.code := by rwa [stages.code_eq, ← Body.code_append]
      have heq := FunctionCode.eq_of_target?_eq_of_mem stages.nodup_names
        (List.mem_append_right _ hwriter) halloca htarget rfl
      have hnone := (hcode writer hwriter).slot
      rw [heq] at hnone
      cases hnone

end Stages.Of

/-- Where every variable is declared before it is mentioned, lowered functions are well typed. -/
theorem wellTyped_of_mem_functions {module : Module} {program : Program}
    (h : (lower module).result = .ok program) (hscoped : module.isScoped) {function : FunctionCode}
    (hfunction : function ∈ program.functions) : function.WellTyped := by
  obtain ⟨table, definition, hmem, draft, symbol, signature, last, hsignature, hkeyed, hrun⟩ :=
    exists_loweredTo_of_mem h hfunction
  have hkeyed : draft.globals.root.Keyed := hkeyed Scope.Keyed.empty
  have hscoped : definition.isScoped := List.all_eq_true.mp hscoped definition hmem
  obtain ⟨stages, hstages, -⟩ := Lowering.exists_stages hrun
    (TypeTable.length_denoteSignature hsignature) (Or.inl trivial)
  exact hstages.wellTyped hsignature hkeyed hscoped

/-- A function that reads an array, the members of a struct behind a pointer, and what calls return. -/
def picking : Module where
  items := [
    .struct ⟨"Pair", [⟨"first", "i32"⟩, ⟨"second", "i64"⟩]⟩,
    .function {
      name := "pick"
      parameters := [⟨"pair", "&Pair"⟩, ⟨"n", "i32"⟩]
      returns := some "i32"
      body := [
        .bind "table" none (.array [.integer 2, .integer 3, .integer 5]),
        .ite (.binary .less (.variableRef "n") (.field "pair" "first"))
          [.ret (some (.element "table" (.variableRef "n")))]
          [.assign (.field "pair" "first") (.binary .multiply (.variableRef "n") (.integer 2))],
        .eval (.call "printf" [.text "%d", .field "pair" "second"]),
        .ret (some (.call "pick" [.variableRef "pair", .field "pair" "first"]))] }]

theorem wellTyped_picking : ∃ program function, (lower picking).result = .ok program ∧
    picking.isScoped ∧ function ∈ program.functions ∧
    .compare .slt "sym14" .i32 (.register "sym15") (.register "sym16") ∈ function.instructions ∧
    function.WellTyped := by
  obtain ⟨program, function, h, hfunction, hmem⟩ := exists_function_of_any {} picking
    (P := fun function => decide (.compare .slt "sym14" .i32 (.register "sym15") (.register "sym16") ∈
      function.instructions)) (by decide +kernel)
  have hscoped : picking.isScoped := by decide +kernel
  exact ⟨program, function, h, hscoped, hfunction, of_decide_eq_true hmem,
    wellTyped_of_mem_functions h hscoped hfunction⟩

end ThreeAddress
