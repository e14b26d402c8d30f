import ThreeAddress.Lower.Function
import ThreeAddress.Proofs.Emission.Stmt

/-!
# Functions as steps

A function is lowered in three stages. Its prologue copies the arguments into stack slots, its
statements follow, and the block that all returns share comes last.

## Main definitions

* `Prologue`: the registers, the exit and the scope that a function body starts with.
* `Lowering.Leaves`: what the shared end of a function adds.

## Main statements

* `Lowering.eval_lowerDefinition`: the three stages of a lowered function.
* `Lowering.ready_begin`: code may be emitted behind the prologue that mentions the parameters.
-/

namespace ThreeAddress

/-- The instructions that copy an argument into its stack slot. -/
def Parameter.copy (parameter : Parameter) : List Instr :=
  [.alloca parameter.slot.register parameter.slot.ty,
    .store parameter.incoming.value parameter.slot.operand]

/-- What a function body starts with. -/
structure Prologue where
  parameters : List Parameter
  exit : String
  returnSlot : Option Var
  scope : Scope

namespace Prologue

/-- The instructions in front of the body. -/
def code (prologue : Prologue) : List Instr :=
  prologue.parameters.flatMap Parameter.copy ++
    prologue.returnSlot.toList.map fun slot => .alloca slot.register slot.ty

/-- All registers and labels that are made for the prologue. -/
def registers (prologue : Prologue) : List String :=
  prologue.parameters.flatMap Parameter.registers ++
    prologue.exit :: prologue.returnSlot.toList.map Var.register

end Prologue

/-- The prologue of a function whose scope is inside the given one. -/
def Scope.prologue (scope : Scope) (parameters : List (String × Ty)) (returns : Option Ty) :
    Prologue :=
  let (entered, scope) := scope.enter parameters
  let labelled := (scope.mint "cr" .label).2
  match returns with
  | none => ⟨entered, scope.newRegister "cr", none, labelled⟩
  | some ty =>
    ⟨entered, scope.newRegister "cr", some (Var.make (labelled.newRegister "retptr") ty),
      (labelled.mint "retptr" ty).2⟩

namespace Body

/-- The body behind the header of a function. -/
def opened (body : Body) (header : Line) (scope : Scope) : Body :=
  { body with scope, sheet := .ofLines (body.sheet.lines ++ [header]) }

theorem isClosed_opened (body : Body) (header : Line) (scope : Scope) :
    (body.opened header scope).isClosed = false := by
  rw [isClosed, code, opened, Sheet.code_ofLines]
  rfl

/-- The body whose entry is all instructions so far. -/
def entered (body : Body) : Body := { body with sheet := body.sheet.mark }

/-- The body behind a prologue. -/
def begin (body : Body) (header : Line) (prologue : Prologue) : Body :=
  ((body.opened header prologue.scope).appendAll prologue.code).entered

section Begin

variable (body : Body) (header : Line) (prologue : Prologue)

@[simp] theorem entry_begin : (body.begin header prologue).entry = prologue.code := by
  have hentry : (body.begin header prologue).entry =
      ((body.opened header prologue.scope).appendAll prologue.code).entry ++
        ((body.opened header prologue.scope).appendAll prologue.code).code :=
    Sheet.entry_mark _
  rw [hentry, entry_appendAll, code_appendAll, entry, code, opened, Sheet.entry_ofLines,
    Sheet.code_ofLines, List.nil_append, List.nil_append]

@[simp] theorem code_begin : (body.begin header prologue).code = [] := Sheet.code_mark _

@[simp] theorem scope_begin : (body.begin header prologue).scope = prologue.scope := by
  rw [begin, appendAll_eq]
  rfl

@[simp] theorem globals_begin : (body.begin header prologue).globals = body.globals := by
  rw [begin, appendAll_eq]
  rfl

@[simp] theorem isClosed_begin : (body.begin header prologue).isClosed = false := by
  rw [isClosed, code_begin]
  rfl

theorem lines_begin : (body.begin header prologue).sheet.lines =
    body.sheet.lines ++ header :: prologue.code.map .instr := by
  refine (lines_appendAll _ _).trans ?_
  exact List.append_assoc body.sheet.lines [header] _

end Begin

end Body

/-- The line that opens a function. -/
def FunctionCode.header (function : FunctionCode) : Line :=
  .header function.symbol function.signature function.parameters

-- ════════════════════════
-- Prologues
-- ════════════════════════

namespace Scope

variable (scope : Scope) (parameters : List (String × Ty)) (returns : Option Ty)

theorem map_ty_returnSlot :
    (scope.prologue parameters returns).returnSlot.map Var.ty = returns := by
  cases returns <;> rfl

theorem parameters_prologue :
    (scope.prologue parameters returns).parameters = (scope.enter parameters).1 := by
  cases returns <;> rfl

/-- An argument and its stack slot have the type of the parameter. -/
theorem forall₂_enter (scope : Scope) {names : List String} {types : List Ty}
    (h : names.length = types.length) :
    List.Forall₂ (fun parameter ty => parameter.incoming.ty = ty ∧ parameter.slot.ty = ty)
      (scope.enter (names.zip types)).1 types := by
  induction types generalizing scope names with
  | nil =>
    obtain rfl := List.eq_nil_of_length_eq_zero h
    exact .nil
  | cons ty types ih =>
    obtain ⟨name, names, rfl⟩ := List.exists_cons_of_length_eq_add_one h
    exact .cons ⟨rfl, rfl⟩ (ih _ (by simpa using h))

theorem exit_prologue :
    (scope.prologue parameters returns).exit = (scope.enter parameters).2.newRegister "cr" := by
  cases returns <;> rfl

theorem Keyed.prologue {scope : Scope} (h : scope.Keyed) :
    (scope.prologue parameters returns).scope.Keyed := by
  cases returns with
  | none => exact (h.enter parameters).mint _ _
  | some ty => exact ((h.enter parameters).mint _ _).mint _ _

theorem Keyed.exists_find?_prologue {scope : Scope} (h : scope.Keyed) {name : String}
    (hname : name ∈ parameters.map Prod.fst) :
    ∃ parameter ∈ (scope.prologue parameters returns).parameters,
      (scope.prologue parameters returns).scope.find? name = some parameter.slot := by
  obtain ⟨parameter, hmem, hfound⟩ := h.exists_find?_enter parameters hname
  have hkeyed := h.enter parameters
  cases returns with
  | none => exact ⟨parameter, hmem, hkeyed.find?_mint _ _ hfound⟩
  | some ty =>
    exact ⟨parameter, hmem, (hkeyed.mint _ _).find?_mint _ _ (hkeyed.find?_mint _ _ hfound)⟩

theorem inUse_prologue {register : String}
    (h : register ∈ (scope.prologue parameters returns).registers) :
    (scope.prologue parameters returns).scope.inUse register := by
  have hentered : register ∈ (scope.enter parameters).1.flatMap Parameter.registers →
      (scope.enter parameters).2.inUse register :=
    fun hmem => (scope.fresh_registers_enter parameters hmem).2
  have hexit (other : String) := (scope.enter parameters).2.inUse_mint "cr" .label other
  cases returns with
  | none =>
    simp only [Scope.prologue, Prologue.registers, List.mem_append, List.mem_cons, Option.toList_none,
      List.map_nil, List.not_mem_nil, or_false] at h
    exact (hexit register).mpr (h.symm.imp_right hentered)
  | some ty =>
    simp only [Scope.prologue, Prologue.registers, List.mem_append, List.mem_cons, Option.toList_some,
      List.map_cons, List.map_nil, List.not_mem_nil, or_false] at h
    refine (inUse_mint _ _ _ _).mpr ?_
    rcases h with hmem | hmem | hmem
    · exact Or.inr ((hexit register).mpr (Or.inr (hentered hmem)))
    · exact Or.inr ((hexit register).mpr (Or.inl hmem))
    · exact Or.inl hmem

theorem nodup_registers_prologue : (scope.prologue parameters returns).registers.Nodup := by
  let entered := (scope.enter parameters).2
  let labelled := (entered.mint "cr" .label).2
  have hentered : ∀ register ∈ (scope.enter parameters).1.flatMap Parameter.registers,
      entered.inUse register :=
    fun register hmem => (scope.fresh_registers_enter parameters hmem).2
  have hexit : ∀ register ∈ (scope.enter parameters).1.flatMap Parameter.registers,
      register ≠ entered.newRegister "cr" := by
    rintro register hmem rfl
    exact entered.not_inUse_newRegister "cr" (hentered _ hmem)
  cases returns with
  | none =>
    change ((scope.enter parameters).1.flatMap Parameter.registers ++
      [entered.newRegister "cr"]).Nodup
    refine List.nodup_append.mpr ⟨scope.nodup_registers_enter parameters, by simp, ?_⟩
    intro register hmem other hother
    obtain rfl : other = entered.newRegister "cr" := by simpa using hother
    exact hexit register hmem
  | some ty =>
    have hslot : ∀ register, labelled.inUse register → register ≠ labelled.newRegister "retptr" := by
      rintro register hused rfl
      exact labelled.not_inUse_newRegister "retptr" hused
    change ((scope.enter parameters).1.flatMap Parameter.registers ++
      [entered.newRegister "cr", labelled.newRegister "retptr"]).Nodup
    refine List.nodup_append.mpr ⟨scope.nodup_registers_enter parameters, ?_, ?_⟩
    · refine List.nodup_cons.mpr ⟨?_, List.nodup_singleton _⟩
      rw [List.mem_singleton]
      exact hslot _ ((entered.inUse_mint "cr" .label _).mpr (Or.inl rfl))
    · intro register hmem other hother
      rcases List.mem_pair.mp hother with rfl | rfl
      · exact hexit register hmem
      · exact hslot _ ((entered.inUse_mint "cr" .label _).mpr (Or.inr (hentered register hmem)))

end Scope

namespace Prologue

variable (prologue : Prologue)

theorem filterMap_defined?_code : prologue.code.filterMap Instr.defined? =
    prologue.parameters.map (fun parameter => parameter.slot.register) ++
      prologue.returnSlot.toList.map Var.register := by
  have hcopy : (prologue.parameters.flatMap Parameter.copy).filterMap Instr.defined? =
      prologue.parameters.map fun parameter => parameter.slot.register := by
    induction prologue.parameters with
    | nil => rfl
    | cons parameter rest ih =>
      rw [List.flatMap_cons, List.filterMap_append, ih]
      rfl
  have hslot : (prologue.returnSlot.toList.map fun slot =>
      Instr.alloca slot.register slot.ty).filterMap Instr.defined? =
      prologue.returnSlot.toList.map Var.register := by
    cases prologue.returnSlot <;> rfl
  rw [code, List.filterMap_append, hcopy, hslot]

/-- The registers of the arguments, the exit, and what the code of the prologue introduces are all
that is made for it. -/
theorem perm_registers :
    (prologue.parameters.map (fun parameter => parameter.incoming.register) ++
      prologue.exit :: prologue.code.filterMap Instr.defined?).Perm prologue.registers := by
  have hsplit : (prologue.parameters.map (fun parameter => parameter.incoming.register) ++
      prologue.parameters.map fun parameter => parameter.slot.register).Perm
      (prologue.parameters.flatMap Parameter.registers) := by
    rw [List.map_eq_flatMap (f := fun parameter : Parameter => parameter.slot.register)]
    exact List.map_append_flatMap_perm _ _ _
  rw [filterMap_defined?_code, registers]
  refine List.Perm.trans ?_ (hsplit.append_right _)
  rw [List.append_assoc]
  exact List.Perm.append_left _ List.perm_middle.symm

/-- The code of a prologue reserves stack slots and stores arguments. -/
theorem code_cases {P : Instr → Prop} (halloca : ∀ register ty, P (.alloca register ty))
    (hstore : ∀ parameter ∈ prologue.parameters,
      P (.store parameter.incoming.value parameter.slot.operand)) :
    ∀ instruction ∈ prologue.code, P instruction := by
  intro instruction hmem
  rcases List.mem_append.mp hmem with hmem | hmem
  · obtain ⟨parameter, hparameter, hmem⟩ := List.mem_flatMap.mp hmem
    rcases List.mem_pair.mp hmem with rfl | rfl
    · exact halloca _ _
    · exact hstore parameter hparameter
  · obtain ⟨slot, -, rfl⟩ := List.mem_map.mp hmem
    exact halloca _ _

theorem filterMap_slot?_code :
    prologue.code.filterMap Instr.slot? = prologue.code.filterMap Instr.defined? :=
  List.filterMap_congr (prologue.code_cases (fun _ _ => rfl) fun _ _ => rfl)

end Prologue

namespace Lowering

variable {body last : Body}

theorem eval_enterParameters_eq_ok_iff {parameters : List (String × Ty)} {entered : List Parameter} :
    (enterParameters parameters).eval body = .ok (entered, last) ↔
      (body.scope.enter parameters).1 = entered ∧
        { body with scope := (body.scope.enter parameters).2 } = last := by
  have hrun : (enterParameters parameters).eval body =
    .ok ((body.scope.enter parameters).1, { body with scope := (body.scope.enter parameters).2 }) :=
      rfl
  rw [hrun, Except.ok.injEq, Prod.mk.injEq]

/-- Copying the arguments ends no block, so it adds its instructions and nothing else. -/
theorem eval_copyParameters {parameters : List Parameter} {result : Unit}
    (h : (copyParameters parameters).eval body = .ok (result, last)) (hopen : body.isClosed = false) :
    last = body.appendAll (parameters.flatMap Parameter.copy) ∧ last.isClosed = false := by
  induction parameters generalizing body with
  | nil =>
    obtain ⟨-, rfl⟩ := Pass.eval_pure_eq_ok_iff.mp h
    exact ⟨rfl, hopen⟩
  | cons parameter rest ih =>
    simp only [copyParameters, Pass.eval_bind_eq_ok_iff] at h
    obtain ⟨_, _, hslot, _, _, hstore, hrest⟩ := h
    obtain rfl := eq_append_of_eval_emit hslot hopen rfl
    obtain rfl := eq_append_of_eval_emit hstore (Body.isClosed_append _ _) rfl
    exact ih hrest (Body.isClosed_append _ _)

theorem eval_enterBody {prologue : Prologue} {result : Unit}
    (h : (enterBody prologue.parameters prologue.returnSlot).eval body = .ok (result, last))
    (hopen : body.isClosed = false) : last = (body.appendAll prologue.code).entered := by
  obtain ⟨_, copied, hcopy, h⟩ := Pass.eval_bind_eq_ok_iff.mp h
  obtain ⟨rfl, hopen⟩ := eval_copyParameters hcopy hopen
  rw [Prologue.code, Body.appendAll, List.foldl_append]
  cases hslot : prologue.returnSlot with
  | none =>
    rw [hslot] at h
    cases h
    rfl
  | some slot =>
    rw [hslot] at h
    obtain ⟨_, _, hemit, hmark⟩ := Pass.eval_bind_eq_ok_iff.mp h
    obtain rfl := eq_append_of_eval_emit hemit hopen rfl
    cases hmark
    rfl

/-- The return slot is the last name of a prologue. -/
theorem eval_makeReturnSlot {parameters : List (String × Ty)} {returns : Option Ty}
    {slot : Option Var}
    (h : (makeReturnSlot returns).eval
      ({ body with scope := (body.scope.enter parameters).2 }.mint "cr" .label) = .ok (slot, last)) :
    slot = (body.scope.prologue parameters returns).returnSlot ∧
      last = { body with scope := (body.scope.prologue parameters returns).scope } := by
  cases returns with
  | none =>
    obtain ⟨rfl, rfl⟩ := Pass.eval_pure_eq_ok_iff.mp h
    exact ⟨rfl, rfl⟩
  | some ty =>
    obtain ⟨slot, hmint, rfl⟩ := Pass.eval_map_eq_ok_iff.mp h
    obtain ⟨rfl, rfl⟩ := eval_mint_eq_ok_iff.mp hmint
    exact ⟨rfl, rfl⟩

/-- A function is entered by its header and its prologue. -/
theorem eval_enterFunction {table : TypeTable} {definition : FunctionDef} {symbol : String}
    {signature : Signature} {frame : Frame} {registers : List String} {prologue : Prologue}
    (h : (enterFunction table definition symbol signature).eval body = .ok ((frame, registers), last))
    (hprologue : body.scope.prologue
      ((definition.parameters.map TypedName.name).zip signature.parameters) signature.returns =
        prologue) :
    frame = ⟨table, definition.name, prologue.exit, prologue.returnSlot⟩ ∧
      registers = prologue.parameters.map (fun parameter => parameter.incoming.register) ∧
      last = body.begin (.header symbol signature registers) prologue := by
  obtain ⟨_, _, hparameters, h⟩ := Pass.eval_bind_eq_ok_iff.mp h
  obtain ⟨rfl, rfl⟩ := eval_enterParameters_eq_ok_iff.mp hparameters
  obtain ⟨_, _, hexit, h⟩ := Pass.eval_bind_eq_ok_iff.mp h
  obtain ⟨rfl, rfl⟩ := eval_newLabel_eq_ok_iff.mp hexit
  obtain ⟨_, _, hslot, h⟩ := Pass.eval_bind_eq_ok_iff.mp h
  obtain ⟨rfl, rfl⟩ := eval_makeReturnSlot hslot
  obtain ⟨_, _, hopen, h⟩ := Pass.eval_bind_eq_ok_iff.mp h
  cases hopen
  obtain ⟨_, _, henter, h⟩ := Pass.eval_bind_eq_ok_iff.mp h
  rw [← Scope.parameters_prologue _ _ signature.returns] at henter h
  rw [← Scope.exit_prologue _ _ signature.returns] at h
  rw [hprologue] at henter h
  obtain rfl := eval_enterBody henter (body.isClosed_opened _ prologue.scope)
  cases h
  exact ⟨rfl, rfl, rfl⟩

/-- The stages of a lowered function. -/
theorem eval_lowerDefinition {table : TypeTable} {definition : FunctionDef} {symbol : String}
    {signature : Signature} {function : FunctionCode} {prologue : Prologue}
    (h : (lowerDefinition table definition symbol signature).eval body = .ok (function, last))
    (hprologue : body.scope.prologue
      ((definition.parameters.map TypedName.name).zip signature.parameters) signature.returns =
        prologue) :
    ∃ finished left,
      (lowerStmts ⟨table, definition.name, prologue.exit, prologue.returnSlot⟩ definition.body).eval
        (body.begin function.header prologue) = .ok ((), finished) ∧
      (leave ⟨table, definition.name, prologue.exit, prologue.returnSlot⟩).eval finished =
        .ok ((), left) ∧
      last = left.close ∧
      function = {
        symbol
        signature
        parameters := prologue.parameters.map fun parameter => parameter.incoming.register
        entry := left.entry
        code := left.code } := by
  obtain ⟨⟨frame, registers⟩, begun, henter, h⟩ := Pass.eval_bind_eq_ok_iff.mp h
  obtain ⟨rfl, rfl, rfl⟩ := eval_enterFunction henter hprologue
  obtain ⟨_, finished, hstatements, h⟩ := Pass.eval_bind_eq_ok_iff.mp h
  obtain ⟨_, left, hleave, h⟩ := Pass.eval_bind_eq_ok_iff.mp h
  obtain ⟨_, closed, hclose, h⟩ := Pass.eval_bind_eq_ok_iff.mp h
  obtain rfl : left.close = closed := (Prod.mk.inj (Except.ok.inj hclose)).2
  -- What is reported at the end leaves the body as it is.
  split at h <;>
    simp only [Pass.eval_bind_eq_ok_iff, Pass.eval_report_eq_ok_iff, Pass.eval_get_eq_ok_iff,
      Pass.eval_pure_eq_ok_iff] at h
  · obtain ⟨_, _, rfl, _, _, rfl, _, _, ⟨rfl, rfl⟩, rfl, rfl⟩ := h
    exact ⟨finished, left, hstatements, hleave, rfl, by simp⟩
  · obtain ⟨_, _, rfl, _, _, ⟨rfl, rfl⟩, rfl, rfl⟩ := h
    exact ⟨finished, left, hstatements, hleave, rfl, by simp⟩

-- ════════════════════════
-- The start
-- ════════════════════════

variable {unchecked : Prop} {draft : Draft} {header : Line} {parameters : List (String × Ty)}
  {returns : Option Ty} {prologue : Prologue}

theorem defined_begin :
    (body.begin header prologue).defined = prologue.code.filterMap Instr.defined? := by
  simp [Body.defined]

theorem mem_slots_begin {register : String} :
    register ∈ (body.begin header prologue).slots ↔
      (∃ parameter ∈ prologue.parameters, parameter.slot.register = register) ∨
        ∃ slot ∈ prologue.returnSlot, slot.register = register := by
  have hslots : (body.begin header prologue).slots = prologue.code.filterMap Instr.slot? := by
    simp [Body.slots]
  rw [hslots, prologue.filterMap_slot?_code, prologue.filterMap_defined?_code]
  simp

/-- Behind the prologue, code may mention the parameters. -/
theorem ready_begin (hprologue : draft.globals.root.prologue parameters returns = prologue)
    (hkeyed : unchecked ∨ draft.globals.root.Keyed) :
    (draft.body.begin header prologue).Ready unchecked (parameters.map Prod.fst) := by
  subst hprologue
  refine ⟨fun name hmem => ?_, hkeyed.imp_right fun hkeyed => ⟨⟨?_, ?_⟩, fun name hname => ?_⟩⟩
  · rw [Body.scope_begin]
    refine draft.globals.root.inUse_prologue parameters returns ?_
    rw [defined_begin] at hmem
    exact (Prologue.perm_registers _).subset (by simp [hmem])
  · rw [Body.scope_begin]
    exact hkeyed.prologue parameters returns
  · rw [Body.globals_begin]
    exact hkeyed
  · obtain ⟨parameter, hmem, hfound⟩ := hkeyed.exists_find?_prologue parameters returns hname
    refine ⟨parameter.slot, ?_, mem_slots_begin.mpr (Or.inl ⟨parameter, hmem, rfl⟩)⟩
    rwa [Body.scope_begin]

theorem owes_begin (hprologue : draft.globals.root.prologue parameters returns = prologue)
    {name : String}
    (hname : name ∈ prologue.parameters.map (fun parameter => parameter.incoming.register) ∨
      name = prologue.exit) :
    (draft.body.begin header prologue).Owes name := by
  have hnodup := prologue.perm_registers.nodup_iff.mpr
    (hprologue ▸ draft.globals.root.nodup_registers_prologue parameters returns)
  refine ⟨?_, fun hmem => ?_⟩
  · have hmem : name ∈ prologue.registers :=
      prologue.perm_registers.subset (by rcases hname with h | h <;> simp [h])
    rw [Body.scope_begin]
    subst hprologue
    exact draft.globals.root.inUse_prologue parameters returns hmem
  · rw [defined_begin] at hmem
    rw [List.nodup_append, List.nodup_cons] at hnodup
    rcases hname with hname | rfl
    · exact hnodup.2.2 name hname name (List.mem_cons_of_mem _ hmem) rfl
    · exact hnodup.2.1.1 hmem

theorem returns_begin {table : TypeTable} {function : String}
    (hprologue : draft.globals.root.prologue parameters returns = prologue) :
    Returns unchecked ⟨table, function, prologue.exit, prologue.returnSlot⟩
      (draft.body.begin header prologue) := by
  refine ⟨?_, fun slot hslot => Or.inl (mem_slots_begin.mpr (Or.inr ⟨slot, hslot, rfl⟩))⟩
  subst hprologue
  simp only [Scope.exit_prologue]
  exact not_isDeadLabel_newRegister _ rfl (by decide)

-- ════════════════════════
-- The end
-- ════════════════════════

/-- How the returned value is fetched from its stack slot, if there is one. -/
inductive Fetches : Option Var → List Instr → Option Value → Prop
  | nothing : Fetches none [] none
  | load (register : String) (slot : Var) :
      Fetches (some slot) [.load register slot.ty slot.operand] (some ⟨.register register, slot.ty⟩)

theorem Fetches.map_ty {slot : Option Var} {loads : List Instr} {value : Option Value}
    (h : Fetches slot loads value) : value.map Value.ty = slot.map Var.ty := by
  cases h <;> rfl

theorem Fetches.isPlain {slot : Option Var} {loads : List Instr} {value : Option Value}
    (h : Fetches slot loads value) : ∀ instruction ∈ loads, instruction.isPlain := by
  cases h <;> simp [Instr.isPlain, Instr.startsBlock, Instr.endsBlock]

/-- What the end of a function adds in front of its return: the exit, and the returned value. -/
structure Leaves (unchecked : Prop) (frame : Frame) (body ending : Body) (loads : List Instr)
    (value : Option Value) : Prop where
  flows : body.Flows unchecked [frame.exit] [] ending
  isOpen : ending.isClosed = false
  exit : ∃ labelled, (emit (.label frame.exit)).eval body = .ok ((), labelled) ∧
    ending.code = labelled.code ++ loads
  fetches : Fetches frame.returnSlot loads value
  readable : ∀ returned ∈ value, ending.Readable unchecked returned.operand

theorem Leaves.exitBlock {frame : Frame} {ending : Body} {loads : List Instr} {value : Option Value}
    (h : Leaves unchecked frame body ending loads value) :
    ∃ before, ending.code = before ++ .label frame.exit :: loads := by
  obtain ⟨labelled, hlabel, hcode⟩ := h.exit
  obtain ⟨before, hbefore⟩ := endsWith_of_eval_emit hlabel
  exact ⟨before, by rw [hcode, hbefore, List.append_assoc]; rfl⟩

theorem leaves_leave {frame : Frame} {result : Unit} {names : List String}
    (h : (leave frame).eval body = .ok (result, last)) (hready : body.Ready unchecked names)
    (hframe : Returns unchecked frame body) (howes : body.Owes frame.exit) :
    ∃ ending loads value, Leaves unchecked frame body ending loads value ∧
      last = ending.append (.ret value) := by
  simp only [leave, Pass.eval_bind_eq_ok_iff] at h
  obtain ⟨_, labelled, hlabel, h⟩ := h
  obtain ⟨hflows, hready, -⟩ := flows_setLabel hlabel hready howes hframe.live
  have hopen : labelled.isClosed = false := isClosed_of_eval_emit hlabel
  cases hslot : frame.returnSlot with
  | none =>
    simp only [hslot] at h
    refine ⟨labelled, [], none, ⟨hflows, hopen, ⟨labelled, hlabel, ?_⟩, hslot ▸ .nothing, ?_⟩, ?_⟩
    · exact (List.append_nil _).symm
    · simp
    · exact eq_append_of_eval_emit h hopen rfl
  | some slot =>
    simp only [hslot, Pass.eval_bind_eq_ok_iff] at h
    obtain ⟨value, minted, htemporary, _, ending, hload, hreturn⟩ := h
    obtain ⟨hminted, howes, hspend⟩ := extends_temporary htemporary hready
    obtain ⟨base, rfl, rfl⟩ := eval_temporary htemporary
    have hreserved := ((hframe.andThen hflows.extended.steps).andThen hminted.steps).reserved slot hslot
    obtain ⟨hloaded, havailable⟩ := extends_emit_target hload (Ready.andThen hready hminted) rfl rfl
      howes (by
        rintro _ hoperand register hregister
        obtain rfl := List.mem_singleton.mp hoperand
        cases hregister
        exact hreserved.imp_left Or.inl)
    have hending := eq_append_of_eval_emit hload hopen rfl
    have hopen : ending.isClosed = false := by rw [hending]; exact Body.isClosed_append _ _
    refine ⟨ending, [.load (labelled.scope.newRegister base) slot.ty slot.operand], _,
      ⟨?_, hopen, ⟨labelled, hlabel, ?_⟩, hslot ▸ Fetches.load _ slot, ?_⟩,
      eq_append_of_eval_emit hreturn hopen rfl⟩
    · exact hflows.andThen ((hspend [] ending hloaded).flows.weaken (List.nil_subset _) (by simp))
        (List.Subset.refl _) (by simp)
    · rw [hending]
      exact Body.code_append _ _
    · rintro _ ⟨⟩ register ⟨⟩
      exact Or.inl havailable

end Lowering

/-- A function with the stages in which it was lowered. -/
structure Stages (unchecked : Prop) (function : FunctionCode) where
  prologue : Prologue
  start : Body
  finished : Body
  ending : Body
  frame : Frame
  loads : List Instr
  value : Option Value
  parameters_eq : function.parameters =
    prologue.parameters.map fun parameter => parameter.incoming.register
  entry_start : start.entry = prologue.code
  code_start : start.code = []
  inUse_start : ∀ name ∈ start.defined, start.scope.inUse name
  nodup_start : (function.parameters ++ frame.exit :: start.defined).Nodup
  owes_start : ∀ name, name ∈ function.parameters ∨ name = frame.exit → start.Owes name
  exit_eq : ∃ suffix, frame.exit = "cr" ++ suffix
  returns_eq : frame.returnSlot.map Var.ty = function.signature.returns
  flows : start.Flows unchecked [] [frame.exit] finished
  leaves : Lowering.Leaves unchecked frame finished ending loads value
  entry_eq : function.entry = ending.entry
  code_eq : function.code = ending.code ++ [.ret value]

theorem Stages.steps {unchecked : Prop} {function : FunctionCode}
    (stages : Stages unchecked function) : stages.start.Steps (.flow unchecked) stages.ending :=
  stages.flows.extended.steps.trans stages.leaves.flows.extended.steps

/-- The entry of a function reserves stack slots and stores arguments. -/
theorem Stages.entry_cases {unchecked : Prop} {function : FunctionCode}
    (stages : Stages unchecked function) {P : Instr → Prop}
    (halloca : ∀ register ty, P (.alloca register ty))
    (hstore : ∀ parameter ∈ stages.prologue.parameters,
      P (.store parameter.incoming.value parameter.slot.operand)) :
    ∀ instruction ∈ function.entry, P instruction := by
  obtain ⟨slots, hslots⟩ := stages.steps.entry_eq
  rw [stages.entry_eq, hslots, stages.entry_start]
  intro instruction hmem
  rcases List.mem_append.mp hmem with hmem | hmem
  · exact stages.prologue.code_cases halloca hstore instruction hmem
  · obtain ⟨slot, -, rfl⟩ := List.mem_map.mp hmem
    exact halloca _ _

/-- The stages are those of the given definition. -/
structure Stages.Of {unchecked : Prop} {function : FunctionCode} (stages : Stages unchecked function)
    (globals : Globals) (table : TypeTable) (definition : FunctionDef) (signature : Signature) :
    Prop where
  signature_eq : function.signature = signature
  prologue_eq : globals.root.prologue ((definition.parameters.map TypedName.name).zip
    signature.parameters) signature.returns = stages.prologue
  start_eq : ∃ lines, stages.start =
    (Draft.mk globals lines).body.begin function.header stages.prologue
  frame_eq : stages.frame =
    ⟨table, definition.name, stages.prologue.exit, stages.prologue.returnSlot⟩
  lowered : (Lowering.lowerStmts stages.frame definition.body).eval stages.start =
    .ok ((), stages.finished)
  left : (Lowering.leave stages.frame).eval stages.finished =
    .ok ((), stages.ending.append (.ret stages.value))

namespace Stages.Of

variable {unchecked : Prop} {function : FunctionCode} {stages : Stages unchecked function}
  {globals : Globals} {table : TypeTable} {definition : FunctionDef} {signature : Signature}

theorem scope_start (h : stages.Of globals table definition signature) :
    stages.start.scope = stages.prologue.scope := by
  obtain ⟨lines, hstart⟩ := h.start_eq
  rw [hstart, Body.scope_begin]

theorem globals_start (h : stages.Of globals table definition signature) :
    stages.start.globals = globals := by
  obtain ⟨lines, hstart⟩ := h.start_eq
  rw [hstart, Body.globals_begin]
  rfl

/-- The arguments and their stack slots have the types of the signature. -/
theorem forall₂_parameters (h : stages.Of globals table definition signature)
    (hlength : definition.parameters.length = signature.parameters.length) :
    List.Forall₂ (fun parameter ty => parameter.incoming.ty = ty ∧ parameter.slot.ty = ty)
      stages.prologue.parameters signature.parameters := by
  rw [← h.prologue_eq, Scope.parameters_prologue]
  exact globals.root.forall₂_enter ((List.length_map TypedName.name).trans hlength)

end Stages.Of

/-- Every lowered function went through these stages. -/
theorem Lowering.exists_stages {unchecked : Prop} {draft : Draft} {table : TypeTable}
    {definition : FunctionDef} {symbol : String} {signature : Signature} {function : FunctionCode}
    {last : Body}
    (h : (lowerDefinition table definition symbol signature).eval draft.body = .ok (function, last))
    (hlength : definition.parameters.length = signature.parameters.length)
    (hscoped : unchecked ∨ draft.globals.root.Keyed ∧ definition.isScoped) :
    ∃ stages : Stages unchecked function, stages.Of draft.globals table definition signature ∧
      stages.start = draft.body.begin function.header stages.prologue ∧
      last = (stages.ending.append (.ret stages.value)).close := by
  let names := definition.parameters.map TypedName.name
  obtain ⟨prologue, hprologue⟩ : ∃ prologue, draft.globals.root.prologue
    (names.zip signature.parameters) signature.returns = prologue := ⟨_, rfl⟩
  obtain ⟨finished, left, hstatements, hleave, rfl, hfunction⟩ := eval_lowerDefinition h hprologue
  have hnames : (names.zip signature.parameters).map Prod.fst = names :=
    List.map_fst_zip (by simp [names, hlength])
  have hready : (draft.body.begin function.header prologue).Ready unchecked _ :=
    ready_begin hprologue (hscoped.imp_right And.left)
  rw [hnames] at hready
  let frame : Frame := ⟨table, definition.name, prologue.exit, prologue.returnSlot⟩
  have hframe : Returns unchecked frame (draft.body.begin function.header prologue) :=
    returns_begin hprologue
  obtain ⟨hflows, hready'⟩ := flowing_lowerStmts frame definition.body (hscoped.imp_right And.right)
    hstatements hready hframe
  have howes := hflows.extended.owes prologue.exit (by simp) (owes_begin hprologue (Or.inr rfl))
  obtain ⟨ending, loads, value, hleaves, rfl⟩ := leaves_leave hleave hready'
    (hframe.andThen hflows.extended.steps) howes
  subst hfunction
  refine ⟨{
    prologue, finished, ending, frame, loads, value
    start := draft.body.begin _ prologue
    parameters_eq := rfl
    entry_start := Body.entry_begin _ _ _
    code_start := Body.code_begin _ _ _
    inUse_start := hready.inUse_of_defined
    nodup_start := ?_
    owes_start := fun name => owes_begin hprologue
    exit_eq := ?_
    returns_eq := ?_
    flows := hflows
    leaves := hleaves
    entry_eq := Body.entry_append _ _
    code_eq := Body.code_append _ _ },
    ⟨rfl, hprologue, ⟨draft.lines, rfl⟩, rfl, hstatements, hleave⟩, rfl, rfl⟩
  · rw [defined_begin]
    refine prologue.perm_registers.nodup_iff.mpr ?_
    subst hprologue
    exact Scope.nodup_registers_prologue _ _ _
  · subst hprologue
    simp only [frame, Scope.exit_prologue]
    exact Scope.exists_newRegister_eq _ _
  · subst hprologue
    exact Scope.map_ty_returnSlot _ _ _

end ThreeAddress
