import ThreeAddress.Proofs.Emission.Module
import ThreeAddress.Proofs.Simulation.Stmt

/-!
# Entering a function

The entry of a function copies the arguments into stack slots and reserves a stack slot for every
variable. Behind it, the cells of the parameters hold the arguments and all others are empty.

## Main definitions

* `Machine.Entered`: a machine that has performed the first instructions of an entry.

## Main statements

* `linked_begin`: the parameters are linked to their stack slots.
* `Machine.exists_entered`: a machine gets behind the entry.
-/

namespace ThreeAddress

/-- Entering a function declares its parameters in order. -/
theorem Resolves.enter {env : Env} {vars : List Var} {scope : Scope} (h : Resolves env vars scope)
    (hkeyed : scope.Keyed) {parameters : List TypedName} {types : List Ty}
    (htypes : List.Forall₂ (fun parameter ty => (Shape.ofText parameter.ty).Describes ty)
      parameters types) :
    Resolves
      (parameters.foldl (fun env parameter => env.declare parameter.name (.ofText parameter.ty)) env)
      (vars ++ (scope.enter ((parameters.map TypedName.name).zip types)).1.map Parameter.slot)
      (scope.enter ((parameters.map TypedName.name).zip types)).2 := by
  induction htypes generalizing env vars scope with
  | nil => simpa [Scope.enter] using h
  | @cons parameter ty parameters types hshape _ ih =>
    let minted := (scope.mint (parameter.name ++ ".val") ty).2
    let slot := Var.make (minted.newRegister parameter.name) ty
    have hminted := h.of_find? fun _ _ => hkeyed.find?_mint (parameter.name ++ ".val") ty
    have hdeclared : Resolves (env.declare parameter.name (.ofText parameter.ty)) (vars ++ [slot])
        (minted.bind parameter.name ty).2 := hminted.insert parameter.name hshape
    have hrest := ih hdeclared ((hkeyed.mint _ _).bind parameter.name ty)
    rw [List.append_assoc] at hrest
    exact hrest

theorem Resolves.prologue {env : Env} {vars : List Var} {scope : Scope}
    {parameters : List (String × Ty)} (hkeyed : scope.Keyed)
    (h : Resolves env vars (scope.enter parameters).2) (returns : Option Ty) :
    Resolves env vars (scope.prologue parameters returns).scope := by
  have hkeyed := hkeyed.enter parameters
  have hlabelled := h.of_find? fun _ _ => hkeyed.find?_mint "cr" .label
  cases returns with
  | none => exact hlabelled
  | some ty => exact hlabelled.of_find? fun _ _ => (hkeyed.mint _ _).find?_mint "retptr" ty

/-- Behind the prologue, the parameters are linked to their stack slots. -/
theorem linked_begin (draft : Draft) (hkeyed : draft.globals.root.Keyed)
    {parameters : List TypedName} {types : List Ty} {returns : Option Ty} {header : Line}
    {prologue : Prologue}
    (htypes : List.Forall₂ (fun parameter ty => (Shape.ofText parameter.ty).Describes ty)
      parameters types)
    (hprologue : draft.globals.root.prologue ((parameters.map TypedName.name).zip types) returns =
      prologue) :
    Linked (.ofParameters parameters) (prologue.parameters.map Parameter.slot)
      (draft.body.begin header prologue) := by
  have hready : (draft.body.begin header prologue).Ready False _ :=
    Lowering.ready_begin hprologue (Or.inr hkeyed)
  have hnodup : prologue.registers.Nodup := hprologue ▸ Scope.nodup_registers_prologue _ _ _
  have hintroduced := prologue.filterMap_defined?_code
  refine ⟨?_, ⟨?_, ?_⟩, hready.inUse_of_defined, ?_, ?_, ?_⟩
  · rw [Body.scope_begin]
    subst hprologue
    refine Resolves.prologue hkeyed ?_ returns
    rw [Scope.parameters_prologue]
    exact (Resolves.empty draft.globals.root).enter hkeyed htypes
  · rw [Body.scope_begin]
    subst hprologue
    exact hkeyed.prologue _ _
  · rw [Body.globals_begin]
    exact hkeyed
  · intro var hmem
    obtain ⟨parameter, hparameter, rfl⟩ := List.mem_map.mp hmem
    refine hready.inUse_of_defined _ ?_
    rw [Lowering.defined_begin, hintroduced]
    exact List.mem_append_left _ (List.mem_map.mpr ⟨parameter, hparameter, rfl⟩)
  · intro var hmem
    obtain ⟨parameter, hparameter, rfl⟩ := List.mem_map.mp hmem
    exact Lowering.mem_slots_begin.mpr (Or.inl ⟨parameter, hparameter, rfl⟩)
  · obtain ⟨-, hcode, -⟩ := List.nodup_append.mp (prologue.perm_registers.nodup_iff.mpr hnodup)
    have hslots := (List.nodup_cons.mp hcode).2
    rw [hintroduced] at hslots
    rw [List.map_map]
    exact (List.nodup_append.mp hslots).1

-- ════════════════════════
-- The entry
-- ════════════════════════

namespace Machine

/-- Every parameter holds its argument. -/
theorem forall₂_start {parameters : List String} {arguments : List Word}
    (hlength : parameters.length = arguments.length) (hnodup : parameters.Nodup) :
    List.Forall₂ (fun name word => name ∈ parameters ∧
        (start parameters arguments).registers name = some (.word word)) parameters arguments := by
  induction parameters generalizing arguments with
  | nil =>
    obtain rfl := List.eq_nil_of_length_eq_zero hlength.symm
    exact .nil
  | cons parameter parameters ih =>
    obtain ⟨argument, arguments, rfl⟩ := List.exists_cons_of_length_eq_add_one hlength.symm
    obtain ⟨hnew, hnodup⟩ := List.nodup_cons.mp hnodup
    refine .cons ⟨List.mem_cons_self, by simp [start]⟩ ?_
    refine (ih (by simpa using hlength) hnodup).imp ?_
    rintro name word ⟨hmem, hregister⟩
    have hne : name ≠ parameter := by
      rintro rfl
      exact hnew hmem
    refine ⟨List.mem_cons_of_mem _ hmem, ?_⟩
    simpa [start, List.lookup_cons, beq_eq_false_iff_ne.mpr hne] using hregister

/-- A machine has performed the first instructions of an entry, which have written the given words
to the first stack slots. -/
structure Entered (initial : Machine) (before : List Instr) (words : List Word)
    (machine : Machine) : Prop where
  position : machine.position = before.length
  slots : machine.slots = (before.filterMap Instr.slot?).length
  reserved : ∀ register ∈ before.filterMap Instr.slot?, machine.registers register =
    some (.address ((before.filterMap Instr.slot?).idxOf register))
  unchanged : ∀ register ∉ before.filterMap Instr.slot?,
    machine.registers register = initial.registers register
  memory : ∀ slot, machine.memory slot = words[slot]?

namespace Entered

variable {initial machine : Machine} {code before after : List Instr} {words : List Word}

theorem fetch (h : Entered initial before words machine) {instruction : Instr}
    (hcode : code = before ++ instruction :: after) :
    code[machine.position]? = some instruction := by
  simp [hcode, h.position]

/-- A stack slot gets the next address. -/
theorem reserve (h : Entered initial before words machine) {register : String} {ty : Ty}
    (hcode : code = before ++ .alloca register ty :: after)
    (hnodup : (code.filterMap Instr.slot?).Nodup) :
    Reaches code machine (machine.allocate register) ∧
      Entered initial (before ++ [.alloca register ty]) words (machine.allocate register) := by
  have hnew : register ∉ before.filterMap Instr.slot? := by
    rw [hcode, List.filterMap_append, List.nodup_append] at hnodup
    exact fun hmem => hnodup.2.2 register hmem register (by simp [Instr.slot?]) rfl
  have hslots : (before ++ [Instr.alloca register ty]).filterMap Instr.slot? =
    before.filterMap Instr.slot? ++ [register] := by simp [Instr.slot?]
  refine ⟨.perform (h.fetch hcode) rfl, ?_, ?_, ?_, ?_, h.memory⟩
  · simp [allocate, assign, h.position]
  · rw [hslots]
    simp [allocate, h.slots]
  · intro other hmem
    rw [hslots] at hmem ⊢
    by_cases hother : other = register
    · subst hother
      rw [List.idxOf_append_of_notMem hnew]
      simp [allocate, assign, h.slots]
    · have hmem : other ∈ before.filterMap Instr.slot? := by simpa [hother] using hmem
      rw [List.idxOf_append_of_mem hmem]
      simpa [allocate, assign, hother] using h.reserved other hmem
  · intro other hmem
    rw [hslots, List.mem_append, List.mem_singleton, not_or] at hmem
    simpa [allocate, assign, hmem.2] using h.unchanged other hmem.1

theorem exists_allocas (h : Entered initial before words machine) {slots : List Var}
    (hcode : code = before ++ slots.map (fun slot => .alloca slot.register slot.ty) ++ after)
    (hnodup : (code.filterMap Instr.slot?).Nodup) :
    ∃ next, Reaches code machine next ∧
      Entered initial (before ++ slots.map fun slot => .alloca slot.register slot.ty) words next := by
  induction slots generalizing before machine with
  | nil => exact ⟨machine, .refl machine, by simpa using h⟩
  | cons slot slots ih =>
    obtain ⟨hreserves, hreserved⟩ := h.reserve (by simpa using hcode) hnodup
    obtain ⟨next, hreaches, hentered⟩ := ih hreserved (by simp [hcode])
    exact ⟨next, hreserves.trans hreaches, by simpa using hentered⟩

/-- An argument is written to the stack slot that was reserved last. -/
theorem write (h : Entered initial before words machine) {parameter : Parameter} {word : Word}
    (hcode : code = before ++ .store parameter.incoming.value parameter.slot.operand :: after)
    (hslot : machine.registers parameter.slot.register = some (.address words.length))
    (hregister : machine.registers parameter.incoming.register = some (.word word))
    (hty : parameter.incoming.ty = .int word.width) :
    Reaches code machine (machine.write words.length word) ∧
      Entered initial (before ++ [.store parameter.incoming.value parameter.slot.operand])
        (words ++ [word]) (machine.write words.length word) := by
  have hslots : (before ++ [Instr.store parameter.incoming.value parameter.slot.operand]).filterMap
    Instr.slot? = before.filterMap Instr.slot? := by simp [Instr.slot?]
  refine ⟨.perform (h.fetch hcode) ?_, ?_, ?_, ?_, ?_, fun slot => ?_⟩
  · simp [perform, value?, word?, address?, Var.value, Var.operand, hregister, hty, hslot]
  · simp [Machine.write, h.position]
  · rw [hslots]
    exact h.slots
  · rw [hslots]
    exact h.reserved
  · rw [hslots]
    exact h.unchanged
  · simp only [Machine.write, h.memory]
    grind

/-- Every argument is copied to a stack slot, so the first stack slots hold the arguments. -/
theorem exists_copies (h : Entered initial before words machine) {parameters : List Parameter}
    {arguments : List Word} (hcode : code = before ++ parameters.flatMap Parameter.copy ++ after)
    (hnodup : (code.filterMap Instr.slot?).Nodup)
    (hwords : words.length = (before.filterMap Instr.slot?).length)
    (harguments : List.Forall₂ (fun parameter word =>
      parameter.incoming.register ∉ code.filterMap Instr.slot? ∧
      initial.registers parameter.incoming.register = some (.word word) ∧
      parameter.incoming.ty = .int word.width) parameters arguments) :
    ∃ next, Reaches code machine next ∧
      Entered initial (before ++ parameters.flatMap Parameter.copy) (words ++ arguments) next := by
  induction harguments generalizing before words machine with
  | nil => exact ⟨machine, .refl machine, by simpa using h⟩
  | @cons parameter word parameters arguments hargument _ ih =>
    obtain ⟨hnew, hregister, hty⟩ := hargument
    have hcode' : code = (before ++ [.alloca parameter.slot.register parameter.slot.ty]) ++
        .store parameter.incoming.value parameter.slot.operand ::
          (parameters.flatMap Parameter.copy ++ after) := by
      simp [hcode, Parameter.copy]
    obtain ⟨hreserves, hreserved⟩ := h.reserve (by simpa using hcode') hnodup
    have hslot : (machine.allocate parameter.slot.register).registers parameter.slot.register =
        some (.address words.length) := by
      simp [allocate, assign, h.slots, hwords]
    have hincoming := hreserved.unchanged parameter.incoming.register fun hmem => hnew (by
      rw [hcode', List.filterMap_append]
      exact List.mem_append_left _ hmem)
    obtain ⟨hwrites, hwritten⟩ := hreserved.write hcode' hslot (hincoming.trans hregister) hty
    obtain ⟨next, hreaches, hentered⟩ := ih hwritten (by simp [hcode']) (by simp [Instr.slot?, hwords])
    exact ⟨next, hreserves.trans (hwrites.trans hreaches), by simpa [Parameter.copy] using hentered⟩

end Entered

theorem exists_entered {code after : List Instr} {parameters : List Parameter} {slots : List Var}
    {arguments : List Word}
    (hcode : code = parameters.flatMap Parameter.copy ++
      slots.map (fun slot => .alloca slot.register slot.ty) ++ after)
    (hnodup : (parameters.map (fun parameter => parameter.incoming.register) ++
      code.filterMap Instr.slot?).Nodup)
    (htypes : List.Forall₂ (fun parameter word => parameter.incoming.ty = .int (Word.width word))
      parameters arguments) {initial : Machine}
    (hinitial : initial =
      start (parameters.map fun parameter => parameter.incoming.register) arguments) :
    ∃ machine, Reaches code initial machine ∧
      Entered initial (parameters.flatMap Parameter.copy ++
        slots.map fun slot => .alloca slot.register slot.ty) arguments machine := by
  obtain ⟨hincoming, hslots, hapart⟩ := List.nodup_append.mp hnodup
  have hstart := forall₂_start (by simpa using htypes.length_eq) hincoming
  rw [List.forall₂_map_left_iff, ← hinitial] at hstart
  have hnothing : Entered initial [] [] initial := by
    subst hinitial
    exact ⟨rfl, rfl, by simp, by simp, by simp [start]⟩
  obtain ⟨middle, hcopies, hcopied⟩ := hnothing.exists_copies (by simpa using hcode) hslots rfl
    (List.Forall₂.mp (fun parameter word hargument hty =>
      ⟨fun hmem => hapart _ hargument.1 _ hmem rfl, hargument.2, hty⟩) hstart htypes)
  obtain ⟨next, hallocas, hentered⟩ := hcopied.exists_allocas hcode hslots
  exact ⟨next, hcopies.trans hallocas, hentered⟩

/-- Behind the entry, the cells of the parameters hold the arguments. -/
theorem Entered.mirrors {image : Image} {initial machine : Machine} {parameters : List Var}
    {arguments : List Word} (h : Entered initial image.entry arguments machine)
    (hnodup : image.slots.Nodup) (hslots : parameters.map Var.register <+: image.slots)
    (hcells : parameters <+: image.cells)
    (htypes : List.Forall₂ (fun var word => Var.ty var = .int (Word.width word)) parameters
      arguments) :
    image.Mirrors (fun cell => arguments[cell]?) machine := by
  have hparameter : ∀ {cell : Nat} {word : Word}, arguments[cell]? = some word → ∃ var : Var,
      image.cells[cell]? = some var ∧ image.slots[cell]? = some var.register ∧
        var.ty = .int word.width := by
    intro cell word hword
    obtain ⟨hlt, rfl⟩ := List.getElem?_eq_some_iff.mp hword
    have hlt' : cell < parameters.length := htypes.length_eq ▸ hlt
    refine ⟨parameters[cell], List.prefix_iff_getElem?.mp hcells cell hlt', ?_, htypes.get hlt' hlt⟩
    rw [List.prefix_iff_getElem?.mp hslots cell (by simpa using hlt'), List.getElem_map]
  refine ⟨h.reserved, fun cell var hcell => ?_, fun cell var width word hcell hty hread => ?_⟩
  · rw [h.memory]
    have haddress : image.slots[image.address var.register]? = some var.register :=
      List.getElem?_idxOf (image.cells_reserved var (List.mem_of_getElem? hcell))
    -- A stack slot that holds an argument belongs to the parameter, whichever side shows it.
    refine Option.ext fun word => ⟨fun hword => ?_, fun hword => ?_⟩
    · obtain ⟨var', hcell', hslot, -⟩ := hparameter hword
      have hregister : var'.register = var.register := Option.some.inj (hslot.symm.trans haddress)
      obtain rfl := Image.cells_apart hcell' hcell (by rw [hregister])
      exact hword
    · obtain ⟨var', hcell', hslot, -⟩ := hparameter hword
      obtain rfl : var' = var := Option.some.inj (hcell'.symm.trans hcell)
      have hlt := (List.getElem?_eq_some_iff.mp hslot).1
      obtain rfl := (List.getElem?_inj hlt hnodup).mp (hslot.trans haddress.symm)
      exact hword
  · obtain ⟨var', hcell', -, hty'⟩ := hparameter hread
    rw [hcell] at hcell'
    cases hcell'
    rw [hty] at hty'
    cases hty'
    rfl

end Machine

end ThreeAddress
