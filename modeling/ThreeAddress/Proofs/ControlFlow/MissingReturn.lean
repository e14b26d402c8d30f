import ThreeAddress.Proofs.ControlFlow.Shape
import ThreeAddress.Proofs.Typing.WellTyped
import ThreeAddress.Proofs.Warnings

/-!
# Missing returns

All returns of a function store to one stack slot and meet at one exit, where the slot is read. The
warning that a function may end without a return is exact: it is given if and only if control can
come to the exit without a store to the slot.

## Main definitions

* `FunctionCode.ExitsAt`: where a function returns what it finds in its stack slot.

## Main statements

* `Stages.Of.structured`: what stands in front of the exit is structured code.
* `warning_mem_iff_bypasses`: which functions are warned about, by their control flow.
-/

namespace ThreeAddress

/-- A function ends with an exit at the given position, where it returns what a stack slot holds. -/
def FunctionCode.ExitsAt (function : FunctionCode) (slot : String) (exit : Nat) : Prop :=
  ∃ name value ty, function.instructions.drop exit =
    [.label name, .load value ty (.register slot), .ret (some ⟨.register value, ty⟩)]

namespace Stages

variable {unchecked : Prop} {function : FunctionCode} (stages : Stages unchecked function)

theorem isOpen_start : stages.start.isClosed = false := by
  rw [Body.isClosed_eq_closedAfter, stages.code_start]
  rfl

/-- Behind the code of the statements comes the exit, with a branch to it unless the code ends with
one. -/
theorem exists_exit : ∃ jump, Closing stages.finished.isClosed (.branch stages.frame.exit) jump ∧
    function.instructions = function.entry ++ stages.finished.code ++
      (jump ++ .label stages.frame.exit :: (stages.loads ++ [.ret stages.value])) := by
  obtain ⟨labelled, hlabel, hending⟩ := stages.leaves.exit
  obtain ⟨jump, hlabelled, hcloses⟩ := Lowering.closing_setLabel hlabel
  refine ⟨jump, hcloses, ?_⟩
  rw [stages.instructions_eq, hending, hlabelled]
  simp

end Stages

namespace Stages.Of

variable {unchecked : Prop} {function : FunctionCode} {stages : Stages unchecked function}
  {globals : Globals} {table : TypeTable} {definition : FunctionDef} {signature : Signature}
  {slot : Var}

theorem fit_start (h : stages.Of globals table definition signature)
    (hsignature : table.denoteSignature definition = .ok signature) (hkeyed : globals.root.Keyed)
    {kept : List String}
    (hkept : ∀ register ∈ kept, ∃ slot ∈ stages.frame.returnSlot, slot.register = register) :
    Lowering.Fit (.declared table kept) stages.frame (definition.parameters.map TypedName.name)
      stages.start := by
  obtain ⟨hsound, hframe⟩ :=
    h.sound hsignature (Setting.admits_declared table hkeyed (h.frame_eq ▸ hkept))
  have hlive : ¬IsDeadLabel stages.frame.exit := by
    obtain ⟨lines, -⟩ := h.start_eq
    have hreturns : Lowering.Returns True ⟨table, definition.name, _, _⟩
      ((Draft.mk globals lines).body.begin function.header _) := Lowering.returns_begin h.prologue_eq
    rw [h.frame_eq]
    exact hreturns.live
  exact ⟨trivial, hlive, hsound, hframe, stages.inUse_start, Or.inl trivial⟩

/-- The entry stores the arguments, and none of them to the stack slot of the returned value. -/
theorem structured_entry (h : stages.Of globals table definition signature)
    (hslot : stages.frame.returnSlot = some slot) :
    Structured slot.register stages.frame.exit false function.entry := by
  refine .straight stages.isPlain_entry fun value hmem => ?_
  refine stages.entry_cases (P := (· ≠ .store value (.register slot.register))) (by simp) ?_ _
    hmem rfl
  intro parameter hparameter heq
  rw [h.frame_eq] at hslot
  refine Prologue.slot_ne h.prologue_eq hparameter hslot ?_
  injection heq with _ hoperand
  injection hoperand

/-- What stands in front of the exit is structured code, and all of it returns exactly if the
statements must return. -/
theorem structured (h : stages.Of globals table definition signature)
    (hsignature : table.denoteSignature definition = .ok signature) (hkeyed : globals.root.Keyed)
    (hscoped : definition.isScoped) (hslot : stages.frame.returnSlot = some slot) :
    ∃ part jump,
      Structured slot.register stages.frame.exit (Block.mustReturn definition.body) part ∧
      Closing (Block.mustReturn definition.body) (.branch stages.frame.exit) jump ∧
      function.instructions = part ++ (jump ++ .label stages.frame.exit ::
        (stages.loads ++ [.ret stages.value])) := by
  have hadds := Lowering.adding_lowerStmts ⟨List.mem_singleton_self _, hslot⟩ definition.body hscoped
    h.lowered (h.fit_start hsignature hkeyed (by simp [hslot])) stages.isOpen_start
  have hfinished : Block.mustReturn definition.body = false → stages.finished.isClosed = false :=
    fun hmust => (hmust ▸ hadds : stages.start.Adds _ _ false _).isOpen stages.isOpen_start
  obtain ⟨jump, hcloses, hinstructions⟩ := stages.exists_exit
  obtain ⟨added, hcode, hadded⟩ := hadds
  rw [stages.code_start, List.nil_append] at hcode
  rw [hcode] at hinstructions
  exact ⟨function.entry ++ added, jump, (h.structured_entry hslot).seq hadded,
    hcloses.mono hfinished, hinstructions⟩

/-- Control can bypass the stores to the stack slot exactly if the statements need not return. -/
theorem exists_exitsAt (h : stages.Of globals table definition signature)
    (hsignature : table.denoteSignature definition = .ok signature) (hkeyed : globals.root.Keyed)
    (hscoped : definition.isScoped) (hreturns : definition.returns.isSome) :
    ∃ slot exit, function.ExitsAt slot exit ∧
      (Bypasses slot function.instructions exit ↔ Block.mustReturn definition.body = false) := by
  have hsome : stages.frame.returnSlot.isSome := by
    rw [← Option.isSome_map (f := Var.ty), stages.returns_eq, h.signature_eq,
      TypeTable.isSome_returns hsignature]
    exact hreturns
  obtain ⟨slot, hslot⟩ := Option.isSome_iff_exists.mp hsome
  obtain ⟨part, jump, hpart, hcloses, hcode⟩ := h.structured hsignature hkeyed hscoped hslot
  have hfetches := stages.leaves.fetches
  rw [hslot] at hfetches
  generalize stages.loads = loads, stages.value = value at hfetches hcode
  cases hfetches with
  | load register =>
    refine ⟨slot.register, part.length + jump.length, ⟨stages.frame.exit, register, slot.ty, ?_⟩,
      hpart.bypasses_iff hcloses hcode (labelledOnce_of_nodup stages.nodup_labels)⟩
    rw [hcode, ← List.append_assoc, ← List.length_append, List.drop_left]
    rfl

end Stages.Of

/-- Where every variable is declared before it is mentioned, a function that yields a value is
warned about exactly if control can come to its exit without a store to the stack slot of the
returned value. Its statements must return exactly if there is such a store on every way there. -/
theorem warning_mem_iff_bypasses {module : Module} {program : Program}
    (h : (lower module).result = .ok program) (hscoped : module.isScoped) {position : Nat}
    {definition : FunctionDef} (hdefinition : module.functions[position]? = some definition)
    (hreturns : definition.returns.isSome) :
    ∃ function slot exit, program.functions[position]? = some function ∧
      function.ExitsAt slot exit ∧
      (definition.warning ∈ (lower module).trace.warnings ↔
        Bypasses slot function.instructions exit) ∧
      (Block.mustReturn definition.body ↔ ∀ visited, Path function.instructions visited exit →
        ∃ before ∈ visited, ∃ value,
          function.instructions[before]? = some (.store value (.register slot))) := by
  obtain ⟨table, hall⟩ := forall₂_lowerWith h
  obtain ⟨hlt, rfl⟩ := List.getElem?_eq_some_iff.mp hdefinition
  have hlt' : position < program.functions.length := hall.length_eq ▸ hlt
  have hlowered : LoweredTo _ table module.functions[position] program.functions[position] :=
    hall.get hlt hlt'
  obtain ⟨globals, symbol, signature, last, hsignature, hkeyed, hrun⟩ := hlowered
  have hmem := List.getElem_mem hlt
  have hscoped := List.all_eq_true.mp hscoped _ hmem
  obtain ⟨stages, hstages, -⟩ := Lowering.exists_stages hrun
    (TypeTable.length_denoteSignature hsignature) (Or.inl trivial)
  obtain ⟨slot, exit, hexits, hbypasses⟩ :=
    hstages.exists_exitsAt hsignature (hkeyed Scope.Keyed.empty) hscoped hreturns
  refine ⟨_, slot, exit, List.getElem?_eq_getElem hlt', hexits, ?_, ?_⟩
  · rw [hbypasses, lower, warning_mem_iff h hmem, FunctionDef.missesReturn, hreturns]
    simp
  · rw [← not_bypasses_iff, hbypasses, Bool.not_eq_false]

/-- A function that returns in both arms of a conditional and has statements behind its returns, and
one that only returns from inside a loop. -/
def searching : Module where
  items := [
    .function {
      name := "sign"
      parameters := [⟨"n", "i32"⟩]
      returns := some "i32"
      body := [
        .ite (.binary .less (.variableRef "n") (.integer 0))
          [.ret (some (.integer 1)), .assign (.variableRef "n") (.integer 0)]
          [.ret (some (.integer 0))],
        .loop (.boolean true) [.eval (.call "sign" [.variableRef "n"])]] },
    .function {
      name := "search"
      parameters := [⟨"n", "i32"⟩]
      returns := some "i32"
      body := [
        .loop (.binary .less (.variableRef "n") (.integer 9)) [
          .ite (.binary .equal (.variableRef "n") (.integer 3))
            [.ret (some (.variableRef "n"))]
            [.assign (.variableRef "n") (.binary .add (.variableRef "n") (.integer 1))]]] }]

theorem bypasses_searching : ∃ program sign search slot slot' exit exit',
    (lower searching).result = .ok program ∧ searching.isScoped ∧
    program.functions[0]? = some sign ∧ sign.ExitsAt slot exit ∧
    ¬Bypasses slot sign.instructions exit ∧
    program.functions[1]? = some search ∧ search.ExitsAt slot' exit' ∧
    Bypasses slot' search.instructions exit' := by
  obtain ⟨program, h, -⟩ :=
    exists_program_of_any {} searching (P := fun _ => true) (by decide +kernel)
  have hscoped : searching.isScoped := by decide +kernel
  have hwarnings : (lower searching).trace.warnings =
      ["not every path through " ++ quoted "search" ++ " returns a value"] := by decide +kernel
  obtain ⟨sign, slot, exit, hsign, hexits, hwarns, -⟩ :=
    warning_mem_iff_bypasses h hscoped (rfl : searching.functions[0]? = some _) rfl
  obtain ⟨search, slot', exit', hsearch, hexits', hwarns', -⟩ :=
    warning_mem_iff_bypasses h hscoped (rfl : searching.functions[1]? = some _) rfl
  refine ⟨program, sign, search, slot, slot', exit, exit', h, hscoped, hsign, hexits, ?_, hsearch,
    hexits', ?_⟩
  · rw [← hwarns, hwarnings]
    decide +kernel
  · rw [← hwarns', hwarnings]
    exact List.mem_singleton_self _

end ThreeAddress
