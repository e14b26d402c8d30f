import ThreeAddress.Proofs.Simulation.Entry
import ThreeAddress.Proofs.SingleDefinition

/-!
# Functions return what they mean

The finished code of a lowered function is entered, does what the statements of the function mean,
and leaves by the one return at its end.

## Main statements

* `Image.Returned.exists_return`: behind the exit, the returned value is fetched and returned.
* `exists_run_eq_of_run_eq`: a lowered function returns what the evaluator returns.
-/

namespace ThreeAddress

open Lowering

namespace Image

variable {image : Image} {frame : Frame} {exit : Body} {machine : Machine}

/-- Behind the exit, the returned value is fetched and returned. -/
theorem Returned.exists_return {result : Option Word} {loads : List Instr} {value : Option Value}
    (h : image.Returned frame exit result machine) (hexit : image.HasExit frame exit)
    (hcode : image.code = exit.code ++ loads ++ [.ret value])
    (hfetches : Fetches frame.returnSlot loads value) :
    ∃ next, Machine.Reaches image.instructions machine next ∧
      next.step image.instructions = some (.returned result) := by
  have hfetch (offset : Nat) : image.instructions[image.behind exit + offset]? =
      (loads ++ [.ret value])[offset]? := by
    rw [instructions, behind, hcode, List.append_assoc, Nat.add_assoc,
      List.getElem?_append_right (Nat.le_add_right _ _), Nat.add_sub_cancel_left,
      List.getElem?_append_right (Nat.le_add_right _ _), Nat.add_sub_cancel_left]
  obtain ⟨position, slots, ty_eq, memory⟩ := h
  generalize hslot : frame.returnSlot = returnSlot at hfetches ty_eq memory
  cases hfetches with
  | nothing =>
    obtain rfl : result = none := by simpa using ty_eq.symm
    refine ⟨machine, .refl machine, ?_⟩
    rw [Machine.step, position, ← Nat.add_zero (image.behind exit), hfetch 0]
    rfl
  | load register slot =>
    obtain ⟨word, rfl, hty⟩ := Option.map_eq_some_iff.mp ty_eq.symm
    have haddress : machine.address? slot.operand = some (image.address slot.register) := by
      simp [Machine.address?, Var.operand, slots slot.register (hexit.reserved slot hslot)]
    have hload : image.instructions[machine.position]? =
        some (.load register slot.ty slot.operand) := by
      rw [position, ← Nat.add_zero (image.behind exit), hfetch 0]
      rfl
    refine ⟨machine.assign register (.word word), .perform hload ?_, ?_⟩
    · simp [Machine.perform, haddress, memory slot rfl, ← hty]
    · rw [Machine.step]
      change Option.bind (image.instructions[machine.position + 1]?) _ = _
      rw [position, hfetch 1]
      simp [Machine.perform, Machine.value?, Machine.word?, Machine.assign, ← hty]

end Image

-- ════════════════════════
-- Whole functions
-- ════════════════════════

namespace Stages

variable {unchecked : Prop} {function : FunctionCode} (stages : Stages unchecked function)

/-- The finished code of a function with the variables of its cells. -/
def image {env : Env} {vars : List Var} (hlinked : Linked env vars stages.finished) : Image where
  entry := function.entry
  code := function.code
  cells := vars
  nodup_labels :=
    (Instr.filterMap_sublist_defined? Instr.defined?_of_label? _).nodup
      (List.nodup_append.mp stages.nodup_names).2.1
  target_not_mem instruction hmem target htarget hslot := by
    have hnodup := (List.nodup_append.mp stages.nodup_names).2.1
    rw [FunctionCode.instructions, List.filterMap_append] at hnodup
    exact (List.nodup_append.mp hnodup).2.2 target
      ((Instr.filterMap_sublist_defined? Instr.defined?_of_slot? _).subset hslot) target
      (List.mem_filterMap.mpr ⟨instruction, hmem, Instr.defined?_of_target? htarget⟩) rfl
  cells_reserved var hmem := by
    rw [stages.entry_eq]
    exact stages.leaves.flows.extended.steps.slots_subset (hlinked.reserved var hmem)
  nodup_cells := hlinked.nodup

/-- The stack slots of the parameters come first. -/
theorem exists_entry_eq : ∃ slots : List Var, function.entry =
    stages.prologue.parameters.flatMap Parameter.copy ++
      slots.map fun slot => .alloca slot.register slot.ty := by
  obtain ⟨added, hadded⟩ := stages.steps.entry_eq
  refine ⟨stages.prologue.returnSlot.toList ++ added, ?_⟩
  rw [stages.entry_eq, hadded, stages.entry_start, Prologue.code, List.map_append, List.append_assoc]

theorem slots_isPrefix : (stages.prologue.parameters.map Parameter.slot).map Var.register <+:
    function.entry.filterMap Instr.slot? := by
  obtain ⟨added, hadded⟩ := stages.steps.entry_eq
  rw [stages.entry_eq, hadded, stages.entry_start, List.filterMap_append,
    Prologue.filterMap_slot?_code, Prologue.filterMap_defined?_code, List.map_map, List.append_assoc]
  exact List.prefix_append _ _

/-- A machine gets to the statements of a function, with the arguments in the cells of the
parameters. -/
theorem exists_at {env : Env} {vars : List Var} {arguments : List Word}
    (hlinked : Linked env vars stages.finished)
    (hvars : stages.prologue.parameters.map Parameter.slot <+: vars)
    (htypes : List.Forall₂ (fun parameter word => parameter.incoming.ty = .int (Word.width word) ∧
      parameter.slot.ty = .int (Word.width word)) stages.prologue.parameters arguments) :
    ∃ machine, Machine.Reaches function.instructions
        (Machine.start function.parameters arguments) machine ∧
      (stages.image hlinked).At stages.start (fun cell => arguments[cell]?) machine := by
  have hnodup : (function.parameters ++ function.instructions.filterMap Instr.slot?).Nodup :=
    ((List.Sublist.refl _).append
      (Instr.filterMap_sublist_defined? Instr.defined?_of_slot? _)).nodup stages.nodup_names
  obtain ⟨slots, hslots⟩ := stages.exists_entry_eq
  rw [stages.parameters_eq] at hnodup ⊢
  obtain ⟨machine, hreaches, hentered⟩ := Machine.exists_entered
    (by rw [FunctionCode.instructions, hslots]) hnodup (htypes.imp fun _ _ h => h.1) rfl
  rw [← hslots] at hentered
  refine ⟨machine, hreaches, ?_, ?_, hentered.mirrors ?_ stages.slots_isPrefix hvars ?_⟩
  · rw [Body.isClosed, stages.code_start]
    rfl
  · simp [Image.behind, Stages.image, stages.code_start, hentered.position]
  · rw [FunctionCode.instructions, List.filterMap_append] at hnodup
    exact (List.nodup_append.mp (List.nodup_append.mp hnodup).2.1).1
  · exact List.forall₂_map_left_iff.mpr (htypes.imp fun _ _ h => h.2)

theorem hasExit {env : Env} {vars : List Var} {labelled : Body}
    (hlinked : Linked env vars stages.finished)
    (hlabel : (emit (.label stages.frame.exit)).eval stages.finished = .ok ((), labelled))
    (hcode : stages.ending.code = labelled.code ++ stages.loads)
    (hslots : ∀ slot ∈ stages.frame.returnSlot, slot.register ∈ stages.start.slots) :
    (stages.image hlinked).HasExit stages.frame labelled where
  endsWith := endsWith_of_eval_emit hlabel
  holds := by
    change labelled.code <+: function.code
    rw [stages.code_eq, hcode, List.append_assoc]
    exact List.prefix_append _ _
  reserved slot hslot := by
    change slot.register ∈ function.entry.filterMap Instr.slot?
    rw [stages.entry_eq]
    exact stages.steps.slots_subset (hslots slot hslot)

/-- If the statements of a function end, the function returns what they say. -/
theorem exists_run {env env' : Env} {vars : List Var} {returns : Option Width}
    {statements : List Stmt} {arguments : List Word} {fuel : Nat} {completion : Completion}
    {result : Option Word}
    (hsimulated : Simulated stages.frame env' (stages.prologue.parameters.map Parameter.slot) vars
      stages.start stages.finished fun fuel store => Block.execute fuel returns env statements store)
    (hslots : ∀ slot ∈ stages.frame.returnSlot, slot.register ∈ stages.start.slots)
    (htypes : List.Forall₂ (fun parameter word => parameter.incoming.ty = .int (Word.width word) ∧
      parameter.slot.ty = .int (Word.width word)) stages.prologue.parameters arguments)
    (hexecute : Block.execute fuel returns env statements (fun cell => arguments[cell]?) =
      some completion)
    (hresult : completion = .returned result ∨
      stages.frame.returnSlot = none ∧ result = none ∧ ∃ store, completion = .normal store) :
    ∃ steps, function.run steps arguments = some result := by
  let image := stages.image hsimulated.linked
  obtain ⟨labelled, hlabel, hcode⟩ := stages.leaves.exit
  have hexit : image.HasExit stages.frame labelled := stages.hasExit _ hlabel hcode hslots
  have hfinished : image.Holds stages.finished := hexit.holds.of_grows (grows_emit hlabel)
  obtain ⟨machine, hentry, hat⟩ := stages.exists_at hsimulated.linked hsimulated.extended htypes
  obtain ⟨next, hbody, hcompleted⟩ := hsimulated.ends hfinished List.prefix_rfl hexit hexecute hat
  obtain ⟨last, hlast, hreturned⟩ : ∃ last, Machine.Reaches image.instructions next last ∧
      image.Returned stages.frame labelled result last := by
    rcases hresult with rfl | ⟨hnone, rfl, store, rfl⟩
    · exact ⟨next, .refl next, hcompleted⟩
    · obtain ⟨last, hlast, hat⟩ := Image.At.label hcompleted hlabel hexit.holds
      exact ⟨last, hlast, hat.position, hat.mirrors.slots, by simp [hnone], by simp [hnone]⟩
  obtain ⟨final, hfinal, hstep⟩ := hreturned.exists_return hexit
    (by rw [← hcode]; exact stages.code_eq) stages.leaves.fetches
  exact (hentry.trans (hbody.trans (hlast.trans hfinal))).exists_run hstep

end Stages

/-- The evaluator runs a function on arguments of the right widths, and the way in which its
statements end tells what it returns. -/
theorem FunctionDef.exists_execute {definition : FunctionDef} {fuel : Nat} {arguments : List Word}
    {result : Option Word} (h : definition.run fuel arguments = some result) :
    ∃ returns completion,
      List.Forall₂ (fun parameter argument =>
        Shape.ofText (TypedName.ty parameter) = .integer (Word.width argument))
        definition.parameters arguments ∧
      (definition.returns.mapM fun text => (Shape.ofText text).width?) = some returns ∧
      Block.execute fuel returns (.ofParameters definition.parameters) definition.body
        (fun cell => arguments[cell]?) = some completion ∧
      (completion = .returned result ∨
        returns = none ∧ result = none ∧ ∃ store, completion = .normal store) := by
  unfold run at h
  split at h
  · next hshapes =>
    simp only [Option.bind_eq_bind, Option.bind_eq_some_iff] at h
    obtain ⟨returns, hreturns, completion, hexecute, h⟩ := h
    refine ⟨returns, completion, ?_, hreturns, hexecute, ?_⟩
    · rw [← List.forall₂_eq_eq_eq, List.forall₂_map_left_iff, List.forall₂_map_right_iff] at hshapes
      exact hshapes
    · cases completion with
      | returned value =>
        cases h
        exact Or.inl rfl
      | normal store =>
        refine Or.inr ?_
        split_ifs at h with hnone
        cases h
        exact ⟨Option.isNone_iff_eq_none.mp hnone, rfl, store, rfl⟩
  · simp at h

-- ════════════════════════
-- Programs
-- ════════════════════════

namespace TypeTable

variable {table : TypeTable}

theorem eq_map_int {parameters : List TypedName} {types : List Ty} {arguments : List Word}
    (hdenotes : List.Forall₂ (fun parameter ty => table.denote parameter.ty = .ok ty) parameters
      types)
    (hshapes : List.Forall₂ (fun parameter argument =>
      Shape.ofText (TypedName.ty parameter) = .integer (Word.width argument)) parameters arguments) :
    types = arguments.map fun argument => .int argument.width := by
  induction hdenotes generalizing arguments with
  | nil =>
    cases hshapes
    rfl
  | cons hdenote _ ih =>
    cases hshapes with
    | cons hshape hshapes =>
      have hdescribes := describes_ofText hdenote
      rw [hshape] at hdescribes
      rw [List.map_cons, ← ih hshapes, hdescribes]

theorem mapM_denote_eq {text : Option String} {ty : Option Ty} {width : Option Width}
    (hty : text.mapM table.denote = .ok ty)
    (hwidth : (text.mapM fun text => (Shape.ofText text).width?) = some width) :
    ty = width.map Ty.int := by
  cases text with
  | none =>
    cases hty
    cases hwidth
    rfl
  | some text =>
    obtain ⟨found, hdenote, rfl⟩ := exists_denote_of_mapM hty
    obtain ⟨width, hfound, rfl⟩ := Option.map_eq_some_iff.mp hwidth
    rw [(describes_ofText hdenote).eq_int hfound]
    rfl

end TypeTable

/-- A lowered function returns what the evaluator returns. -/
theorem LoweredTo.exists_run {keyed : Prop} {table : TypeTable} {definition : FunctionDef}
    {function : FunctionCode} (h : LoweredTo keyed table definition function) (hkeyed : keyed)
    {fuel : Nat} {arguments : List Word} {result : Option Word}
    (hrun : definition.run fuel arguments = some result) :
    ∃ steps, function.run steps arguments = some result := by
  obtain ⟨draft, symbol, signature, last, hsignature, hroot, hlower⟩ := h
  obtain ⟨hdenotes, hreturns⟩ := TypeTable.denotes_of_denoteSignature hsignature
  obtain ⟨returns, completion, hshapes, hwidths, hexecute, hresult⟩ :=
    FunctionDef.exists_execute hrun
  obtain ⟨stages, hstages, -⟩ := exists_stages hlower hdenotes.length_eq (Or.inl trivial)
  obtain ⟨lines, hstart⟩ := hstages.start_eq
  have hlinked : Linked _ _ (Body.begin _ function.header _) :=
    linked_begin ⟨draft.globals, lines⟩ (hroot hkeyed)
      (hdenotes.imp fun _ _ => TypeTable.describes_ofText) hstages.prologue_eq
  rw [← hstart] at hlinked
  have hframe : stages.frame.returnSlot.map Var.ty = returns.map Ty.int := by
    rw [← TypeTable.mapM_denote_eq hreturns hwidths, hstages.frame_eq, ← hstages.prologue_eq]
    exact Scope.map_ty_returnSlot _ _ _
  obtain ⟨vars, hsimulated⟩ :=
    simulating_lowerStmts hframe definition.body _ hstages.lowered hlinked
  refine stages.exists_run hsimulated ?_ ?_ hexecute ?_
  · intro slot hslot
    rw [hstages.frame_eq] at hslot
    rw [hstart]
    exact mem_slots_begin.mpr (Or.inr ⟨slot, hslot, rfl⟩)
  · have htypes := TypeTable.eq_map_int hdenotes hshapes
    have hentered := hstages.forall₂_parameters hdenotes.length_eq
    rwa [htypes, List.forall₂_map_right_iff] at hentered
  · rcases hresult with hresult | ⟨rfl, hresult⟩
    · exact Or.inl hresult
    · exact Or.inr ⟨by simpa using hframe, hresult⟩

/-- If the evaluator returns something for a function of a lowered module, then its code, entered
with the same arguments, returns the same. -/
theorem exists_run_eq_of_run_eq {module : Module} {program : Program}
    (h : (lower module).result = .ok program) {position : Nat} {definition : FunctionDef}
    (hdefinition : module.functions[position]? = some definition) {fuel : Nat}
    {arguments : List Word} {result : Option Word}
    (hrun : definition.run fuel arguments = some result) :
    ∃ function, program.functions[position]? = some function ∧
      ∃ steps, function.run steps arguments = some result := by
  obtain ⟨table, hall⟩ := forall₂_lowerWith h
  obtain ⟨hlt, rfl⟩ := List.getElem?_eq_some_iff.mp hdefinition
  have hlt' : position < program.functions.length := hall.length_eq ▸ hlt
  exact ⟨program.functions[position], List.getElem?_eq_getElem hlt',
    (hall.get hlt hlt').exists_run Scope.Keyed.empty hrun⟩

/-- The greatest common divisor. It declares a variable in a loop, assigns to its parameters, and
returns from the middle, with a declaration behind the return. -/
def gcd : FunctionDef where
  name := "gcd"
  parameters := [⟨"a", "i32"⟩, ⟨"b", "i32"⟩]
  returns := some "i32"
  body := [
    .ite (.binary .equal (.variableRef "a") (.variableRef "b"))
      [.ret (some (.variableRef "a")), .bind "never" none (.boolean true)] [],
    .loop (.binary .notEqual (.variableRef "b") (.integer 0)) [
      .bind "rest" none (.binary .remainder (.variableRef "a") (.variableRef "b")),
      .assign (.variableRef "a") (.variableRef "b"),
      .assign (.variableRef "b") (.variableRef "rest")],
    .ret (some (.variableRef "a"))]

theorem exists_run_eq_gcd : ∃ program, (lower ⟨[.function gcd]⟩).result = .ok program ∧
    gcd.run 5 [.ofInt .i32 18, .ofInt .i32 (-12)] = some (some (.ofInt .i32 6)) ∧
    ∃ function, program.functions[0]? = some function ∧
      ∃ steps, function.run steps [.ofInt .i32 18, .ofInt .i32 (-12)] =
        some (some (.ofInt .i32 6)) := by
  obtain ⟨program, -, h, -, -⟩ :=
    exists_function_of_any {} ⟨[.function gcd]⟩ (P := fun _ => true) (by decide +kernel)
  have hrun : gcd.run 5 [.ofInt .i32 18, .ofInt .i32 (-12)] = some (some (.ofInt .i32 6)) := by
    decide +kernel
  exact ⟨program, h, hrun, exists_run_eq_of_run_eq h rfl hrun⟩

end ThreeAddress
