import ThreeAddress.Proofs.Emission.Module

/-!
# Single definition

Registers and labels of a function share one space of names, and every name is introduced once:
by the header, by a label, or by the one instruction that writes the register.

## Main statements

* `Body.Steps.nodup_defined`: no step introduces a name twice.
* `Stages.nodup_names`: the names of a lowered function differ from each other.
* `nodup_names_of_mem_functions`: so they do in every program that lowering yields.
-/

namespace ThreeAddress

namespace Body

variable {permit : Permit} {body last : Body}

/-- A step introduces only a name that is still owed. -/
theorem Step.nodup_defined (h : Step permit body last) (hbody : body.defined.Nodup) :
    last.defined.Nodup := by
  cases h with
  | mint | rebind | addConstant => exact hbody
  | reserve slot howed =>
    refine (perm_defined_reserve body _).nodup_iff.mpr ?_
    exact List.nodup_append.mpr ⟨hbody, List.nodup_singleton _, by
      rintro name hmem _ hslot rfl
      obtain rfl := List.mem_singleton.mp hslot
      exact howed.2 hmem⟩
  | append instruction _ _ howed _ =>
    rw [defined_append]
    refine List.nodup_append.mpr ⟨hbody, ?_, ?_⟩
    · cases instruction.defined? <;> simp
    · rintro name hmem _ hdefined rfl
      exact (howed name (by simpa using hdefined)).2 hmem

theorem Steps.nodup_defined (h : Steps permit body last) (hbody : body.defined.Nodup) :
    last.defined.Nodup :=
  h.invariant (P := fun body => body.defined.Nodup) (fun _ _ => Step.nodup_defined) hbody

end Body

/-- Where names differ from each other, a register is written in one place. -/
theorem FunctionCode.eq_of_target?_eq {function : FunctionCode} (h : function.names.Nodup)
    {first second : Nat} {instruction other : Instr} {register : String}
    (hfirst : function.instructions[first]? = some instruction)
    (hsecond : function.instructions[second]? = some other)
    (hinstruction : instruction.target? = some register) (hother : other.target? = some register) :
    first = second := by
  have hinstruction := Instr.defined?_of_target? hinstruction
  have hother := Instr.defined?_of_target? hother
  have hpairwise := (List.pairwise_filterMap.mp (List.nodup_append.mp h).2.1)
  rw [List.pairwise_iff_getElem] at hpairwise
  obtain ⟨hlt, rfl⟩ := List.getElem?_eq_some_iff.mp hfirst
  obtain ⟨hlt', rfl⟩ := List.getElem?_eq_some_iff.mp hsecond
  rcases Nat.lt_trichotomy first second with hless | heq | hless
  · exact absurd rfl (hpairwise first second hlt hlt' hless _ hinstruction _ hother)
  · exact heq
  · exact absurd rfl (hpairwise second first hlt' hlt hless _ hother _ hinstruction)

namespace Stages

variable {unchecked : Prop} {function : FunctionCode} (stages : Stages unchecked function)

include stages

theorem names_eq : function.names = function.parameters ++ stages.ending.defined := by
  simp [FunctionCode.names, FunctionCode.instructions, stages.entry_eq, stages.code_eq, Body.defined,
    Instr.defined?, Instr.label?, Instr.target?]

/-- The registers of the arguments are never introduced by an instruction, since they are owed from
the start to the end. -/
theorem owes_ending {name : String} (hname : name ∈ function.parameters) :
    stages.ending.Owes name := by
  have hstart := stages.owes_start name (Or.inl hname)
  have hexit : name ≠ stages.frame.exit := by
    rintro rfl
    exact (List.nodup_append.mp stages.nodup_start).2.2 _ hname _ List.mem_cons_self rfl
  have hfinished := stages.flows.extended.owes name (by simp) hstart
  exact stages.leaves.flows.extended.owes name (by simpa using hexit) hfinished

theorem nodup_names : function.names.Nodup := by
  obtain ⟨hparameters, hdefined, -⟩ := List.nodup_append.mp stages.nodup_start
  have hending := stages.steps.nodup_defined (List.nodup_cons.mp hdefined).2
  rw [stages.names_eq]
  refine List.nodup_append.mpr ⟨hparameters, hending, ?_⟩
  rintro name hname _ hmem rfl
  exact (stages.owes_ending hname).2 hmem

end Stages

/-- Whatever names a module and its prelude use, the registers of the arguments, the labels and the
registers that instructions write all differ from each other in every lowered function. -/
theorem nodup_names_of_mem_functions {prelude : Scope} {module : Module} {program : Program}
    (h : (lowerWith prelude module).result = .ok program) {function : FunctionCode}
    (hfunction : function ∈ program.functions) : function.names.Nodup := by
  obtain ⟨stages⟩ := exists_stages_of_mem h (Or.inl trivial) hfunction
  exact stages.nodup_names

/-- A function whose names clash with those that lowering makes: two parameters of one name, and
variables called like labels, temporaries and numbered registers. -/
def clashing : Module where
  items := [.function {
    name := "sym9"
    parameters := [⟨"n", "i32"⟩, ⟨"n", "i32"⟩]
    returns := some "i32"
    body := [
      .bind "cr" none (.variableRef "n"),
      .bind "retptr" none (.boolean true),
      .bind "n.val" none (.binary .add (.variableRef "n") (.variableRef "cr")),
      .bind "n" none (.variableRef "n.val"),
      .bind "sym12" none (.variableRef "n"),
      .bind "" none (.variableRef "sym12"),
      .ite (.variableRef "retptr") [.ret (some (.variableRef ""))] [.bind "iftrue" none (.integer 1)],
      .ret (some (.variableRef "cr"))] }]

/-- A prelude that takes the names of a label and of a temporary. -/
def clashingPrelude : Scope :=
  (Scope.ofPrelude [[("dead", .function ⟨none, [], false⟩)], [("sym14", .function ⟨none, [], false⟩)]]).1

theorem nodup_names_clashing : ∃ program function,
    (lowerWith clashingPrelude clashing).result = .ok program ∧ function ∈ program.functions ∧
      function.names.Nodup := by
  obtain ⟨program, function, h, hfunction, -⟩ :=
    exists_function_of_any clashingPrelude clashing (P := fun _ => true) (by decide +kernel)
  exact ⟨program, function, h, hfunction, nodup_names_of_mem_functions h hfunction⟩

end ThreeAddress
