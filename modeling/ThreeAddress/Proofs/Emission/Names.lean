import ThreeAddress.Program

/-!
# Names in instructions

Registers and labels share one space of names. An instruction introduces at most one name, reads
some registers, and may lead to some labels.

## Main definitions

* `Instr.target?`, `Instr.defined?`: the register an instruction writes, and the name it introduces.
* `Instr.uses`: the registers it reads.
* `Instr.leadsTo`: the labels it may go to.
* `Instr.isPlain`: neither the start nor the end of a basic block.
* `FunctionCode.names`: all names that a function introduces, its parameters first.
-/

namespace ThreeAddress

/-- The register that an operand names. -/
def Operand.register? : Operand → Option String
  | .register name => some name
  | _ => none

namespace Instr

/-- The register that an instruction writes. -/
def target? : Instr → Option String
  | alloca target _ | load target _ _ | elementAddress target _ _ _ _ | arithmetic _ target _ _ _
  | compare _ target _ _ _ | extend _ target _ _ | extractMember target _ _ => some target
  | call target _ _ _ => target
  | label _ | store _ _ | branch _ | branchIf _ _ _ | ret _ => none

/-- The name of a label. -/
def label? : Instr → Option String
  | label name => some name
  | _ => none

/-- The name that an instruction introduces: a label, or the register it writes. -/
def defined? (instruction : Instr) : Option String :=
  instruction.label?.or instruction.target?

/-- The register of a stack slot. -/
def slot? : Instr → Option String
  | alloca target _ => some target
  | _ => none

/-- What an instruction works on, in the order it is written. -/
def operands : Instr → List Operand
  | label _ | alloca _ _ | branch _ => []
  | load _ _ address => [address]
  | store value address => [value.operand, address]
  | elementAddress _ _ address indices _ => address :: indices.map Value.operand
  | arithmetic _ _ _ lhs rhs | compare _ _ _ lhs rhs => [lhs, rhs]
  | extend _ _ value _ => [value.operand]
  | call _ _ _ arguments => arguments.map Value.operand
  | extractMember _ aggregate _ => [aggregate.operand]
  | branchIf condition _ _ => [condition]
  | ret value => value.toList.map Value.operand

/-- The registers that an instruction reads. -/
def uses (instruction : Instr) : List String :=
  instruction.operands.filterMap Operand.register?

/-- The labels that an instruction may go to. -/
def leadsTo : Instr → List String
  | branch name => [name]
  | branchIf _ positive negative => [positive, negative]
  | _ => []

/-- Whether an instruction leaves the function. -/
def isReturn : Instr → Bool
  | ret _ => true
  | _ => false

/-- Whether an instruction neither starts nor ends a basic block. -/
def isPlain (instruction : Instr) : Bool :=
  !instruction.startsBlock && !instruction.endsBlock

theorem defined?_of_not_startsBlock {instruction : Instr} (h : instruction.startsBlock = false) :
    instruction.defined? = instruction.target? := by
  cases instruction <;> simp_all [defined?, label?, startsBlock]

theorem label?_of_not_startsBlock {instruction : Instr} (h : instruction.startsBlock = false) :
    instruction.label? = none := by
  cases instruction <;> simp_all [label?, startsBlock]

theorem leadsTo_of_not_endsBlock {instruction : Instr} (h : instruction.endsBlock = false) :
    instruction.leadsTo = [] := by
  cases instruction <;> simp_all [leadsTo, endsBlock]

@[simp] theorem startsBlock_of_isPlain {instruction : Instr} (h : instruction.isPlain) :
    instruction.startsBlock = false := by
  simp_all [isPlain]

@[simp] theorem endsBlock_of_isPlain {instruction : Instr} (h : instruction.isPlain) :
    instruction.endsBlock = false := by
  simp_all [isPlain]

theorem defined?_of_label? {instruction : Instr} {name : String}
    (h : instruction.label? = some name) : instruction.defined? = some name := by
  simp [defined?, h]

theorem defined?_of_target? {instruction : Instr} {register : String}
    (h : instruction.target? = some register) : instruction.defined? = some register := by
  cases instruction <;> simp_all [target?, defined?, label?]

theorem defined?_of_slot? {instruction : Instr} {register : String}
    (h : instruction.slot? = some register) : instruction.defined? = some register := by
  cases instruction <;> simp_all [slot?, target?, defined?, label?]

/-- Names of one kind come in the order in which all names are introduced. -/
theorem filterMap_sublist_defined? {name? : Instr → Option String}
    (hname : ∀ {instruction name}, name? instruction = some name → instruction.defined? = some name)
    (code : List Instr) : (code.filterMap name?).Sublist (code.filterMap defined?) := by
  induction code with
  | nil => exact .slnil
  | cons instruction rest ih =>
    cases hfound : name? instruction with
    | none =>
      rw [List.filterMap_cons_none hfound, List.filterMap_cons]
      split
      · exact ih
      · exact ih.cons _
    | some name =>
      rw [List.filterMap_cons_some hfound, List.filterMap_cons_some (hname hfound)]
      exact ih.cons_cons _

end Instr

namespace FunctionCode

/-- All names that a function introduces: the registers of its parameters, its labels, and the
registers that its instructions write. -/
def names (function : FunctionCode) : List String :=
  function.parameters ++ function.instructions.filterMap Instr.defined?

end FunctionCode

end ThreeAddress
