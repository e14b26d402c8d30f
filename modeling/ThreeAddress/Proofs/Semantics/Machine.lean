import Mathlib.Logic.Relation
import ThreeAddress.Proofs.Emission.Names
import ThreeAddress.Proofs.Semantics.Word

/-!
# Meaning of the emitted code

A machine that runs the instructions of one function. Registers hold words and addresses of stack
slots, and a stack slot holds one word. It stops on what it has no meaning for: calls, parts of
structs and arrays, values that are not integers, and operations without a result.

## Main definitions

* `Machine.step`: performs one instruction.
* `Machine.Reaches`: performs any number of instructions.
* `FunctionCode.run`: runs a function on some arguments, from its first instruction.
-/

namespace ThreeAddress

/-- What a register holds. -/
inductive Datum where
  | word (word : Word)
  /-- The address of a stack slot. -/
  | address (slot : Nat)
  deriving DecidableEq

/-- A function in the middle of its execution. -/
structure Machine where
  /-- The position of the next instruction. -/
  position : Nat
  registers : String → Option Datum
  /-- The contents of the stack slots. -/
  memory : Nat → Option Word
  /-- The number of stack slots so far. -/
  slots : Nat

def labelPosition? (code : List Instr) (name : String) : Option Nat :=
  code.findIdx? fun instruction => instruction.label? = some name

namespace Machine

/-- An operand as a word of the given width. -/
def word? (machine : Machine) (width : Width) : Operand → Option Word
  | .register name =>
    match machine.registers name with
    | some (.word word) => if word.width = width then some word else none
    | _ => none
  | .immediate value => some (.ofInt width value)
  | .boolean value => if width = .i1 then some (.ofBool value) else none
  | .global _ => none

/-- A typed operand as a word. -/
def value? (machine : Machine) (value : Value) : Option Word :=
  match value.ty with
  | .int width => machine.word? width value.operand
  | _ => none

/-- An operand as the address of a stack slot. -/
def address? (machine : Machine) : Operand → Option Nat
  | .register name =>
    match machine.registers name with
    | some (.address slot) => some slot
    | _ => none
  | _ => none

def advance (machine : Machine) : Machine :=
  { machine with position := machine.position + 1 }

/-- Writes a register and goes on. -/
def assign (machine : Machine) (target : String) (datum : Datum) : Machine :=
  { machine with
    position := machine.position + 1
    registers := fun name => if name = target then some datum else machine.registers name }

/-- Reserves a stack slot and goes on. -/
def allocate (machine : Machine) (target : String) : Machine :=
  { machine.assign target (.address machine.slots) with slots := machine.slots + 1 }

/-- Writes a stack slot and goes on. -/
def write (machine : Machine) (slot : Nat) (word : Word) : Machine :=
  { machine with
    position := machine.position + 1
    memory := fun other => if other = slot then some word else machine.memory other }

/-- Goes to another instruction. -/
def goTo (machine : Machine) (position : Nat) : Machine :=
  { machine with position }

/-- What comes out of an instruction. -/
inductive Status where
  | running (machine : Machine)
  | returned (value : Option Word)

/-- Computes a register from two operands. -/
def operate (machine : Machine) (instruction : Instr) (target : String) (ty : Ty)
    (lhs rhs : Operand) : Option Status := do
  let left ← machine.value? ⟨lhs, ty⟩
  let right ← machine.value? ⟨rhs, ty⟩
  let word ← instruction.apply left right
  return .running (machine.assign target (.word word))

def perform (code : List Instr) (machine : Machine) : Instr → Option Status
  | .label _ => some (.running machine.advance)
  | .alloca target _ => some (.running (machine.allocate target))
  | .load target ty address => do
    let slot ← machine.address? address
    let word ← machine.memory slot
    if ty = .int word.width then
      return .running (machine.assign target (.word word))
    else
      none
  | .store value address => do
    let word ← machine.value? value
    let slot ← machine.address? address
    return .running (machine.write slot word)
  | .arithmetic opcode target ty lhs rhs =>
    machine.operate (.arithmetic opcode target ty lhs rhs) target ty lhs rhs
  | .compare predicate target ty lhs rhs =>
    machine.operate (.compare predicate target ty lhs rhs) target ty lhs rhs
  | .branch name => do
    let position ← labelPosition? code name
    return .running (machine.goTo position)
  | .branchIf condition positive negative => do
    let word ← machine.word? .i1 condition
    let truth ← word.truth?
    let position ← labelPosition? code (if truth then positive else negative)
    return .running (machine.goTo position)
  | .ret none => some (.returned none)
  | .ret (some value) => do
    let word ← machine.value? value
    return .returned (some word)
  | .elementAddress .. | .extend .. | .call .. | .extractMember .. => none

def step (code : List Instr) (machine : Machine) : Option Status :=
  (code[machine.position]?).bind (machine.perform code)

/-- Runs until the function returns, for at most the given number of steps. -/
def run (code : List Instr) : Nat → Machine → Option (Option Word)
  | 0, _ => none
  | steps + 1, machine =>
    match machine.step code with
    | some (.running next) => next.run code steps
    | some (.returned value) => some value
    | none => none

/-- One machine comes out of another by performing instructions. -/
def Reaches (code : List Instr) : Machine → Machine → Prop :=
  Relation.ReflTransGen fun machine next => machine.step code = some (.running next)

/-- The machine in front of the first instruction of a function. -/
def start (parameters : List String) (arguments : List Word) : Machine where
  position := 0
  registers name := ((parameters.zip arguments).lookup name).map .word
  memory _ := none
  slots := 0

end Machine

def FunctionCode.run (function : FunctionCode) (steps : Nat) (arguments : List Word) :
    Option (Option Word) :=
  (Machine.start function.parameters arguments).run function.instructions steps

namespace Machine

variable {code : List Instr} {machine middle next : Machine}

theorem Reaches.refl (machine : Machine) : Reaches code machine machine :=
  Relation.ReflTransGen.refl

theorem Reaches.trans (h : Reaches code machine middle) (h' : Reaches code middle next) :
    Reaches code machine next :=
  Relation.ReflTransGen.trans h h'

/-- An instruction at the position of a machine is performed. -/
theorem Reaches.perform {instruction : Instr}
    (hinstruction : code[machine.position]? = some instruction)
    (hperform : machine.perform code instruction = some (.running next)) :
    Reaches code machine next :=
  Relation.ReflTransGen.single (by rw [step, hinstruction]; exact hperform)

/-- A machine that reaches a return runs to it. -/
theorem Reaches.exists_run {value : Option Word} (h : Reaches code machine next)
    (hreturn : next.step code = some (.returned value)) :
    ∃ steps, machine.run code steps = some value := by
  induction h using Relation.ReflTransGen.head_induction_on with
  | refl => exact ⟨1, by simp [run, hreturn]⟩
  | head hstep _ ih =>
    obtain ⟨steps, hsteps⟩ := ih
    exact ⟨steps + 1, by simpa [run, hstep] using hsteps⟩

end Machine

end ThreeAddress
