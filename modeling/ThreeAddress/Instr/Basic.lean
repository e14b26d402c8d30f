import ThreeAddress.Ty.Basic

/-!
# Instructions

The three-address code that lowering produces: an instruction takes operands, and most write one
register. Control flow is flat: labels and branches between them.

## Main definitions

* `Operand`, `Value`: what an instruction works on, without and with its type.
* `Instr`: one instruction.
* `Instr.mentions`: the types that an instruction mentions.
-/

namespace ThreeAddress

/-- What an instruction works on. -/
inductive Operand where
  | register (name : String)
  /-- A symbol of the module: a constant or a function. -/
  | global (name : String)
  | immediate (value : Int)
  | boolean (value : Bool)
  deriving DecidableEq, Repr

/-- An operand with the type it is used at. -/
structure Value where
  operand : Operand
  ty : Ty
  deriving DecidableEq

/-- A 64-bit word read as a signed number, which is how sizes and positions are printed. -/
def signedWord (word : UInt64) : Int :=
  word.toInt64.toInt

namespace Value

/-- A number at the given type. -/
def immediate (value : Int) (ty : Ty) : Value := ⟨.immediate value, ty⟩

/-- A constant position in an address computation. -/
def index (position : Nat) : Value :=
  immediate (signedWord (UInt64.ofNat position)) .i32

end Value

/-- The operations on integers. -/
inductive Opcode where
  | add
  | sub
  | mul
  | sdiv
  | srem
  | and
  | or
  | xor
  | shl
  | ashr
  deriving DecidableEq, Repr

/-- The comparisons of integers. -/
inductive Predicate where
  | eq
  | ne
  | slt
  | sle
  | sgt
  | sge
  deriving DecidableEq, Repr

/-- The ways to widen an integer. -/
inductive Extension where
  | sext
  | zext
  deriving DecidableEq, Repr

/-- One instruction. -/
inductive Instr where
  /-- Starts a basic block. -/
  | label (name : String)
  /-- Reserves a stack slot for one value. -/
  | alloca (target : String) (ty : Ty)
  | load (target : String) (ty : Ty) (address : Operand)
  | store (value : Value) (address : Operand)
  /-- Computes the address of a part of what `address` points to, read as a `base`. -/
  | elementAddress (target : String) (base : Ty) (address : Operand) (indices : List Value)
      (inbounds : Bool)
  | arithmetic (opcode : Opcode) (target : String) (ty : Ty) (lhs rhs : Operand)
  | compare (predicate : Predicate) (target : String) (ty : Ty) (lhs rhs : Operand)
  | extend (extension : Extension) (target : String) (value : Value) (ty : Ty)
  | call (target : Option String) (callee : String) (signature : Signature) (arguments : List Value)
  /-- Takes a member out of a struct value. -/
  | extractMember (target : String) (aggregate : Value) (position : Nat)
  | branch (label : String)
  | branchIf (condition : Operand) (positive negative : String)
  | ret (value : Option Value)
  deriving DecidableEq

namespace Instr

/-- Whether an instruction ends its basic block. -/
def endsBlock : Instr → Bool
  | branch _ | branchIf _ _ _ | ret _ => true
  | _ => false

/-- Whether an instruction starts a basic block. -/
def startsBlock : Instr → Bool
  | label _ => true
  | _ => false

/-- The types that an instruction mentions, in the order they are printed. -/
def mentions : Instr → List Ty
  | label _ | branch _ | branchIf _ _ _ => []
  | alloca _ ty | load _ ty _ | arithmetic _ _ ty _ _ | compare _ _ ty _ _ => [ty]
  | store value _ => [value.ty]
  | extend _ _ value ty => [value.ty, ty]
  | elementAddress _ base _ indices _ => base :: indices.map Value.ty
  | call _ _ signature arguments =>
    signature.returns.toList ++ signature.parameters ++ arguments.map Value.ty
  | extractMember _ aggregate _ => [aggregate.ty]
  | ret value => value.toList.map Value.ty

/-- The first type of an instruction that no instruction may use. -/
def placeholder? (instruction : Instr) : Option Ty :=
  instruction.mentions.find? fun ty => !ty.isConcrete

end Instr

end ThreeAddress
