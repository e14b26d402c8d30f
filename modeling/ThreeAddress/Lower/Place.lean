import ThreeAddress.Lower.Body

/-!
# Places

A place is where a value is stored. Assignments write to places, and most expressions read one.

## Main definitions

* `Place`: an address and the type of what is stored there.
* `Lowering.followAll`: the loads through a chain of references.
* `Lowering.derefPlace`, `Lowering.fieldPlace`, `Lowering.elementPlace`: the places that
  expressions denote.
-/

namespace ThreeAddress

/-- An address and the type of what is stored there. -/
structure Place where
  address : Operand
  ty : Ty
  deriving DecidableEq

namespace Var

/-- The memory whose address a variable holds. -/
def place (var : Var) : Place := ⟨var.operand, var.ty⟩

end Var

namespace Lowering

/-- Loads what is stored at a place into a register. -/
def loadInto (target : String) (place : Place) : Lowering Ty := do
  emit (.load target place.ty place.address)
  return place.ty

/-- Loads a pointer of the given type. -/
def follow (ty : Ty) (address : Operand) : Lowering Operand := do
  let pointer ← temporary ty
  emit (.load pointer.register ty address)
  return pointer.operand

/-- Loads one pointer after the other, each from the address the one before it yields and at the type
the one before it points to. -/
def followAll (place : Place) : Nat → Lowering Place
  | 0 => pure place
  | depth + 1 => do
    let address ← follow place.ty place.address
    match place.ty.target? with
    | some target => followAll ⟨address, target⟩ depth
    | none => Pass.fail (.internal (.notAReference place.ty))

/-- The place of a variable. -/
def variablePlace (name : String) : Lowering Place :=
  Var.place <$> variableNamed name

/-- The place that a variable leads to after `depth` dereferences. That there are enough references is
known before the first load. -/
def derefPlace (name : String) (depth : Nat) : Lowering Place := do
  let var ← variableNamed name
  let _ ← Pass.ofExcept (var.ty.dereferenced name depth)
  followAll var.place depth

/-- The place of one member of the struct at an address. -/
def memberPlace (definition : StructTy) (address : Operand) (position : Nat) (member : Member) :
    Lowering Place := do
  let target ← temporary (.ref member.ty)
  emit (.elementAddress target.register (.struct definition) address
    [.index 0, .index position] true)
  return ⟨target.operand, member.ty⟩

/-- The address of the struct that a variable is or points to. A pointer to it is loaded first. -/
def structAddress (var : Var) : Lowering Operand :=
  if var.ty.isReference then follow var.ty var.operand else pure var.operand

/-- The place of a member of a struct variable. -/
def fieldPlace (base field : String) : Lowering Place := do
  let var ← variableNamed base
  let definition ← Pass.ofExcept (var.ty.requireStruct base)
  let address ← structAddress var
  let (position, member) ← Pass.ofExcept (definition.memberNamed field)
  memberPlace definition address position member

/-- The place of an element of an array variable. The index is lowered once the array is loaded, and
it is not compared with the length. -/
def elementPlace (array : String) (index : Lowering Value) : Lowering Place := do
  let var ← variableNamed array
  let member ← Pass.ofExcept (var.ty.requireArray array)
  let address ← follow var.ty var.operand
  let index ← index
  Pass.require index.ty.isInteger (.typeMismatch .operand .i32 index.ty)
  let target ← temporary (.ref member)
  emit (.elementAddress target.register member address [index] false)
  return ⟨target.operand, member⟩

end Lowering

end ThreeAddress
