import ThreeAddress.Lower.Call
import ThreeAddress.Lower.Place

/-!
# Expressions

An expression becomes a value that instructions can take as an operand. Literals and addresses of
variables are operands by themselves; everything else is computed into a new register.

## Main definitions

* `Operator.instruction`: the instruction behind a binary operator.
* `Lowering.applyOperator`, `Lowering.buildStruct`, `Lowering.constantArray`: the compound
  expressions.
* `Lowering.lowerInto`: an expression that is computed into a register.
* `Lowering.lowerExpr`: any expression.
* `Lowering.lowerTarget`: an expression that stands for a place.

## Design notes

The register of a computed value is taken before the parts of the expression are lowered. Only
`lowerInto` is recursive; the functions below it get the parts as `Pending`.
-/

namespace ThreeAddress

/-- The instruction behind a binary operator. -/
def Operator.instruction (target : String) (ty : Ty) (lhs rhs : Operand) : Operator → Instr
  | .add => .arithmetic .add target ty lhs rhs
  | .subtract => .arithmetic .sub target ty lhs rhs
  | .multiply => .arithmetic .mul target ty lhs rhs
  | .divide => .arithmetic .sdiv target ty lhs rhs
  | .remainder => .arithmetic .srem target ty lhs rhs
  | .bitAnd => .arithmetic .and target ty lhs rhs
  | .bitOr => .arithmetic .or target ty lhs rhs
  | .bitXor => .arithmetic .xor target ty lhs rhs
  | .shiftLeft => .arithmetic .shl target ty lhs rhs
  | .shiftRight => .arithmetic .ashr target ty lhs rhs
  | .equal => .compare .eq target ty lhs rhs
  | .notEqual => .compare .ne target ty lhs rhs
  | .less => .compare .slt target ty lhs rhs
  | .lessEqual => .compare .sle target ty lhs rhs
  | .greater => .compare .sgt target ty lhs rhs
  | .greaterEqual => .compare .sge target ty lhs rhs

namespace Ty

/-- Whether a binary operator applies to operands of a type. -/
def supports : Ty → Operator → Bool
  | .int width, operator => width.supports operator
  | _, _ => false

/-- The type of an integer literal where the given type is asked for. -/
def ofLiteral : Option Ty → Ty
  | some (.int width) => .int width
  | _ => .i32

/-- The type of an array literal's members where the given type is asked for. -/
def elementTy : Ty → Ty
  | .array member _ => if member.isInteger then member else .i32
  | _ => .i32

end Ty

/-- The value of a constant array's element. Truth values are only elements of arrays of truth
values. -/
def constantElement (width : Width) : Expr → Except Diagnostic Int
  | .integer value => .ok value
  | .boolean value =>
    if width = .i1 then .ok (if value then 1 else 0) else .error .elementNotConstant
  | _ => .error .elementNotConstant

/-- The values of a constant array's elements. -/
def constantElements (width : Width) : List Expr → Except Diagnostic (List Int)
  | [] => .ok []
  | element :: rest => do
    let value ← constantElement width element
    let values ← constantElements width rest
    return value :: values

/-- A member of a struct that is still to be lowered. -/
structure PendingField where
  field : String
  lower : Option Ty → Lowering Value

namespace Lowering

/-- Fills in the type of a register whose type was still open. -/
def settle (target : Var) (ty : Ty) : Lowering Var :=
  if target.dynamic then Pass.ofExcept (target.giveType ty) else pure target

/-- Computes a value into a new register. The type that is asked for is the register's, or else the
computation tells it. -/
def compute (expected : Option Ty) (computation : Var → Lowering Ty) : Lowering Value := do
  let target ← temporary ((expected.filter Ty.isStorable).getD .dynamic)
  let ty ← computation target
  let target ← settle target ty
  return ⟨target.operand, ty⟩

/-- The address of the first element of a constant. -/
def addressConstant (constant : Constant) (target : Var) : Lowering Unit := do
  let symbol ← intern constant
  emit (.elementAddress target.register constant.ty (.global symbol) [.index 0, .index 0] true)

/-- A binary operator. Both operands are lowered at one type, the left one first. -/
def applyOperator (frame : Frame) (operator : Operator) (lhs rhs : Pending) (target : Var) :
    Lowering Ty := do
  let expected := if target.dynamic || operator.isComparison then none else some target.ty
  let body ← Pass.get
  let ty ← Pass.ofExcept
    (commonType frame.table body.scope lhs.expression rhs.expression expected)
  Pass.require (ty.supports operator) (.operatorUndefined operator ty)
  let lhs ← lhs.lower (some ty)
  let rhs ← rhs.lower (some ty)
  expectType .operand ty lhs.ty
  expectType .operand ty rhs.ty
  Pass.require (lhs.ty = rhs.ty) (.internal (.operandsDiffer operator lhs.ty rhs.ty))
  emit (operator.instruction target.register ty lhs.operand rhs.operand)
  return if operator.isComparison then .bool else ty

/-- Writes the given members of a struct one by one. -/
def storeFields (definition : StructTy) (address : Operand) : List PendingField → Lowering Unit
  | [] => pure ()
  | entry :: rest => do
    let (position, member) ← Pass.ofExcept (definition.memberNamed entry.field)
    let value ← entry.lower (some member.ty)
    expectType .field member.ty value.ty
    let place ← memberPlace definition address position member
    emit (.store value place.address)
    storeFields definition address rest

/-- A struct value. It is put together in a stack slot and loaded as a whole. -/
def buildStruct (frame : Frame) (struct : String) (fields : List PendingField) (target : Var) :
    Lowering Ty := do
  let definition ← Pass.ofExcept (frame.table.get struct)
  let slot ← temporary (.struct definition)
  reserve slot
  storeFields definition slot.operand fields
  loadInto target.register slot.place

/-- A constant array with members of the given type. -/
def arrayOf (elements : List Expr) (member : Ty) (target : Var) : Lowering Ty :=
  match member with
  | .int width => do
    let values ← Pass.ofExcept (constantElements width elements)
    let constant := Constant.array width values
    addressConstant constant target
    return constant.ty
  | _ => Pass.fail (.internal (.elementsNotInteger member))

/-- A constant array. Its members have the type that is asked for. -/
def constantArray (elements : List Expr) (target : Var) : Lowering Ty :=
  arrayOf elements target.ty.elementTy target

/-- A call whose result is used. -/
def callForValue (callee : String) (arguments : List Pending) (target : Var) : Lowering Ty := do
  match ← call callee arguments (some target) with
  | some ty => return ty
  | none => Pass.fail (.noValue callee)

/-- An expression as an operand, given how it is computed into a register. Literals and addresses of
variables are never computed. -/
def operandBy (into : Var → Lowering Ty) : Expr → Option Ty → Lowering Value
  | .integer value, expected => pure (.immediate value (.ofLiteral expected))
  | .boolean value, _ => pure ⟨.boolean value, .bool⟩
  | .address name, _ => do
    let var ← variableNamed name
    return ⟨var.operand, .ref var.ty⟩
  | _, expected => compute expected into

mutual

/-- Lowers an expression into a register, and yields the type it came out at. -/
def lowerInto (frame : Frame) : Expr → Var → Lowering Ty
  | .integer value, _ => Pass.fail (.internal (.inlineOperand (.integer value)))
  | .boolean value, _ => Pass.fail (.internal (.inlineOperand (.boolean value)))
  | .address name, _ => Pass.fail (.internal (.inlineOperand (.address name)))
  | .text value, target => do
    addressConstant (.text value) target
    return .bytes
  | .variableRef name, target => do
    let place ← variablePlace name
    loadInto target.register place
  | .binary operator lhs rhs, target =>
    applyOperator frame operator ⟨lhs, operandBy (lowerInto frame lhs) lhs⟩
      ⟨rhs, operandBy (lowerInto frame rhs) rhs⟩ target
  | .call callee arguments, target => callForValue callee (pending frame arguments) target
  | .deref name depth, target => do
    let place ← derefPlace name depth
    loadInto target.register place
  | .field base field, target => do
    let place ← fieldPlace base field
    loadInto target.register place
  | .element array index, target => do
    let place ← elementPlace array (operandBy (lowerInto frame index) index none)
    loadInto target.register place
  | .build struct fields, target => buildStruct frame struct (pendingFields frame fields) target
  | .array elements, target => constantArray elements target

/-- Expressions together with how to lower them. -/
def pending (frame : Frame) : List Expr → List Pending
  | [] => []
  | expression :: rest =>
    ⟨expression, operandBy (lowerInto frame expression) expression⟩ :: pending frame rest

/-- Members together with how to lower them. -/
def pendingFields (frame : Frame) : List FieldValue → List PendingField
  | [] => []
  | ⟨field, value⟩ :: rest =>
    ⟨field, operandBy (lowerInto frame value) value⟩ :: pendingFields frame rest

end

/-- Lowers an expression to a value. The type that is asked for guides literals and built-ins; the
value has the type it came out at. -/
def lowerExpr (frame : Frame) (expression : Expr) : Option Ty → Lowering Value :=
  operandBy (lowerInto frame expression) expression

/-- The place that an expression stands for. -/
def lowerTarget (frame : Frame) : Expr → Lowering Place
  | .variableRef name => variablePlace name
  | .deref name depth => derefPlace name depth
  | .field base field => fieldPlace base field
  | .element array index => elementPlace array (lowerExpr frame index none)
  | _ => Pass.fail .notAPlace

end Lowering

end ThreeAddress
