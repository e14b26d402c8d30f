import ThreeAddress.Lower.Value

/-!
# Statements

## Main definitions

* `Lowering.declare`, `Lowering.assign`, `Lowering.returnFrom`: the simple statements.
* `Lowering.joinArm`: the end of one arm of a conditional.
* `Lowering.lowerStmt`, `Lowering.lowerStmts`: any statement, and statements in order.
-/

namespace ThreeAddress.Lowering

/-- Binds a variable. Its value is lowered first and still sees what the name meant before. -/
def declare (frame : Frame) (name : String) (ty : Option String) (value : Expr) :
    Lowering Unit := do
  let declared ← Pass.ofExcept (ty.mapM frame.table.denote)
  let value ← lowerExpr frame value declared
  if let some declared := declared then
    expectType .binding declared value.ty
  let slot ← bindName name (declared.getD value.ty)
  reserve slot
  emit (.store value slot.operand)

/-- Writes to a place. The place is computed first. -/
def assign (frame : Frame) (target value : Expr) : Lowering Unit := do
  let place ← lowerTarget frame target
  let value ← lowerExpr frame value (some place.ty)
  expectType .assignment place.ty value.ty
  emit (.store value place.address)

/-- Evaluates an expression for its effect. The result of a call is not kept. -/
def evaluate (frame : Frame) : Expr → Lowering Unit
  | .call callee arguments => do
    let _ ← call callee (pending frame arguments) none
  | expression => do
    let _ ← lowerExpr frame expression none

/-- Leaves the function. The value, if the function has one, goes through its stack slot. -/
def returnFrom (frame : Frame) (value : Option Expr) : Lowering Unit := do
  match value, frame.returnSlot with
  | some value, some slot =>
    let value ← lowerExpr frame value (some slot.ty)
    expectType .returnValue slot.ty value.ty
    emit (.store value slot.operand)
  | none, none => pure ()
  | some _, none => Pass.fail (.returnWithValue frame.function)
  | none, some _ => Pass.fail (.returnWithoutValue frame.function)
  emit (.branch frame.exit)

/-- A branch condition. It has to come out as a truth value. -/
def testCondition (frame : Frame) (condition : Expr) : Lowering Operand := do
  let value ← lowerExpr frame condition (some .bool)
  Pass.require (value.ty = .bool) (.typeMismatch .condition .bool value.ty)
  return value.operand

/-- Ends one arm of a conditional. An arm that is still open goes to the label behind the
conditional, which is made when the first arm needs it. -/
def joinArm (label : Option String) : Lowering (Option String) := do
  let body ← Pass.get
  if body.isClosed then
    return label
  let label ← match label with
    | some label => pure label
    | none => newLabel "ifend"
  emit (.branch label)
  return some label

mutual

/-- Lowers a statement. -/
def lowerStmt (frame : Frame) : Stmt → Lowering Unit
  | .bind name ty value => declare frame name ty value
  | .assign target value => assign frame target value
  | .eval expression => evaluate frame expression
  | .ret value => returnFrom frame value
  | .ite condition positive negative => do
    let condition ← testCondition frame condition
    let onTrue ← newLabel "iftrue"
    let onFalse ← newLabel "iffalse"
    emit (.branchIf condition onTrue onFalse)
    emit (.label onTrue)
    lowerStmts frame positive
    let afterwards ← joinArm none
    emit (.label onFalse)
    lowerStmts frame negative
    let afterwards ← joinArm afterwards
    match afterwards with
    | some label => emit (.label label)
    | none => pure ()
  | .loop condition body => do
    let test ← newLabel "whilecond"
    let start ← newLabel "whilebody"
    let afterwards ← newLabel "whileafter"
    emit (.branch test)
    emit (.label test)
    let condition ← testCondition frame condition
    emit (.branchIf condition start afterwards)
    emit (.label start)
    lowerStmts frame body
    let last ← Pass.get
    unless last.isClosed do
      emit (.branch test)
    emit (.label afterwards)
  | .directive text => Pass.report [.directiveSkipped text]

/-- Lowers statements in order. -/
def lowerStmts (frame : Frame) : List Stmt → Lowering Unit
  | [] => pure ()
  | statement :: rest => do
    lowerStmt frame statement
    lowerStmts frame rest

end

end ThreeAddress.Lowering
