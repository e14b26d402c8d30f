import ThreeAddress.Lower.Statement
import ThreeAddress.Program

/-!
# Functions

Every local lives in a stack slot. All returns of a function meet at one label, where the returned
value is loaded from its slot.

## Main definitions

* `BoundFunction`: a function with the variable that its name stands for.
* `Lowering.lowerDefinition`: a function, from its header to its last line.
* `lowerFunction`: the same as a step of lowering a module.
-/

namespace ThreeAddress

namespace Lowering

/-- Binds the parameters of a function. -/
def enterParameters (parameters : List (String × Ty)) : Lowering (List Parameter) := do
  let entered ← Pass.modifyGet fun body =>
    let (entered, scope) := body.scope.enter parameters
    (entered, { body with scope })
  Pass.report (entered.flatMap Parameter.trace)
  return entered

/-- The stack slot of the returned value. -/
def makeReturnSlot : Option Ty → Lowering (Option Var)
  | some ty => some <$> mint "retptr" ty
  | none => pure none

/-- Copies the arguments into their stack slots. -/
def copyParameters : List Parameter → Lowering Unit
  | [] => pure ()
  | parameter :: rest => do
    emit (.alloca parameter.slot.register parameter.slot.ty)
    emit (.store parameter.incoming.value parameter.slot.operand)
    copyParameters rest

/-- The instructions in front of the body. Stack slots that are asked for from now on go behind them. -/
def enterBody (parameters : List Parameter) (returnSlot : Option Var) : Lowering Unit := do
  copyParameters parameters
  if let some slot := returnSlot then
    emit (.alloca slot.register slot.ty)
  Pass.modify fun body => { body with sheet := body.sheet.mark }

/-- The instructions that all returns share. -/
def leave (frame : Frame) : Lowering Unit := do
  emit (.label frame.exit)
  match frame.returnSlot with
  | some slot =>
    let value ← temporary slot.ty
    emit (.load value.register slot.ty slot.operand)
    emit (.ret (some value.value))
  | none => emit (.ret none)

/-- Opens a function. Its instructions follow its header. -/
def openFunction (header : Line) : Lowering Unit :=
  Pass.modify fun body => { body with sheet := .ofLines (body.sheet.lines ++ [header]) }

/-- Writes a function up to its body. Yields what lowering the body needs to know, and the registers that
hold the arguments. -/
def enterFunction (table : TypeTable) (definition : FunctionDef) (symbol : String)
    (signature : Signature) : Lowering (Frame × List String) := do
  let names := definition.parameters.map TypedName.name
  let parameters ← enterParameters (names.zip signature.parameters)
  let exit ← newLabel "cr"
  let returnSlot ← makeReturnSlot signature.returns
  let registers := parameters.map fun parameter => parameter.incoming.register
  openFunction (.header symbol signature registers)
  enterBody parameters returnSlot
  return ({ table, function := definition.name, exit, returnSlot }, registers)

/-- Lowers a function whose symbol and signature are known. -/
def lowerDefinition (table : TypeTable) (definition : FunctionDef) (symbol : String)
    (signature : Signature) : Lowering FunctionCode := do
  let (frame, registers) ← enterFunction table definition symbol signature
  lowerStmts frame definition.body
  leave frame
  write .close
  if signature.returns.isSome && !Block.mustReturn definition.body then
    Pass.report [.missingReturn definition.name]
  Pass.report [.functionFinished]
  let body ← Pass.get
  return {
    symbol
    signature
    parameters := registers
    entry := body.entry
    code := body.code }

end Lowering

/-- A function with the variable that its name stands for. -/
structure BoundFunction where
  definition : FunctionDef
  var : Var

/-- The signature that a function was bound with. -/
def BoundFunction.requireSignature (function : BoundFunction) : Except Diagnostic Signature :=
  match function.var.ty.signature? with
  | some signature => .ok signature
  | none => .error (.internal (.notBoundToFunction function.definition.name function.var.ty))

/-- Lowers a function in a scope of its own. Only its lines and the constants it needs stay behind. -/
def lowerFunction (table : TypeTable) (function : BoundFunction) : Pass Draft FunctionCode := do
  Pass.report [.functionStarted function.definition.name]
  let signature ← Pass.ofExcept function.requireSignature
  Pass.focus Draft.body Body.draft
    (Lowering.lowerDefinition table function.definition function.var.register signature)

end ThreeAddress
