import ThreeAddress.Lower.Body

/-!
# Calls

Calls of functions and of built-ins. How an argument is lowered is left to the caller: an argument
comes with the pass that lowers it.

## Main definitions

* `Pending`: an expression that is still to be lowered.
* `Lowering.passArguments`, `Lowering.passVariadic`: arguments in order, at parameter types and
  without.
* `Lowering.callBuiltin`: a call of a built-in.
* `Lowering.call`: any call.
-/

namespace ThreeAddress

/-- An expression that is still to be lowered, and how. The type that is asked for only guides
literals and built-ins; the value has the type it came out at. -/
structure Pending where
  expression : Expr
  lower : Option Ty → Lowering Value

/-- The size argument of a built-in, which is a literal. -/
def sizeArgument (builtin : Builtin) : Expr → Except Diagnostic Value
  | .integer size =>
    if 0 ≤ size then
      .ok (.immediate size .i32)
    else
      .error (.badArgument builtin .sizeNotLiteral)
  | _ => .error (.badArgument builtin .sizeNotLiteral)

/-- How an argument behind the parameters of a variadic function is widened. Truth values are filled
with zeros, other narrow integers with their sign. -/
def Ty.promotion? : Ty → Option Extension
  | .int .i1 => some .zext
  | .int width => if width.bits < 32 then some .sext else none
  | _ => none

namespace Lowering

/-- The arguments of a call in order. Each is asked for at the type of its parameter and checked
against it; there is no check for the ones that have no parameter. -/
def passArguments : List Pending → List Ty → Lowering (List Value)
  | [], _ => pure []
  | argument :: rest, [] => do
    let value ← argument.lower none
    let values ← passArguments rest []
    return value :: values
  | argument :: rest, parameter :: parameters => do
    let value ← argument.lower (some parameter)
    expectType .argument parameter value.ty
    let values ← passArguments rest parameters
    return value :: values

/-- Widens an integer that is narrower than 32 bits. -/
def promote (value : Value) : Lowering Value :=
  match value.ty.promotion? with
  | some extension => do
    let target ← temporary .i32
    emit (.extend extension target.register value .i32)
    return ⟨target.operand, .i32⟩
  | none => pure value

/-- The arguments behind a format text in order, each widened as soon as it is lowered. -/
def passVariadic : List Pending → Lowering (List Value)
  | [] => pure []
  | argument :: rest => do
    let value ← argument.lower none
    let value ← promote value
    let values ← passVariadic rest
    return value :: values

/-- A call of a support function. -/
def callSupport (function : Support) (target : Option String) (arguments : List Value) :
    Lowering Unit :=
  emit (.call target function.name function.signature arguments)

/-- A format text and the values it prints. -/
def printFormat (format : Pending) (values : List Pending) (target : Option Var) :
    Lowering Unit := do
  let format ← format.lower (some .bytes)
  Pass.require format.ty.isPointer (.badArgument .printf (.formatNotPointer format.ty))
  let values ← passVariadic values
  callSupport .printf (target.map Var.register) (format :: values)

/-- A success or error value: the argument is copied into memory of its own. -/
def wrap (constructor : Support) (argument : Pending) (target : Option Var) :
    Lowering Unit := do
  let value ← argument.lower none
  let size ← Pass.ofExcept value.ty.size
  let payload ← temporary (.ref value.ty)
  callSupport .malloc (some payload.register) [.immediate (signedWord size) .i32]
  emit (.store value payload.operand)
  callSupport constructor (target.map Var.register) [payload.value]

/-- The payload of a success or error value, at the type of the place it is read into. -/
def unwrap (argument : Pending) (target : Option Var) : Lowering Ty := do
  let value ← argument.lower (some .result)
  Pass.require (value.ty = .result) (.badArgument .unwrap (.notResult value.ty))
  let expected := target.filter fun var => !var.dynamic && var.ty.isStorable
  let ty := (expected.map Var.ty).getD .i32
  let payload ← temporary (.ref ty)
  emit (.extractMember payload.register value 1)
  let target ← match target with
    | some var => pure var
    | none => temporary ty
  emit (.load target.register ty payload.operand)
  return ty

/-- Fresh memory. -/
def allocate (size : Pending) (target : Option Var) : Lowering Unit := do
  let size ← Pass.ofExcept (sizeArgument .alloc size.expression)
  callSupport .malloc (target.map Var.register) [size]

/-- Memory of another size. The pointer is lowered before the size is looked at. -/
def reallocate (pointer size : Pending) (target : Option Var) : Lowering Unit := do
  let pointer ← pointer.lower (some .bytes)
  Pass.require pointer.ty.isPointer (.badArgument .realloc (.notPointer pointer.ty))
  let size ← Pass.ofExcept (sizeArgument .realloc size.expression)
  callSupport .realloc (target.map Var.register) [pointer, size]

/-- A call of a built-in, with the type of its result. -/
def callBuiltin (builtin : Builtin) (arguments : List Pending) (target : Option Var) :
    Lowering Ty :=
  match builtin, arguments with
  | .printf, [] => Pass.fail (.badArgument .printf .noFormat)
  | .printf, format :: values => do
    printFormat format values target
    return builtin.resultTy
  | .ok, [argument] => do
    wrap .makeOk argument target
    return builtin.resultTy
  | .err, [argument] => do
    wrap .makeErr argument target
    return builtin.resultTy
  | .unwrap, [argument] => unwrap argument target
  | .alloc, [size] => do
    allocate size target
    return builtin.resultTy
  | .realloc, [pointer, size] => do
    reallocate pointer size target
    return builtin.resultTy
  | _, _ => Pass.fail (.wrongArgumentCount builtin.name builtin.arity arguments.length)

/-- A call of a function, with the type of its result if it has one. -/
def callFunction (callee : String) (arguments : List Pending) (target : Option Var) :
    Lowering (Option Ty) := do
  let body ← Pass.get
  let (function, signature) ← Pass.ofExcept (body.scope.functionNamed callee)
  Pass.require (signature.accepts arguments.length)
    (.wrongArgumentCount callee signature.parameters.length arguments.length)
  Pass.require (signature.returns.isSome || target.isNone) (.noValue callee)
  let values ← passArguments arguments signature.parameters
  emit (.call (target.map Var.register) function.register signature values)
  return signature.returns

/-- A call, with the type of its result if it has one. Built-ins win over functions. -/
def call (callee : String) (arguments : List Pending) (target : Option Var) :
    Lowering (Option Ty) :=
  match Builtin.ofName? callee with
  | some builtin => do
    Pass.report [.builtinCalled builtin]
    some <$> callBuiltin builtin arguments target
  | none => callFunction callee arguments target

end Lowering

end ThreeAddress
