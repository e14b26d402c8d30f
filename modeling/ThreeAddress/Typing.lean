import ThreeAddress.Ty.Table
import ThreeAddress.Scope

/-!
# Types of expressions

The type an expression would be lowered at, found without emitting code. It decides the type that
both operands of a binary operator are lowered at.

## Main definitions

* `Scope.variableNamed`: the variable a name stands for.
* `Ty.dereferenced`, `Ty.requireStruct`, `Ty.requireArray`: the types of the parts of a variable.
* `Expr.typeIn`: the type of an expression.
* `commonType`: the type that both operands of a binary operator are lowered at.
-/

namespace ThreeAddress

/-- The variable that a name stands for. Functions and labels have names too and are no
variables. -/
def Scope.variableNamed (scope : Scope) (name : String) : Except Diagnostic Var :=
  match scope.find? name with
  | none => .error (.unboundName name)
  | some var => if var.ty.isStorable then .ok var else .error (.notAVariable name)

/-- The function that a name stands for, with its signature. -/
def Scope.functionNamed (scope : Scope) (name : String) : Except Diagnostic (Var × Signature) :=
  match scope.find? name with
  | none => .error (.unboundFunction name)
  | some var =>
    match var.ty.signature? with
    | some signature => .ok (var, signature)
    | none => .error (.notAFunction name)

namespace StructTy

/-- The member with the given name, which has to exist, and its position. -/
def memberNamed (definition : StructTy) (name : String) : Except Diagnostic (Nat × Member) :=
  match definition.field? name with
  | some found => .ok found
  | none => .error (.noSuchMember definition.name name)

end StructTy

namespace Ty

/-- Takes references off a type, one after the other. -/
def walk : Nat → Ty → Except Diagnostic Ty
  | 0, ty => .ok ty
  | depth + 1, ty =>
    match ty.target? with
    | some target => walk depth target
    | none => .error (.internal (.wrongDepth ty))

/-- The type that `depth` dereferences of a variable arrive at. The references are counted first. -/
def dereferenced (name : String) (ty : Ty) (depth : Nat) : Except Diagnostic Ty :=
  if ty.refDepth < depth then
    .error (.tooManyDereferences name depth ty.refDepth ty)
  else
    ty.walk depth

/-- The struct that a variable is or points to. -/
def requireStruct (name : String) (ty : Ty) : Except Diagnostic StructTy :=
  match ty.struct? with
  | some definition => .ok definition
  | none => .error (.notAStruct name ty)

/-- The type of the members of an array variable. -/
def requireArray (name : String) (ty : Ty) : Except Diagnostic Ty :=
  match ty.member? with
  | some member => .ok member
  | none => .error (.notAnArray name ty)

end Ty

/-- The type of an operator applied to two literals. Integers take the type that is asked for if it
is an integer type of more than one bit. -/
def literalsType (lhs : Expr) (expected : Option Ty) : Ty :=
  match lhs, expected with
  | .boolean _, _ => .bool
  | _, some (.int .i1) => .i32
  | _, some (.int width) => .int width
  | _, _ => .i32

/-- The type of an expression. -/
def Expr.typeIn (table : TypeTable) (scope : Scope) : Expr → Except Diagnostic Ty
  | .integer _ => .ok .i32
  | .boolean _ => .ok .bool
  | .text _ => .ok .bytes
  | .variableRef name => (scope.variableNamed name).map Var.ty
  | .binary operator lhs rhs =>
    if operator.isComparison then
      .ok .bool
    else if !lhs.isLiteral then
      lhs.typeIn table scope
    else if !rhs.isLiteral then
      rhs.typeIn table scope
    else
      .ok (literalsType lhs none)
  | .call callee _ =>
    match Builtin.ofName? callee with
    | some builtin => .ok builtin.resultTy
    | none => do
      let (_, signature) ← scope.functionNamed callee
      match signature.returns with
      | some ty => .ok ty
      | none => .error (.noValue callee)
  | .address name => (scope.variableNamed name).map fun var => .ref var.ty
  | .deref name depth => do
    let var ← scope.variableNamed name
    var.ty.dereferenced name depth
  | .field base name => do
    let var ← scope.variableNamed base
    let definition ← var.ty.requireStruct base
    let (_, member) ← definition.memberNamed name
    return member.ty
  | .build struct _ => (table.get struct).map .struct
  | .array elements => .ok (.array .i32 (.sized elements.length))
  | .element name _ => do
    let var ← scope.variableNamed name
    var.ty.requireArray name

/-- The type that both operands of a binary operator are lowered at. A literal takes the type of the
other side. -/
def commonType (table : TypeTable) (scope : Scope) (lhs rhs : Expr) (expected : Option Ty) :
    Except Diagnostic Ty :=
  if !lhs.isLiteral then
    lhs.typeIn table scope
  else if !rhs.isLiteral then
    rhs.typeIn table scope
  else
    .ok (literalsType lhs expected)

end ThreeAddress
