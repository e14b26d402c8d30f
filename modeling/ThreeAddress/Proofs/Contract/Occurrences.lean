import ThreeAddress.Builtin
import ThreeAddress.Syntax.Basic

/-!
# Operators and calls in programs

What a program asks for: the binary expressions in it, and the symbols that its calls go to. The order
of the calls is that of their evaluation: the arguments of a call come before the call itself, and
statements come in the order they are written.

## Main definitions

* `Operation`: a binary expression.
* `Expr.operations`, `Stmt.operations`, `Block.operations`: the binary expressions in a program.
* `Builtin.support`: the support functions that a built-in calls.
* `calleesOf`: the symbols that a call of a name goes to.
* `Expr.callees`, `Stmt.callees`, `Block.callees`: the symbols that the calls in a program go to.
-/

namespace ThreeAddress

/-- A binary expression. -/
structure Operation where
  operator : Operator
  lhs : Expr
  rhs : Expr

/-- A binary expression as an expression. -/
def Operation.expression (operation : Operation) : Expr :=
  .binary operation.operator operation.lhs operation.rhs

mutual

/-- The binary expressions in an expression, with the expression itself. -/
def Expr.operations : Expr → List Operation
  | .binary operator lhs rhs => ⟨operator, lhs, rhs⟩ :: (lhs.operations ++ rhs.operations)
  | .call _ arguments => Expr.operationsAll arguments
  | .build _ fields => FieldValue.operationsAll fields
  | .array elements => Expr.operationsAll elements
  | .element _ index => index.operations
  | .integer _ | .boolean _ | .text _ | .variableRef _ | .address _ | .deref _ _ | .field _ _ => []

/-- The binary expressions in some expressions. -/
def Expr.operationsAll : List Expr → List Operation
  | [] => []
  | expression :: rest => expression.operations ++ Expr.operationsAll rest

/-- The binary expressions in the members of a struct value. -/
def FieldValue.operationsAll : List FieldValue → List Operation
  | [] => []
  | ⟨_, value⟩ :: rest => value.operations ++ FieldValue.operationsAll rest

end

mutual

/-- The binary expressions in a statement. -/
def Stmt.operations : Stmt → List Operation
  | .bind _ _ value => value.operations
  | .assign target value => target.operations ++ value.operations
  | .eval expression => expression.operations
  | .ret value => value.toList.flatMap Expr.operations
  | .ite condition positive negative =>
    condition.operations ++ (Block.operations positive ++ Block.operations negative)
  | .loop condition body => condition.operations ++ Block.operations body
  | .directive _ => []

/-- The binary expressions in some statements. -/
def Block.operations : List Stmt → List Operation
  | [] => []
  | statement :: rest => statement.operations ++ Block.operations rest

end

/-- The support functions that a built-in calls, in order. Success and error values are put into
memory of their own first; their payload is read without a call. -/
def Builtin.support : Builtin → List Support
  | .printf => [.printf]
  | .ok => [.malloc, .makeOk]
  | .err => [.malloc, .makeErr]
  | .unwrap => []
  | .alloc => [.malloc]
  | .realloc => [.realloc]

/-- The symbols that a call of a name goes to, in order. Built-ins win over functions. -/
def calleesOf (symbol : String → String) (name : String) : List String :=
  match Builtin.ofName? name with
  | some builtin => builtin.support.map Support.name
  | none => [symbol name]

mutual

/-- The symbols that the calls in an expression go to, in the order they are evaluated. -/
def Expr.callees (symbol : String → String) : Expr → List String
  | .binary _ lhs rhs => lhs.callees symbol ++ rhs.callees symbol
  | .call callee arguments => Expr.calleesAll symbol arguments ++ calleesOf symbol callee
  | .build _ fields => FieldValue.calleesAll symbol fields
  | .array elements => Expr.calleesAll symbol elements
  | .element _ index => index.callees symbol
  | .integer _ | .boolean _ | .text _ | .variableRef _ | .address _ | .deref _ _ | .field _ _ => []

/-- The symbols that the calls in some expressions go to. -/
def Expr.calleesAll (symbol : String → String) : List Expr → List String
  | [] => []
  | expression :: rest => expression.callees symbol ++ Expr.calleesAll symbol rest

/-- The symbols that the calls in the members of a struct value go to. -/
def FieldValue.calleesAll (symbol : String → String) : List FieldValue → List String
  | [] => []
  | ⟨_, value⟩ :: rest => value.callees symbol ++ FieldValue.calleesAll symbol rest

end

mutual

/-- The symbols that the calls in a statement go to. -/
def Stmt.callees (symbol : String → String) : Stmt → List String
  | .bind _ _ value => value.callees symbol
  | .assign target value => target.callees symbol ++ value.callees symbol
  | .eval expression => expression.callees symbol
  | .ret value => value.toList.flatMap (Expr.callees symbol)
  | .ite condition positive negative =>
    condition.callees symbol ++ (Block.callees symbol positive ++ Block.callees symbol negative)
  | .loop condition body => condition.callees symbol ++ Block.callees symbol body
  | .directive _ => []

/-- The symbols that the calls in some statements go to. -/
def Block.callees (symbol : String → String) : List Stmt → List String
  | [] => []
  | statement :: rest => statement.callees symbol ++ Block.callees symbol rest

end

end ThreeAddress
