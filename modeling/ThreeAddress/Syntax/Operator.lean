import ThreeAddress.Ty.Width

/-!
# Binary operators

## Main definitions

* `Operator`, `Operator.symbol`: the operators and how they are written.
* `Operator.kind`: arithmetic, comparison or bitwise.
* `Width.supports`: which operators an integer type has.
-/

namespace ThreeAddress

/-- The binary operators of the source language. -/
inductive Operator where
  | add
  | subtract
  | multiply
  | divide
  | remainder
  | equal
  | notEqual
  | less
  | lessEqual
  | greater
  | greaterEqual
  | bitAnd
  | bitOr
  | bitXor
  | shiftLeft
  | shiftRight
  deriving DecidableEq, Repr

/-- The three families of operators. -/
inductive OperatorKind where
  | arithmetic
  | comparison
  | bitwise
  deriving DecidableEq, Repr

namespace OperatorKind

/-- The name of a family. -/
def name : OperatorKind → String
  | arithmetic => "arithmetic"
  | comparison => "comparison"
  | bitwise => "bitwise"

end OperatorKind

namespace Operator

/-- All operators. -/
def all : List Operator :=
  [add, subtract, multiply, divide, remainder, equal, notEqual, less, lessEqual, greater,
   greaterEqual, bitAnd, bitOr, bitXor, shiftLeft, shiftRight]

/-- How an operator is written. -/
def symbol : Operator → String
  | add => "+"
  | subtract => "-"
  | multiply => "*"
  | divide => "/"
  | remainder => "%"
  | equal => "=="
  | notEqual => "!="
  | less => "<"
  | lessEqual => "<="
  | greater => ">"
  | greaterEqual => ">="
  | bitAnd => "&"
  | bitOr => "|"
  | bitXor => "^"
  | shiftLeft => "<<"
  | shiftRight => ">>"

/-- The operator that a symbol stands for. -/
def ofSymbol? (symbol : String) : Option Operator :=
  all.find? fun operator => operator.symbol = symbol

/-- The family of an operator. -/
def kind : Operator → OperatorKind
  | add | subtract | multiply | divide | remainder => .arithmetic
  | equal | notEqual | less | lessEqual | greater | greaterEqual => .comparison
  | bitAnd | bitOr | bitXor | shiftLeft | shiftRight => .bitwise

/-- Whether an operator yields a truth value whatever its operands are. -/
def isComparison (operator : Operator) : Bool :=
  operator.kind = .comparison

end Operator

/-- The operators of each integer type. Truth values can be compared for equality and combined bit
by bit, nothing else; every wider integer has all operators. -/
def Width.supports : Width → Operator → Bool
  | .i1, .equal | .i1, .notEqual | .i1, .bitAnd | .i1, .bitOr | .i1, .bitXor => true
  | .i1, _ => false
  | _, _ => true

end ThreeAddress
