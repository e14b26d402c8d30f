import ThreeAddress.Syntax.Operator

/-!
# Programs

The syntax tree that lowering starts from. Types stand in it as source text and names as arbitrary
strings; nothing is checked yet.

## Main definitions

* `Expr`, `Stmt`, `Module`: expressions, statements, and a whole program.
* `Expr.isLiteral`: the expressions whose type is taken from their surroundings.
* `Stmt.mustReturn`: a statement that control never leaves at its end.

## Design notes

A missing `else` and an empty one mean the same, so a conditional always has two blocks.
-/

namespace ThreeAddress

mutual

/-- An expression. -/
inductive Expr where
  | integer (value : Int)
  | boolean (value : Bool)
  | text (value : String)
  | variableRef (name : String)
  | binary (operator : Operator) (lhs rhs : Expr)
  | call (callee : String) (arguments : List Expr)
  /-- The address of a variable. -/
  | address (name : String)
  /-- A variable dereferenced `depth` times. -/
  | deref (name : String) (depth : Nat)
  /-- A member of a struct variable, or of the struct that a variable points to. -/
  | field (base field : String)
  /-- A struct value, given member by member. -/
  | build (struct : String) (fields : List FieldValue)
  /-- A constant array. -/
  | array (elements : List Expr)
  /-- An element of an array variable. -/
  | element (array : String) (index : Expr)

/-- The value given to one member of a struct. -/
structure FieldValue where
  field : String
  value : Expr

end

/-- A statement. -/
inductive Stmt where
  /-- Binds a new variable. Without a type it takes the type of its value. -/
  | bind (name : String) (ty : Option String) (value : Expr)
  | assign (target value : Expr)
  /-- Evaluates an expression for its effect. -/
  | eval (expression : Expr)
  | ret (value : Option Expr)
  | ite (condition : Expr) (positive negative : List Stmt)
  | loop (condition : Expr) (body : List Stmt)
  /-- A line for other tools, which lowering skips. -/
  | directive (text : String)

/-- Statements in order. -/
abbrev Block := List Stmt

/-- A name with the text of its type. -/
structure TypedName where
  name : String
  ty : String

/-- A function with its body. One without `returns` yields no value. -/
structure FunctionDef where
  name : String
  parameters : List TypedName
  returns : Option String
  body : Block

/-- A struct. Its members may name structs defined before it. -/
structure StructDef where
  name : String
  fields : List TypedName

/-- A top-level item. -/
inductive Item where
  | function (definition : FunctionDef)
  | struct (definition : StructDef)
  | directive (text : String)

/-- A program: its items in source order. -/
structure Module where
  items : List Item

namespace Item

/-- The function that an item defines. -/
def function? : Item → Option FunctionDef
  | function definition => some definition
  | _ => none

end Item

namespace Module

/-- The functions of a module, in source order. -/
def functions (module : Module) : List FunctionDef :=
  module.items.filterMap Item.function?

end Module

namespace Expr

/-- Integer and truth value literals. They have the type their surroundings ask for. -/
def isLiteral : Expr → Bool
  | integer _ | boolean _ => true
  | _ => false

end Expr

mutual

/-- Whether control never leaves a statement at its end. A loop may run zero times. -/
def Stmt.mustReturn : Stmt → Bool
  | .ret _ => true
  | .ite _ positive negative => Block.mustReturn positive && Block.mustReturn negative
  | _ => false

/-- Whether control never leaves a block at its end: some statement of it always returns. -/
def Block.mustReturn : List Stmt → Bool
  | [] => false
  | statement :: rest => statement.mustReturn || Block.mustReturn rest

end

end ThreeAddress
