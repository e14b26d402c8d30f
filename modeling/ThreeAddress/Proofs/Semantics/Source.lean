import ThreeAddress.Ty.TypeText
import ThreeAddress.Proofs.Semantics.Word

/-!
# Meaning of the source

An evaluator for functions over integers: literals, variables, operators, declarations, assignments,
conditionals, loops and returns. It has no answer where a program has none, and on everything that
goes beyond integers.

## Main definitions

* `Expr.evaluate`: the value of an expression.
* `Block.execute`: how statements end, if they do.
* `FunctionDef.run`: what a function returns for some arguments.

## Design notes

Every declaration makes one cell, however often it is executed, and a name stands for the cell of
the declaration that was written last in front of it. So the environment follows the text and not
the execution: behind a conditional it holds the declarations of both arms.

A literal has no type of its own. The width that is asked for is handed down as a hint, and `Shape`
says as much about the type of a variable as is needed to find it.
-/

namespace ThreeAddress

/-- What is known about the type of a variable. -/
inductive Shape where
  | integer (width : Width)
  /-- A type without integer values. -/
  | other
  | unknown
  deriving DecidableEq

namespace Shape

def width? : Shape → Option Width
  | integer width => some width
  | _ => none

/-- The hint for a value that is assigned to a variable. -/
def hint? : Shape → Option (Option Width)
  | integer width => some (some width)
  | other => some none
  | unknown => none

/-- What the name of a type says. -/
def ofName (name : String) : Shape :=
  match Width.ofName? name with
  | some width => integer width
  | none => other

/-- What the text of a type says. -/
def ofText (text : String) : Shape :=
  ofName (String.ofList (Text.trim text.toList))

end Shape

/-- The variables declared so far, the latest first. -/
def Env : Type := List (String × Shape)

namespace Env

def declare (env : Env) (name : String) (shape : Shape) : Env := (name, shape) :: env

/-- The number of variables, which is the cell of the next one. -/
def size (env : Env) : Nat := List.length env

/-- The cell and the shape of a variable. -/
def resolve : Env → String → Option (Nat × Shape)
  | [], _ => none
  | (declared, shape) :: older, name =>
    if declared = name then some (List.length older, shape) else resolve older name

@[simp] theorem size_declare (env : Env) (name : String) (shape : Shape) :
    (env.declare name shape).size = env.size + 1 := rfl

theorem resolve_declare (env : Env) (name : String) (shape : Shape) (other : String) :
    (env.declare name shape).resolve other =
      if name = other then some (env.size, shape) else env.resolve other := rfl

def shape (env : Env) (name : String) : Shape :=
  ((env.resolve name).map Prod.snd).getD .unknown

def ofParameters (parameters : List TypedName) : Env :=
  parameters.foldl (fun env parameter => env.declare parameter.name (.ofText parameter.ty)) []

end Env

/-- The contents of the cells. -/
def Store : Type := Nat → Option Word

namespace Store

def write (store : Store) (cell : Nat) (word : Word) : Store :=
  fun other => if other = cell then some word else store other

end Store

/-- The width at which an operator works on two literals. -/
def literalsWidth : Expr → Option Width → Width
  | .boolean _, _ => .i1
  | _, some .i1 => .i32
  | _, some width => width
  | _, none => .i32

/-- The shape of the operands of an operator. A literal takes that of the other side. -/
def operandShape (lhs rhs : Expr) (left right : Shape) (hint : Option Width) : Shape :=
  if !lhs.isLiteral then left
  else if !rhs.isLiteral then right
  else .integer (literalsWidth lhs hint)

namespace Expr

def shape (env : Env) : Expr → Option Width → Shape
  | integer _, hint => .integer (hint.getD .i32)
  | boolean _, _ => .integer .i1
  | variableRef name, _ => env.shape name
  | binary operator lhs rhs, hint =>
    if operator.isComparison then .integer .i1
    else operandShape lhs rhs (lhs.shape env none) (rhs.shape env none) hint
  | _, _ => .unknown

/-- The value of an expression where the given width is asked for. -/
def evaluate (env : Env) (store : Store) : Expr → Option Width → Option Word
  | integer value, hint => some (.ofInt (hint.getD .i32) value)
  | boolean value, _ => some (.ofBool value)
  | variableRef name, _ =>
    match env.resolve name with
    | some (cell, .integer _) => store cell
    | _ => none
  | binary operator lhs rhs, hint => do
    let width ← (operandShape lhs rhs (lhs.shape env none) (rhs.shape env none)
      (if operator.isComparison then none else hint)).width?
    let left ← lhs.evaluate env store (some width)
    let right ← rhs.evaluate env store (some width)
    operator.apply left right
  | _, _ => none

def test (env : Env) (store : Store) (condition : Expr) : Option Bool :=
  (condition.evaluate env store (some .i1)).bind Word.truth?

end Expr

mutual

/-- The environment behind a statement. -/
def Stmt.extend : Env → Stmt → Env
  | env, .bind name (some text) _ => env.declare name (.ofText text)
  | env, .bind name none value => env.declare name (value.shape env none)
  | env, .ite _ positive negative => Block.extend (Block.extend env positive) negative
  | env, .loop _ body => Block.extend env body
  | env, _ => env

def Block.extend : Env → List Stmt → Env
  | env, [] => env
  | env, statement :: rest => Block.extend (statement.extend env) rest

end

/-- How statements end. -/
inductive Completion where
  | normal (store : Store)
  | returned (value : Option Word)

namespace Completion

/-- What comes next is executed unless the function has returned. -/
def next (rest : Store → Option Completion) : Completion → Option Completion
  | normal store => rest store
  | returned value => some (returned value)

end Completion

/-- Executes a loop that runs less than `fuel` times. -/
def iterate (test : Store → Option Bool) (body : Store → Option Completion) :
    Nat → Store → Option Completion
  | 0, _ => none
  | fuel + 1, store => do
    if ← test store then
      (body store).bind (Completion.next (iterate test body fuel))
    else
      some (.normal store)

mutual

/-- Executes a statement of a function that returns a value of the given width. No loop may run
`fuel` times. -/
def Stmt.execute (fuel : Nat) (returns : Option Width) : Env → Stmt → Store → Option Completion
  | env, .bind _ ty value, store => do
    let word ← value.evaluate env store (ty.bind fun text => (Shape.ofText text).width?)
    return .normal (store.write env.size word)
  | env, .assign (.variableRef name) value, store => do
    let (cell, shape) ← env.resolve name
    let hint ← shape.hint?
    let word ← value.evaluate env store hint
    return .normal (store.write cell word)
  | env, .eval expression, store => do
    let _ ← expression.evaluate env store none
    return .normal store
  | env, .ret value, store =>
    match value, returns with
    | none, none => return .returned none
    | some value, some width => do
      let word ← value.evaluate env store (some width)
      return .returned (some word)
    | _, _ => none
  | env, .ite condition positive negative, store => do
    if ← condition.test env store then
      Block.execute fuel returns env positive store
    else
      Block.execute fuel returns (Block.extend env positive) negative store
  | env, .loop condition body, store =>
    iterate (condition.test env ·) (Block.execute fuel returns env body ·) fuel store
  | _, .directive _, store => some (.normal store)
  | _, .assign _ _, _ => none

def Block.execute (fuel : Nat) (returns : Option Width) :
    Env → List Stmt → Store → Option Completion
  | _, [], store => some (.normal store)
  | env, statement :: rest, store =>
    (statement.execute fuel returns env store).bind
      (Completion.next (Block.execute fuel returns (statement.extend env) rest ·))

end

/-- What a function returns for some arguments. It has to return a value if it has the type of
one. -/
def FunctionDef.run (definition : FunctionDef) (fuel : Nat) (arguments : List Word) :
    Option (Option Word) :=
  if definition.parameters.map (fun parameter => Shape.ofText parameter.ty) =
      arguments.map (fun argument => Shape.integer argument.width) then do
    let returns ← definition.returns.mapM fun text => (Shape.ofText text).width?
    let completion ← Block.execute fuel returns (.ofParameters definition.parameters)
      definition.body (fun cell => arguments[cell]?)
    match completion with
    | .returned value => some value
    | .normal _ => if returns.isNone then some none else none
  else
    none

end ThreeAddress
