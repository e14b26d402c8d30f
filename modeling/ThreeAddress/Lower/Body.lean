import ThreeAddress.Lower.Sheet
import ThreeAddress.Pass
import ThreeAddress.Typing

/-!
# Function bodies under construction

The state of lowering one function, and the steps that change it.

## Main definitions

* `Constant`, `Globals`: the file scope constants, and the names of the module.
* `Draft`: a module with the functions that are written so far.
* `Body`: a function that is being written behind them.
* `Lowering`: a pass over a body.
* `Lowering.emit`: adds an instruction and keeps the basic blocks in order.
* `Lowering.reserve`: adds a stack slot to the entry of the function.
* `Lowering.intern`: the symbol of a constant.

## Design notes

The lines of a function have two parts. Its entry holds the stack slots and the copies of the parameters,
and everything else follows. A slot that is asked for later is inserted at the end of the entry, so it is
there before every use. A block is open until its last instruction is a terminator.
-/

namespace ThreeAddress

/-- The contents of a file scope constant. -/
inductive Constant where
  | text (value : String)
  | array (width : Width) (values : List Int)
  deriving DecidableEq, Repr

namespace Constant

/-- The bytes of a text. -/
def bytes (text : String) : List UInt8 := text.toByteArray.data.toList

/-- The type of a constant. A text ends with a zero byte. -/
def ty : Constant → Ty
  | text value => .array .i8 (.sized ((bytes value).length + 1))
  | array width values => .array (.int width) (.sized values.length)

/-- What the symbol of a constant is called before it is made unique. -/
def base : Constant → String
  | text _ => "str"
  | array _ _ => "arrconst"

/-- The declaration of a constant under the given symbol. -/
def declaration (symbol : String) : Constant → Declaration
  | text value => .textConstant symbol (bytes value)
  | array width values => .arrayConstant symbol (.int width) values

end Constant

/-- The names of the module: its functions and its constants. -/
structure Globals where
  /-- The scope that every function body starts from. -/
  root : Scope
  /-- The constants with their symbols, in the order they were made. -/
  constants : List (Constant × String) := []
  deriving DecidableEq

/-- A module under construction, with the lines of the functions that are written so far. -/
structure Draft where
  globals : Globals
  lines : List Line := []
  deriving DecidableEq

/-- A function body under construction. -/
structure Body where
  globals : Globals
  scope : Scope
  sheet : Sheet := {}
  deriving DecidableEq

/-- The body of the next function, before anything is written. -/
def Draft.body (draft : Draft) : Body where
  globals := draft.globals
  scope := draft.globals.root
  sheet := .ofLines draft.lines

namespace Body

/-- The module, with all lines so far. -/
def draft (body : Body) : Draft := ⟨body.globals, body.sheet.lines⟩

/-- The stack slots and the copies of the parameters. -/
def entry (body : Body) : List Instr := body.sheet.entry

/-- The instructions after the entry. -/
def code (body : Body) : List Instr := body.sheet.code

/-- Whether the last basic block has its terminator. -/
def isClosed (body : Body) : Bool :=
  body.code.getLast?.any Instr.endsBlock

end Body

/-- A pass over a function body. -/
abbrev Lowering := Pass Body

/-- What lowering knows about the function at hand. -/
structure Frame where
  table : TypeTable
  /-- The name of the function in the source. -/
  function : String
  /-- The label that every return goes to. -/
  exit : String
  /-- The stack slot of the returned value. -/
  returnSlot : Option Var

namespace Lowering

/-- Changes the scope in a way that makes a new variable. -/
def withScope (change : Scope → Var × Scope) : Lowering Var :=
  Pass.modifyGet fun body =>
    let (var, scope) := change body.scope
    (var, { body with scope })

/-- Binds a new register under its own name. -/
def mint (base : String) (ty : Ty) : Lowering Var := do
  let var ← withScope fun scope => scope.mint base ty
  Pass.report [.bound none var.register]
  return var

/-- A new register for an intermediate value. -/
def temporary (ty : Ty) : Lowering Var := do
  let var ← withScope fun scope => scope.temporary ty
  Pass.report [.bound none var.register]
  return var

/-- A new label. -/
def newLabel (base : String) : Lowering String :=
  Var.register <$> mint base .label

/-- Binds a source name to a new register. -/
def bindName (name : String) (ty : Ty) : Lowering Var := do
  let var ← withScope fun scope => scope.bind name ty
  Pass.report [.bound (some name) var.register]
  return var

/-- The variable that a name stands for. -/
def variableNamed (name : String) : Lowering Var := do
  let body ← Pass.get
  Pass.ofExcept (body.scope.variableNamed name)

/-- Stops at an instruction that mentions a type no instruction may use. -/
def checkConcrete (instruction : Instr) : Lowering Unit :=
  match instruction.placeholder? with
  | some ty => Pass.fail (.internal (.placeholderType instruction ty))
  | none => pure ()

/-- Adds a line behind the last one. -/
def write (line : Line) : Lowering Unit :=
  Pass.modify fun body => { body with sheet := body.sheet.add line }

/-- Reserves the stack slot that a variable holds the address of, in the entry of the function. -/
def reserve (slot : Var) : Lowering Unit := do
  let instruction := Instr.alloca slot.register slot.ty
  checkConcrete instruction
  Pass.modify fun body => { body with sheet := body.sheet.insert (.instr instruction) }

/-- Adds an instruction behind the last one. -/
def append (instruction : Instr) : Lowering Unit :=
  write (.instr instruction)

/-- Makes room for an instruction. A label ends the block before it, with a branch to the label if
that block is still open. Any other instruction behind a terminator starts a block that nothing
leads to. -/
def separate (instruction : Instr) : Lowering Unit := do
  let body ← Pass.get
  match instruction, body.isClosed with
  | .label name, false => append (.branch name)
  | .label _, true => pure ()
  | _, true =>
    let dead ← newLabel "dead"
    append (.label dead)
  | _, false => pure ()

/-- Adds an instruction and keeps the basic blocks in order. -/
def emit (instruction : Instr) : Lowering Unit := do
  checkConcrete instruction
  separate instruction
  append instruction

/-- The symbol of a constant, which is made on its first use. -/
def intern (constant : Constant) : Lowering String := do
  let body ← Pass.get
  match body.globals.constants.lookup constant with
  | some symbol => return symbol
  | none =>
    let (var, root) := body.globals.root.mint constant.base constant.ty
    Pass.modify fun body =>
      { body with globals := ⟨root, body.globals.constants ++ [(constant, var.register)]⟩ }
    Pass.report [.bound none var.register]
    return var.register

/-- Stops unless a value of the second type may stand where the first is asked for. -/
def expectType (site : Site) (expected actual : Ty) : Lowering Unit :=
  Pass.require (expected.agrees actual) (.typeMismatch site expected actual)

end Lowering

end ThreeAddress
