import ThreeAddress.Listing
import ThreeAddress.Lower.Body

/-!
# Lowered programs

What lowering produces, and how it is written down.

## Main definitions

* `FunctionCode`: a function with its instructions.
* `Program`: the structs, constants, functions and external functions of a program.
* `Program.listing`, `Program.render`: its lines and its text.
-/

namespace ThreeAddress

/-- A function with its instructions. -/
structure FunctionCode where
  /-- The symbol of the function. -/
  symbol : String
  signature : Signature
  /-- The registers that hold the arguments. -/
  parameters : List String
  /-- The stack slots and the copies of the parameters. -/
  entry : List Instr
  /-- Everything after the entry. -/
  code : List Instr
  deriving DecidableEq

namespace FunctionCode

/-- The instructions of a function in the order they are written. -/
def instructions (function : FunctionCode) : List Instr :=
  function.entry ++ function.code

end FunctionCode

/-- A lowered program. -/
structure Program where
  /-- The structs in the order they were defined. -/
  structs : List StructTy
  /-- The constants with their symbols, in the order they were made. -/
  constants : List (Constant × String)
  functions : List FunctionCode
  /-- The lines of the functions. -/
  lines : List Line
  /-- The functions that are defined elsewhere, with their symbols. -/
  externals : List (String × Signature)
  deriving DecidableEq

/-- Adds a line of a function body. -/
def Listing.addLine (listing : Listing) (line : Line) : Listing :=
  listing.addBody line.indent line.text

namespace Program

/-- The definition of the success or error value, which every program has. -/
def resultDeclaration : Declaration :=
  .structType Ty.resultName [.bool, .bytes]

/-- The definition of a struct. -/
def structDeclaration (definition : StructTy) : Declaration :=
  .structType definition.name (definition.members.map Member.ty)

/-- The file scope lines of a program. -/
def declarations (program : Program) : List Declaration :=
  resultDeclaration :: program.structs.map structDeclaration ++
    program.constants.map fun (constant, symbol) => constant.declaration symbol

/-- The lines of a program. -/
def listing (program : Program) : Listing :=
  let declared := program.declarations.foldl
    (fun listing declaration => listing.addHead declaration.line) ({} : Listing)
  let defined := program.lines.foldl Listing.addLine declared
  program.externals.foldl
    (fun listing (symbol, signature) =>
      listing.addTail (Declaration.external symbol signature).line) defined

/-- The text of a program. -/
def render (program : Program) : String :=
  program.listing.render

end Program

end ThreeAddress
