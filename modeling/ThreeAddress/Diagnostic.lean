import ThreeAddress.Builtin
import ThreeAddress.Instr.Printer
import ThreeAddress.Syntax.Operator

/-!
# Diagnostics

Why a program could not be lowered. There are two kinds: a mistake in the program, and a broken
invariant of the lowering itself.

## Main definitions

* `Diagnostic`: one constructor for each cause.
* `Fault`: the broken invariants.
* `Diagnostic.message`, `Diagnostic.display`: the text, without and with its label.

## Design notes

A diagnostic holds types and instructions, not their text. Colours are an argument of printing only.
-/

namespace ThreeAddress

/-- Where a value has to have a certain type. -/
inductive Site where
  | binding
  | assignment
  | returnValue
  | argument
  | condition
  | field
  | operand
  deriving DecidableEq, Repr

/-- What is wrong with an argument of a built-in call. -/
inductive ArgumentProblem where
  | noFormat
  | formatNotPointer (ty : Ty)
  | notResult (ty : Ty)
  | notPointer (ty : Ty)
  | sizeNotLiteral
  /-- Anything else, in words. -/
  | other (text : String)
  deriving DecidableEq

/-- An expression that is an operand by itself. -/
inductive Inline where
  | integer (value : Int)
  | boolean (value : Bool)
  | address (name : String)
  deriving DecidableEq

/-- A broken invariant of the lowering. -/
inductive Fault where
  /-- A binding that has its type was given another. -/
  | typeAlreadyKnown (register : String) (ty attempted : Ty)
  /-- The size of a type without a runtime representation was asked for. -/
  | noSize (ty : Ty)
  /-- An instruction mentions a type that no instruction may use. -/
  | placeholderType (instruction : Instr) (ty : Ty)
  /-- An expression that is an operand by itself was to be computed into a register. -/
  | inlineOperand (operand : Inline)
  /-- The elements of a constant array are no integers. -/
  | elementsNotInteger (member : Ty)
  /-- A type has fewer references than were counted. -/
  | wrongDepth (ty : Ty)
  /-- A pointer was loaded at a type that is no reference. -/
  | notAReference (ty : Ty)
  /-- The name of a function was bound to something else. -/
  | notBoundToFunction (name : String) (ty : Ty)
  /-- The two operands of an operator came out at different types. -/
  | operandsDiffer (operator : Operator) (lhs rhs : Ty)
  /-- Anything else, in words, with the place that noticed it. -/
  | reported (text : String) (origin : Option String)
  deriving DecidableEq

/-- Why a program could not be lowered. -/
inductive Diagnostic where
  | unboundName (name : String)
  | unknownType (name : String)
  | malformedType (text : String)
  | unboundFunction (name : String)
  | notAFunction (name : String)
  | notAVariable (name : String)
  | repeatedFunction (name : String)
  | repeatedType (name : String)
  | typeMismatch (site : Site) (expected actual : Ty)
  | wrongArgumentCount (callee : String) (expected actual : Nat)
  | operatorUndefined (operator : Operator) (ty : Ty)
  | noSuchMember (struct field : String)
  | tooManyDereferences (name : String) (depth available : Nat) (ty : Ty)
  | notAnArray (name : String) (ty : Ty)
  | notAStruct (name : String) (ty : Ty)
  | notAPlace
  | elementNotConstant
  | badArgument (builtin : Builtin) (problem : ArgumentProblem)
  | noValue (function : String)
  | returnWithoutValue (function : String)
  | returnWithValue (function : String)
  | internal (fault : Fault)
  deriving DecidableEq

/-- A text in the quotes that set names off from the words of a message. -/
def quoted (text : String) : String := "`" ++ text ++ "`"

namespace Site

def text : Site → String
  | binding => "let binding"
  | assignment => "assignment"
  | returnValue => "return value"
  | argument => "function argument"
  | condition => "condition"
  | field => "struct field"
  | operand => "operand"

end Site

namespace ArgumentProblem

def message (colours : Bool) : ArgumentProblem → String
  | noFormat => "expected a format string"
  | formatNotPointer ty => "the format string must be a pointer but is " ++ ty.display colours
  | notResult ty => "expected a Result but found " ++ ty.display colours
  | notPointer ty => "expected a pointer but found " ++ ty.display colours
  | sizeNotLiteral => "the size must be a non-negative integer literal"
  | other text => text

end ArgumentProblem

namespace Inline

/-- How an expression is shown in a message. -/
def text : Inline → String
  | integer value => "Integer(" ++ toString value ++ ")"
  | boolean value => "Boolean(" ++ toString value ++ ")"
  | address name => "Reference(\"" ++ name ++ "\")"

end Inline

namespace Fault

/-- What went wrong. -/
def message (colours : Bool) : Fault → String
  | typeAlreadyKnown register ty attempted =>
    quoted register ++ " already has type " ++ ty.display colours ++ " and cannot be settled to " ++
      attempted.display colours
  | noSize ty => "type " ++ ty.display colours ++ " has no size"
  | placeholderType instruction ty =>
    quoted instruction.text ++ " uses unresolved type " ++ ty.display colours
  | inlineOperand operand => quoted operand.text ++ " is lowered inline as an operand"
  | elementsNotInteger member =>
    "array literal with non-integer members of type " ++ member.display colours
  | wrongDepth ty => "pointer depth of " ++ ty.display colours ++ " is wrong"
  | notAReference ty => "dereferenced non-pointer type " ++ ty.display colours
  | notBoundToFunction name ty =>
    quoted name ++ " is bound to " ++ ty.display colours ++ " instead of a function"
  | operandsDiffer operator lhs rhs =>
    "operands of " ++ quoted operator.symbol ++ " were lowered to " ++ lhs.display colours ++
      " and " ++ rhs.display colours
  | reported text _ => text

/-- The place that noticed it, if it is known. -/
def origin? : Fault → Option String
  | reported _ origin => origin
  | _ => none

end Fault

namespace Diagnostic

/-- Whether a diagnostic is about the lowering and not about the program. -/
def isInternal : Diagnostic → Bool
  | internal _ => true
  | _ => false

/-- The text of a diagnostic. -/
def message (colours : Bool) : Diagnostic → String
  | unboundName name => "identifier " ++ quoted name ++ " does not exist"
  | unknownType name => "type " ++ quoted name ++ " could not be resolved"
  | malformedType text => "malformed type " ++ quoted text
  | unboundFunction name => "could not find function " ++ quoted name
  | notAFunction name => quoted name ++ " is not a function"
  | notAVariable name => quoted name ++ " is not a variable"
  | repeatedFunction name => "function " ++ quoted name ++ " is defined more than once"
  | repeatedType name => "type " ++ quoted name ++ " is defined more than once"
  | typeMismatch site expected actual =>
    "type mismatch in " ++ site.text ++ ": expected " ++ expected.display colours ++
      " but found " ++ actual.display colours
  | wrongArgumentCount callee expected actual =>
    quoted callee ++ " expects " ++ toString expected ++ " argument(s) but " ++ toString actual ++
      " were given"
  | operatorUndefined operator ty =>
    "operation " ++ quoted operator.symbol ++ " is not supported for " ++ ty.display colours
  | noSuchMember struct field =>
    "struct " ++ quoted struct ++ " does not have a member " ++ quoted field
  | tooManyDereferences name depth available ty =>
    "cannot dereference " ++ quoted name ++ " " ++ toString depth ++ " time(s): " ++
      ty.display colours ++ " is only " ++ toString available ++ " level(s) deep"
  | notAnArray name ty =>
    quoted name ++ " has type " ++ ty.display colours ++ " which cannot be indexed"
  | notAStruct name ty =>
    quoted name ++ " has type " ++ ty.display colours ++
      " which is not a struct or a pointer to one"
  | notAPlace => "this expression cannot be assigned to"
  | elementNotConstant => "array literal members must be integer literals"
  | badArgument builtin problem =>
    "invalid argument to " ++ quoted builtin.name ++ ": " ++ problem.message colours
  | noValue function => "function " ++ quoted function ++ " does not produce a value"
  | returnWithoutValue function => "function " ++ quoted function ++ " must return a value"
  | returnWithValue function => "function " ++ quoted function ++ " does not return a value"
  | internal fault => fault.message colours

/-- The word a diagnostic is printed after. -/
def label : Diagnostic → String
  | internal _ => "internal compiler error:"
  | _ => "error:"

/-- What follows the message: the place that noticed a broken invariant. -/
def trailer (colours : Bool) : Diagnostic → String
  | internal fault =>
    match fault.origin? with
    | some origin => " " ++ Style.origin.paint colours ("(raised in " ++ origin ++ ")")
    | none => ""
  | _ => ""

/-- The whole text of a diagnostic, with its label. -/
def display (colours : Bool) (diagnostic : Diagnostic) : String :=
  Style.label.paint colours diagnostic.label ++ " " ++ diagnostic.message colours ++
    diagnostic.trailer colours

end Diagnostic

end ThreeAddress
