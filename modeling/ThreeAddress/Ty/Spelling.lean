import ThreeAddress.Text.Style
import ThreeAddress.Ty.Basic

/-!
# Spellings of types

A type is spelled in two languages: in source syntax, for diagnostics, and in the emitted code.

## Main definitions

* `Ty.source`, `Ty.display`: source syntax, plain and as a diagnostic shows it.
* `Ty.spelling`: the emitted code for registers, loads and stores. Arrays are pointers there.
* `Ty.memorySpelling`: the emitted code for constants and for address computations over them.
  Sized arrays are aggregates there.
* `Signature.returnSpelling`, `Signature.parameterList`: the two parts of a function's type.
-/

namespace ThreeAddress

/-- The parts, with a comma and a space between them. -/
def commaSeparated (parts : List String) : String :=
  ", ".intercalate parts

mutual

/-- A type in source syntax. -/
def Ty.source : Ty → String
  | .int .i1 => "bool"
  | .int width => width.spelling
  | .ref target => "&" ++ target.source
  | .array member (.sized length) => "[" ++ member.source ++ "; " ++ toString length ++ "]"
  | .array member .unsized => "[" ++ member.source ++ "; *]"
  | .struct definition => definition.name
  | .result => "Result"
  | .function signature => signature.source
  | .label => "label"
  | .dynamic => "\x7bdynamic\x7d"
  | .unknown => "\x7bunknown\x7d"

/-- A function type in source syntax. The dots of a variadic one always follow a comma. -/
def Signature.source : Signature → String
  | ⟨returns, parameters, variadic⟩ =>
    "fn(" ++ commaSeparated (Ty.sources parameters) ++ (if variadic then ", ..." else "") ++ ")" ++
      Ty.sourceReturn returns

/-- Several types in source syntax. -/
def Ty.sources : List Ty → List String
  | [] => []
  | ty :: rest => ty.source :: Ty.sources rest

/-- What follows a parameter list in source syntax. -/
def Ty.sourceReturn : Option Ty → String
  | none => ""
  | some ty => " " ++ ty.source

end

/-- A type as a diagnostic shows it. -/
def Ty.display (colours : Bool) (ty : Ty) : String :=
  Style.type.paint colours ty.source

namespace Ty

/-- The name that the emitted code gives to the success or error value. -/
def resultName : String := "pitch.res"

/-- A type in the emitted code, as registers, loads and stores use it. Types that never reach the
emitted code are spelled in angle brackets. -/
def spelling : Ty → String
  | .int width => width.spelling
  | .ref _ | .array _ _ | .function _ => "ptr"
  | .struct definition => "%" ++ definition.name
  | .result => "%" ++ resultName
  | .label => "label"
  | .dynamic => "<" ++ Ty.dynamic.source ++ ">"
  | .unknown => "<" ++ Ty.unknown.source ++ ">"

/-- A type in the emitted code, with a sized array written as an aggregate. -/
def memorySpelling : Ty → String
  | .array member (.sized length) => "[" ++ toString length ++ " x " ++ member.spelling ++ "]"
  | ty => ty.spelling

end Ty

namespace Signature

/-- The return type in the emitted code. -/
def returnSpelling (signature : Signature) : String :=
  match signature.returns with
  | some ty => ty.spelling
  | none => "void"

/-- The parameter list in the emitted code. -/
def parameterList (signature : Signature) : String :=
  let dots := if signature.variadic then ["..."] else []
  "(" ++ commaSeparated (signature.parameters.map Ty.spelling ++ dots) ++ ")"

end Signature

end ThreeAddress
