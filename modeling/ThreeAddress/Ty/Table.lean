import ThreeAddress.Pass
import ThreeAddress.Syntax.Basic
import ThreeAddress.Ty.Layout
import ThreeAddress.Ty.TypeText

/-!
# The table of structs

The structs defined so far, and the types that texts denote against them.

## Main definitions

* `TypeTable`: the structs in the order they were defined.
* `TypeTable.denote`: the type that a text denotes.
* `TypeTable.define`: one more struct. Its members may name the structs before it.
* `Ty.agrees`: whether a value of one type may stand where another is asked for.

## Design notes

A text is read from the outside in, with the blanks at its ends dropped at each level. What the
table answers for a text never changes when more structs are defined, since no name is defined
twice.
-/

namespace ThreeAddress

/-- The structs defined so far, in order. -/
structure TypeTable where
  structs : List StructTy := []
  deriving DecidableEq

/-- Whether a text has the form of an identifier: ASCII letters, digits and underscores, and no
digit in front. -/
def isIdentifier (text : String) : Bool :=
  match text.toList with
  | [] => false
  | first :: rest =>
    (first.isAlpha || first = '_') && rest.all fun c => c.isAlphanum || c = '_'

namespace TypeTable

/-- The struct with the given name. -/
def find? (table : TypeTable) (name : String) : Option StructTy :=
  table.structs.find? fun definition => definition.name = name

/-- The struct with the given name, which has to exist. -/
def get (table : TypeTable) (name : String) : Except Diagnostic StructTy :=
  match table.find? name with
  | some definition => .ok definition
  | none => .error (.unknownType name)

/-- The type that a name denotes. Primitive names come first, then the success or error value, then
structs. -/
def named (table : TypeTable) (name : String) : Except Diagnostic Ty :=
  match Width.ofName? name with
  | some width => .ok (.int width)
  | none =>
    if name = Ty.result.source then
      .ok .result
    else
      match table.find? name with
      | some definition => .ok (.struct definition)
      | none =>
        .error (if isIdentifier name then .unknownType name else .malformedType name)

/-- The type that a text denotes. -/
def denoteChars (table : TypeTable) (text : List Char) : Except Diagnostic Ty :=
  match _ : TypeText.read (Text.trim text) with
  | .ref target => (table.denoteChars target).map .ref
  | .array member extent => (table.denoteChars member).map fun ty => .array ty extent
  | .name name => table.named name
  | .malformed => .error (.malformedType (String.ofList (Text.trim text)))
termination_by text.length
decreasing_by
  · rename_i reading
    have shorter := TypeText.length_of_read_ref reading
    have trimmed := Text.length_trim_le text
    omega
  · rename_i reading
    have shorter := TypeText.length_of_read_array reading
    have trimmed := Text.length_trim_le text
    omega

/-- The type that a text denotes. -/
def denote (table : TypeTable) (text : String) : Except Diagnostic Ty :=
  table.denoteChars text.toList

/-- The types that the texts of typed names denote, in order. -/
def denoteMembers (table : TypeTable) : List TypedName → Except Diagnostic (List Member)
  | [] => .ok []
  | ⟨name, text⟩ :: rest => do
    let ty ← table.denote text
    let members ← table.denoteMembers rest
    return ⟨name, ty⟩ :: members

/-- Whether a name is spoken for: a primitive name, the success or error value, or a struct. -/
def isReserved (table : TypeTable) (name : String) : Bool :=
  name = Ty.result.source || (Width.ofName? name).isSome || (table.find? name).isSome

/-- Defines one more struct. Its name is looked at before its members. -/
def define (definition : StructDef) : Pass TypeTable StructTy := do
  let table ← Pass.get
  Pass.require (!table.isReserved definition.name) (.repeatedType definition.name)
  let members ← Pass.ofExcept (table.denoteMembers definition.fields)
  let struct : StructTy := ⟨definition.name, members⟩
  Pass.report [.structDefined definition.name]
  Pass.modify fun table => ⟨table.structs ++ [struct]⟩
  return struct

end TypeTable

namespace Ty

/-- Whether a value of one type may stand where another is asked for. References and success or
error values go with anything, and an array without a size goes with any array of the same
members. -/
def agrees : Ty → Ty → Bool
  | .result, _ | _, .result | .ref _, _ | _, .ref _ => true
  | .array s .unsized, .array t _ | .array s _, .array t .unsized => s = t
  | s, t => s = t

/-- The size of a type that has to have a runtime representation. -/
def size (ty : Ty) : Except Diagnostic UInt64 :=
  match ty.layout? with
  | some layout => .ok layout.size
  | none => .error (.internal (.noSize ty))

end Ty

end ThreeAddress
