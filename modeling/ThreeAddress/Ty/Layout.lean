import ThreeAddress.Ty.Basic

/-!
# Layout of types

Size and alignment in bytes on a 64-bit target.

## Main definitions

* `roundUp`: a size rounded up to a multiple of an alignment.
* `Layout.aggregate`: members in order, each at its natural alignment, and the total padded to the
  largest alignment.
* `Ty.layout?`: the layout of a type that has a runtime representation.

## Design notes

Sizes are 64-bit words, and arithmetic on them wraps. As long as no total reaches `2 ^ 64` that is
arithmetic on numbers.
-/

namespace ThreeAddress

/-- The least multiple of `alignment` that is not below `size`. -/
def roundUp (size alignment : UInt64) : UInt64 :=
  let quotient := size / alignment
  (if size % alignment = 0 then quotient else quotient + 1) * alignment

/-- `roundUp`, which has no answer for the alignment zero. -/
def roundUp? (size alignment : UInt64) : Option UInt64 :=
  if alignment = 0 then none else some (roundUp size alignment)

/-- Size and alignment in bytes. -/
structure Layout where
  size : UInt64
  alignment : UInt64
  deriving DecidableEq, Repr

namespace Layout

/-- The layout of a value that is aligned to its own size. -/
def scalar (bytes : UInt64) : Layout := ⟨bytes, bytes⟩

/-- The layout of every pointer. -/
def pointer : Layout := scalar 8

/-- Puts one more member behind those placed so far. -/
def place (placed member : Layout) : Layout :=
  ⟨roundUp placed.size member.alignment + member.size, max placed.alignment member.alignment⟩

/-- The members in order at their natural alignment, with the total padded to the largest. -/
def aggregate (members : List Layout) : Layout :=
  let placed := members.foldl place ⟨0, 1⟩
  ⟨roundUp placed.size placed.alignment, placed.alignment⟩

end Layout

/-- The layout of an integer. A truth value takes a whole byte. -/
def Width.layout : Width → Layout
  | .i1 | .i8 => .scalar 1
  | .i16 => .scalar 2
  | .i32 => .scalar 4
  | .i64 => .scalar 8

mutual

/-- The layout of a type, if it has a runtime representation. -/
def Ty.layout? : Ty → Option Layout
  | .int width => some width.layout
  | .ref _ | .array _ _ | .function _ => some .pointer
  | .result => some (.aggregate [.scalar 1, .pointer])
  | .struct definition => definition.layout?
  | .label | .dynamic | .unknown => none

/-- The layout of a struct, if all its members have one. -/
def StructTy.layout? : StructTy → Option Layout
  | ⟨_, members⟩ => (Member.layouts? members).map Layout.aggregate

/-- The layouts of members, if all have one. -/
def Member.layouts? : List Member → Option (List Layout)
  | [] => some []
  | ⟨_, ty⟩ :: rest =>
    match ty.layout?, Member.layouts? rest with
    | some layout, some layouts => some (layout :: layouts)
    | _, _ => none

end

end ThreeAddress
