/-!
# Integer widths

Integers have no sign once lowered: a signed and an unsigned source type of one size are the same
type.

## Main definitions

* `Width`: the widths an integer type can have.
* `Width.ofName?`: the width that a primitive type name of the source language denotes.
-/

namespace ThreeAddress

/-- The widths an integer type can have. -/
inductive Width where
  | i1
  | i8
  | i16
  | i32
  | i64
  deriving DecidableEq, Repr

namespace Width

/-- All widths, narrowest first. -/
def all : List Width := [i1, i8, i16, i32, i64]

/-- The number of bits. -/
def bits : Width → Nat
  | i1 => 1
  | i8 => 8
  | i16 => 16
  | i32 => 32
  | i64 => 64

/-- The spelling in the emitted code. -/
def spelling (width : Width) : String :=
  "i" ++ toString width.bits

/-- The primitive type names of the source language. `isize` and `usize` are 64 bits wide. -/
def names : List (String × Width) :=
  [("bool", i1), ("i8", i8), ("i16", i16), ("i32", i32), ("i64", i64), ("isize", i64),
   ("u8", i8), ("u16", i16), ("u32", i32), ("u64", i64), ("usize", i64)]

/-- The width that a primitive type name denotes. -/
def ofName? (name : String) : Option Width :=
  names.lookup name

end Width

end ThreeAddress
