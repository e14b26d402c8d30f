/-!
# Listings

The emitted text in three segments: file scope lines, function bodies, and external declarations.

## Main definitions

* `Listing`: the three segments.
* `Listing.addHead?`: one more file scope line, unless the same text is already there.
* `Listing.addBody`, `Listing.insertBody?`: one more body line, at the end or in between.
* `Listing.render`: the whole text.
-/

namespace ThreeAddress

/-- The emitted text in three segments, each in the order it was written. -/
structure Listing where
  head : Array String := #[]
  body : Array String := #[]
  tail : Array String := #[]
  deriving DecidableEq, Repr

namespace Listing

/-- One step of indentation. -/
def indentStep : String := "    "

/-- A line, indented by the given number of steps. -/
def indented (indent : Nat) (text : String) : String :=
  String.join (List.replicate indent indentStep) ++ text

/-- Adds a file scope line. There is nothing to add if the same text was written before. -/
def addHead? (listing : Listing) (text : String) : Option Listing :=
  if listing.head.contains text then
    none
  else
    some { listing with head := listing.head.push text }

/-- Adds a file scope line unless the same text was written before. -/
def addHead (listing : Listing) (text : String) : Listing :=
  (listing.addHead? text).getD listing

/-- Adds a line at the end of the bodies. -/
def addBody (listing : Listing) (indent : Nat) (text : String) : Listing :=
  { listing with body := listing.body.push (indented indent text) }

/-- Adds a body line in front of the one at `position`. It has to be a position in the bodies or
their end. -/
def insertBody? (listing : Listing) (position indent : Nat) (text : String) : Option Listing :=
  if h : position ≤ listing.body.size then
    some { listing with body := listing.body.insertIdx position (indented indent text) h }
  else
    none

/-- Adds an external declaration. -/
def addTail (listing : Listing) (text : String) : Listing :=
  { listing with tail := listing.tail.push text }

/-- All lines in order. -/
def lines (listing : Listing) : List String :=
  listing.head.toList ++ listing.body.toList ++ listing.tail.toList

/-- The whole text. Lines are separated by newlines, and one more newline ends it. -/
def render (listing : Listing) : String :=
  "\n".intercalate listing.lines ++ "\n"

end Listing

end ThreeAddress
