/-!
# Decimal numerals of one machine word

The length in an array type is written in decimal and has to fit 64 bits.

## Main definitions

* `Text.wordLimit`: the first number that does not fit.
* `Text.readWord?`: the number a numeral denotes.
-/

namespace ThreeAddress.Text

/-- Lengths and sizes are below this number: they fit a 64-bit word. -/
def wordLimit : Nat := UInt64.size

/-- The digits of a numeral, which may open with one plus sign. -/
def unsigned : List Char → List Char
  | '+' :: digits => digits
  | digits => digits

/-- The number that a decimal numeral denotes. There is at least one digit, nothing but digits
after an optional plus sign, and the number fits 64 bits. -/
def readWord? (numeral : List Char) : Option Nat :=
  let digits := unsigned numeral
  if digits.isEmpty || !digits.all Char.isDigit then
    none
  else
    let value := Nat.ofDigitChars 10 digits 0
    if value < wordLimit then some value else none

end ThreeAddress.Text
