/-!
# Blank characters

Type texts may be padded with blank characters. A character is blank when it has the Unicode
property `White_Space`.

## Main definitions

* `Text.isBlank`: membership in the property.
* `Text.trim`: a text without the blanks at its two ends.
-/

namespace ThreeAddress.Text

/-- The code points with the Unicode property `White_Space`, as closed ranges in ascending order. -/
def blankRanges : List (Nat × Nat) :=
  [(0x0009, 0x000D), (0x0020, 0x0020), (0x0085, 0x0085), (0x00A0, 0x00A0), (0x1680, 0x1680),
   (0x2000, 0x200A), (0x2028, 0x2029), (0x202F, 0x202F), (0x205F, 0x205F), (0x3000, 0x3000)]

/-- Whether a character is blank. -/
def isBlank (c : Char) : Bool :=
  blankRanges.any fun (first, last) => first ≤ c.toNat && c.toNat ≤ last

/-- The text without its leading blanks. -/
def trimLeft (text : List Char) : List Char :=
  text.dropWhile isBlank

/-- The text without its trailing blanks. -/
def trimRight (text : List Char) : List Char :=
  (trimLeft text.reverse).reverse

/-- The text without the blanks at its two ends. -/
def trim (text : List Char) : List Char :=
  trimRight (trimLeft text)

theorem length_trimLeft_le (text : List Char) : (trimLeft text).length ≤ text.length :=
  (List.dropWhile_suffix _).length_le

theorem length_trim_le (text : List Char) : (trim text).length ≤ text.length := by
  have outer := length_trimLeft_le (trimLeft text).reverse
  have inner := length_trimLeft_le text
  simp only [List.length_reverse] at outer
  simp only [trim, trimRight, List.length_reverse]
  omega

end ThreeAddress.Text
