/-!
# Terminal styles

Diagnostics can be printed with colours. A style opens with its own escape sequence and ends with
the reset sequence that all styles share.

## Main definitions

* `Style`: what a piece of a diagnostic is, hence how it looks.
* `Style.paint`: a text in a style, or the text itself when colours are off.

## Design notes

A text may hold a reset sequence of its own. It would end the style early, so the style is opened
again behind each of them.
-/

namespace ThreeAddress

/-- How a piece of a diagnostic is printed. -/
inductive Style where
  /-- The leading label of a diagnostic: bold red. -/
  | label
  /-- A type: yellow. -/
  | type
  /-- The place that raised an internal error: white. -/
  | origin
  deriving DecidableEq, Repr

namespace Style

/-- The escape character that begins a terminal sequence. -/
def escape : Char := '\x1b'

/-- The sequence that ends every style. -/
def reset : List Char := [escape, '[', '0', 'm']

/-- The sequence that opens a style. -/
def opening : Style → List Char
  | label => escape :: "[1;31m".toList
  | type => escape :: "[33m".toList
  | origin => escape :: "[37m".toList

/-- The text with `opening` behind each of its reset sequences. -/
def reopen (opening : List Char) : List Char → List Char
  | '\x1b' :: '[' :: '0' :: 'm' :: rest => reset ++ opening ++ reopen opening rest
  | c :: rest => c :: reopen opening rest
  | [] => []

/-- The text in a style. Without colours it is the text itself. -/
def paint (style : Style) (colours : Bool) (text : String) : String :=
  if colours then
    String.ofList (style.opening ++ reopen style.opening text.toList ++ reset)
  else
    text

@[simp] theorem paint_false (style : Style) (text : String) : style.paint false text = text := rfl

end Style

end ThreeAddress
