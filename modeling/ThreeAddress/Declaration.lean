import ThreeAddress.Instr.Printer

/-!
# Declarations

The lines that stand outside function bodies.

## Main definitions

* `Declaration`, `Declaration.line`: a line at file scope.
* `Declaration.quotedByte`: how a byte of a text constant is written.
* `functionHeader`, `functionEnd`: the lines around a function body.
-/

namespace ThreeAddress

/-- A line at file scope. -/
inductive Declaration where
  /-- Names a struct type. -/
  | structType (name : String) (members : List Ty)
  /-- A text constant, which gets a zero byte at its end. -/
  | textConstant (name : String) (bytes : List UInt8)
  /-- A constant array. -/
  | arrayConstant (name : String) (member : Ty) (values : List Int)
  /-- A function that is defined elsewhere. -/
  | external (name : String) (signature : Signature)
  deriving DecidableEq

namespace Declaration

/-- The upper-case hexadecimal digit of a number below sixteen. -/
def hexDigit (n : Nat) : Char :=
  (Nat.digitChar n).toUpper

/-- Whether a byte of a text constant stands for itself: the space and the printable ASCII
characters, except the quote and the backslash. -/
def isPlain (byte : UInt8) : Bool :=
  0x20 ≤ byte && byte ≤ 0x7E && byte != 0x22 && byte != 0x5C

/-- A byte of a text constant: itself, or a backslash and its two hexadecimal digits. -/
def quotedByte (byte : UInt8) : List Char :=
  if isPlain byte then
    [Char.ofNat byte.toNat]
  else
    ['\\', hexDigit (byte.toNat / 16), hexDigit (byte.toNat % 16)]

/-- The bytes of a text constant between its quotes, without the zero byte at the end. -/
def quotedBytes (bytes : List UInt8) : String :=
  String.ofList (bytes.flatMap quotedByte)

/-- The text of a declaration. -/
def line : Declaration → String
  | structType name members =>
    assignText name ("type \x7b " ++ commaSeparated (members.map Ty.spelling) ++ " \x7d")
  | textConstant name bytes =>
    globalText name ++ " = private unnamed_addr constant [" ++ toString (bytes.length + 1) ++
      " x i8] c\"" ++ quotedBytes bytes ++ "\\00\""
  | arrayConstant name member values =>
    globalText name ++ " = private constant [" ++ toString values.length ++ " x " ++
      member.spelling ++ "] " ++
      if values.isEmpty then
        "zeroinitializer"
      else
        "[" ++ commaSeparated (values.map fun value => (Value.immediate value member).text) ++ "]"
  | external name signature =>
    "declare " ++ signature.returnSpelling ++ " " ++ globalText name ++ signature.parameterList

end Declaration

/-- The line that opens a function body. Parameters are paired with the registers that hold them. -/
def functionHeader (name : String) (signature : Signature) (registers : List String) : String :=
  let parameters := signature.parameters.zipWith
    (fun ty register => (Value.mk (.register register) ty).text) registers
  "define " ++ signature.returnSpelling ++ " " ++ globalText name ++ "(" ++
    commaSeparated parameters ++ ") \x7b"

/-- The line that closes a function body. -/
def functionEnd : String := "\x7d"

end ThreeAddress
