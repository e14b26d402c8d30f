import ThreeAddress.Ty.Basic

/-!
# Built-in calls and the support functions behind them

## Main definitions

* `Builtin`: the calls with lowering rules of their own. Their names win over functions of the
  program.
* `Support`: the functions that the emitted code links against.
-/

namespace ThreeAddress

/-- The calls with lowering rules of their own. -/
inductive Builtin where
  /-- Prints its arguments by a format text. -/
  | printf
  /-- A success value around its argument. -/
  | ok
  /-- An error value around its argument. -/
  | err
  /-- The payload of a success or error value, read without a look at the tag. -/
  | unwrap
  /-- Fresh memory of a literal size. -/
  | alloc
  /-- Memory of another literal size with the same contents. -/
  | realloc
  deriving DecidableEq, Repr

namespace Builtin

/-- All built-in calls. -/
def all : List Builtin := [printf, ok, err, unwrap, alloc, realloc]

/-- The name a built-in is called by. -/
def name : Builtin → String
  | printf => "printf"
  | ok => "Ok"
  | err => "Err"
  | unwrap => "Unwrap"
  | alloc => "alloc"
  | realloc => "realloc"

/-- The built-in with the given name. -/
def ofName? (name : String) : Option Builtin :=
  all.find? fun builtin => builtin.name = name

/-- The type of a built-in call. The payload of a success or error value is an `i32` unless the
place it is read into has a type. -/
def resultTy : Builtin → Ty
  | printf | unwrap => .i32
  | ok | err => .result
  | alloc | realloc => .bytes

/-- How many arguments a built-in takes. Any number may follow the one of `printf`. -/
def arity : Builtin → Nat
  | realloc => 2
  | _ => 1

end Builtin

/-- The functions that the emitted code links against. -/
inductive Support where
  | malloc
  | realloc
  | printf
  | makeOk
  | makeErr
  deriving DecidableEq, Repr

namespace Support

/-- All support functions, in the order they are declared. -/
def all : List Support := [malloc, realloc, printf, makeOk, makeErr]

/-- The symbol that a support function is linked by. -/
def name : Support → String
  | malloc => "malloc"
  | realloc => "realloc"
  | printf => "printf"
  | makeOk => "pitch_ok"
  | makeErr => "pitch_err"

/-- The type of a support function. -/
def signature : Support → Signature
  | malloc => ⟨some .bytes, [.i32], false⟩
  | realloc => ⟨some .bytes, [.bytes, .i32], false⟩
  | printf => ⟨some .i32, [.bytes], true⟩
  | makeOk | makeErr => ⟨some .result, [.bytes], false⟩

end Support

end ThreeAddress
