import ThreeAddress.Declaration

/-!
# Lines of function bodies

The bodies of all functions are written to one list of lines. Most lines go to its end. A stack slot that is
asked for later goes to where the stack slots of its function end, in front of lines that are already there.

## Main definitions

* `Line`: a line of a function body.
* `Sheet`: all lines so far, with the place for the next stack slot.
* `Sheet.add`, `Sheet.insert`: one more line at the end, and one more stack slot.
* `Sheet.entry`, `Sheet.code`: the instructions of the function at hand, in front of that place and behind
  it.
-/

namespace ThreeAddress

/-- How far the line of an instruction is indented. Labels stand at the margin. -/
def Instr.indent (instruction : Instr) : Nat :=
  if instruction.startsBlock then 0 else 1

/-- A line of a function body. -/
inductive Line where
  /-- The symbol, the signature and the registers that hold the arguments. -/
  | header (symbol : String) (signature : Signature) (parameters : List String)
  | instr (instruction : Instr)
  | close
  deriving DecidableEq

namespace Line

/-- How far a line is indented. -/
def indent : Line → Nat
  | instr instruction => instruction.indent
  | header _ _ _ | close => 0

/-- What is written in a line. -/
def text : Line → String
  | header symbol signature parameters => functionHeader symbol signature parameters
  | instr instruction => instruction.text
  | close => functionEnd

/-- The instruction in a line. -/
def instruction? : Line → Option Instr
  | instr instruction => some instruction
  | header _ _ _ | close => none

end Line

/-- The lines of all function bodies so far. -/
structure Sheet where
  lines : List Line := []
  /-- Where the instructions of the function at hand begin. -/
  start : Nat := 0
  /-- Where the next stack slot of the function at hand goes. -/
  slot : Nat := 0
  start_le : start ≤ slot := by decide
  slot_le : slot ≤ lines.length := by decide
  deriving DecidableEq

namespace Sheet

/-- The given lines, with a function that begins behind them. -/
def ofLines (lines : List Line) : Sheet where
  lines := lines
  start := lines.length
  slot := lines.length
  start_le := Nat.le_refl _
  slot_le := Nat.le_refl _

/-- Adds a line at the end. -/
def add (sheet : Sheet) (line : Line) : Sheet :=
  { sheet with
    lines := sheet.lines ++ [line]
    slot_le := Nat.le_trans sheet.slot_le (by simp) }

/-- Inserts the line of a stack slot, in front of what follows the stack slots so far. -/
def insert (sheet : Sheet) (line : Line) : Sheet :=
  { sheet with
    lines := sheet.lines.insertIdx sheet.slot line
    slot := sheet.slot + 1
    start_le := Nat.le_succ_of_le sheet.start_le
    slot_le := by
      rw [List.length_insertIdx_of_le_length sheet.slot_le]
      exact Nat.succ_le_succ sheet.slot_le }

/-- Lets stack slots go to the end of the lines so far. -/
def mark (sheet : Sheet) : Sheet :=
  { sheet with
    slot := sheet.lines.length
    start_le := Nat.le_trans sheet.start_le sheet.slot_le
    slot_le := Nat.le_refl _ }

/-- The instructions of the function at hand in front of its next stack slot. -/
def entry (sheet : Sheet) : List Instr :=
  ((sheet.lines.take sheet.slot).drop sheet.start).filterMap Line.instruction?

/-- The instructions of the function at hand behind its stack slots. -/
def code (sheet : Sheet) : List Instr :=
  (sheet.lines.drop sheet.slot).filterMap Line.instruction?

end Sheet

end ThreeAddress
