import Mathlib.Algebra.Group.Int.Defs
import Mathlib.Algebra.Group.Nat.Defs
import ThreeAddress.Lower.Value

/-!
# Words

The values of the integer types, and what operators and instructions do to them. Operators of the
source are explained by signed numbers, instructions by bits.

## Main definitions

* `Word`: a value of an integer type.
* `Operator.apply`: an operator of the source.
* `Instr.apply`: an instruction with two operands.

## Main statements

* `apply_instruction`: the instruction behind an operator computes what the operator does.

## Design notes

An operation without a result is `none`: a division by zero, a quotient that does not fit, a shift
by at least the width.
-/

namespace ThreeAddress

/-- A value of an integer type. -/
structure Word where
  width : Width
  bits : BitVec width.bits
  deriving DecidableEq

namespace Word

/-- A number modulo two to the width. -/
def ofInt (width : Width) (value : Int) : Word := ⟨width, BitVec.ofInt width.bits value⟩

def ofBool (value : Bool) : Word := ofInt .i1 (if value then 1 else 0)

/-- What a truth value says. -/
def truth? (word : Word) : Option Bool :=
  if word.width = .i1 then some (word.bits != 0) else none

/-- An operation on two values of one width. -/
def combine (operation : ∀ {width : Width}, BitVec width.bits → BitVec width.bits → Option Word)
    (lhs rhs : Word) : Option Word :=
  if h : rhs.width = lhs.width then operation lhs.bits (h ▸ rhs.bits) else none

theorem combine_eq_some_iff
    {operation : ∀ {width : Width}, BitVec width.bits → BitVec width.bits → Option Word}
    {lhs rhs word : Word} :
    combine operation lhs rhs = some word ↔ ∃ (width : Width) (left right : BitVec width.bits),
      lhs = ⟨width, left⟩ ∧ rhs = ⟨width, right⟩ ∧ operation left right = some word := by
  constructor
  · intro h
    obtain ⟨width, left⟩ := lhs
    obtain ⟨width', right⟩ := rhs
    by_cases hwidth : width' = width
    · subst hwidth
      exact ⟨width', left, right, rfl, rfl, by simpa [combine] using h⟩
    · simp [combine, hwidth] at h
  · rintro ⟨width, left, right, rfl, rfl, h⟩
    simpa [combine] using h

end Word

namespace Operator

variable {width : Width}

/-- Whether a quotient exists and fits. -/
def divides (lhs rhs : BitVec width.bits) : Prop :=
  rhs.toInt ≠ 0 ∧ lhs.toInt.tdiv rhs.toInt < 2 ^ (width.bits - 1)

instance (lhs rhs : BitVec width.bits) : Decidable (divides lhs rhs) :=
  inferInstanceAs (Decidable (_ ∧ _))

/-- An operator on two values of one width. -/
def compute (lhs rhs : BitVec width.bits) : Operator → Option Word
  | add => some (.ofInt width (lhs.toInt + rhs.toInt))
  | subtract => some (.ofInt width (lhs.toInt - rhs.toInt))
  | multiply => some (.ofInt width (lhs.toInt * rhs.toInt))
  | divide =>
    if divides lhs rhs then some (.ofInt width (lhs.toInt.tdiv rhs.toInt)) else none
  | remainder =>
    if divides lhs rhs then some (.ofInt width (lhs.toInt.tmod rhs.toInt)) else none
  | equal => some (.ofBool (lhs.toInt = rhs.toInt))
  | notEqual => some (.ofBool (lhs.toInt ≠ rhs.toInt))
  | less => some (.ofBool (lhs.toInt < rhs.toInt))
  | lessEqual => some (.ofBool (lhs.toInt ≤ rhs.toInt))
  | greater => some (.ofBool (rhs.toInt < lhs.toInt))
  | greaterEqual => some (.ofBool (rhs.toInt ≤ lhs.toInt))
  | bitAnd => some ⟨width, lhs &&& rhs⟩
  | bitOr => some ⟨width, lhs ||| rhs⟩
  | bitXor => some ⟨width, lhs ^^^ rhs⟩
  | shiftLeft =>
    if rhs.toNat < width.bits then some (.ofInt width (lhs.toInt * 2 ^ rhs.toNat)) else none
  | shiftRight =>
    if rhs.toNat < width.bits then some (.ofInt width (lhs.toInt / 2 ^ rhs.toNat)) else none

/-- An operator of the source. -/
def apply (operator : Operator) : Word → Word → Option Word :=
  Word.combine fun lhs rhs => operator.compute lhs rhs

/-- Comparisons yield truth values; every other result has the width of the operands. -/
theorem width_of_apply {operator : Operator} {lhs rhs word : Word}
    (h : operator.apply lhs rhs = some word) : rhs.width = lhs.width ∧
      word.width = if operator.isComparison then .i1 else lhs.width := by
  obtain ⟨width, left, right, rfl, rfl, hresult⟩ := Word.combine_eq_some_iff.mp h
  refine ⟨rfl, ?_⟩
  cases operator with
  | divide | remainder | shiftLeft | shiftRight =>
    simp only [compute, Option.ite_none_right_eq_some] at hresult
    obtain ⟨-, ⟨⟩⟩ := hresult
    rfl
  | _ =>
    cases hresult
    rfl

end Operator

/-- An operation on bits. -/
def Opcode.compute {width : Nat} (lhs rhs : BitVec width) : Opcode → Option (BitVec width)
  | add => some (lhs + rhs)
  | sub => some (lhs - rhs)
  | mul => some (lhs * rhs)
  | sdiv =>
    if rhs = 0 ∨ lhs = BitVec.intMin width ∧ rhs = -1 then none else some (lhs.sdiv rhs)
  | srem =>
    if rhs = 0 ∨ lhs = BitVec.intMin width ∧ rhs = -1 then none else some (lhs.srem rhs)
  | and => some (lhs &&& rhs)
  | or => some (lhs ||| rhs)
  | xor => some (lhs ^^^ rhs)
  | shl => if rhs.toNat < width then some (lhs <<< rhs.toNat) else none
  | ashr => if rhs.toNat < width then some (lhs.sshiftRight rhs.toNat) else none

/-- A comparison of bits. -/
def Predicate.holds {width : Nat} (lhs rhs : BitVec width) : Predicate → Bool
  | eq => lhs = rhs
  | ne => lhs ≠ rhs
  | slt => lhs.slt rhs
  | sle => lhs.sle rhs
  | sgt => rhs.slt lhs
  | sge => rhs.sle lhs

namespace Instr

/-- What an instruction with two operands of one width yields. -/
def compute {width : Width} (lhs rhs : BitVec width.bits) : Instr → Option Word
  | arithmetic opcode _ _ _ _ => (opcode.compute lhs rhs).map fun bits => ⟨width, bits⟩
  | compare predicate _ _ _ _ => some (.ofBool (predicate.holds lhs rhs))
  | _ => none

/-- An instruction with two operands. -/
def apply (instruction : Instr) : Word → Word → Option Word :=
  Word.combine fun lhs rhs => instruction.compute lhs rhs

end Instr

variable {width : Width}

theorem ofInt_sub (lhs rhs : BitVec width.bits) :
    BitVec.ofInt width.bits (lhs.toInt - rhs.toInt) = lhs - rhs := by
  rw [Int.sub_eq_add_neg, BitVec.ofInt_add, BitVec.ofInt_neg, BitVec.ofInt_toInt,
    BitVec.ofInt_toInt, BitVec.sub_eq_add_neg]

theorem ofInt_tdiv (lhs rhs : BitVec width.bits) :
    BitVec.ofInt width.bits (lhs.toInt.tdiv rhs.toInt) = lhs.sdiv rhs := by
  apply BitVec.eq_of_toInt_eq
  rw [BitVec.toInt_ofInt, BitVec.toInt_sdiv]

theorem ofInt_tmod (lhs rhs : BitVec width.bits) :
    BitVec.ofInt width.bits (lhs.toInt.tmod rhs.toInt) = lhs.srem rhs := by
  rw [← BitVec.toInt_srem, BitVec.ofInt_toInt]

theorem ofInt_shiftLeft (bits : BitVec width.bits) (count : Nat) :
    BitVec.ofInt width.bits (bits.toInt * 2 ^ count) = bits <<< count := by
  have hpower : BitVec.ofInt width.bits (2 ^ count) = BitVec.twoPow width.bits count := by
    have hcast : (2 : Int) ^ count = ((2 ^ count : Nat) : Int) := by
      push_cast
      rfl
    rw [hcast, BitVec.ofInt_natCast]
    apply BitVec.eq_of_toNat_eq
    rw [BitVec.toNat_ofNat, BitVec.toNat_twoPow]
  rw [BitVec.ofInt_mul, BitVec.ofInt_toInt, hpower, ← BitVec.shiftLeft_eq_mul_twoPow]

theorem ofInt_shiftRight (bits : BitVec width.bits) (count : Nat) :
    BitVec.ofInt width.bits (bits.toInt / 2 ^ count) = bits.sshiftRight count := by
  have hvalue : (bits.sshiftRight count).toInt = bits.toInt / 2 ^ count := by
    rw [BitVec.toInt_sshiftRight, Int.shiftRight_eq_div_pow]
    push_cast
    rfl
  rw [← hvalue, BitVec.ofInt_toInt]

/-- Where a quotient exists and fits, the instructions for it are defined. -/
theorem not_trap_of_divides {lhs rhs : BitVec width.bits} (h : Operator.divides lhs rhs) :
    ¬(rhs = 0 ∨ lhs = BitVec.intMin width.bits ∧ rhs = -1) := by
  rintro (rfl | ⟨rfl, rfl⟩)
  · exact h.1 (by simp)
  · have hfits := h.2
    revert hfits
    cases width <;> decide

theorem compute_instruction {operator : Operator} {lhs rhs : BitVec width.bits} {word : Word}
    (target : String) (ty : Ty) (left right : Operand) (h : operator.compute lhs rhs = some word) :
    (operator.instruction target ty left right).compute lhs rhs = some word := by
  cases operator with
  | add | subtract | multiply =>
    cases h
    simp [Operator.instruction, Instr.compute, Opcode.compute, Word.ofInt, BitVec.ofInt_add,
      BitVec.ofInt_mul, ofInt_sub]
  | divide | remainder =>
    simp only [Operator.compute, Option.ite_none_right_eq_some] at h
    obtain ⟨hdivides, ⟨⟩⟩ := h
    simp only [Operator.instruction, Instr.compute, Opcode.compute, not_trap_of_divides hdivides,
      if_false, Option.map_some, Word.ofInt, ofInt_tdiv, ofInt_tmod]
  | shiftLeft | shiftRight =>
    simp only [Operator.compute, Option.ite_none_right_eq_some] at h
    obtain ⟨hcount, ⟨⟩⟩ := h
    simp [Operator.instruction, Instr.compute, Opcode.compute, hcount, Word.ofInt, ofInt_shiftLeft,
      ofInt_shiftRight]
  | bitAnd | bitOr | bitXor => exact h
  | equal | notEqual | less | lessEqual | greater | greaterEqual =>
    cases h
    simp [Operator.instruction, Instr.compute, Predicate.holds, BitVec.toInt_inj,
      BitVec.slt_eq_decide, BitVec.sle_eq_decide]

/-- The instruction behind an operator computes what the operator does. -/
theorem apply_instruction {operator : Operator} {lhs rhs word : Word} (target : String) (ty : Ty)
    (left right : Operand) (h : operator.apply lhs rhs = some word) :
    (operator.instruction target ty left right).apply lhs rhs = some word := by
  obtain ⟨width, lhs, rhs, rfl, rfl, hresult⟩ := Word.combine_eq_some_iff.mp h
  exact Word.combine_eq_some_iff.mpr
    ⟨width, lhs, rhs, rfl, rfl, compute_instruction target ty left right hresult⟩

end ThreeAddress
