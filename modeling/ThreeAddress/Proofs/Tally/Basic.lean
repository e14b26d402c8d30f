import ThreeAddress.Proofs.Emission.Extends

/-!
# Tallies

What lowering meets on its way through a program can be listed in advance: texts, constant arrays,
variables that get a stack slot and struct values, in the order they are evaluated. A ledger says what a
body shows for the things that were met, and it is enough to say so for single steps. That the ledger is
kept for whole functions is shown once for all ledgers, in the modules that follow.

## Main definitions

* `Tally`: what is listed of each thing that lowering meets.
* `Expr.tally`, `Stmt.tally`, `Block.tally`: the list for a program.
* `Expr.integers`, `Stmt.integers`, `Block.integers`: the integer literals of a program.
* `Instr.Drawn`: an ordinary instruction whose numbers are literals.
* `Ledger`: a relation between bodies that single steps keep, with what was met in between.
* `Lowering.Books`: a pass that keeps a ledger.

## Main statements

* `Lowering.Books.append`: a sequence meets what its parts meet.
* `Lowering.books_emit`: emitting an ordinary instruction.
-/

namespace ThreeAddress

-- ════════════════════════
-- What lowering meets
-- ════════════════════════

/-- What is listed of each thing that lowering meets. -/
structure Tally (ε : Type) where
  /-- A text. -/
  text : String → List ε
  /-- A constant array. -/
  array : List Expr → List ε
  /-- A variable that gets its stack slot. -/
  bind : String → List ε
  /-- A value of a struct, which is put together in a stack slot. -/
  build : String → List ε

section Lists

variable {ε : Type} (tally : Tally ε)

mutual

/-- What lowering meets in an expression. The slot of a struct value is there before its members. -/
def Expr.tally : Expr → List ε
  | .text value => tally.text value
  | .array elements => Expr.tallyAll elements ++ tally.array elements
  | .binary _ lhs rhs => lhs.tally ++ rhs.tally
  | .call _ arguments => Expr.tallyAll arguments
  | .build struct fields => tally.build struct ++ FieldValue.tallyAll fields
  | .element _ index => index.tally
  | .integer _ | .boolean _ | .variableRef _ | .address _ | .deref _ _ | .field _ _ => []

/-- What lowering meets in some expressions. -/
def Expr.tallyAll : List Expr → List ε
  | [] => []
  | expression :: rest => expression.tally ++ Expr.tallyAll rest

/-- What lowering meets in the members of a struct value. -/
def FieldValue.tallyAll : List FieldValue → List ε
  | [] => []
  | ⟨_, value⟩ :: rest => value.tally ++ FieldValue.tallyAll rest

end

mutual

/-- What lowering meets in a statement. A variable gets its slot when its value is there. -/
def Stmt.tally : Stmt → List ε
  | .bind name _ value => value.tally tally ++ tally.bind name
  | .assign target value => target.tally tally ++ value.tally tally
  | .eval expression => expression.tally tally
  | .ret value => value.toList.flatMap (Expr.tally tally)
  | .ite condition positive negative =>
    condition.tally tally ++ (Block.tally positive ++ Block.tally negative)
  | .loop condition body => condition.tally tally ++ Block.tally body
  | .directive _ => []

/-- What lowering meets in some statements. -/
def Block.tally : List Stmt → List ε
  | [] => []
  | statement :: rest => statement.tally ++ Block.tally rest

end

end Lists

mutual

/-- The integer literals of an expression. -/
def Expr.integers : Expr → List Int
  | .integer value => [value]
  | .array elements => Expr.integersAll elements
  | .binary _ lhs rhs => lhs.integers ++ rhs.integers
  | .call _ arguments => Expr.integersAll arguments
  | .build _ fields => FieldValue.integersAll fields
  | .element _ index => index.integers
  | .boolean _ | .text _ | .variableRef _ | .address _ | .deref _ _ | .field _ _ => []

/-- The integer literals of some expressions. -/
def Expr.integersAll : List Expr → List Int
  | [] => []
  | expression :: rest => expression.integers ++ Expr.integersAll rest

/-- The integer literals of the members of a struct value. -/
def FieldValue.integersAll : List FieldValue → List Int
  | [] => []
  | ⟨_, value⟩ :: rest => value.integers ++ FieldValue.integersAll rest

end

mutual

/-- The integer literals of a statement. -/
def Stmt.integers : Stmt → List Int
  | .bind _ _ value => value.integers
  | .assign target value => target.integers ++ value.integers
  | .eval expression => expression.integers
  | .ret value => value.toList.flatMap Expr.integers
  | .ite condition positive negative =>
    condition.integers ++ (Block.integers positive ++ Block.integers negative)
  | .loop condition body => condition.integers ++ Block.integers body
  | .directive _ => []

/-- The integer literals of some statements. -/
def Block.integers : List Stmt → List Int
  | [] => []
  | statement :: rest => statement.integers ++ Block.integers rest

end

-- ════════════════════════
-- Ledgers
-- ════════════════════════

/-- An instruction that neither reserves memory nor takes the address of a constant or of a member. -/
def Instr.isOrdinary : Instr → Bool
  | alloca _ _ => false
  | elementAddress _ _ (.global _) _ _ => false
  | elementAddress _ _ _ indices _ => indices.length < 2
  | _ => true

/-- The operands that an instruction reads at types of their own, each with its type. -/
def Instr.readings : Instr → List Value
  | label _ | alloca _ _ | load _ _ _ | branch _ => []
  | store value _ | extend _ _ value _ | extractMember _ value _ => [value]
  | elementAddress _ _ _ indices _ => indices
  | arithmetic _ _ ty lhs rhs | compare _ _ ty lhs rhs => [⟨lhs, ty⟩, ⟨rhs, ty⟩]
  | call _ _ _ arguments => arguments
  | branchIf condition _ _ => [⟨condition, .bool⟩]
  | ret value => value.toList

/-- A value that is some literal, if it is a number. -/
def Value.Drawn (literal : Int → Prop) (value : Value) : Prop :=
  ∀ number, value.operand = .immediate number → literal number

/-- An ordinary instruction whose numbers are literals. It mentions no type that is not to be used. -/
structure Instr.Drawn (literal : Int → Prop) (instruction : Instr) : Prop where
  ordinary : instruction.isOrdinary
  concrete : instruction.placeholder? = none
  readings : ∀ value ∈ instruction.readings, value.Drawn literal

/-- The call that makes room for a value of a size. -/
def Instr.allocation (target : String) (size : UInt64) : Instr :=
  .call (some target) Support.malloc.name Support.malloc.signature
    [.immediate (signedWord size) .i32]

/-- A relation between bodies that single steps keep, with what was met in between. -/
structure Ledger {ε : Type} (tally : Tally ε) where
  Booked : List ε → Body → Body → Prop
  /-- The integer literals that may be met. -/
  literal : Int → Prop
  refl : ∀ body, Booked [] body body
  trans : ∀ {events more body middle last}, Booked events body middle → Booked more middle last →
    Booked (events ++ more) body last
  mint : ∀ body base ty, Booked [] body (body.mint base ty)
  append : ∀ body {instruction : Instr}, instruction.Drawn literal →
    Booked [] body (body.append instruction)
  /-- Apart from literals, numbers are the positions of members and the sizes of values. -/
  member : ∀ body target {definition : StructTy} register {position},
    position < definition.members.length → Booked [] body (body.append
      (.elementAddress target (.struct definition) (.register register) [.index 0, .index position]
        true))
  allocate : ∀ body target address {value : Value} {size}, value.ty.size = .ok size →
    (Instr.store value address).Drawn literal →
      Booked [] body ((body.append (.allocation target size)).append (.store value address))
  bind : ∀ body name {ty : Ty}, ty.isConcrete → Booked (tally.bind name) body
    ((body.rebind name ty).reserve (.make (body.scope.newRegister name) ty))
  build : ∀ body struct {slot : Var}, slot.ty.isConcrete →
    Booked (tally.build struct) body (body.reserve slot)
  text : ∀ {value target body last},
    (Lowering.addressConstant (.text value) target).eval body = .ok ((), last) →
      Booked (tally.text value) body last
  array : ∀ {elements width values target body last},
    (∀ number ∈ Expr.integersAll elements, literal number) →
    constantElements width elements = .ok values →
    (Lowering.addressConstant (.array width values) target).eval body = .ok ((), last) →
      Booked (tally.array elements) body last

namespace Lowering

variable {ε α β : Type} {tally : Tally ε} {ledger : Ledger tally} {events more : List ε}

/-- A pass that keeps a ledger: from its start to its end the given things are met, if it succeeds. -/
def Books (ledger : Ledger tally) (events : List ε) (pass : Lowering α) : Prop :=
  ∀ ⦃body value last⦄, pass.eval body = .ok (value, last) → ledger.Booked events body last

/-- A value that a pass may end with. -/
def MayReturn (pass : Lowering α) (value : α) : Prop :=
  ∃ body last, pass.eval body = .ok (value, last)

/-- A sequence meets what its parts meet. -/
theorem Books.append {first : Lowering α} {next : α → Lowering β} (h : Books ledger events first)
    (h' : ∀ value, MayReturn first value → Books ledger more (next value)) :
    Books ledger (events ++ more) (first >>= next) := by
  intro body value last hrun
  obtain ⟨between, middle, hfirst, hnext⟩ := Pass.eval_bind_eq_ok_iff.mp hrun
  exact ledger.trans (h hfirst) (h' between ⟨body, middle, hfirst⟩ hnext)

/-- A sequence that meets nothing at first. -/
theorem Books.bind {first : Lowering α} {next : α → Lowering β} (h : Books ledger [] first)
    (h' : ∀ value, MayReturn first value → Books ledger events (next value)) :
    Books ledger events (first >>= next) :=
  h.append h'

/-- A sequence that meets nothing in the end. -/
theorem Books.finish {first : Lowering α} {next : α → Lowering β} (h : Books ledger events first)
    (h' : ∀ value, MayReturn first value → Books ledger [] (next value)) :
    Books ledger events (first >>= next) := by
  rw [← List.append_nil events]
  exact h.append h'

/-- A pass that leaves the body as it is meets nothing. -/
theorem books_of_eq {pass : Lowering α}
    (h : ∀ {body value last}, pass.eval body = .ok (value, last) → body = last) :
    Books ledger [] pass := by
  intro body value last hrun
  obtain rfl := h hrun
  exact ledger.refl body

theorem books_pure (value : α) : Books ledger [] (pure value) :=
  books_of_eq fun h => (Pass.eval_pure_eq_ok_iff.mp h).2

theorem books_get : Books ledger [] Pass.get :=
  books_of_eq fun h => (Pass.eval_get_eq_ok_iff.mp h).2

theorem books_ofExcept (source : Except Diagnostic α) : Books ledger [] (Pass.ofExcept source) :=
  books_of_eq fun h => (Pass.eval_ofExcept_eq_ok_iff.mp h).2

theorem books_require (condition : Bool) (diagnostic : Diagnostic) :
    Books ledger [] (Pass.require condition diagnostic) :=
  books_of_eq fun h => (Pass.eval_require_eq_ok_iff.mp h).2

theorem books_report (trace : Trace) : Books ledger [] (Pass.report trace) :=
  books_of_eq Pass.eval_report_eq_ok_iff.mp

/-- A pass that never succeeds meets whatever one likes. -/
theorem books_fail (diagnostic : Diagnostic) :
    Books ledger events (Pass.fail diagnostic : Lowering α) := by
  intro body value last hrun
  cases hrun

theorem Books.map {pass : Lowering α} (h : Books ledger events pass) (change : α → β) :
    Books ledger events (change <$> pass) := by
  rw [map_eq_pure_bind]
  exact h.finish fun _ _ => books_pure _

-- ════════════════════════
-- Registers and instructions
-- ════════════════════════

theorem books_mint (base : String) (ty : Ty) : Books ledger [] (mint base ty) := by
  intro body var last hrun
  obtain ⟨-, rfl⟩ := eval_mint_eq_ok_iff.mp hrun
  exact ledger.mint body base ty

theorem books_temporary (ty : Ty) : Books ledger [] (temporary ty) := by
  intro body var last hrun
  obtain ⟨-, rfl⟩ := eval_temporary_eq_ok_iff.mp hrun
  exact ledger.mint body _ ty

theorem books_newLabel (base : String) : Books ledger [] (newLabel base) :=
  (books_mint base .label).map _

theorem books_variableNamed (name : String) : Books ledger [] (variableNamed name) :=
  books_get.bind fun _ _ => books_ofExcept _

theorem books_expectType (site : Site) (expected actual : Ty) :
    Books ledger [] (expectType site expected actual) :=
  books_require _ _

theorem placeholder?_of_eval_emit {instruction : Instr} {body last : Body} {result : Unit}
    (h : (emit instruction).eval body = .ok (result, last)) : instruction.placeholder? = none := by
  simp only [emit, Pass.eval_bind_eq_ok_iff, eval_checkConcrete_eq_ok_iff] at h
  obtain ⟨_, _, ⟨hconcrete, -⟩, -⟩ := h
  exact hconcrete

/-- The blocks that an instruction ends or starts are made of ordinary instructions. -/
theorem booked_emit {instruction : Instr} {body last : Body} {result : Unit}
    (hrun : (emit instruction).eval body = .ok (result, last))
    (h : ∀ body, ledger.Booked [] body (body.append instruction)) : ledger.Booked [] body last := by
  rcases eval_emit_cases hrun with ⟨-, rfl⟩ | ⟨name, -, -, rfl⟩ | ⟨-, -, rfl⟩
  · exact h body
  · exact ledger.trans (ledger.append body ⟨rfl, rfl, by simp [Instr.readings]⟩) (h _)
  · exact ledger.trans (ledger.trans (ledger.mint body "dead" .label)
      (ledger.append _ ⟨rfl, rfl, by simp [Instr.readings]⟩)) (h _)

/-- Emitting an ordinary instruction whose numbers are literals. -/
theorem books_emit {instruction : Instr} (h : instruction.isOrdinary)
    (hreadings : ∀ value ∈ instruction.readings, value.Drawn ledger.literal) :
    Books ledger [] (emit instruction) := by
  intro body result last hrun
  exact booked_emit hrun fun body => ledger.append body ⟨h, placeholder?_of_eval_emit hrun, hreadings⟩

/-- Emitting an ordinary instruction that reads addresses at most. -/
theorem books_emit_silent {instruction : Instr} (h : instruction.isOrdinary)
    (hsilent : instruction.readings = []) : Books ledger [] (emit instruction) :=
  books_emit h (by simp [hsilent])

/-- A name that is bound to a stack slot of its own. -/
theorem books_bindName (name : String) (ty : Ty) : Books ledger (tally.bind name) (do
    let slot ← bindName name ty
    reserve slot
    return slot) := by
  intro body slot last hrun
  simp only [Pass.eval_bind_eq_ok_iff, eval_bindName_eq_ok_iff, eval_reserve_eq_ok_iff,
    Pass.eval_pure_eq_ok_iff] at hrun
  obtain ⟨_, _, ⟨rfl, rfl⟩, _, _, ⟨hconcrete, rfl⟩, -, rfl⟩ := hrun
  exact ledger.bind body name hconcrete

/-- The stack slot of a struct value. -/
theorem books_reserve_build (struct : String) (slot : Var) :
    Books ledger (tally.build struct) (reserve slot) := by
  intro body result last hrun
  obtain ⟨hconcrete, rfl⟩ := eval_reserve_eq_ok_iff.mp hrun
  exact ledger.build body struct hconcrete

end Lowering

end ThreeAddress
