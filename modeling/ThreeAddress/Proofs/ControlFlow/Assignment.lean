import ThreeAddress.Proofs.Scoping
import ThreeAddress.Proofs.Tally.Record

/-!
# Variables that are set where they are read

Blocks open no scope, so a name stands for the variable that was bound last in the text, also where
control has not come through that binding. Whether it has is followed through the statements: control
may take either arm of a conditional, it may leave a loop at each test, and it leaves the function at a
return. Where a variable may be unset, the parts of the text that read it are exposed, and so are the
instructions that are written for them.

## Main definitions

* `Stmt.leavesUnset`: whether control can come behind a statement and the variable is not set.
* `Stmt.isSettled`: a variable is only read where it is set.
* `Stmt.Exposes`, `Block.Exposes`: the instructions that are written for a reading of the variable where it
  may be unset.
* `FunctionDef.slots`: the stack slots of a function, each with the name of its variable.
* `FunctionDef.isInitialized`: whether a stack slot is set wherever its variable is read.

## Main statements

* `Block.isSettled_of_exposes`: where a variable is only read where it is set, nothing is exposed.
* `Block.filterMap_tally`: the named stack slots of statements are those of the names they declare.
* `Block.count_tally`: so each name has as many as it is declared.
-/

namespace ThreeAddress

namespace Expr

/-- The variable that an expression is. -/
def asVariable : Expr → Option String
  | variableRef name => some name
  | _ => none

/-- Whether an expression does not read a variable, where the variable must not be read. -/
def avoids (name : String) (forbidden : Bool) (expression : Expr) : Bool :=
  !forbidden || !expression.reads.contains name

end Expr

mutual

/-- Whether the variable of a name may be unset behind a statement, given whether it may be in front
of it. A binding that control leaves out is unset, and a later assignment sets it. -/
def Stmt.leavesUnset (name : String) : Bool → Stmt → Bool
  | unset, .bind other _ _ => unset && other != name
  | unset, .assign target _ => unset && target.asVariable != some name
  | unset, .ite _ positive negative =>
    !Block.mustReturn positive &&
        (Block.leavesUnset name unset positive || (Block.declares negative).contains name) ||
      !Block.mustReturn negative &&
        Block.leavesUnset name (unset || (Block.declares positive).contains name) negative
  | unset, .loop _ body => unset || (Block.declares body).contains name
  | unset, .eval _ | unset, .ret _ | unset, .directive _ => unset

/-- Whether the variable of a name may be unset behind some statements. -/
def Block.leavesUnset (name : String) : Bool → List Stmt → Bool
  | unset, [] => unset
  | unset, statement :: rest => Block.leavesUnset name (statement.leavesUnset name unset) rest

end

mutual

/-- Whether a statement reads a variable only where it is set. The variable is the one of the given
number among those of its name, `seen` of which are bound in front of the statement. -/
def Stmt.isSettled (name : String) (number : Nat) : Nat → Bool → Stmt → Bool
  | seen, unset, .bind _ _ value => value.avoids name (unset && seen == number)
  | seen, unset, .assign target value =>
    (target.asVariable.isSome || target.avoids name (unset && seen == number)) &&
      value.avoids name (unset && seen == number)
  | seen, unset, .eval expression => expression.avoids name (unset && seen == number)
  | seen, unset, .ret value => value.all (Expr.avoids name (unset && seen == number))
  | seen, unset, .ite condition positive negative =>
    condition.avoids name (unset && seen == number) &&
      Block.isSettled name number seen unset positive &&
      Block.isSettled name number (seen + (Block.declares positive).count name)
        (unset || (Block.declares positive).contains name) negative
  | seen, unset, .loop condition body =>
    condition.avoids name (unset && seen == number) && Block.isSettled name number seen unset body
  | _, _, .directive _ => true

/-- Whether some statements read a variable only where it is set. What stands behind a return does
not count. -/
def Block.isSettled (name : String) (number : Nat) : Nat → Bool → List Stmt → Bool
  | _, _, [] => true
  | seen, unset, statement :: rest =>
    statement.isSettled name number seen unset &&
      (statement.mustReturn || Block.isSettled name number (seen + statement.declares.count name)
        (statement.leavesUnset name unset) rest)

end

/-- The variables whose values a statement reads, its blocks apart. The variable that is assigned is not
read. -/
def Stmt.reads : Stmt → List String
  | .bind _ _ value => value.reads
  | .assign target value => (if target.asVariable.isSome then [] else target.reads) ++ value.reads
  | .eval expression => expression.reads
  | .ret value => value.toList.flatMap Expr.reads
  | .ite condition _ _ | .loop condition _ => condition.reads
  | .directive _ => []

/-- An instruction that is written for a statement, its blocks apart. -/
def Stmt.Writes (frame : Frame) (statement : Stmt) (body : Body) (instruction : Instr) : Prop :=
  match statement with
  | .ite condition _ _ | .loop condition _ => ∃ start operand tested,
    (Lowering.lowerStmt frame statement).Runs body (Lowering.testCondition frame condition) start ∧
    (Lowering.testCondition frame condition).eval start = .ok (operand, tested) ∧
    instruction ∈ tested.code.drop start.code.length
  | _ => ∃ last, (Lowering.lowerStmt frame statement).eval body = .ok ((), last) ∧
    instruction ∈ last.code.drop body.code.length

mutual

/-- An instruction that a statement has written for a reading of a variable, where the variable may be
unset. The statement is lowered from the given body. -/
inductive Stmt.Exposes (frame : Frame) (name : String) (number : Nat) :
    Nat → Bool → Stmt → Body → Instr → Prop
  | part {seen : Nat} {unset : Bool} {statement : Stmt} {body : Body} {instruction : Instr}
      (resolves : seen = number) (unset_eq : unset = true) (reads : name ∈ statement.reads)
      (writes : statement.Writes frame body instruction) :
      Stmt.Exposes frame name number seen unset statement body instruction
  | positive {seen : Nat} {unset : Bool} {condition : Expr} {positive negative : List Stmt}
      {body start : Body} {instruction : Instr}
      (reaches : (Lowering.lowerStmt frame (.ite condition positive negative)).Runs body
        (Lowering.lowerStmts frame positive) start)
      (exposes : Block.Exposes frame name number seen unset positive start instruction) :
      Stmt.Exposes frame name number seen unset (.ite condition positive negative) body instruction
  | negative {seen : Nat} {unset : Bool} {condition : Expr} {positive negative : List Stmt}
      {body start : Body} {instruction : Instr}
      (reaches : (Lowering.lowerStmt frame (.ite condition positive negative)).Runs body
        (Lowering.lowerStmts frame negative) start)
      (exposes : Block.Exposes frame name number (seen + (Block.declares positive).count name)
        (unset || (Block.declares positive).contains name) negative start instruction) :
      Stmt.Exposes frame name number seen unset (.ite condition positive negative) body instruction
  | turn {seen : Nat} {unset : Bool} {condition : Expr} {statements : List Stmt} {body start : Body}
      {instruction : Instr}
      (reaches : (Lowering.lowerStmt frame (.loop condition statements)).Runs body
        (Lowering.lowerStmts frame statements) start)
      (exposes : Block.Exposes frame name number seen unset statements start instruction) :
      Stmt.Exposes frame name number seen unset (.loop condition statements) body instruction

/-- An instruction that some statements have written for a reading of a variable, where the variable may
be unset. What stands behind a return does not count. -/
inductive Block.Exposes (frame : Frame) (name : String) (number : Nat) :
    Nat → Bool → List Stmt → Body → Instr → Prop
  | here {seen : Nat} {unset : Bool} {statement : Stmt} {rest : List Stmt} {body : Body}
      {instruction : Instr}
      (exposes : Stmt.Exposes frame name number seen unset statement body instruction) :
      Block.Exposes frame name number seen unset (statement :: rest) body instruction
  | later {seen : Nat} {unset : Bool} {statement : Stmt} {rest : List Stmt} {body middle : Body}
      {instruction : Instr} (returns : statement.mustReturn = false)
      (runs : (Lowering.lowerStmt frame statement).eval body = .ok ((), middle))
      (exposes : Block.Exposes frame name number (seen + statement.declares.count name)
        (statement.leavesUnset name unset) rest middle instruction) :
      Block.Exposes frame name number seen unset (statement :: rest) body instruction

end

section Settled

variable {frame : Frame} {name : String} {number : Nat}

/-- What a statement reads where a variable may be unset is not settled. -/
theorem Stmt.isSettled_eq_false {statement : Stmt} {seen : Nat} {unset : Bool}
    (hresolves : seen = number) (hunset : unset = true) (hreads : name ∈ statement.reads) :
    statement.isSettled name number seen unset = false := by
  subst hresolves hunset
  cases statement with
  | bind other ty value => simpa [Stmt.isSettled, Expr.avoids, Stmt.reads] using hreads
  | assign target value =>
    rw [Stmt.reads] at hreads
    cases hvariable : target.asVariable <;>
      simp_all [Stmt.isSettled, Expr.avoids, or_iff_not_imp_left]
  | eval expression => simpa [Stmt.isSettled, Expr.avoids, Stmt.reads] using hreads
  | ret value =>
    cases value with
    | none => simp [Stmt.reads] at hreads
    | some value => simpa [Stmt.isSettled, Expr.avoids, Stmt.reads] using hreads
  | ite condition positive negative =>
    have hcondition : name ∈ condition.reads := hreads
    simp [Stmt.isSettled, Expr.avoids, hcondition]
  | loop condition statements =>
    have hcondition : name ∈ condition.reads := hreads
    simp [Stmt.isSettled, Expr.avoids, hcondition]
  | directive text => simp [Stmt.reads] at hreads

mutual

theorem Stmt.isSettled_of_exposes : ∀ (statement : Stmt) {seen : Nat} {unset : Bool} {body : Body}
    {instruction : Instr}, statement.Exposes frame name number seen unset body instruction →
      statement.isSettled name number seen unset = false
  | .bind _ _ _, _, _, _, _, h | .assign _ _, _, _, _, _, h | .eval _, _, _, _, _, h
  | .ret _, _, _, _, _, h | .directive _, _, _, _, _, h => by
    cases h with
    | part hresolves hunset hreads _ => exact Stmt.isSettled_eq_false hresolves hunset hreads
  | .ite condition positive negative, seen, unset, body, instruction, h => by
    cases h with
    | part hresolves hunset hreads _ => exact Stmt.isSettled_eq_false hresolves hunset hreads
    | positive _ hexposes =>
      rw [Stmt.isSettled, Block.isSettled_of_exposes positive hexposes, Bool.and_false,
        Bool.false_and]
    | negative _ hexposes =>
      rw [Stmt.isSettled, Block.isSettled_of_exposes negative hexposes, Bool.and_false]
  | .loop condition statements, seen, unset, body, instruction, h => by
    cases h with
    | part hresolves hunset hreads _ => exact Stmt.isSettled_eq_false hresolves hunset hreads
    | turn _ hexposes =>
      rw [Stmt.isSettled, Block.isSettled_of_exposes statements hexposes, Bool.and_false]

/-- Where statements read a variable only where it is set, nothing is exposed. -/
theorem Block.isSettled_of_exposes : ∀ (statements : List Stmt) {seen : Nat} {unset : Bool}
    {body : Body} {instruction : Instr},
    Block.Exposes frame name number seen unset statements body instruction →
      Block.isSettled name number seen unset statements = false
  | [], _, _, _, _, h => by cases h
  | statement :: rest, seen, unset, body, instruction, h => by
    rw [Block.isSettled]
    cases h with
    | here hexposes => rw [statement.isSettled_of_exposes hexposes, Bool.false_and]
    | later hreturns _ hexposes =>
      rw [hreturns, Block.isSettled_of_exposes rest hexposes, Bool.false_or, Bool.and_false]

end

end Settled

namespace FunctionDef

/-- The stack slots of a function: those of its parameters, of the returned value and of its body, each
with the name of its variable, if it has one. -/
def slots (definition : FunctionDef) : List (Option String) :=
  definition.parameters.map (fun parameter => some parameter.name) ++
    definition.returns.toList.map (fun _ => none) ++ Block.tally Tally.slots definition.body

/-- Whether a function reads a variable only where it is set. The variable is the one of the given
number among those of its name, parameters included. -/
def isSettled (definition : FunctionDef) (name : String) (number : Nat) : Bool :=
  Block.isSettled name number ((definition.parameters.map TypedName.name).count name) false
    definition.body

/-- The number of the variable with the given stack slot among those of its name. -/
def number (definition : FunctionDef) (index : Nat) (name : String) : Nat :=
  (definition.slots.take (index + 1)).count (some name)

end FunctionDef

-- ════════════════════════
-- Named stack slots
-- ════════════════════════

mutual

/-- The stack slots of an expression are those of struct values, which have no names. -/
theorem Expr.filterMap_tally : ∀ expression : Expr,
    (expression.tally Tally.slots).filterMap id = []
  | .integer _ | .boolean _ | .text _ | .variableRef _ | .address _ | .deref _ _ | .field _ _ => by
    simp [Expr.tally, Tally.slots]
  | .binary _ lhs rhs => by
    rw [Expr.tally, List.filterMap_append, lhs.filterMap_tally, rhs.filterMap_tally, List.append_nil]
  | .call _ arguments => by
    rw [Expr.tally, Expr.filterMap_tallyAll arguments]
  | .build struct fields => by
    rw [Expr.tally, List.filterMap_append, FieldValue.filterMap_tallyAll fields]
    rfl
  | .array elements => by
    rw [Expr.tally, List.filterMap_append, Expr.filterMap_tallyAll elements]
    rfl
  | .element _ index => by
    rw [Expr.tally, index.filterMap_tally]

theorem Expr.filterMap_tallyAll : ∀ expressions : List Expr,
    (Expr.tallyAll Tally.slots expressions).filterMap id = []
  | [] => rfl
  | expression :: rest => by
    rw [Expr.tallyAll, List.filterMap_append, expression.filterMap_tally,
      Expr.filterMap_tallyAll rest, List.append_nil]

theorem FieldValue.filterMap_tallyAll : ∀ fields : List FieldValue,
    (FieldValue.tallyAll Tally.slots fields).filterMap id = []
  | [] => rfl
  | ⟨_, value⟩ :: rest => by
    rw [FieldValue.tallyAll, List.filterMap_append, value.filterMap_tally,
      FieldValue.filterMap_tallyAll rest, List.append_nil]

end

mutual

theorem Stmt.filterMap_tally : ∀ statement : Stmt,
    (statement.tally Tally.slots).filterMap id = statement.declares
  | .bind name _ value => by
    rw [Stmt.tally, List.filterMap_append, value.filterMap_tally]
    rfl
  | .assign target value => by
    rw [Stmt.tally, List.filterMap_append, target.filterMap_tally, value.filterMap_tally]
    rfl
  | .eval expression => by
    rw [Stmt.tally, expression.filterMap_tally]
    rfl
  | .ret none => rfl
  | .ret (some value) => by
    rw [Stmt.tally, Option.toList_some, List.flatMap_singleton, value.filterMap_tally]
    rfl
  | .directive _ => rfl
  | .ite condition positive negative => by
    rw [Stmt.tally, List.filterMap_append, List.filterMap_append, condition.filterMap_tally,
      Block.filterMap_tally positive, Block.filterMap_tally negative, Stmt.declares, List.nil_append]
  | .loop condition body => by
    rw [Stmt.tally, List.filterMap_append, condition.filterMap_tally, Block.filterMap_tally body,
      Stmt.declares, List.nil_append]

/-- The named stack slots of statements are those of the names they declare. -/
theorem Block.filterMap_tally : ∀ statements : List Stmt,
    (Block.tally Tally.slots statements).filterMap id = Block.declares statements
  | [] => rfl
  | statement :: rest => by
    rw [Block.tally, List.filterMap_append, statement.filterMap_tally, Block.filterMap_tally rest,
      Block.declares]

end

/-- How often a name occurs among stack slots. -/
theorem count_some (slots : List (Option String)) (name : String) :
    slots.count (some name) = (slots.filterMap id).count name := by
  rw [List.count_filterMap]
  rfl

theorem Expr.count_tally (expression : Expr) (name : String) :
    (expression.tally Tally.slots).count (some name) = 0 := by
  rw [count_some, expression.filterMap_tally, List.count_nil]

theorem Stmt.count_tally (statement : Stmt) (name : String) :
    (statement.tally Tally.slots).count (some name) = statement.declares.count name := by
  rw [count_some, statement.filterMap_tally]

theorem Block.count_tally (statements : List Stmt) (name : String) :
    (Block.tally Tally.slots statements).count (some name) =
      (Block.declares statements).count name := by
  rw [count_some, Block.filterMap_tally]

end ThreeAddress
