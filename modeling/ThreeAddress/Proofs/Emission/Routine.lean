import ThreeAddress.Proofs.Emission.Module

/-!
# Routines

The passes that lowering a function is made of look at the names of the module, at the scope, and at the
instructions of the function so far. They do not look at the lines of the functions before it. So neither
the code of a function nor the constants it needs depend on these.

## Main definitions

* `Body.Alike`: two bodies that are the same but for the lines in front of the function.
* `Lowering.Routine`: the passes that lowering a function is made of.
* `Pass.Uniform`: a pass that does not tell states apart that are alike.
* `lowerCodes`: functions are lowered in order, and no lines are kept.

## Main statements

* `Lowering.routine_lowerStmts`: lowering statements is a routine.
* `Lowering.Routine.uniform`: a routine does not depend on the lines in front of the function.
* `eval_lowerCodes`: functions are lowered to the same code whether or not lines are kept.
-/

namespace ThreeAddress

-- ════════════════════════
-- Bodies
-- ════════════════════════

/-- Two bodies that are the same but for the lines in front of the function. -/
structure Body.Alike (body other : Body) : Prop where
  globals : body.globals = other.globals
  scope : body.scope = other.scope
  entry : body.entry = other.entry
  code : body.code = other.code

namespace Body.Alike

variable {body other : Body}

theorem isClosed (h : body.Alike other) : body.isClosed = other.isClosed := by
  rw [Body.isClosed, h.code, Body.isClosed]

theorem append (h : body.Alike other) (instruction : Instr) :
    (body.append instruction).Alike (other.append instruction) where
  globals := h.globals
  scope := h.scope
  entry := by rw [entry_append, entry_append, h.entry]
  code := by rw [code_append, code_append, h.code]

theorem reserve (h : body.Alike other) (slot : Var) : (body.reserve slot).Alike (other.reserve slot) where
  globals := h.globals
  scope := h.scope
  entry := by rw [entry_reserve, entry_reserve, h.entry]
  code := by rw [code_reserve, code_reserve, h.code]

theorem entered (h : body.Alike other) : body.entered.Alike other.entered where
  globals := h.globals
  scope := h.scope
  entry := by
    have hentry (body : Body) : body.entered.entry = body.entry ++ body.code := Sheet.entry_mark _
    rw [hentry, hentry, h.entry, h.code]
  code := (Sheet.code_mark _).trans (Sheet.code_mark _).symm

theorem close (h : body.Alike other) : body.close.Alike other.close where
  globals := h.globals
  scope := h.scope
  entry := by rw [entry_close, entry_close, h.entry]
  code := by rw [code_close, code_close, h.code]

end Body.Alike

namespace Lowering

/-- The passes that lowering a function is made of. They report no warning, and what they do is the same
for bodies that are alike. -/
inductive Routine : {α : Type} → Lowering α → Prop
  | pure {α : Type} (value : α) : Routine (pure value)
  | fail {α : Type} (diagnostic : Diagnostic) : Routine (Pass.fail diagnostic : Lowering α)
  | ofExcept {α : Type} (result : Except Diagnostic α) : Routine (Pass.ofExcept result)
  | require (condition : Bool) (diagnostic : Diagnostic) : Routine (Pass.require condition diagnostic)
  | report {events : Trace} (h : events.warnings = []) : Routine (Pass.report events)
  | read {α : Type} {next : Body → Lowering α}
      (hsame : ∀ body other, body.Alike other → next body = next other)
      (h : ∀ body, Routine (next body)) : Routine (Pass.get >>= next)
  | modify (change : Body → Body)
      (h : ∀ body other, body.Alike other → (change body).Alike (change other)) :
      Routine (Pass.modify change)
  | modifyGet {α : Type} (change : Body → α × Body)
      (h : ∀ body other, body.Alike other →
        (change body).1 = (change other).1 ∧ (change body).2.Alike (change other).2) :
      Routine (Pass.modifyGet change)
  | bind {α β : Type} {first : Lowering α} {next : α → Lowering β} (hfirst : Routine first)
      (hnext : ∀ value, Routine (next value)) : Routine (first >>= next)

theorem Routine.map {α β : Type} {pass : Lowering α} (change : α → β) (h : Routine pass) :
    Routine (change <$> pass) := by
  rw [map_eq_pure_bind]
  exact h.bind fun value => .pure _

-- ════════════════════════
-- Names, instructions and places
-- ════════════════════════

theorem routine_withScope (change : Scope → Var × Scope) : Routine (withScope change) :=
  .modifyGet _ fun _ _ h => ⟨by rw [h.scope], { h with scope := by rw [h.scope] }⟩

theorem routine_mint (base : String) (ty : Ty) : Routine (mint base ty) :=
  .bind (routine_withScope _) fun _ => .bind (.report rfl) fun _ => .pure _

theorem routine_temporary (ty : Ty) : Routine (temporary ty) :=
  .bind (routine_withScope _) fun _ => .bind (.report rfl) fun _ => .pure _

theorem routine_newLabel (base : String) : Routine (newLabel base) :=
  (routine_mint base .label).map _

theorem routine_bindName (name : String) (ty : Ty) : Routine (bindName name ty) :=
  .bind (routine_withScope _) fun _ => .bind (.report rfl) fun _ => .pure _

theorem routine_variableNamed (name : String) : Routine (variableNamed name) :=
  .read (fun _ _ h => by rw [h.scope]) fun _ => .ofExcept _

theorem routine_checkConcrete (instruction : Instr) : Routine (checkConcrete instruction) := by
  unfold checkConcrete
  split
  · exact .fail _
  · exact .pure _

theorem routine_reserve (slot : Var) : Routine (reserve slot) :=
  .bind (routine_checkConcrete _) fun _ => .modify _ fun _ _ h => h.reserve slot

theorem routine_append (instruction : Instr) : Routine (append instruction) :=
  .modify _ fun _ _ h => h.append instruction

theorem routine_separate (instruction : Instr) : Routine (separate instruction) := by
  refine .read (fun _ _ h => by rw [h.isClosed]) fun _ => ?_
  split
  · exact routine_append _
  · exact .pure _
  · exact .bind (routine_newLabel _) fun _ => routine_append _
  · exact .pure _

theorem routine_emit (instruction : Instr) : Routine (emit instruction) :=
  .bind (routine_checkConcrete _) fun _ => .bind (routine_separate _) fun _ => routine_append _

theorem routine_intern (constant : Constant) : Routine (intern constant) := by
  refine .read (fun _ _ h => by rw [h.globals]) fun _ => ?_
  split
  · exact .pure _
  · refine .bind (.modify _ fun _ _ h => ?_) fun _ => .bind (.report rfl) fun _ => .pure _
    exact { h with globals := by rw [h.globals] }

theorem routine_follow (ty : Ty) (address : Operand) : Routine (follow ty address) :=
  .bind (routine_temporary _) fun _ => .bind (routine_emit _) fun _ => .pure _

theorem routine_followAll (place : Place) (depth : Nat) : Routine (followAll place depth) := by
  induction depth generalizing place with
  | zero => exact .pure place
  | succ depth ih =>
    refine .bind (routine_follow _ _) fun _ => ?_
    split
    · exact ih _
    · exact .fail _

theorem routine_structAddress (var : Var) : Routine (structAddress var) := by
  unfold structAddress
  split
  · exact routine_follow _ _
  · exact .pure _

theorem routine_loadInto (target : String) (place : Place) : Routine (loadInto target place) :=
  .bind (routine_emit _) fun _ => .pure _

theorem routine_variablePlace (name : String) : Routine (variablePlace name) :=
  (routine_variableNamed name).map _

theorem routine_derefPlace (name : String) (depth : Nat) : Routine (derefPlace name depth) :=
  .bind (routine_variableNamed _) fun _ => .bind (.ofExcept _) fun _ => routine_followAll _ _

theorem routine_memberPlace (definition : StructTy) (address : Operand) (position : Nat)
    (member : Member) : Routine (memberPlace definition address position member) :=
  .bind (routine_temporary _) fun _ => .bind (routine_emit _) fun _ => .pure _

theorem routine_fieldPlace (base field : String) : Routine (fieldPlace base field) :=
  .bind (routine_variableNamed _) fun _ => .bind (.ofExcept _) fun _ =>
    .bind (routine_structAddress _) fun _ => .bind (.ofExcept _) fun _ => routine_memberPlace _ _ _ _

theorem routine_elementPlace (array : String) {index : Lowering Value} (h : Routine index) :
    Routine (elementPlace array index) :=
  .bind (routine_variableNamed _) fun _ => .bind (.ofExcept _) fun _ =>
    .bind (routine_follow _ _) fun _ => .bind h fun _ => .bind (.require _ _) fun _ =>
      .bind (routine_temporary _) fun _ => .bind (routine_emit _) fun _ => .pure _

-- ════════════════════════
-- Calls
-- ════════════════════════

/-- Expressions whose lowering is a routine. -/
def RoutineAll (arguments : List Pending) : Prop :=
  ∀ argument ∈ arguments, ∀ expected, Routine (argument.lower expected)

theorem routine_passArguments {arguments : List Pending} (h : RoutineAll arguments)
    (parameters : List Ty) : Routine (passArguments arguments parameters) := by
  induction arguments generalizing parameters with
  | nil => exact .pure _
  | cons argument rest ih =>
    obtain ⟨hargument, hrest⟩ := List.forall_mem_cons.mp h
    cases parameters with
    | nil => exact .bind (hargument _) fun _ => .bind (ih hrest _) fun _ => .pure _
    | cons parameter parameters =>
      exact .bind (hargument _) fun _ => .bind (.require _ _) fun _ =>
        .bind (ih hrest _) fun _ => .pure _

theorem routine_promote (value : Value) : Routine (promote value) := by
  unfold promote
  split
  · exact .bind (routine_temporary _) fun _ => .bind (routine_emit _) fun _ => .pure _
  · exact .pure _

theorem routine_passVariadic {arguments : List Pending} (h : RoutineAll arguments) :
    Routine (passVariadic arguments) := by
  induction arguments with
  | nil => exact .pure _
  | cons argument rest ih =>
    obtain ⟨hargument, hrest⟩ := List.forall_mem_cons.mp h
    exact .bind (hargument _) fun _ => .bind (routine_promote _) fun _ =>
      .bind (ih hrest) fun _ => .pure _

theorem routine_wrap (constructor : Support) {argument : Pending}
    (h : ∀ expected, Routine (argument.lower expected)) (target : Option Var) :
    Routine (wrap constructor argument target) :=
  .bind (h _) fun _ => .bind (.ofExcept _) fun _ => .bind (routine_temporary _) fun _ =>
    .bind (routine_emit _) fun _ => .bind (routine_emit _) fun _ => routine_emit _

theorem routine_unwrap {argument : Pending} (h : ∀ expected, Routine (argument.lower expected))
    (target : Option Var) : Routine (unwrap argument target) := by
  refine .bind (h _) fun _ => .bind (.require _ _) fun _ => .bind (routine_temporary _) fun _ =>
    .bind (routine_emit _) fun _ => ?_
  split
  · exact .bind (.pure _) fun _ => .bind (routine_emit _) fun _ => .pure _
  · exact .bind (routine_temporary _) fun _ => .bind (routine_emit _) fun _ => .pure _

theorem routine_callBuiltin (builtin : Builtin) {arguments : List Pending} (h : RoutineAll arguments)
    (target : Option Var) : Routine (callBuiltin builtin arguments target) := by
  unfold callBuiltin
  split
  · exact .fail _
  · next format values =>
    obtain ⟨hformat, hvalues⟩ := List.forall_mem_cons.mp h
    exact .bind (.bind (hformat _) fun _ => .bind (.require _ _) fun _ =>
      .bind (routine_passVariadic hvalues) fun _ => routine_emit _) fun _ => .pure _
  · exact .bind (routine_wrap _ (h _ List.mem_cons_self) _) fun _ => .pure _
  · exact .bind (routine_wrap _ (h _ List.mem_cons_self) _) fun _ => .pure _
  · exact routine_unwrap (h _ List.mem_cons_self) _
  · exact .bind (.bind (.ofExcept _) fun _ => routine_emit _) fun _ => .pure _
  · exact .bind (.bind (h _ List.mem_cons_self _) fun _ => .bind (.require _ _) fun _ =>
      .bind (.ofExcept _) fun _ => routine_emit _) fun _ => .pure _
  · exact .fail _

theorem routine_call (callee : String) {arguments : List Pending} (h : RoutineAll arguments)
    (target : Option Var) : Routine (call callee arguments target) := by
  unfold call
  split
  · exact .bind (.report rfl) fun _ => (routine_callBuiltin _ h target).map _
  · exact .read (fun _ _ h => by rw [h.scope]) fun _ => .bind (.ofExcept _) fun _ =>
      .bind (.require _ _) fun _ => .bind (.require _ _) fun _ => .bind (routine_passArguments h _) fun _ =>
        .bind (routine_emit _) fun _ => .pure _

-- ════════════════════════
-- Expressions
-- ════════════════════════

theorem routine_compute (expected : Option Ty) {computation : Var → Lowering Ty}
    (h : ∀ target, Routine (computation target)) : Routine (compute expected computation) := by
  rw [compute_eq]
  exact .bind (routine_temporary _) fun _ => .bind (h _) fun _ => .pure _

theorem routine_addressConstant (constant : Constant) (target : Var) :
    Routine (addressConstant constant target) :=
  .bind (routine_intern _) fun _ => routine_emit _

theorem routine_constantArray (elements : List Expr) (target : Var) :
    Routine (constantArray elements target) := by
  rw [constantArray_eq]
  exact .bind (.ofExcept _) fun _ => .bind (routine_addressConstant _ _) fun _ => .pure _

theorem routine_applyOperator (frame : Frame) (operator : Operator) {lhs rhs : Pending}
    (hlhs : ∀ expected, Routine (lhs.lower expected)) (hrhs : ∀ expected, Routine (rhs.lower expected))
    (target : Var) : Routine (applyOperator frame operator lhs rhs target) :=
  .read (fun _ _ h => by rw [h.scope]) fun _ => .bind (.ofExcept _) fun _ =>
    .bind (.require _ _) fun _ => .bind (hlhs _) fun _ => .bind (hrhs _) fun _ => .bind (.require _ _) fun _ =>
      .bind (.require _ _) fun _ => .bind (.require _ _) fun _ =>
        .bind (routine_emit _) fun _ => .pure _

theorem routine_storeFields (definition : StructTy) (address : Operand) {fields : List PendingField}
    (h : ∀ field ∈ fields, ∀ expected, Routine (field.lower expected)) :
    Routine (storeFields definition address fields) := by
  induction fields with
  | nil => exact .pure _
  | cons field rest ih =>
    obtain ⟨hfield, hrest⟩ := List.forall_mem_cons.mp h
    exact .bind (.ofExcept _) fun _ => .bind (hfield _) fun _ => .bind (.require _ _) fun _ =>
      .bind (routine_memberPlace _ _ _ _) fun _ => .bind (routine_emit _) fun _ => ih hrest

theorem routine_buildStruct (frame : Frame) (struct : String) {fields : List PendingField}
    (h : ∀ field ∈ fields, ∀ expected, Routine (field.lower expected)) (target : Var) :
    Routine (buildStruct frame struct fields target) :=
  .bind (.ofExcept _) fun _ => .bind (routine_temporary _) fun _ => .bind (routine_reserve _) fun _ =>
    .bind (routine_storeFields _ _ h) fun _ => routine_loadInto _ _

theorem routine_callForValue (callee : String) {arguments : List Pending} (h : RoutineAll arguments)
    (target : Var) : Routine (callForValue callee arguments target) := by
  refine .bind (routine_call callee h _) fun _ => ?_
  split
  · exact .pure _
  · exact .fail _

mutual

/-- Lowering an expression is a routine. -/
theorem routine_lowerExpr (frame : Frame) : ∀ (expression : Expr) (expected : Option Ty),
    Routine (lowerExpr frame expression expected)
  | .integer value, expected => by
    rw [lowerExpr_integer]
    exact .pure _
  | .boolean value, expected => by
    rw [lowerExpr_boolean]
    exact .pure _
  | .address name, expected => by
    rw [lowerExpr_address]
    exact .bind (routine_variableNamed _) fun _ => .pure _
  | .text value, expected => by
    rw [lowerExpr_text]
    exact routine_compute _ fun _ => .bind (routine_addressConstant _ _) fun _ => .pure _
  | .variableRef name, expected => by
    rw [lowerExpr_variableRef]
    exact routine_compute _ fun _ => .bind (routine_variablePlace _) fun _ => routine_loadInto _ _
  | .binary operator lhs rhs, expected => by
    rw [lowerExpr_binary]
    exact routine_compute _ fun _ => routine_applyOperator frame operator (routine_lowerExpr frame lhs)
      (routine_lowerExpr frame rhs) _
  | .call callee arguments, expected => by
    rw [lowerExpr_call]
    exact routine_compute _ fun _ => routine_callForValue _ (routine_pending frame arguments) _
  | .deref name depth, expected => by
    rw [lowerExpr_deref]
    exact routine_compute _ fun _ => .bind (routine_derefPlace _ _) fun _ => routine_loadInto _ _
  | .field base field, expected => by
    rw [lowerExpr_field]
    exact routine_compute _ fun _ => .bind (routine_fieldPlace _ _) fun _ => routine_loadInto _ _
  | .element array index, expected => by
    rw [lowerExpr_element]
    exact routine_compute _ fun _ =>
      .bind (routine_elementPlace _ (routine_lowerExpr frame index none)) fun _ => routine_loadInto _ _
  | .build struct fields, expected => by
    rw [lowerExpr_build]
    exact routine_compute _ fun _ => routine_buildStruct _ _ (routine_pendingFields frame fields) _
  | .array elements, expected => by
    rw [lowerExpr_array]
    exact routine_compute _ fun _ => routine_constantArray _ _

theorem routine_pending (frame : Frame) : ∀ arguments : List Expr, RoutineAll (pending frame arguments)
  | [] => by simp [pending, RoutineAll]
  | expression :: rest => by
    rw [pending]
    exact List.forall_mem_cons.mpr ⟨routine_lowerExpr frame expression, routine_pending frame rest⟩

theorem routine_pendingFields (frame : Frame) : ∀ fields : List FieldValue,
    ∀ field ∈ pendingFields frame fields, ∀ expected, Routine (field.lower expected)
  | [] => by simp [pendingFields]
  | ⟨name, value⟩ :: rest => by
    rw [pendingFields]
    exact List.forall_mem_cons.mpr ⟨routine_lowerExpr frame value, routine_pendingFields frame rest⟩

end

theorem routine_lowerTarget (frame : Frame) (target : Expr) : Routine (lowerTarget frame target) := by
  unfold lowerTarget
  split
  · exact routine_variablePlace _
  · exact routine_derefPlace _ _
  · exact routine_fieldPlace _ _
  · exact routine_elementPlace _ (routine_lowerExpr frame _ _)
  · exact .fail _

-- ════════════════════════
-- Statements
-- ════════════════════════

theorem routine_declare (frame : Frame) (name : String) (ty : Option String) (value : Expr) :
    Routine (declare frame name ty value) := by
  refine .bind (.ofExcept _) fun _ => .bind (routine_lowerExpr _ _ _) fun _ => ?_
  split
  · exact .bind (.require _ _) fun _ => .bind (routine_bindName _ _) fun _ =>
      .bind (routine_reserve _) fun _ => routine_emit _
  · exact .bind (routine_bindName _ _) fun _ => .bind (routine_reserve _) fun _ => routine_emit _

theorem routine_assign (frame : Frame) (target value : Expr) : Routine (assign frame target value) :=
  .bind (routine_lowerTarget _ _) fun _ => .bind (routine_lowerExpr _ _ _) fun _ =>
    .bind (.require _ _) fun _ => routine_emit _

theorem routine_evaluate (frame : Frame) (expression : Expr) : Routine (evaluate frame expression) := by
  unfold evaluate
  split
  · exact .bind (routine_call _ (routine_pending frame _) _) fun _ => .pure _
  · exact .bind (routine_lowerExpr _ _ _) fun _ => .pure _

theorem routine_returnFrom (frame : Frame) (value : Option Expr) :
    Routine (returnFrom frame value) := by
  unfold returnFrom
  split
  · exact .bind (routine_lowerExpr _ _ _) fun _ => .bind (.require _ _) fun _ =>
      .bind (routine_emit _) fun _ => routine_emit _
  · exact routine_emit _
  · exact .bind (.fail _) fun _ => routine_emit _
  · exact .bind (.fail _) fun _ => routine_emit _

theorem routine_testCondition (frame : Frame) (condition : Expr) :
    Routine (testCondition frame condition) :=
  .bind (routine_lowerExpr _ _ _) fun _ => .bind (.require _ _) fun _ => .pure _

theorem routine_joinArm (label : Option String) : Routine (joinArm label) := by
  refine .read (fun _ _ h => by rw [h.isClosed]) fun _ => ?_
  split
  · exact .pure _
  · split
    · exact .bind (.pure _) fun _ => .bind (routine_emit _) fun _ => .pure _
    · exact .bind (routine_newLabel _) fun _ => .bind (routine_emit _) fun _ => .pure _

mutual

theorem routine_lowerStmt (frame : Frame) : ∀ statement : Stmt, Routine (lowerStmt frame statement)
  | .bind name ty value => by
    rw [lowerStmt]
    exact routine_declare _ _ _ _
  | .assign target value => by
    rw [lowerStmt]
    exact routine_assign _ _ _
  | .eval expression => by
    rw [lowerStmt]
    exact routine_evaluate _ _
  | .ret value => by
    rw [lowerStmt]
    exact routine_returnFrom _ _
  | .directive text => by
    rw [lowerStmt]
    exact .report rfl
  | .ite condition positive negative => by
    rw [lowerStmt]
    refine .bind (routine_testCondition _ _) fun _ => .bind (routine_newLabel _) fun _ =>
      .bind (routine_newLabel _) fun _ => .bind (routine_emit _) fun _ => .bind (routine_emit _) fun _ =>
      .bind (routine_lowerStmts frame positive) fun _ => .bind (routine_joinArm _) fun _ =>
      .bind (routine_emit _) fun _ => .bind (routine_lowerStmts frame negative) fun _ =>
      .bind (routine_joinArm _) fun _ => ?_
    split
    · exact routine_emit _
    · exact .pure _
  | .loop condition body => by
    rw [lowerStmt]
    refine .bind (routine_newLabel _) fun _ => .bind (routine_newLabel _) fun _ =>
      .bind (routine_newLabel _) fun _ => .bind (routine_emit _) fun _ => .bind (routine_emit _) fun _ =>
      .bind (routine_testCondition _ _) fun _ => .bind (routine_emit _) fun _ =>
      .bind (routine_emit _) fun _ => .bind (routine_lowerStmts frame body) fun _ =>
      .read (fun _ _ h => by rw [h.isClosed]) fun _ => ?_
    split
    · exact routine_emit _
    · exact .bind (routine_emit _) fun _ => routine_emit _

/-- Lowering statements is a routine. -/
theorem routine_lowerStmts (frame : Frame) : ∀ statements : List Stmt,
    Routine (lowerStmts frame statements)
  | [] => by
    rw [lowerStmts]
    exact .pure _
  | statement :: rest => by
    rw [lowerStmts]
    exact .bind (routine_lowerStmt frame statement) fun _ => routine_lowerStmts frame rest

end

-- ════════════════════════
-- Functions
-- ════════════════════════

theorem routine_enterParameters (parameters : List (String × Ty)) :
    Routine (enterParameters parameters) := by
  refine .bind (.modifyGet _ fun _ _ h => ?_) fun entered => .bind (.report ?_) fun _ => .pure _
  · exact ⟨by rw [h.scope], { h with scope := by rw [h.scope] }⟩
  refine List.filterMap_eq_nil_iff.mpr fun event hmem => ?_
  obtain ⟨parameter, -, hmem⟩ := List.mem_flatMap.mp hmem
  rcases List.mem_pair.mp hmem with rfl | rfl <;> rfl

theorem routine_makeReturnSlot (ty : Option Ty) : Routine (makeReturnSlot ty) := by
  cases ty with
  | none => exact .pure _
  | some ty => exact (routine_mint _ ty).map _

theorem routine_copyParameters (parameters : List Parameter) : Routine (copyParameters parameters) := by
  induction parameters with
  | nil => exact .pure _
  | cons parameter rest ih =>
    exact .bind (routine_emit _) fun _ => .bind (routine_emit _) fun _ => ih

theorem routine_enterBody (parameters : List Parameter) (returnSlot : Option Var) :
    Routine (enterBody parameters returnSlot) := by
  refine .bind (routine_copyParameters parameters) fun _ => ?_
  have hmark : Routine (Pass.modify fun body : Body => { body with sheet := body.sheet.mark }) :=
    .modify _ fun _ _ h => h.entered
  cases returnSlot with
  | none => exact hmark
  | some slot => exact .bind (routine_emit _) fun _ => hmark

theorem routine_openFunction (header : Line) : Routine (openFunction header) :=
  .modify _ fun _ _ h => ⟨h.globals, h.scope,
    (Sheet.entry_ofLines _).trans (Sheet.entry_ofLines _).symm,
    (Sheet.code_ofLines _).trans (Sheet.code_ofLines _).symm⟩

theorem routine_enterFunction (table : TypeTable) (definition : FunctionDef) (symbol : String)
    (signature : Signature) : Routine (enterFunction table definition symbol signature) :=
  .bind (routine_enterParameters _) fun _ => .bind (routine_newLabel _) fun _ =>
    .bind (routine_makeReturnSlot _) fun _ => .bind (routine_openFunction _) fun _ =>
      .bind (routine_enterBody _ _) fun _ => .pure _

theorem routine_leave (frame : Frame) : Routine (leave frame) := by
  refine .bind (routine_emit _) fun _ => ?_
  split
  · exact .bind (routine_temporary _) fun _ => .bind (routine_emit _) fun _ => routine_emit _
  · exact routine_emit _

end Lowering

-- ════════════════════════
-- Uniform passes
-- ════════════════════════

namespace Pass

variable {σ τ α β : Type}

/-- A pass that leads from states that are alike to the same result and to states that are alike, whether or
not it succeeds. -/
def Uniform (alike : σ → σ → Prop) (pass : Pass σ α) : Prop :=
  ∀ ⦃state other⦄, alike state other →
    (pass state).result = (pass other).result ∧ alike (pass state).state (pass other).state

namespace Uniform

variable {alike : σ → σ → Prop} {alike' : τ → τ → Prop}

theorem ofExcept (result : Except Diagnostic α) : Uniform alike (Pass.ofExcept result) :=
  fun _ _ h => ⟨rfl, h⟩

theorem pure (value : α) : Uniform alike (Pure.pure value : Pass σ α) := fun _ _ h => ⟨rfl, h⟩

theorem report (events : Trace) : Uniform alike (Pass.report events) := fun _ _ h => ⟨rfl, h⟩

theorem bind {first : Pass σ α} {next : α → Pass σ β} (hfirst : Uniform alike first)
    (hnext : ∀ value, Uniform alike (next value)) : Uniform alike (first >>= next) := by
  intro state other h
  obtain ⟨hresult, hstate⟩ := hfirst h
  have hbind (state : σ) : (first >>= next) state = Pass.bind first next state := rfl
  rw [hbind, hbind, Pass.bind, Pass.bind]
  generalize first state = run at hresult hstate ⊢
  generalize first other = run' at hresult hstate ⊢
  obtain ⟨result, middle, trace⟩ := run
  obtain ⟨result', middle', trace'⟩ := run'
  obtain rfl : result = result' := hresult
  cases result with
  | error diagnostic => exact ⟨rfl, hstate⟩
  | ok value => exact hnext value hstate

theorem read {next : σ → Pass σ α} (hsame : ∀ state other, alike state other → next state = next other)
    (h : ∀ state, Uniform alike (next state)) : Uniform alike (Pass.get >>= next) := by
  intro state other halike
  have hread (state : σ) : ((Pass.get >>= next) state).result = (next state state).result ∧
    ((Pass.get >>= next) state).state = (next state state).state := ⟨rfl, rfl⟩
  rw [(hread state).1, (hread state).2, (hread other).1, (hread other).2, ← hsame state other halike]
  exact h state halike

theorem focus {enter : σ → τ} {leave : τ → σ} {inner : Pass τ α} (h : Uniform alike' inner)
    (henter : ∀ state other, alike state other → alike' (enter state) (enter other))
    (hleave : ∀ state other, alike' state other → alike (leave state) (leave other)) :
    Uniform alike (Pass.focus enter leave inner) := by
  intro state other halike
  obtain ⟨hresult, hstate⟩ := h (henter _ _ halike)
  exact ⟨hresult, hleave _ _ hstate⟩

/-- In terms of results, where only a part of the states counts. -/
theorem map_eval {pass : Pass σ α} {part : σ → τ}
    (h : Uniform (fun state other => part state = part other) pass) {state other : σ}
    (hpart : part state = part other) :
    (pass.eval state).map (Prod.map id part) = (pass.eval other).map (Prod.map id part) := by
  obtain ⟨hresult, hstate⟩ := h hpart
  rw [Pass.eval, Pass.eval, hresult]
  cases (pass other).result with
  | error diagnostic => rfl
  | ok value => exact congrArg (fun part => Except.ok (value, part)) hstate

end Uniform

end Pass

namespace Lowering

/-- A routine does not depend on the lines in front of the function. -/
theorem Routine.uniform {α : Type} {pass : Lowering α} (h : Routine pass) :
    Pass.Uniform Body.Alike pass := by
  induction h with
  | pure value => exact .pure value
  | fail diagnostic => exact fun _ _ h => ⟨rfl, h⟩
  | ofExcept result => exact .ofExcept result
  | require condition diagnostic => cases condition <;> exact fun _ _ h => ⟨rfl, h⟩
  | report => exact .report _
  | read hsame _ ih => exact .read hsame ih
  | modify change h => exact fun _ _ halike => ⟨rfl, h _ _ halike⟩
  | modifyGet change h =>
    intro body other halike
    obtain ⟨hresult, hstate⟩ := h _ _ halike
    exact ⟨congrArg Except.ok hresult, hstate⟩
  | bind _ _ ih ih' => exact ih.bind ih'

theorem uniform_lowerDefinition (table : TypeTable) (definition : FunctionDef) (symbol : String)
    (signature : Signature) :
    Pass.Uniform Body.Alike (lowerDefinition table definition symbol signature) := by
  refine (routine_enterFunction _ _ _ _).uniform.bind fun entered => ?_
  refine (routine_lowerStmts _ _).uniform.bind fun _ => (routine_leave _).uniform.bind fun _ => ?_
  refine Pass.Uniform.bind (fun _ _ h => ⟨rfl, h.close⟩) fun _ => ?_
  have hend (registers : List String) : Pass.Uniform Body.Alike (do
      Pass.report [.functionFinished]
      let body ← Pass.get
      return { symbol, signature, parameters := registers, entry := body.entry, code := body.code :
        FunctionCode }) :=
    (Pass.Uniform.report _).bind fun _ => .read (fun _ _ h => by rw [h.entry, h.code]) fun _ => .pure _
  split
  · exact (Pass.Uniform.report _).bind fun _ => hend _
  · exact hend _

end Lowering

-- ════════════════════════
-- Functions without their lines
-- ════════════════════════

/-- The code of a function and the names that it leaves do not depend on the lines before it. -/
theorem uniform_lowerFunction (table : TypeTable) (function : BoundFunction) :
    Pass.Uniform (fun draft other => draft.globals = other.globals)
      (lowerFunction table function) := by
  refine (Pass.Uniform.report _).bind fun _ => (Pass.Uniform.ofExcept _).bind fun signature => ?_
  refine (Lowering.uniform_lowerDefinition _ _ _ signature).focus ?_ fun _ _ h => h.globals
  intro draft other h
  refine ⟨h, congrArg Globals.root h, ?_, ?_⟩
  · exact (Sheet.entry_ofLines _).trans (Sheet.entry_ofLines _).symm
  · exact (Sheet.code_ofLines _).trans (Sheet.code_ofLines _).symm

/-- Lowers a function in the names of its module, and keeps no lines. -/
def BoundFunction.lower (table : TypeTable) (function : BoundFunction) :
    Pass Globals FunctionCode :=
  Pass.focus (fun globals => { globals }) Draft.globals (lowerFunction table function)

/-- Lowers functions in order, and keeps no lines. -/
def lowerCodes (table : TypeTable) : List BoundFunction → Pass Globals (List FunctionCode)
  | [] => pure []
  | function :: rest => do
    let code ← function.lower table
    let codes ← lowerCodes table rest
    return code :: codes

variable {table : TypeTable}

theorem BoundFunction.eval_lower (function : BoundFunction) (draft : Draft) :
    (function.lower table).eval draft.globals =
      ((lowerFunction table function).eval draft).map (Prod.map id Draft.globals) := by
  have hglobals : ({ globals := draft.globals } : Draft).globals = draft.globals := rfl
  rw [← (uniform_lowerFunction table function).map_eval hglobals, lower, Pass.eval_focus]
  rfl

/-- A function whose name is bound with a signature is lowered by its definition. -/
theorem BoundFunction.eval_lower_eq {function : BoundFunction} {signature : Signature}
    (h : function.requireSignature = .ok signature) (globals : Globals) :
    (function.lower table).eval globals =
      ((Lowering.lowerDefinition table function.definition function.symbol signature).eval
        (Draft.body { globals })).map fun (code, last) => (code, last.globals) := by
  rw [lower, Pass.eval_focus, lowerFunction, Pass.eval_bind, Pass.eval_report]
  show ((Pass.ofExcept _ >>= _).eval _).map _ = _
  rw [Pass.eval_bind, Pass.eval_ofExcept, h]
  show ((Pass.focus _ _ _).eval _).map _ = _
  rw [Pass.eval_focus, symbol]
  cases (Lowering.lowerDefinition table function.definition function.var.register signature).eval
    (Draft.body { globals }) <;> rfl

/-- The codes of functions do not depend on the lines before them. -/
theorem eval_lowerCodes (functions : List BoundFunction) (draft : Draft) :
    (lowerCodes table functions).eval draft.globals =
      ((lowerFunctions table functions).eval draft).map (Prod.map id Draft.globals) := by
  induction functions generalizing draft with
  | nil => rfl
  | cons function rest ih =>
    rw [lowerCodes, lowerFunctions, Pass.eval_bind, Pass.eval_bind, function.eval_lower]
    cases (lowerFunction table function).eval draft with
    | error diagnostic => rfl
    | ok pair =>
      have hrest := ih pair.2
      show ((lowerCodes table rest >>= _).eval pair.2.globals) =
        ((lowerFunctions table rest >>= _).eval pair.2).map _
      rw [Pass.eval_bind, Pass.eval_bind, hrest]
      cases (lowerFunctions table rest).eval pair.2 <;> rfl

theorem eval_lowerCodes_cons {function : BoundFunction} {rest : List BoundFunction}
    {globals last : Globals} {codes : List FunctionCode} :
    (lowerCodes table (function :: rest)).eval globals = .ok (codes, last) ↔
      ∃ code middle others, (function.lower table).eval globals = .ok (code, middle) ∧
        (lowerCodes table rest).eval middle = .ok (others, last) ∧ codes = code :: others := by
  simp only [lowerCodes, Pass.eval_bind_eq_ok_iff, Pass.eval_pure_eq_ok_iff]
  constructor
  · rintro ⟨code, middle, hfirst, others, _, hrest, rfl, rfl⟩
    exact ⟨code, middle, others, hfirst, hrest, rfl⟩
  · rintro ⟨code, middle, others, hfirst, hrest, rfl⟩
    exact ⟨code, middle, hfirst, others, last, hrest, rfl, rfl⟩

theorem eval_lowerCodes_eq_ok_iff {functions : List BoundFunction} {globals last : Globals}
    {codes : List FunctionCode} :
    (lowerCodes table functions).eval globals = .ok (codes, last) ↔
      ∃ final, (lowerFunctions table functions).eval { globals } = .ok (codes, final) ∧
        final.globals = last := by
  have hcodes : (lowerCodes table functions).eval globals =
      ((lowerFunctions table functions).eval { globals }).map (Prod.map id Draft.globals) :=
    eval_lowerCodes functions { globals }
  rw [hcodes]
  cases (lowerFunctions table functions).eval { globals } with
  | error diagnostic => simp [Except.map]
  | ok pair =>
    obtain ⟨found, final⟩ := pair
    simp [Except.map, Prod.map]

end ThreeAddress
