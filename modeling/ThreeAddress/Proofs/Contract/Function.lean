import ThreeAddress.Proofs.Contract.Expr

/-!
# Statements and functions abide by a contract

Lowering the body of a function stops only at the faults of its binary expressions. The calls in the
code are those of the body, one after the other: leaving the function adds none. In front of that, a
function whose types have a runtime representation is entered without a fault.

## Main definitions

* `Frame.Grounded`: a function whose value has a runtime representation.
* `FunctionCode.callees`: the symbols that a lowered function calls.
* `Contract.calling`: the contract that says what functions call, and nothing about faults.

## Main statements

* `Lowering.abides_lowerStmts`: lowering statements abides by a contract.
* `Lowering.faults_lowerDefinition`: the faults that lowering a function stops at.
-/

namespace ThreeAddress

variable {table : TypeTable} {contract : Contract table} {frame : Frame}

/-- A function whose value has a runtime representation. -/
structure Frame.Grounded (table : TypeTable) (frame : Frame) : Prop where
  table_eq : frame.table = table
  returnSlot : ∀ slot ∈ frame.returnSlot, slot.ty.Grounded

/-- The symbols that a lowered function calls, in order. -/
def FunctionCode.callees (function : FunctionCode) : List String :=
  function.instructions.filterMap Instr.callee?

/-- A contract that says what functions call, and nothing about faults. -/
def Contract.calling (htable : table.Grounded) (symbol : String → String) : Contract table where
  grounded := htable
  symbol := symbol
  runs _ _ := True
  first h := h
  next h _ := h
  faults _ _ := True

theorem Contract.foresees_calling (htable : table.Grounded) (symbol : String → String) (frame : Frame)
    (operations : List Operation) :
    (Contract.calling htable symbol).Foresees frame operations :=
  fun _ _ _ _ _ _ _ _ => trivial

namespace Lowering

-- ════════════════════════
-- Simple statements
-- ════════════════════════

theorem abides_declare (name : String) (ty : Option String) {value : Expr}
    (hframe : frame.table = table) (hfaults : contract.Foresees frame value.operations) :
    Abides contract (value.callees contract.symbol) (fun _ => True) (declare frame name ty value) := by
  refine (abides_ofExcept (P := fun declared => ∀ ty ∈ declared, ty.Grounded)
    (flawless_mapM_denote frame.table ty) ?_).bind fun declared hdeclared => ?_
  · intro declared hdenote
    rw [hframe] at hdenote
    exact (value_of_mapM_denote hdenote :
      ∀ ty ∈ declared, (Setting.grounded contract.grounded).value ty)
  refine (secure_lowerExpr hframe value hfaults declared hdeclared).finish fun value hvalue => ?_
  have hstore (ty : Ty) (hty : ty.Grounded) : Abides contract [] (fun _ => True) (do
      let slot ← bindName name ty
      reserve slot
      emit (.store value slot.operand)) := by
    refine (abides_bindName name hty).bind fun slot hslot => ?_
    refine (abides_reserve (hslot ▸ hty)).bind fun _ _ => ?_
    exact abides_store _ hvalue
  cases declared with
  | none => exact abides_nothing.bind fun _ _ => hstore value.ty hvalue
  | some declared =>
    exact (abides_expectType _ _ _).bind fun _ _ => hstore declared (hdeclared declared rfl)

theorem abides_assign {target value : Expr} (hframe : frame.table = table)
    (htarget : contract.Foresees frame target.operations)
    (hvalue : contract.Foresees frame value.operations) :
    Abides contract (target.callees contract.symbol ++ value.callees contract.symbol)
      (fun _ => True) (assign frame target value) := by
  refine (abides_lowerTarget hframe htarget).append fun place hplace => ?_
  refine ((secure_lowerExpr hframe value hvalue).at hplace).finish fun value hvalue => ?_
  exact (abides_expectType _ _ _).bind fun _ _ => abides_store _ hvalue

/-- A call of a built-in that is evaluated for its effect abides like one whose value is used. -/
theorem abides_evaluate {expression : Expr} (hframe : frame.table = table)
    (hfaults : contract.Foresees frame expression.operations) :
    Abides contract (expression.callees contract.symbol) (fun _ => True)
      (evaluate frame expression) := by
  unfold evaluate
  split
  · rw [Expr.operations] at hfaults
    rw [Expr.callees, ← argumentCallees_pending frame]
    exact (abides_call (secure_pending hframe _ hfaults) (by simp)).finish fun _ _ =>
      abides_pure trivial
  · exact (secure_lowerExpr hframe _ hfaults).unasked.finish fun _ _ => abides_pure trivial

theorem abides_returnFrom {value : Option Expr} (hframe : frame.Grounded table)
    (hfaults : contract.Foresees frame (value.toList.flatMap Expr.operations)) :
    Abides contract (value.toList.flatMap (Expr.callees contract.symbol)) (fun _ => True)
      (returnFrom frame value) := by
  have hjump : Abides contract [] (fun _ => True) (emit (.branch frame.exit)) :=
    abides_emit_control rfl rfl
  unfold returnFrom
  cases value with
  | none =>
    cases hslot : frame.returnSlot with
    | none => exact abides_nothing.bind fun _ _ => hjump
    | some slot => exact (abides_fail (P := fun _ => True) (by simp)).bind fun _ _ => hjump
  | some value =>
    have hvalue : Secure contract (value.callees contract.symbol) (lowerExpr frame value) :=
      secure_lowerExpr hframe.table_eq value (by simpa using hfaults)
    rw [Option.toList_some, List.flatMap_singleton]
    cases hslot : frame.returnSlot with
    | none => exact (abides_fail (P := fun _ => True) (by simp)).finish fun _ _ => hjump
    | some slot =>
      refine (hvalue.at (hframe.returnSlot slot hslot)).finish fun value hvalue => ?_
      refine (abides_expectType _ _ _).bind fun _ _ => ?_
      exact (abides_store _ hvalue).bind fun _ _ => hjump

-- ════════════════════════
-- Conditionals and loops
-- ════════════════════════

theorem abides_testCondition {condition : Expr} (hframe : frame.table = table)
    (hfaults : contract.Foresees frame condition.operations) :
    Abides contract (condition.callees contract.symbol) (fun _ => True)
      (testCondition frame condition) := by
  refine ((secure_lowerExpr hframe condition hfaults).at (.int _)).finish fun value _ => ?_
  exact (abides_require (by simp)).bind fun _ _ => abides_pure trivial

theorem abides_joinArm (label : Option String) :
    Abides contract [] (fun _ => True) (joinArm label) := by
  have hjump (label : String) : Abides contract [] (fun _ => True) (do
      emit (.branch label)
      return some label) :=
    (abides_emit_control rfl rfl).bind fun _ _ => abides_pure trivial
  intro body hbody
  refine abidesAt_get ?_
  by_cases hclosed : body.isClosed
  · rw [if_pos hclosed]
    exact abides_pure trivial hbody
  · rw [if_neg hclosed]
    cases label with
    | some label => exact hjump label hbody
    | none => exact ((abides_newLabel "ifend").bind fun label _ => hjump label) hbody

theorem abides_afterwards (label : Option String) :
    Abides contract [] (fun _ => True) (match label with
      | some label => emit (.label label)
      | none => pure ()) := by
  cases label with
  | some label => exact abides_emit_control rfl rfl
  | none => exact abides_nothing

theorem abides_endLoop (test afterwards : String) :
    Abides contract [] (fun _ => True) (do
      let last ← Pass.get
      unless last.isClosed do
        emit (.branch test)
      emit (.label afterwards)) := by
  have hend : Abides contract [] (fun _ => True) (emit (.label afterwards)) :=
    abides_emit_control rfl rfl
  intro body hbody
  refine abidesAt_get ?_
  by_cases hclosed : body.isClosed
  · simp only [hclosed, if_true]
    exact (abides_nothing.bind fun _ _ => hend) hbody
  · simp only [hclosed]
    exact ((abides_emit_control rfl rfl).bind fun _ _ => hend) hbody

mutual

/-- Lowering a statement stops only at the faults of its binary expressions, and the code it adds
calls what the statement calls. -/
theorem abides_lowerStmt (hframe : frame.Grounded table) : ∀ statement : Stmt,
    contract.Foresees frame statement.operations →
      Abides contract (statement.callees contract.symbol) (fun _ => True) (lowerStmt frame statement)
  | .bind name ty value, hfaults => by
    rw [Stmt.operations] at hfaults
    rw [lowerStmt, Stmt.callees]
    exact abides_declare name ty hframe.table_eq hfaults
  | .assign target value, hfaults => by
    rw [Stmt.operations, Contract.foresees_append] at hfaults
    rw [lowerStmt, Stmt.callees]
    exact abides_assign hframe.table_eq hfaults.1 hfaults.2
  | .eval expression, hfaults => by
    rw [Stmt.operations] at hfaults
    rw [lowerStmt, Stmt.callees]
    exact abides_evaluate hframe.table_eq hfaults
  | .ret value, hfaults => by
    rw [Stmt.operations] at hfaults
    rw [lowerStmt, Stmt.callees]
    exact abides_returnFrom hframe hfaults
  | .directive text, _ => by
    rw [lowerStmt, Stmt.callees]
    exact abides_report _
  | .ite condition positive negative, hfaults => by
    rw [Stmt.operations, Contract.foresees_append, Contract.foresees_append] at hfaults
    rw [lowerStmt, Stmt.callees]
    refine (abides_testCondition hframe.table_eq hfaults.1).append fun operand _ => ?_
    refine (abides_newLabel _).bind fun onTrue _ => ?_
    refine (abides_newLabel _).bind fun onFalse _ => ?_
    refine (abides_emit_control rfl rfl).bind fun _ _ => ?_
    refine (abides_emit_control rfl rfl).bind fun _ _ => ?_
    refine (abides_lowerStmts hframe positive hfaults.2.1).append fun _ _ => ?_
    refine (abides_joinArm none).bind fun afterwards _ => ?_
    refine (abides_emit_control rfl rfl).bind fun _ _ => ?_
    refine (abides_lowerStmts hframe negative hfaults.2.2).finish fun _ _ => ?_
    exact (abides_joinArm afterwards).bind fun afterwards _ => abides_afterwards afterwards
  | .loop condition statements, hfaults => by
    rw [Stmt.operations, Contract.foresees_append] at hfaults
    rw [lowerStmt, Stmt.callees]
    refine (abides_newLabel _).bind fun test _ => ?_
    refine (abides_newLabel _).bind fun start _ => ?_
    refine (abides_newLabel _).bind fun afterwards _ => ?_
    refine (abides_emit_control rfl rfl).bind fun _ _ => ?_
    refine (abides_emit_control rfl rfl).bind fun _ _ => ?_
    refine (abides_testCondition hframe.table_eq hfaults.1).append fun operand _ => ?_
    refine (abides_emit_control rfl rfl).bind fun _ _ => ?_
    refine (abides_emit_control rfl rfl).bind fun _ _ => ?_
    refine (abides_lowerStmts hframe statements hfaults.2).finish fun _ _ => ?_
    exact abides_endLoop test afterwards

/-- Lowering statements stops only at the faults of their binary expressions, and the code it adds
calls what the statements call. -/
theorem abides_lowerStmts (hframe : frame.Grounded table) : ∀ statements : List Stmt,
    contract.Foresees frame (Block.operations statements) →
      Abides contract (Block.callees contract.symbol statements) (fun _ => True)
        (lowerStmts frame statements)
  | [], _ => by
    rw [lowerStmts, Block.callees]
    exact abides_nothing
  | statement :: rest, hfaults => by
    rw [Block.operations, Contract.foresees_append] at hfaults
    rw [lowerStmts, Block.callees]
    exact (abides_lowerStmt hframe statement hfaults.1).append fun _ _ =>
      abides_lowerStmts hframe rest hfaults.2

end

-- ════════════════════════
-- Functions
-- ════════════════════════

theorem abides_leave (hframe : frame.Grounded table) :
    Abides contract [] (fun _ => True) (leave frame) := by
  refine (abides_emit_control rfl rfl).bind fun _ _ => ?_
  cases hslot : frame.returnSlot with
  | none => exact abides_emit (by simp [Instr.mentions]) rfl
  | some slot =>
    have hty := hframe.returnSlot slot hslot
    refine (abides_temporary fun _ => hty).bind fun value hvalue => ?_
    refine (abides_load _ _ hty).bind fun _ _ => ?_
    exact abides_emit (by simpa [Instr.mentions, Var.value, hvalue] using hty.isConcrete) rfl

variable {body : Body}

theorem eval_copyParameters_ne_error {parameters : List Parameter}
    (h : ∀ parameter ∈ parameters, parameter.incoming.ty.Grounded ∧ parameter.slot.ty.Grounded)
    (diagnostic : Diagnostic) : (copyParameters parameters).eval body ≠ .error diagnostic := by
  induction parameters generalizing body with
  | nil => simp [copyParameters]
  | cons parameter rest ih =>
    rw [List.forall_mem_cons] at h
    intro hrun
    simp only [copyParameters, Pass.eval_bind_eq_error_iff] at hrun
    rcases hrun with hrun | ⟨_, _, -, hrun | ⟨_, _, -, hrun⟩⟩
    · exact eval_emit_ne_error (by simpa [Instr.mentions] using h.1.2.isConcrete) _ hrun
    · exact eval_emit_ne_error (by simpa [Instr.mentions, Var.value] using h.1.1.isConcrete) _ hrun
    · exact ih h.2 hrun

theorem eval_enterBody_ne_error {parameters : List Parameter} {returnSlot : Option Var}
    (hparameters : ∀ parameter ∈ parameters,
      parameter.incoming.ty.Grounded ∧ parameter.slot.ty.Grounded)
    (hslot : ∀ slot ∈ returnSlot, slot.ty.Grounded) (diagnostic : Diagnostic) :
    (enterBody parameters returnSlot).eval body ≠ .error diagnostic := by
  intro hrun
  rcases Pass.eval_bind_eq_error_iff.mp hrun with hrun | ⟨_, _, -, hrun⟩
  · exact eval_copyParameters_ne_error hparameters _ hrun
  · cases returnSlot with
    | none => cases hrun
    | some slot =>
      rcases Pass.eval_bind_eq_error_iff.mp hrun with hrun | ⟨_, _, -, hrun⟩
      · have hty := hslot slot rfl
        exact eval_emit_ne_error (by simpa [Instr.mentions] using hty.isConcrete) _ hrun
      · cases hrun

variable {definition : FunctionDef} {symbol : String} {signature : Signature}

/-- A function whose types have a runtime representation is entered. -/
theorem exists_eval_enterFunction
    (hlength : definition.parameters.length = signature.parameters.length)
    (hsignature : signature.Grounded) :
    ∃ entered, (enterFunction table definition symbol signature).eval body = .ok entered := by
  let parameters := (definition.parameters.map TypedName.name).zip signature.parameters
  have hparameters : ∀ parameter ∈ (body.scope.enter parameters).1,
      parameter.incoming.ty.Grounded ∧ parameter.slot.ty.Grounded := by
    intro parameter hmem
    have htyped := body.scope.forall₂_enter ((List.length_map TypedName.name).trans hlength)
    obtain ⟨position, hlt, rfl⟩ := List.mem_iff_getElem.mp hmem
    have hlt' : position < signature.parameters.length := htyped.length_eq ▸ hlt
    obtain ⟨hincoming, hslot⟩ := htyped.get hlt hlt'
    have hty : signature.parameters[position].Grounded :=
      hsignature.parameters _ (List.getElem_mem hlt')
    exact ⟨hincoming ▸ hty, hslot ▸ hty⟩
  cases hrun : (enterFunction table definition symbol signature).eval body with
  | ok entered => exact ⟨entered, rfl⟩
  | error diagnostic =>
    rcases Pass.eval_bind_eq_error_iff.mp hrun with hrun | ⟨_, _, hentered, hrun⟩
    · cases hrun
    obtain ⟨rfl, rfl⟩ := eval_enterParameters_eq_ok_iff.mp hentered
    rcases Pass.eval_bind_eq_error_iff.mp hrun with hrun | ⟨_, _, hexit, hrun⟩
    · cases hrun
    obtain ⟨rfl, rfl⟩ := eval_newLabel_eq_ok_iff.mp hexit
    rcases Pass.eval_bind_eq_error_iff.mp hrun with hrun | ⟨_, _, hslot, hrun⟩
    · cases hreturns : signature.returns <;> rw [hreturns] at hrun <;> cases hrun
    obtain ⟨rfl, rfl⟩ := eval_makeReturnSlot hslot
    rcases Pass.eval_bind_eq_error_iff.mp hrun with hrun | ⟨_, _, -, hrun⟩
    · cases hrun
    rcases Pass.eval_bind_eq_error_iff.mp hrun with hrun | ⟨_, _, -, hrun⟩
    · refine absurd hrun (eval_enterBody_ne_error hparameters (fun slot hslot => ?_) _)
      refine hsignature.returns _ ?_
      rw [← body.scope.map_ty_returnSlot parameters signature.returns]
      exact Option.mem_map_of_mem _ hslot
    · cases hrun

/-- A function whose types have a runtime representation stops only at the faults of the binary expressions
in its body. -/
theorem faults_lowerDefinition {fault : Fault} {last : Body} {prologue : Prologue}
    (hlength : definition.parameters.length = signature.parameters.length)
    (hsignature : signature.Grounded)
    (hprologue : body.scope.prologue
      ((definition.parameters.map TypedName.name).zip signature.parameters) signature.returns =
        prologue)
    (hframe : Frame.Grounded table
      ⟨table, definition.name, prologue.exit, prologue.returnSlot⟩)
    (hbody : ∀ header, (body.begin header prologue).Upholds contract)
    (hfaults : contract.Foresees ⟨table, definition.name, prologue.exit, prologue.returnSlot⟩
      (Block.operations definition.body))
    (hruns : contract.runs (lowerDefinition table definition symbol signature) body)
    (h : (lowerDefinition table definition symbol signature).Stops body (.internal fault) last) :
    contract.faults fault last := by
  obtain ⟨⟨⟨frame, registers⟩, begun⟩, henter⟩ : ∃ entered,
    (enterFunction table definition symbol signature).eval body = .ok entered :=
      exists_eval_enterFunction hlength hsignature
  rcases Pass.stops_bind_iff.mp h with h | ⟨_, _, hentered, h⟩
  · have hrun := h.eval
    rw [henter] at hrun
    cases hrun
  have hruns := contract.next hruns hentered
  rw [henter] at hentered
  cases hentered
  obtain ⟨rfl, rfl, hbegun⟩ := eval_enterFunction henter hprologue
  have hstart : begun.Upholds contract := hbegun ▸ hbody _
  have hstatements := abides_lowerStmts hframe definition.body hfaults hstart
  rcases Pass.stops_bind_iff.mp h with h | ⟨_, finished, hfinished, h⟩
  · exact hstatements.error (contract.first hruns) h
  obtain ⟨hupholds, -⟩ := hstatements.ok (contract.first hruns) hfinished
  have hruns := contract.next hruns hfinished
  rcases Pass.stops_bind_iff.mp h with h | ⟨_, left, -, h⟩
  · exact (abides_leave hframe hupholds).error (contract.first hruns) h
  -- Behind the last return there are only reports.
  have hrun := h.eval
  rw [Pass.eval_bind] at hrun
  split at hrun <;> cases hrun

end Lowering

-- ════════════════════════
-- Behind the prologue
-- ════════════════════════

/-- The prologue of a function calls nothing. -/
theorem Body.callees_begin (body : Body) (header : Line) (prologue : Prologue) :
    (body.begin header prologue).callees = [] := by
  rw [callees, entry_begin, code_begin, List.append_nil, List.filterMap_eq_nil_iff]
  exact prologue.code_cases (fun _ _ => rfl) fun _ _ => rfl

theorem Scope.Upholds.prologue {scope : Scope} (h : scope.Upholds contract)
    {parameters : List (String × Ty)} (hparameters : ∀ parameter ∈ parameters, parameter.2.Grounded)
    {returns : Option Ty} (hreturns : ∀ ty ∈ returns, ty.Grounded) :
    (scope.prologue parameters returns).scope.Upholds contract := by
  have hlabelled := (h.enter hparameters).mint "cr" fun _ hne => absurd rfl hne
  cases returns with
  | none => exact hlabelled
  | some ty => exact hlabelled.mint "retptr" fun _ _ => hreturns ty rfl

/-- A function starts from a body that upholds the contract, if the module scope does and its types have a
runtime representation. -/
theorem Draft.upholds_begin {draft : Draft} {definition : FunctionDef} {signature : Signature}
    {prologue : Prologue} (hroot : draft.globals.root.Upholds contract)
    (hsignature : signature.Grounded)
    (hprologue : draft.globals.root.prologue
      ((definition.parameters.map TypedName.name).zip signature.parameters) signature.returns =
        prologue) (header : Line) :
    (draft.body.begin header prologue).Upholds contract := by
  constructor
  · rw [Body.scope_begin, ← hprologue]
    exact hroot.prologue (fun parameter hmem => hsignature.parameters _ (List.of_mem_zip hmem).2)
      hsignature.returns
  · rw [Body.globals_begin]
    exact hroot

theorem Prologue.grounded_frame {scope : Scope} {parameters : List (String × Ty)}
    {returns : Option Ty} {prologue : Prologue} (h : scope.prologue parameters returns = prologue)
    (hreturns : ∀ ty ∈ returns, ty.Grounded) (function : String) :
    Frame.Grounded table ⟨table, function, prologue.exit, prologue.returnSlot⟩ := by
  refine ⟨rfl, fun slot hslot => hreturns _ ?_⟩
  rw [← scope.map_ty_returnSlot parameters returns, h]
  exact Option.mem_map_of_mem _ hslot

end ThreeAddress
