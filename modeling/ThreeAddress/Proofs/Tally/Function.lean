import ThreeAddress.Proofs.Emission.Module
import ThreeAddress.Proofs.Tally.Expr

/-!
# Statements and functions keep a ledger

Lowering the body of a function meets what the tally lists of it, one statement after the other. The
prologue comes before that, and leaving the function meets nothing more.

## Main statements

* `Lowering.books_lowerStmts`: lowering statements keeps every ledger.
* `booked_lowerFunction`: from its prologue to its end, a function keeps every ledger.
-/

namespace ThreeAddress

variable {ε : Type} {tally : Tally ε} {ledger : Ledger tally} {frame : Frame}

namespace Lowering

theorem books_declare (name : String) (ty : Option String) {value : Expr}
    (h : ∀ number ∈ value.integers, ledger.literal number) :
    Books ledger (value.tally tally ++ tally.bind name) (declare frame name ty value) := by
  refine (books_ofExcept _).bind fun declared _ => ?_
  refine (books_lowerExpr ledger frame value h declared).append fun source hsource => ?_
  have hsource : source.Drawn ledger.literal := drawn_lowerExpr h hsource
  have hstore (ty : Ty) : Books ledger (tally.bind name) (do
      let slot ← bindName name ty
      reserve slot
      emit (.store source slot.operand)) := by
    have hstored (slot : Var) : Books ledger [] (emit (.store source slot.operand)) :=
      books_emit rfl (by simpa [Instr.readings] using hsource)
    have hbound := (books_bindName name ty).finish fun slot _ => hstored slot
    simpa only [bind_assoc, pure_bind] using hbound
  cases declared with
  | none => exact (books_pure ()).bind fun _ _ => hstore source.ty
  | some declared => exact (books_expectType _ _ _).bind fun _ _ => hstore declared

theorem books_assign {target value : Expr}
    (htarget : ∀ number ∈ target.integers, ledger.literal number)
    (hvalue : ∀ number ∈ value.integers, ledger.literal number) :
    Books ledger (target.tally tally ++ value.tally tally) (assign frame target value) := by
  refine (books_lowerTarget frame htarget).append fun place _ => ?_
  refine (books_lowerExpr ledger frame value hvalue (some place.ty)).finish fun source hsource => ?_
  have hsource : source.Drawn ledger.literal := drawn_lowerExpr hvalue hsource
  exact (books_expectType _ _ _).bind fun _ _ =>
    books_emit rfl (by simpa [Instr.readings] using hsource)

/-- A call whose result is not kept meets the same as one whose result is used. -/
theorem books_evaluate {expression : Expr}
    (h : ∀ number ∈ expression.integers, ledger.literal number) :
    Books ledger (expression.tally tally) (evaluate frame expression) := by
  unfold evaluate
  split
  · rw [Expr.tally, ← tallyAll_pending frame]
    rw [Expr.integers] at h
    exact (books_call _ none (tallied_pending ledger frame _ h)).finish fun _ _ => books_pure _
  · exact (books_lowerExpr ledger frame _ h none).finish fun _ _ => books_pure _

theorem books_returnFrom {value : Option Expr}
    (h : ∀ number ∈ value.toList.flatMap Expr.integers, ledger.literal number) :
    Books ledger (value.toList.flatMap (Expr.tally tally)) (returnFrom frame value) := by
  have hjump : Books ledger [] (emit (.branch frame.exit)) := books_emit_silent rfl rfl
  unfold returnFrom
  cases value with
  | none =>
    cases frame.returnSlot with
    | none => exact (books_pure ()).bind fun _ _ => hjump
    | some slot => exact (books_fail (α := Unit) _).bind fun _ _ => hjump
  | some value =>
    rw [Option.toList_some, List.flatMap_singleton] at h ⊢
    cases frame.returnSlot with
    | none => exact (books_fail (α := Unit) _).finish fun _ _ => hjump
    | some slot =>
      refine (books_lowerExpr ledger frame value h (some slot.ty)).finish fun source hsource => ?_
      have hsource : source.Drawn ledger.literal := drawn_lowerExpr h hsource
      refine (books_expectType _ _ _).bind fun _ _ => ?_
      exact (books_emit rfl (by simpa [Instr.readings] using hsource)).bind fun _ _ => hjump

theorem books_testCondition {condition : Expr}
    (h : ∀ number ∈ condition.integers, ledger.literal number) :
    Books ledger (condition.tally tally) (testCondition frame condition) := by
  refine (books_lowerExpr ledger frame condition h _).finish fun value _ => ?_
  exact (books_require _ _).bind fun _ _ => books_pure _

/-- A condition that is a number is a literal. -/
theorem books_fork {condition : Expr} {operand : Operand} (onTrue onFalse : String)
    (h : ∀ number ∈ condition.integers, ledger.literal number)
    (hoperand : MayReturn (testCondition frame condition) operand) :
    Books ledger [] (emit (.branchIf operand onTrue onFalse)) := by
  obtain ⟨body, last, hrun⟩ := hoperand
  have hdrawn : (Value.mk operand .bool).Drawn ledger.literal :=
    drawn_lowerExpr h ⟨_, _, eval_testCondition hrun⟩
  exact books_emit rfl (by simpa [Instr.readings] using hdrawn)

theorem books_joinArm (label : Option String) : Books ledger [] (joinArm label) := by
  have hjump (label : String) : Books ledger [] (do
      emit (.branch label)
      return some label) :=
    (books_emit_silent rfl rfl).bind fun _ _ => books_pure _
  refine books_get.bind fun body _ => ?_
  by_cases hclosed : body.isClosed
  · rw [if_pos hclosed]
    exact books_pure _
  · rw [if_neg hclosed]
    cases label with
    | some label => exact hjump label
    | none => exact (books_newLabel "ifend").bind fun label _ => hjump label

theorem books_afterwards (label : Option String) : Books ledger [] (match label with
    | some label => emit (.label label)
    | none => pure ()) := by
  cases label with
  | some label => exact books_emit_silent rfl rfl
  | none => exact books_pure _

theorem books_endLoop (test afterwards : String) : Books ledger [] (do
    let last ← Pass.get
    unless last.isClosed do
      emit (.branch test)
    emit (.label afterwards)) := by
  have hend : Books ledger [] (emit (.label afterwards)) := books_emit_silent rfl rfl
  refine books_get.bind fun body _ => ?_
  by_cases hclosed : body.isClosed
  · simp only [hclosed, if_true]
    exact (books_pure ()).bind fun _ _ => hend
  · simp only [hclosed]
    exact (books_emit_silent rfl rfl).bind fun _ _ => hend

mutual

/-- Lowering a statement meets what the tally lists of it. -/
theorem books_lowerStmt (ledger : Ledger tally) (frame : Frame) : ∀ statement : Stmt,
    (∀ number ∈ statement.integers, ledger.literal number) →
      Books ledger (statement.tally tally) (lowerStmt frame statement)
  | .bind name ty value, h => by
    rw [lowerStmt, Stmt.tally]
    exact books_declare name ty (by simpa only [Stmt.integers] using h)
  | .assign target value, h => by
    rw [lowerStmt, Stmt.tally]
    rw [Stmt.integers, List.forall_mem_append] at h
    exact books_assign h.1 h.2
  | .eval expression, h => by
    rw [lowerStmt, Stmt.tally]
    exact books_evaluate (by simpa only [Stmt.integers] using h)
  | .ret value, h => by
    rw [lowerStmt, Stmt.tally]
    exact books_returnFrom (by simpa only [Stmt.integers] using h)
  | .directive text, _ => by
    rw [lowerStmt, Stmt.tally]
    exact books_report _
  | .ite condition positive negative, h => by
    rw [lowerStmt, Stmt.tally]
    rw [Stmt.integers, List.forall_mem_append, List.forall_mem_append] at h
    obtain ⟨hcondition, hpositive, hnegative⟩ := h
    refine (books_testCondition hcondition).append fun operand hoperand => ?_
    refine (books_newLabel _).bind fun onTrue _ => ?_
    refine (books_newLabel _).bind fun onFalse _ => ?_
    refine (books_fork onTrue onFalse hcondition hoperand).bind fun _ _ => ?_
    refine (books_emit_silent rfl rfl).bind fun _ _ => ?_
    refine (books_lowerStmts ledger frame positive hpositive).append fun _ _ => ?_
    refine (books_joinArm none).bind fun afterwards _ => ?_
    refine (books_emit_silent rfl rfl).bind fun _ _ => ?_
    refine (books_lowerStmts ledger frame negative hnegative).finish fun _ _ => ?_
    exact (books_joinArm afterwards).bind fun afterwards _ => books_afterwards afterwards
  | .loop condition statements, h => by
    rw [lowerStmt, Stmt.tally]
    rw [Stmt.integers, List.forall_mem_append] at h
    refine (books_newLabel _).bind fun test _ => ?_
    refine (books_newLabel _).bind fun start _ => ?_
    refine (books_newLabel _).bind fun afterwards _ => ?_
    refine (books_emit_silent rfl rfl).bind fun _ _ => ?_
    refine (books_emit_silent rfl rfl).bind fun _ _ => ?_
    refine (books_testCondition h.1).append fun operand hoperand => ?_
    refine (books_fork start afterwards h.1 hoperand).bind fun _ _ => ?_
    refine (books_emit_silent rfl rfl).bind fun _ _ => ?_
    refine (books_lowerStmts ledger frame statements h.2).finish fun _ _ => ?_
    exact books_endLoop test afterwards

/-- Lowering statements meets what the tally lists of them. -/
theorem books_lowerStmts (ledger : Ledger tally) (frame : Frame) : ∀ statements : List Stmt,
    (∀ number ∈ Block.integers statements, ledger.literal number) →
      Books ledger (Block.tally tally statements) (lowerStmts frame statements)
  | [], _ => by
    rw [lowerStmts, Block.tally]
    exact books_pure _
  | statement :: rest, h => by
    rw [lowerStmts, Block.tally]
    rw [Block.integers, List.forall_mem_append] at h
    exact (books_lowerStmt ledger frame statement h.1).append fun _ _ =>
      books_lowerStmts ledger frame rest h.2

end

theorem books_leave : Books ledger [] (leave frame) := by
  refine (books_emit_silent rfl rfl).bind fun _ _ => ?_
  cases frame.returnSlot with
  | none => exact books_emit_silent rfl rfl
  | some slot =>
    refine (books_temporary _).bind fun value _ => ?_
    refine (books_emit_silent rfl rfl).bind fun _ _ => books_emit rfl ?_
    exact List.forall_mem_singleton.mpr (drawn_of_register rfl)

end Lowering

/-- From its prologue to its end, a function meets what the tally lists of its body. -/
theorem booked_lowerFunction (ledger : Ledger tally) {table : TypeTable} {draft final : Draft}
    {function : BoundFunction} {code : FunctionCode}
    (h : (lowerFunction table function).eval draft = .ok (code, final))
    (hintegers : ∀ number ∈ Block.integers function.definition.body, ledger.literal number) :
    ∃ (prologue : Prologue) (body : Body),
      ledger.Booked (Block.tally tally function.definition.body)
        (draft.body.begin code.header prologue) body ∧
      code.instructions = body.entry ++ body.code ∧ final.globals = body.globals := by
  obtain ⟨body, hrun, rfl⟩ := eval_lowerFunction h
  obtain ⟨finished, left, hstatements, hleave, rfl, hcode⟩ := Lowering.eval_lowerDefinition hrun rfl
  have hbooked := ledger.trans (Lowering.books_lowerStmts ledger _ _ hintegers hstatements)
    (Lowering.books_leave hleave)
  rw [List.append_nil] at hbooked
  refine ⟨_, left, hbooked, ?_, rfl⟩
  rw [hcode]
  rfl

end ThreeAddress
