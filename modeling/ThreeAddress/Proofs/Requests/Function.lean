import ThreeAddress.Proofs.Emission.Module
import ThreeAddress.Proofs.Requests.Expr

/-!
# Statements and functions get what they ask for

Lowering the body of a function serves its requests, one statement after the other. The prologue reserves
the stack slots of the parameters and of the returned value before that, and leaving the function asks for
nothing more.

## Main statements

* `Lowering.responds_lowerStmts`: lowering statements serves what they ask for.
* `Stages.Of.exists_answered`: the stack slots and the calls of a function answer the requests of its body.
* `Stages.Of.exists_request`: every call of a function answers one of them.
-/

namespace ThreeAddress

variable {table : TypeTable} {frame : Frame}

namespace Lowering

theorem denote_of_mapM {text? : Option String} {declared : Option Ty}
    (h : text?.mapM table.denote = .ok declared) (otherwise : Ty) :
    ∀ text ∈ text?, table.denote text = .ok (declared.getD otherwise) := by
  rintro text rfl
  rw [Option.mapM_some] at h
  cases hdenote : table.denote text with
  | error diagnostic =>
    rw [hdenote] at h
    cases h
  | ok ty =>
    rw [hdenote] at h
    cases h
    rfl

/-- A variable gets its stack slot when its value is there. -/
theorem responds_declare (hframe : frame.table = table) (name : String) (text? : Option String)
    (value : Expr) :
    Responds table (value.requests ++ [.bind name text?])
      (declare frame name text? value) := by
  subst hframe
  intro body result last hrun
  obtain ⟨declared, source, lowered, hdenote, hvalue, -, -, hstore⟩ := eval_declare hrun
  refine (responds_lowerExpr rfl value declared hvalue).trans ?_
  have hslot := ((Body.Emits.rebind lowered name (declared.getD source.ty)).trans (.reserve _ _)).trans
    (emits_emit hstore rfl)
  have hreserved : Request.Reserved frame.table (.bind name text?)
      (.make (lowered.scope.newRegister name) (declared.getD source.ty)) :=
    .bind (lowered.scope.namedAfter_newRegister name) (denote_of_mapM hdenote source.ty)
  exact ⟨_, _, .of_reserved hreserved, hslot⟩

theorem responds_assign (hframe : frame.table = table) (target value : Expr) :
    Responds table (target.requests ++ value.requests) (assign frame target value) := by
  refine (responds_lowerTarget hframe target).append fun place _ => ?_
  refine (responds_lowerExpr hframe value (some place.ty)).finish fun source _ => ?_
  exact (responds_expectType _ _ _).bind fun _ _ => responds_emit rfl rfl

theorem responds_evaluate (hframe : frame.table = table) (expression : Expr) :
    Responds table expression.requests (evaluate frame expression) := by
  unfold evaluate
  split
  · next callee arguments =>
    have hcall := responds_call callee none (served_pending hframe arguments)
    rw [requestsAll_pending, map_expression_pending] at hcall
    rw [Expr.requests]
    exact hcall.finish fun _ _ => responds_pure _
  · exact (responds_lowerExpr hframe _ none).finish fun _ _ => responds_pure _

theorem responds_returnFrom (hframe : frame.table = table) (value : Option Expr) :
    Responds table (value.toList.flatMap Expr.requests) (returnFrom frame value) := by
  have hjump : Responds table [] (emit (.branch frame.exit)) := responds_emit rfl rfl
  unfold returnFrom
  cases value with
  | none =>
    cases frame.returnSlot with
    | none => exact (responds_pure ()).bind fun _ _ => hjump
    | some slot => exact (responds_fail (α := Unit) _).bind fun _ _ => hjump
  | some value =>
    rw [Option.toList_some, List.flatMap_singleton]
    cases frame.returnSlot with
    | none => exact (responds_fail (α := Unit) _).finish fun _ _ => hjump
    | some slot =>
      refine (responds_lowerExpr hframe value (some slot.ty)).finish fun source _ => ?_
      refine (responds_expectType _ _ _).bind fun _ _ => ?_
      exact (responds_emit rfl rfl).bind fun _ _ => hjump

theorem responds_testCondition (hframe : frame.table = table) (condition : Expr) :
    Responds table condition.requests (testCondition frame condition) := by
  refine (responds_lowerExpr hframe condition _).finish fun value _ => ?_
  exact (responds_require _ _).bind fun _ _ => responds_pure _

theorem responds_joinArm (label : Option String) : Responds table [] (joinArm label) := by
  have hjump (label : String) : Responds table [] (do
      emit (.branch label)
      return some label) :=
    (responds_emit rfl rfl).bind fun _ _ => responds_pure _
  refine responds_get.bind fun body _ => ?_
  by_cases hclosed : body.isClosed
  · rw [if_pos hclosed]
    exact responds_pure _
  · rw [if_neg hclosed]
    cases label with
    | some label => exact hjump label
    | none => exact (responds_newLabel "ifend").bind fun label _ => hjump label

theorem responds_endLoop (test afterwards : String) : Responds table [] (do
    let last ← Pass.get
    unless last.isClosed do
      emit (.branch test)
    emit (.label afterwards)) := by
  have hend : Responds table [] (emit (.label afterwards)) := responds_emit rfl rfl
  refine responds_get.bind fun body _ => ?_
  by_cases hclosed : body.isClosed
  · simp only [hclosed, if_true]
    exact (responds_pure ()).bind fun _ _ => hend
  · simp only [hclosed]
    exact (responds_emit rfl rfl).bind fun _ _ => hend

mutual

/-- Lowering a statement serves what it asks for. -/
theorem responds_lowerStmt (hframe : frame.table = table) : ∀ statement : Stmt,
    Responds table statement.requests (lowerStmt frame statement)
  | .bind name text? value => by
    rw [lowerStmt, Stmt.requests]
    exact responds_declare hframe name text? value
  | .assign target value => by
    rw [lowerStmt, Stmt.requests]
    exact responds_assign hframe target value
  | .eval expression => by
    rw [lowerStmt, Stmt.requests]
    exact responds_evaluate hframe expression
  | .ret value => by
    rw [lowerStmt, Stmt.requests]
    exact responds_returnFrom hframe value
  | .directive text => by
    rw [lowerStmt, Stmt.requests]
    exact responds_report _
  | .ite condition positive negative => by
    rw [lowerStmt, Stmt.requests]
    refine (responds_testCondition hframe condition).append fun operand _ => ?_
    refine (responds_newLabel _).bind fun onTrue _ => ?_
    refine (responds_newLabel _).bind fun onFalse _ => ?_
    refine (responds_emit rfl rfl).bind fun _ _ => ?_
    refine (responds_emit rfl rfl).bind fun _ _ => ?_
    refine (responds_lowerStmts hframe positive).append fun _ _ => ?_
    refine (responds_joinArm none).bind fun afterwards _ => ?_
    refine (responds_emit rfl rfl).bind fun _ _ => ?_
    refine (responds_lowerStmts hframe negative).finish fun _ _ => ?_
    refine (responds_joinArm afterwards).bind fun afterwards _ => ?_
    cases afterwards with
    | some label => exact responds_emit rfl rfl
    | none => exact responds_pure _
  | .loop condition statements => by
    rw [lowerStmt, Stmt.requests]
    refine (responds_newLabel _).bind fun test _ => ?_
    refine (responds_newLabel _).bind fun start _ => ?_
    refine (responds_newLabel _).bind fun afterwards _ => ?_
    refine (responds_emit rfl rfl).bind fun _ _ => ?_
    refine (responds_emit rfl rfl).bind fun _ _ => ?_
    refine (responds_testCondition hframe condition).append fun operand _ => ?_
    refine (responds_emit rfl rfl).bind fun _ _ => ?_
    refine (responds_emit rfl rfl).bind fun _ _ => ?_
    refine (responds_lowerStmts hframe statements).finish fun _ _ => ?_
    exact responds_endLoop test afterwards

/-- Lowering statements serves what they ask for. -/
theorem responds_lowerStmts (hframe : frame.table = table) : ∀ statements : List Stmt,
    Responds table (Block.requests statements) (lowerStmts frame statements)
  | [] => by
    rw [lowerStmts, Block.requests]
    exact responds_pure _
  | statement :: rest => by
    rw [lowerStmts, Block.requests]
    exact (responds_lowerStmt hframe statement).append fun _ _ => responds_lowerStmts hframe rest

end

theorem responds_leave : Responds table [] (leave frame) := by
  refine (responds_emit rfl rfl).bind fun _ _ => ?_
  cases frame.returnSlot with
  | none => exact responds_emit rfl rfl
  | some slot =>
    refine (responds_temporary _).bind fun value _ => ?_
    exact (responds_emit rfl rfl).bind fun _ _ => responds_emit rfl rfl

end Lowering

/-- The stack slots behind the prologue of a function and its calls answer the requests of its body. All
other stack slots are in the prologue. -/
theorem Stages.Of.exists_answered {unchecked : Prop} {function : FunctionCode}
    {stages : Stages unchecked function} {globals : Globals} {definition : FunctionDef}
    {signature : Signature} (h : stages.Of globals table definition signature) :
    ∃ slots calls,
      Request.Answered table stages.start (Block.requests definition.body) slots calls ∧
      function.entry =
        stages.prologue.code ++ slots.map (fun slot => .alloca slot.register slot.ty) ∧
      function.code.filter Instr.isCall = calls ∧
      ∀ instruction ∈ function.code, instruction.slot? = none := by
  have hframe : stages.frame.table = table := by rw [h.frame_eq]
  obtain ⟨slots, calls, hanswered, hstatements⟩ := Lowering.responds_lowerStmts hframe _ h.lowered
  have hleave : stages.finished.Serves table [] _ := Lowering.responds_leave h.left
  have hemits := hstatements.trans hleave.emits
  rw [List.append_nil, List.append_nil] at hemits
  obtain ⟨added, hcode, rfl, hadded⟩ := hemits.code
  rw [stages.code_start, List.nil_append, Body.code_append, ← stages.code_eq] at hcode
  have hentry := hemits.entry
  rw [stages.entry_start, Body.entry_append, ← stages.entry_eq] at hentry
  exact ⟨slots, _, hanswered, hentry, by rw [hcode], by rwa [hcode]⟩

/-- The entry of a function holds no calls. -/
theorem Stages.filter_isCall_entry {unchecked : Prop} {function : FunctionCode}
    (stages : Stages unchecked function) : function.entry.filter Instr.isCall = [] := by
  apply List.filter_eq_nil_iff.mpr
  apply stages.entry_cases (P := fun instruction => ¬instruction.isCall)
  · exact fun _ _ => Bool.false_ne_true
  · exact fun _ _ => Bool.false_ne_true

/-- The calls of a function fall into groups that answer the calls in its body. -/
theorem Stages.Of.exists_called {unchecked : Prop} {function : FunctionCode}
    {stages : Stages unchecked function} {globals : Globals} {definition : FunctionDef}
    {signature : Signature} (h : stages.Of globals table definition signature) :
    ∃ groups : List (List Instr), function.instructions.filter Instr.isCall = groups.flatten ∧
      List.Forall₂ (Request.Called stages.start)
        ((Block.requests definition.body).filter fun request => !request.isSlot) groups := by
  obtain ⟨slots, calls, hanswered, -, hcode, -⟩ := h.exists_answered
  obtain ⟨groups, rfl, hcalled⟩ := hanswered.exists_forall₂_called
  refine ⟨groups, ?_, hcalled⟩
  rw [FunctionCode.instructions, List.filter_append, stages.filter_isCall_entry, hcode]
  rfl

theorem Stages.mem_code_of_isCall {unchecked : Prop} {function : FunctionCode}
    (stages : Stages unchecked function) {instruction : Instr}
    (hmem : instruction ∈ function.instructions) (hcall : instruction.isCall) :
    instruction ∈ function.code :=
  (List.mem_append.mp hmem).resolve_left fun hentry =>
    List.filter_eq_nil_iff.mp stages.filter_isCall_entry _ hentry hcall

/-- A call in the code of a function is one that a request of its body is for. -/
theorem Stages.Of.exists_request {unchecked : Prop} {function : FunctionCode}
    {stages : Stages unchecked function} {globals : Globals} {definition : FunctionDef}
    {signature : Signature} (h : stages.Of globals table definition signature) {instruction : Instr}
    (hmem : instruction ∈ function.instructions) (hcall : instruction.isCall) :
    ∃ request ∈ Block.requests definition.body, ∃ calls,
      request.Called stages.start calls ∧ instruction ∈ calls := by
  obtain ⟨groups, hcalls, hgroups⟩ := h.exists_called
  have hflat : instruction ∈ groups.flatten := by
    rw [← hcalls]
    exact List.mem_filter.mpr ⟨hmem, hcall⟩
  obtain ⟨group, hgroup, hinstruction⟩ := List.mem_flatten.mp hflat
  obtain ⟨request, hrequest, hcalled⟩ := exists_mem_of_forall₂ hgroups hgroup
  exact ⟨request, (List.mem_filter.mp hrequest).1, group, hcalled, hinstruction⟩

end ThreeAddress
