import ThreeAddress.Proofs.Contract.Function
import ThreeAddress.Proofs.Emission.Routine
import ThreeAddress.Proofs.Renaming.Expr

/-!
# Functions in lock-step

A function and its renamed copy are lowered in lock-step, from module scopes in which functions may
have different symbols and other constants may be known. A variable that is declared must not stand
for a function afterwards, so the types of values matter here: they have a runtime representation,
since the module scope upholds its contract.

## Main definitions

* `Renaming.SameFrame`, `Renaming.SameCode`: two functions at hand, and two lowered ones, that are
  the same up to names.
* `Lowering.Tandem`: two passes in lock-step, the first of which upholds a contract.

## Main statements

* `Lowering.tandem_lowerStmts`: statements are lowered in lock-step.
* `Lowering.lockstepAt_lowerDefinition`: so are functions.
* `Renaming.SameCode.exists_rename_eq`: a permutation of names turns one function into the other.
* `agree_lower`: a function and its renamed copy are accepted or rejected together.
-/

namespace ThreeAddress

variable {table : TypeTable} {htable : table.Grounded} {symbols : String → String} {naming : Renaming}
  {w w' : World}
  {names names' names'' : List String} {body other : Body} {frame frame' : Frame}

theorem Ty.Grounded.signature?_eq {ty : Ty} (h : ty.Grounded) : ty.signature? = none :=
  Ty.signature?_of_isStorable h.isStorable

/-- Two functions at hand that are the same up to names. -/
structure Renaming.SameFrame (w : World) (frame frame' : Frame) : Prop where
  table : frame.table = frame'.table
  exit : w.Pairs frame.exit frame'.exit
  returnSlot : Option.Rel w.SameVar frame.returnSlot frame'.returnSlot

theorem Renaming.SameFrame.mono (h : Renaming.SameFrame w frame frame') (hle : w ≤ w') :
    Renaming.SameFrame w' frame frame' :=
  ⟨h.table, h.exit.mono hle, Lowering.SameTarget.mono h.returnSlot hle⟩

/-- Two lowered functions that are the same up to names. -/
structure Renaming.SameCode (naming : Renaming) (w : World) (function function' : FunctionCode) :
    Prop where
  symbol : naming.links function.symbol function'.symbol
  signature : function.signature = function'.signature
  parameters : List.Forall₂ w.Pairs function.parameters function'.parameters
  entry : List.Forall₂ (naming.SameInstr w) function.entry function'.entry
  code : List.Forall₂ (naming.SameInstr w) function.code function'.code

namespace Lowering

-- ════════════════════════
-- Tandems
-- ════════════════════════

section Tandem

variable {α α' β β' : Type} {R : World → α → β → Prop} {R' : World → α' → β' → Prop}

/-- Two passes in lock-step from bodies of which the first upholds the contract of its calls. It still
does so afterwards. The locals `names` are declared before, and `names'` afterwards. -/
def Tandem (htable : table.Grounded) (symbols : String → String) (naming : Renaming)
    (names names' : List String) (w : World) (R : World → α → β → Prop) (pass : Lowering α)
    (pass' : Lowering β) : Prop :=
  ∀ ⦃w'⦄, w ≤ w' → ∀ ⦃body other⦄, body.Matches naming w' names other →
    body.Upholds (Contract.calling htable symbols) →
    LockstepAt naming names' w' R pass pass' body other ∧
      ∀ value last, pass.eval body = .ok (value, last) →
        last.Upholds (Contract.calling htable symbols)

theorem Lockstep.tandem {pass : Lowering α} {pass' : Lowering β} {calls : List String}
    {P : α → Prop} (h : Lockstep naming names w R pass pass')
    (habides : Abides (Contract.calling htable symbols) calls P pass) :
    Tandem htable symbols naming names names w R pass pass' :=
  fun _ hle _ _ hmatches hupholds =>
    ⟨h hle hmatches, fun _ _ hrun => ((habides hupholds).ok trivial hrun).1⟩

theorem Tandem.bind {first : Lowering α} {first' : Lowering β} {next : α → Lowering α'}
    {next' : β → Lowering β'} (h : Tandem htable symbols naming names names' w R first first')
    (hnext : ∀ w', w ≤ w' → ∀ value value', R w' value value' →
      Tandem htable symbols naming names' names'' w' R' (next value) (next' value')) :
    Tandem htable symbols naming names names'' w R' (first >>= next) (first' >>= next') := by
  intro w₁ hle₁ body other hmatches hupholds
  obtain ⟨hfirst, hkept⟩ := h hle₁ hmatches hupholds
  refine ⟨hfirst.bind fun w₂ hle₂ value value' middle middle' hrun hmatches' hvalue => ?_, ?_⟩
  · exact (hnext w₂ (hle₁.trans hle₂) value value' hvalue le_rfl hmatches'
      (hkept value middle hrun)).1
  · intro value last hrun
    obtain ⟨between, middle, hrunFirst, hrunNext⟩ := Pass.eval_bind_eq_ok_iff.mp hrun
    -- the second run succeeds as well, so its middle body is there to continue from
    rw [LockstepAt, hrunFirst] at hfirst
    generalize hother : first'.eval other = outcome at hfirst
    cases hfirst with
    | ok hresult =>
      obtain ⟨w₂, hle₂, hmatches', hvalue⟩ := hresult
      exact (hnext w₂ (hle₁.trans hle₂) between _ hvalue le_rfl hmatches'
        (hkept between middle hrunFirst)).2 value last hrunNext

end Tandem

-- ════════════════════════
-- Simple statements
-- ════════════════════════

theorem lockstep_store {value value' : Value} {address address' : Operand}
    (hvalue : naming.SameValue w value value') (haddress : naming.SameOperand w address address') :
    Lockstep naming names w (fun _ _ _ => True) (emit (.store value address))
      (emit (.store value' address')) :=
  lockstep_emit (.store hvalue haddress)

/-- Both runs bind a local. Its type is no function, so it hides a called name in both. -/
theorem lockstepAt_bindName (hmatches : body.Matches naming w names other) {name : String}
    (hname : name ∈ naming.locals) {ty : Ty} (hty : ty.signature? = none) :
    LockstepAt naming (names ++ [name]) w (fun w' => w'.SameVar) (bindName name ty)
      (bindName (naming.change name) ty) body other := by
  rw [LockstepAt, eval_bindName, eval_bindName]
  exact .ok ⟨_, w.le_pair _ _, hmatches.rebind hname hty, List.mem_cons_self, rfl, rfl⟩

theorem lockstepAt_storeNew (hmatches : body.Matches naming w names other) {name : String}
    (hname : name ∈ naming.locals) {ty : Ty} (hty : ty.signature? = none) {value value' : Value}
    (hvalue : naming.SameValue w value value') :
    LockstepAt naming (names ++ [name]) w (fun _ _ _ => True)
      (do
        let slot ← bindName name ty
        reserve slot
        emit (.store value slot.operand))
      (do
        let slot ← bindName (naming.change name) ty
        reserve slot
        emit (.store value' slot.operand)) body other := by
  refine (lockstepAt_bindName hmatches hname hty).bind
    fun w₁ hle₁ slot slot' _ _ _ hmatches' hslot => ?_
  refine ((lockstep_reserve hslot).bind fun w₂ hle₂ _ _ _ => ?_) le_rfl hmatches'
  exact lockstep_store (Renaming.SameValue.mono hvalue (hle₁.trans hle₂)) (hslot.mono hle₂).operand

/-- A declaration. The type of its value is no function, since the body upholds a contract. -/
theorem tandem_declare (hframe : frame.table = frame'.table)
    (hsame : frame.table = table) {name : String} (hname : name ∈ naming.locals)
    (ty : Option String) {value : Expr} (hmentions : value.mentions ⊆ names)
    (hcalled : value.called ⊆ naming.callees) :
    Tandem htable symbols naming names (names ++ [name]) w (fun _ _ _ => True)
      (declare frame name ty value)
      (declare frame' (naming.change name) ty (value.rename naming.change)) := by
  intro w₁ _ body other hmatches hupholds
  have hforesees := Contract.foresees_calling htable symbols frame value.operations
  refine ⟨?_, fun _ _ hrun => ((abides_declare name ty hsame hforesees hupholds).ok trivial hrun).1⟩
  unfold declare
  rw [← hframe]
  refine (lockstep_ofExcept (.refl (ty.mapM frame.table.denote)) le_rfl hmatches).bind ?_
  rintro w₂ - declared _ middle middle' hdenote hmatches' ⟨rfl, hdeclared⟩
  obtain ⟨-, rfl⟩ := Pass.eval_ofExcept_eq_ok_iff.mp hdenote
  have hgrounded : ∀ ty ∈ declared, ty.Grounded := by
    rw [hsame] at hdeclared
    exact (value_of_mapM_denote hdeclared :
      ∀ ty ∈ declared, (Setting.grounded htable).value ty)
  refine (lockstep_lowerExpr hframe value hmentions hcalled w₂ declared le_rfl hmatches').bind
    fun w₃ hle₃ result result' _ _ hrun hmatches'' hresult => ?_
  have hty : result.ty.Grounded :=
    ((secure_lowerExpr hsame value hforesees declared hgrounded hupholds).ok trivial hrun).2.2
  cases declared with
  | none =>
    rw [Option.getD_none, Option.getD_none, ← hresult.ty]
    exact lockstepAt_storeNew hmatches'' hname hty.signature?_eq hresult
  | some declared =>
    refine (lockstep_expectType _ rfl hresult.ty le_rfl hmatches'').bind
      fun w₄ hle₄ _ _ _ _ _ hmatches₄ _ => ?_
    exact lockstepAt_storeNew hmatches₄ hname (hgrounded declared rfl).signature?_eq
      (Renaming.SameValue.mono hresult hle₄)

theorem lockstep_assign (hframe : frame.table = frame'.table) {target value : Expr}
    (hmentions : target.mentions ++ value.mentions ⊆ names)
    (hcalled : target.called ++ value.called ⊆ naming.callees) :
    Lockstep naming names w (fun _ _ _ => True) (assign frame target value)
      (assign frame' (target.rename naming.change) (value.rename naming.change)) := by
  rw [List.append_subset] at hmentions hcalled
  refine (lockstep_lowerTarget hframe hmentions.1 hcalled.1).bind
    fun w₁ hle₁ place place' hplace => ?_
  rw [← hplace.ty]
  refine (lockstep_lowerExpr hframe value hmentions.2 hcalled.2 w₁ _).bind
    fun w₂ hle₂ result result' hresult => ?_
  refine (lockstep_expectType _ rfl hresult.ty).bind fun w₃ hle₃ _ _ _ => ?_
  exact lockstep_store (Renaming.SameValue.mono hresult hle₃)
    (Renaming.SameOperand.mono hplace.address (hle₂.trans hle₃))

theorem lockstep_evaluate (hframe : frame.table = frame'.table) {expression : Expr}
    (hmentions : expression.mentions ⊆ names) (hcalled : expression.called ⊆ naming.callees) :
    Lockstep naming names w (fun _ _ _ => True) (evaluate frame expression)
      (evaluate frame' (expression.rename naming.change)) := by
  cases expression with
  | call callee arguments =>
    rw [Expr.mentions] at hmentions
    rw [Expr.called, List.cons_subset] at hcalled
    rw [Expr.rename]
    exact (lockstep_call hcalled.1 .none (same_pending hframe arguments hmentions hcalled.2 w)).bind
      fun _ _ _ _ _ => lockstep_nothing
  | _ =>
    have hlower := lockstep_lowerExpr hframe _ hmentions hcalled w none
    rw [Expr.rename] at hlower ⊢
    exact hlower.bind fun _ _ _ _ _ => lockstep_nothing

theorem lockstep_returnFrom (hframe : Renaming.SameFrame w frame frame') {value : Option Expr}
    (hmentions : ∀ expression ∈ value, expression.mentions ⊆ names)
    (hcalled : value.toList.flatMap Expr.called ⊆ naming.callees) :
    Lockstep naming names w (fun _ _ _ => True) (returnFrom frame value)
      (returnFrom frame' (value.map (Expr.rename naming.change))) := by
  have hjump {w₁ : World} (hle : w ≤ w₁) : Lockstep naming names w₁ (fun _ _ _ => True)
      (emit (.branch frame.exit)) (emit (.branch frame'.exit)) :=
    lockstep_emit (.branch (hframe.exit.mono hle))
  have hfail (diagnostic diagnostic' : Diagnostic) : Lockstep naming names w (fun _ _ _ => True)
      (do
        Pass.fail diagnostic
        emit (.branch frame.exit))
      (do
        Pass.fail diagnostic'
        emit (.branch frame'.exit)) :=
    (lockstep_fail (R := fun _ _ _ => True) _ _).bind fun _ hle _ _ _ => hjump hle
  unfold returnFrom
  have hslots := hframe.returnSlot
  generalize frame.returnSlot = slot at hslots ⊢
  generalize frame'.returnSlot = slot' at hslots ⊢
  cases value with
  | none =>
    cases hslots with
    | none => exact hjump le_rfl
    | some => exact hfail _ _
  | some value =>
    cases hslots with
    | none => exact hfail _ _
    | @some slot slot' hslot =>
      simp only [Option.map_some, ← hslot.ty]
      refine (lockstep_lowerExpr hframe.table value (hmentions value rfl) (by simpa using hcalled) w
        (some slot.ty)).bind fun w₁ hle₁ result result' hresult => ?_
      refine (lockstep_expectType _ rfl hresult.ty).bind fun w₂ hle₂ _ _ _ => ?_
      refine (lockstep_store (Renaming.SameValue.mono hresult hle₂)
        (hslot.mono (hle₁.trans hle₂)).operand).bind fun w₃ hle₃ _ _ _ => ?_
      exact hjump (hle₁.trans (hle₂.trans hle₃))

-- ════════════════════════
-- Conditionals and loops
-- ════════════════════════

theorem tandem_emit_control {instruction instruction' : Instr}
    (h : naming.SameInstr w instruction instruction') (hmentions : instruction.mentions = [])
    (hcallee : instruction.callee? = none) :
    Tandem htable symbols naming names names w (fun _ _ _ => True) (emit instruction)
      (emit instruction') :=
  (lockstep_emit h).tandem (abides_emit_control hmentions hcallee)

theorem tandem_newLabel (base : String) :
    Tandem htable symbols naming names names w (fun w' => w'.Pairs) (newLabel base) (newLabel base) :=
  (lockstep_newLabel base).tandem (abides_newLabel base)

theorem tandem_testCondition (hframe : frame.table = frame'.table)
    (hsame : frame.table = table) {condition : Expr} (hmentions : condition.mentions ⊆ names)
    (hcalled : condition.called ⊆ naming.callees) :
    Tandem htable symbols naming names names w naming.SameOperand (testCondition frame condition)
      (testCondition frame' (condition.rename naming.change)) := by
  refine Lockstep.tandem ?_ (abides_testCondition hsame (Contract.foresees_calling _ _ _ _))
  refine (lockstep_lowerExpr hframe condition hmentions hcalled w _).bind
    fun w₁ hle₁ value value' hvalue => ?_
  refine (lockstep_require (by rw [hvalue.ty])).bind fun w₂ hle₂ _ _ _ => ?_
  exact lockstep_pure fun w₃ hle₃ =>
    Renaming.SameOperand.mono hvalue.operand (hle₂.trans hle₃)

/-- Both arms are still open or none is, so the label behind a conditional is made in both runs or
in none. -/
theorem lockstep_joinArm {label label' : Option String} (h : Option.Rel w.Pairs label label') :
    Lockstep naming names w (fun w' => Option.Rel w'.Pairs) (joinArm label) (joinArm label') := by
  have hmono {w₁ : World} (hle : w ≤ w₁) : Option.Rel w₁.Pairs label label' :=
    optionRel_imp (fun _ _ hpairs => hpairs.mono hle) h
  have hjump {w₁ : World} {label label' : String} (hpairs : w₁.Pairs label label') :
      Lockstep naming names w₁ (fun w' => Option.Rel w'.Pairs)
        (do
          emit (.branch label)
          return some label)
        (do
          emit (.branch label')
          return some label') :=
    (lockstep_emit (.branch hpairs)).bind fun w₂ hle₂ _ _ _ =>
      lockstep_pure fun w₃ hle₃ => .some (hpairs.mono (hle₂.trans hle₃))
  intro w₁ hle₁ body other hmatches
  refine lockstepAt_get ?_
  rw [← hmatches.isClosed_eq]
  by_cases hclosed : body.isClosed
  · rw [if_pos hclosed, if_pos hclosed]
    exact lockstep_pure (fun w₂ hle₂ => hmono (hle₁.trans hle₂)) le_rfl hmatches
  · rw [if_neg hclosed, if_neg hclosed]
    cases h with
    | none =>
      exact ((lockstep_newLabel "ifend").bind fun _ _ _ _ hpairs => hjump hpairs) le_rfl hmatches
    | some hpairs => exact hjump (hpairs.mono hle₁) le_rfl hmatches

theorem lockstep_afterwards {label label' : Option String} (h : Option.Rel w.Pairs label label') :
    Lockstep naming names w (fun _ _ _ => True)
      (match label with
        | some label => emit (.label label)
        | none => pure ())
      (match label' with
        | some label => emit (.label label)
        | none => pure ()) := by
  cases h with
  | none => exact lockstep_nothing
  | some hpairs => exact lockstep_emit (.label hpairs)

theorem lockstep_endLoop {test test' afterwards afterwards' : String} (htest : w.Pairs test test')
    (hafterwards : w.Pairs afterwards afterwards') :
    Lockstep naming names w (fun _ _ _ => True)
      (do
        let last ← Pass.get
        unless last.isClosed do
          emit (.branch test)
        emit (.label afterwards))
      (do
        let last ← Pass.get
        unless last.isClosed do
          emit (.branch test')
        emit (.label afterwards')) := by
  have hend {w₁ : World} (hle : w ≤ w₁) : Lockstep naming names w₁ (fun _ _ _ => True)
      (emit (.label afterwards)) (emit (.label afterwards')) :=
    lockstep_emit (.label (hafterwards.mono hle))
  intro w₁ hle₁ body other hmatches
  refine lockstepAt_get ?_
  rw [← hmatches.isClosed_eq]
  by_cases hclosed : body.isClosed
  · simp only [hclosed, if_true]
    exact (lockstep_nothing.bind fun _ hle _ _ _ => hend (hle₁.trans hle)) le_rfl hmatches
  · simp only [hclosed]
    exact ((lockstep_emit (.branch (htest.mono hle₁))).bind
      fun _ hle _ _ _ => hend (hle₁.trans hle)) le_rfl hmatches

mutual

/-- A statement and its renamed copy are lowered in lock-step, if what it mentions is declared
before. -/
theorem tandem_lowerStmt (hgrounded : frame.Grounded table) :
    ∀ (statement : Stmt) (names : List String) (w : World), statement.isScoped names →
      statement.declares ⊆ naming.locals → statement.called ⊆ naming.callees →
      Renaming.SameFrame w frame frame' →
        Tandem htable symbols naming names (names ++ statement.declares) w (fun _ _ _ => True)
          (lowerStmt frame statement) (lowerStmt frame' (statement.rename naming.change))
  | .bind name ty value, names, w, hscoped, hdeclares, hcalled, hframe => by
    rw [Stmt.isScoped, Expr.isScoped_iff] at hscoped
    rw [Stmt.declares, List.cons_subset] at hdeclares
    rw [Stmt.called] at hcalled
    rw [Stmt.rename, lowerStmt, lowerStmt, Stmt.declares]
    exact tandem_declare hframe.table hgrounded.table_eq hdeclares.1 ty hscoped hcalled
  | .assign target value, names, w, hscoped, _, hcalled, hframe => by
    rw [Stmt.isScoped, Bool.and_eq_true, Expr.isScoped_iff, Expr.isScoped_iff,
      ← List.append_subset] at hscoped
    rw [Stmt.called] at hcalled
    rw [Stmt.rename, lowerStmt, lowerStmt, Stmt.declares, List.append_nil]
    exact (lockstep_assign hframe.table hscoped hcalled).tandem
      (abides_assign hgrounded.table_eq (Contract.foresees_calling _ _ _ _) (Contract.foresees_calling _ _ _ _))
  | .eval expression, names, w, hscoped, _, hcalled, hframe => by
    rw [Stmt.isScoped, Expr.isScoped_iff] at hscoped
    rw [Stmt.called] at hcalled
    rw [Stmt.rename, lowerStmt, lowerStmt, Stmt.declares, List.append_nil]
    exact (lockstep_evaluate hframe.table hscoped hcalled).tandem
      (abides_evaluate hgrounded.table_eq (Contract.foresees_calling _ _ _ _))
  | .ret value, names, w, hscoped, _, hcalled, hframe => by
    have hmentions : ∀ expression ∈ value, expression.mentions ⊆ names := by
      intro expression hvalue
      rw [Stmt.isScoped, hvalue, Option.all_some, Expr.isScoped_iff] at hscoped
      exact hscoped
    rw [Stmt.called] at hcalled
    rw [Stmt.rename, lowerStmt, lowerStmt, Stmt.declares, List.append_nil]
    exact (lockstep_returnFrom hframe hmentions hcalled).tandem
      (abides_returnFrom hgrounded (Contract.foresees_calling _ _ _ _))
  | .directive text, names, w, _, _, _, _ => by
    rw [Stmt.rename, lowerStmt, lowerStmt, Stmt.declares, List.append_nil]
    exact (lockstep_report _ _).tandem (abides_report _)
  | .ite condition positive negative, names, w, hscoped, hdeclares, hcalled, hframe => by
    rw [Stmt.isScoped, Bool.and_eq_true, Bool.and_eq_true, Expr.isScoped_iff] at hscoped
    obtain ⟨⟨hcondition, hpositive⟩, hnegative⟩ := hscoped
    rw [Stmt.declares, List.append_subset] at hdeclares
    rw [Stmt.called, List.append_subset, List.append_subset] at hcalled
    rw [Stmt.rename, lowerStmt, lowerStmt, Stmt.declares, ← List.append_assoc]
    refine (tandem_testCondition hframe.table hgrounded.table_eq hcondition
      hcalled.1).bind fun w₁ hle₁ operand operand' hoperand => ?_
    refine (tandem_newLabel "iftrue").bind fun w₂ hle₂ onTrue onTrue' htrue => ?_
    refine (tandem_newLabel "iffalse").bind fun w₃ hle₃ onFalse onFalse' hfalse => ?_
    refine (tandem_emit_control (.branchIf (Renaming.SameOperand.mono hoperand (hle₂.trans hle₃))
      (htrue.mono hle₃) hfalse) rfl rfl).bind fun w₄ hle₄ _ _ _ => ?_
    refine (tandem_emit_control (.label (htrue.mono (hle₃.trans hle₄))) rfl rfl).bind
      fun w₅ hle₅ _ _ _ => ?_
    have hle : w ≤ w₅ := hle₁.trans (hle₂.trans (hle₃.trans (hle₄.trans hle₅)))
    refine (tandem_lowerStmts hgrounded positive names w₅ hpositive hdeclares.1
      hcalled.2.1 (hframe.mono hle)).bind fun w₆ hle₆ _ _ _ => ?_
    refine ((lockstep_joinArm .none).tandem (abides_joinArm none)).bind
      fun w₇ hle₇ label label' hlabel => ?_
    refine (tandem_emit_control (.label (hfalse.mono (hle₄.trans (hle₅.trans (hle₆.trans hle₇)))))
      rfl rfl).bind fun w₈ hle₈ _ _ _ => ?_
    refine (tandem_lowerStmts hgrounded negative _ w₈ hnegative hdeclares.2 hcalled.2.2
      (hframe.mono (hle.trans (hle₆.trans (hle₇.trans hle₈))))).bind fun w₉ hle₉ _ _ _ => ?_
    have hlabel' : Option.Rel w₉.Pairs label label' :=
      optionRel_imp (fun _ _ hpairs => hpairs.mono (hle₈.trans hle₉)) hlabel
    refine ((lockstep_joinArm hlabel').tandem (abides_joinArm label)).bind
      fun _ _ label _ hlabel => ?_
    exact (lockstep_afterwards hlabel).tandem (abides_afterwards label)
  | .loop condition statements, names, w, hscoped, hdeclares, hcalled, hframe => by
    rw [Stmt.isScoped, Bool.and_eq_true, Expr.isScoped_iff] at hscoped
    rw [Stmt.declares] at hdeclares
    rw [Stmt.called, List.append_subset] at hcalled
    rw [Stmt.rename, lowerStmt, lowerStmt, Stmt.declares]
    refine (tandem_newLabel "whilecond").bind fun w₁ hle₁ test test' htest => ?_
    refine (tandem_newLabel "whilebody").bind fun w₂ hle₂ start start' hstart => ?_
    refine (tandem_newLabel "whileafter").bind fun w₃ hle₃ afterwards afterwards' hafter => ?_
    have htest₃ := htest.mono (hle₂.trans hle₃)
    refine (tandem_emit_control (.branch htest₃) rfl rfl).bind fun w₄ hle₄ _ _ _ => ?_
    refine (tandem_emit_control (.label (htest₃.mono hle₄)) rfl rfl).bind fun w₅ hle₅ _ _ _ => ?_
    refine (tandem_testCondition hframe.table hgrounded.table_eq hscoped.1
      hcalled.1).bind fun w₆ hle₆ operand operand' hoperand => ?_
    have hle : w₃ ≤ w₆ := hle₄.trans (hle₅.trans hle₆)
    have hstart₆ := hstart.mono (hle₃.trans hle)
    refine (tandem_emit_control (.branchIf hoperand hstart₆ (hafter.mono hle)) rfl rfl).bind
      fun w₇ hle₇ _ _ _ => ?_
    refine (tandem_emit_control (.label (hstart₆.mono hle₇)) rfl rfl).bind fun w₈ hle₈ _ _ _ => ?_
    have hle₈' : w₃ ≤ w₈ := hle.trans (hle₇.trans hle₈)
    refine (tandem_lowerStmts hgrounded statements names w₈ hscoped.2 hdeclares hcalled.2
      (hframe.mono (hle₁.trans (hle₂.trans (hle₃.trans hle₈'))))).bind fun w₉ hle₉ _ _ _ => ?_
    exact (lockstep_endLoop (htest₃.mono (hle₈'.trans hle₉)) (hafter.mono (hle₈'.trans hle₉))).tandem
      (abides_endLoop test afterwards)

/-- Statements and their renamed copies are lowered in lock-step, if what they mention is declared
before. -/
theorem tandem_lowerStmts (hgrounded : frame.Grounded table) :
    ∀ (statements : List Stmt) (names : List String) (w : World), Block.isScoped names statements →
      Block.declares statements ⊆ naming.locals → Block.called statements ⊆ naming.callees →
      Renaming.SameFrame w frame frame' →
        Tandem htable symbols naming names (names ++ Block.declares statements) w (fun _ _ _ => True)
          (lowerStmts frame statements) (lowerStmts frame' (Block.rename naming.change statements))
  | [], names, w, _, _, _, _ => by
    rw [Block.rename, lowerStmts, lowerStmts, Block.declares, List.append_nil]
    exact lockstep_nothing.tandem abides_nothing
  | statement :: rest, names, w, hscoped, hdeclares, hcalled, hframe => by
    rw [Block.isScoped, Bool.and_eq_true] at hscoped
    rw [Block.declares, List.append_subset] at hdeclares
    rw [Block.called, List.append_subset] at hcalled
    rw [Block.rename, lowerStmts, lowerStmts, Block.declares, ← List.append_assoc]
    refine (tandem_lowerStmt hgrounded statement names w hscoped.1 hdeclares.1 hcalled.1
      hframe).bind fun w₁ hle₁ _ _ _ => ?_
    exact tandem_lowerStmts hgrounded rest _ w₁ hscoped.2 hdeclares.2 hcalled.2
      (hframe.mono hle₁)

end

-- ════════════════════════
-- Functions
-- ════════════════════════

/-- Two parameters whose registers are paired and whose types agree. -/
structure SameParameter (w : World) (parameter parameter' : Parameter) : Prop where
  incoming : w.SameVar parameter.incoming parameter'.incoming
  slot : w.SameVar parameter.slot parameter'.slot

theorem SameParameter.mono {parameter parameter' : Parameter}
    (h : SameParameter w parameter parameter') (hle : w ≤ w') :
    SameParameter w' parameter parameter' :=
  ⟨h.incoming.mono hle, h.slot.mono hle⟩

/-- Binding the parameters of a function binds those of its renamed copy. -/
theorem exists_matches_enter {parameters : List (String × Ty)}
    (hparameters : ∀ parameter ∈ parameters,
      parameter.1 ∈ naming.locals ∧ parameter.2.signature? = none)
    (hmatches : body.Matches naming w names other) :
    ∃ w', w ≤ w' ∧ Body.Matches naming w' (names ++ parameters.map Prod.fst)
        { body with scope := (body.scope.enter parameters).2 }
        { other with
          scope := (other.scope.enter (parameters.map (Prod.map naming.change id))).2 } ∧
      List.Forall₂ (SameParameter w') (body.scope.enter parameters).1
        (other.scope.enter (parameters.map (Prod.map naming.change id))).1 := by
  induction parameters generalizing w names body other with
  | nil => exact ⟨w, le_rfl, by simpa [Scope.enter] using hmatches, .nil⟩
  | cons parameter rest ih =>
    obtain ⟨name, ty⟩ := parameter
    rw [List.forall_mem_cons] at hparameters
    obtain ⟨⟨hname, hty⟩, hrest⟩ := hparameters
    have hmint := hmatches.mint (name ++ ".val") (naming.change name ++ ".val") hty
    obtain ⟨w', hle, hmatches', hsame⟩ := ih hrest (hmint.rebind hname hty)
    have hle₂ := (World.le_pair _ _ _).trans hle
    refine ⟨w', (w.le_pair _ _).trans hle₂, ?_, .cons ⟨?_, ?_⟩ hsame⟩
    · rw [List.map_cons, List.append_cons]
      exact hmatches'
    · exact World.SameVar.mono ⟨List.mem_cons_self, rfl, rfl⟩ hle₂
    · exact World.SameVar.mono ⟨List.mem_cons_self, rfl, rfl⟩ hle

/-- The instructions in front of a function body are the same up to names. -/
theorem forall₂_code {prologue prologue' : Prologue}
    (hparameters : List.Forall₂ (SameParameter w) prologue.parameters prologue'.parameters)
    (hslot : Option.Rel w.SameVar prologue.returnSlot prologue'.returnSlot) :
    List.Forall₂ (naming.SameInstr w) prologue.code prologue'.code := by
  have halloca {slot slot' : Var} (h : w.SameVar slot slot') :
      naming.SameInstr w (.alloca slot.register slot.ty) (.alloca slot'.register slot'.ty) :=
    h.ty ▸ .alloca h.register _
  have hslots : List.Forall₂ w.SameVar prologue.returnSlot.toList prologue'.returnSlot.toList := by
    generalize prologue.returnSlot = slot at hslot ⊢
    generalize prologue'.returnSlot = slot' at hslot ⊢
    cases hslot with
    | none => exact .nil
    | some h => exact .cons h .nil
  refine List.rel_append ?_ ?_
  · refine List.rel_flatMap hparameters fun parameter parameter' h => ?_
    exact .cons (halloca h.slot) (.cons (.store h.incoming.value h.slot.operand) .nil)
  · rw [List.forall₂_map_left_iff, List.forall₂_map_right_iff]
    exact hslots.imp fun _ _ => halloca

theorem matches_begin {prologue prologue' : Prologue}
    (h : Body.Matches naming w names { body with scope := prologue.scope }
      { other with scope := prologue'.scope })
    (hcode : List.Forall₂ (naming.SameInstr w) prologue.code prologue'.code) (header header' : Line) :
    (body.begin header prologue).Matches naming w names (other.begin header' prologue') where
  keyed := by
    rw [Body.scope_begin]
    exact h.keyed
  keyed' := by
    rw [Body.scope_begin]
    exact h.keyed'
  left := by
    rw [Body.globals_begin]
    exact h.left
  right := by
    rw [Body.globals_begin]
    exact h.right
  inUse := by
    rw [Body.scope_begin, Body.scope_begin]
    exact h.inUse
  nodup := h.nodup
  nodup' := h.nodup'
  subset := h.subset
  vars := by
    rw [Body.scope_begin, Body.scope_begin]
    exact h.vars
  functions := by
    rw [Body.scope_begin, Body.scope_begin]
    exact h.functions
  entry := by
    rw [Body.entry_begin, Body.entry_begin]
    exact hcode
  code := by
    rw [Body.code_begin, Body.code_begin]
    exact .nil

/-- A function and its renamed copy start from bodies that are the same up to names. -/
theorem exists_matches_begin {declared : List String} {types : List Ty} {returns : Option Ty}
    (hlength : declared.length = types.length) (hdeclared : declared ⊆ naming.locals)
    (htypes : ∀ ty ∈ types, ty.Grounded) (hreturns : ∀ ty ∈ returns, ty.Grounded)
    (hmatches : body.Matches naming w [] other) {prologue prologue' : Prologue}
    (hprologue : body.scope.prologue (declared.zip types) returns = prologue)
    (hprologue' : other.scope.prologue ((declared.map naming.change).zip types) returns = prologue')
    (header header' : Line) :
    ∃ w', w ≤ w' ∧
      (body.begin header prologue).Matches naming w' declared (other.begin header' prologue') ∧
      List.Forall₂ (SameParameter w') prologue.parameters prologue'.parameters ∧
      w'.Pairs prologue.exit prologue'.exit ∧
      Option.Rel w'.SameVar prologue.returnSlot prologue'.returnSlot := by
  have hparameters : ∀ parameter ∈ declared.zip types,
      parameter.1 ∈ naming.locals ∧ parameter.2.signature? = none := fun parameter hmem =>
    ⟨hdeclared (List.of_mem_zip hmem).1, (htypes _ (List.of_mem_zip hmem).2).signature?_eq⟩
  obtain ⟨w₁, hle₁, hentered, hsame⟩ := exists_matches_enter hparameters hmatches
  rw [List.nil_append, List.map_fst_zip hlength.le] at hentered
  rw [List.zip_map_left] at hprologue'
  let exit := (body.scope.enter (declared.zip types)).2.newRegister "cr"
  let exit' := (other.scope.enter ((declared.zip types).map (Prod.map naming.change id))).2.newRegister
    "cr"
  have hlabelled := hentered.mint "cr" "cr" (rfl : Ty.label.signature? = none)
  have hle₂ : w₁ ≤ w₁.pair exit exit' := w₁.le_pair exit exit'
  have hexit : (w₁.pair exit exit').Pairs exit exit' := List.mem_cons_self
  cases returns with
  | none =>
    have hsame₂ := hsame.imp fun _ _ h => h.mono hle₂
    subst hprologue hprologue'
    exact ⟨_, hle₁.trans hle₂, matches_begin hlabelled (forall₂_code hsame₂ .none) _ _, hsame₂, hexit,
      .none⟩
  | some ty =>
    let labelled := ((body.scope.enter (declared.zip types)).2.mint "cr" .label).2
    let labelled' :=
      ((other.scope.enter ((declared.zip types).map (Prod.map naming.change id))).2.mint "cr" .label).2
    let w₃ := (w₁.pair exit exit').pair (labelled.newRegister "retptr") (labelled'.newRegister "retptr")
    have hreserved := hlabelled.mint "retptr" "retptr" (hreturns ty rfl).signature?_eq
    have hle₃ : w₁.pair exit exit' ≤ w₃ := World.le_pair _ _ _
    have hsame₃ := hsame.imp fun _ _ h => h.mono (hle₂.trans hle₃)
    have hslot : Option.Rel w₃.SameVar (some (Var.make (labelled.newRegister "retptr") ty))
        (some (Var.make (labelled'.newRegister "retptr") ty)) :=
      .some ⟨List.mem_cons_self, rfl, rfl⟩
    subst hprologue hprologue'
    exact ⟨w₃, hle₁.trans (hle₂.trans hle₃), matches_begin hreserved (forall₂_code hsame₃ hslot) _ _,
      hsame₃, hexit.mono hle₃, hslot⟩

theorem lockstep_leave (hgrounded : frame.Grounded table)
    (hframe : Renaming.SameFrame w frame frame') :
    Lockstep naming names w (fun _ _ _ => True) (leave frame) (leave frame') := by
  have hslots := hframe.returnSlot
  have htypes := hgrounded.returnSlot
  unfold leave
  refine (lockstep_emit (.label hframe.exit)).bind fun w₁ hle₁ _ _ _ => ?_
  generalize frame.returnSlot = slot at hslots htypes ⊢
  generalize frame'.returnSlot = slot' at hslots ⊢
  cases hslots with
  | none => exact lockstep_emit (.ret .none)
  | @some slot slot' hslot =>
    simp only [← hslot.ty]
    refine (lockstep_temporary (htypes slot rfl).signature?_eq).bind
      fun w₂ hle₂ value value' hvalue => ?_
    refine (lockstep_emit (.load hvalue.register _ (hslot.mono (hle₁.trans hle₂)).operand)).bind
      fun w₃ hle₃ _ _ _ => ?_
    exact lockstep_emit (.ret (.some (hvalue.mono hle₃).value))

/-- What follows the body of a function, up to its result. -/
theorem lockstep_finish (hgrounded : frame.Grounded table)
    (hframe : Renaming.SameFrame w frame frame') {missing : Bool} {warnings events : Trace}
    {result result' : Body → FunctionCode}
    (hresult : ∀ ⦃w'⦄, w ≤ w' → ∀ ⦃body other⦄, body.Matches naming w' names other →
      naming.SameCode w' (result body) (result' other)) :
    Lockstep naming names w naming.SameCode
      (do
        leave frame
        write .close
        if missing then
          Pass.report warnings
        Pass.report events
        let body ← Pass.get
        return result body)
      (do
        leave frame'
        write .close
        if missing then
          Pass.report warnings
        Pass.report events
        let body ← Pass.get
        return result' body) := by
  refine (lockstep_leave hgrounded hframe).bind fun w₁ hle₁ _ _ _ => ?_
  have hclose : Lockstep naming names w₁ (fun _ _ _ => True) (write .close) (write .close) :=
    lockstep_of_eval (fun _ => rfl) (fun _ => rfl) fun w' _ _ _ hmatches =>
      ⟨w', le_rfl, hmatches.close, trivial⟩
  refine hclose.bind fun w₂ hle₂ _ _ _ => ?_
  have hfinish {w₃ : World} (hle : w ≤ w₃) : Lockstep naming names w₃ naming.SameCode
      (do
        Pass.report events
        let body ← Pass.get
        return result body)
      (do
        Pass.report events
        let body ← Pass.get
        return result' body) := by
    refine (lockstep_report _ _).bind fun w₄ hle₄ _ _ _ => ?_
    intro w₅ hle₅ body other hmatches
    exact .ok ⟨w₅, le_rfl, hmatches, hresult (hle.trans (hle₄.trans hle₅)) hmatches⟩
  have hle : w ≤ w₂ := hle₁.trans hle₂
  cases missing with
  | true => exact (lockstep_report _ _).bind fun _ hle' _ _ _ => hfinish (hle.trans hle')
  | false => exact hfinish hle

/-- A function whose types have a runtime representation is entered, and then its body is lowered. -/
theorem eval_lowerDefinition_eq {definition : FunctionDef} {symbol : String} {signature : Signature}
    {prologue : Prologue} (hlength : definition.parameters.length = signature.parameters.length)
    (hsignature : signature.Grounded)
    (hprologue : body.scope.prologue
      ((definition.parameters.map TypedName.name).zip signature.parameters) signature.returns =
        prologue) :
    (lowerDefinition table definition symbol signature).eval body = (do
      lowerStmts ⟨table, definition.name, prologue.exit, prologue.returnSlot⟩ definition.body
      leave ⟨table, definition.name, prologue.exit, prologue.returnSlot⟩
      write .close
      if signature.returns.isSome && !Block.mustReturn definition.body then
        Pass.report [.missingReturn definition.name]
      Pass.report [.functionFinished]
      let body ← Pass.get
      return {
        symbol
        signature
        parameters := prologue.parameters.map fun parameter => parameter.incoming.register
        entry := body.entry
        code := body.code } : Lowering FunctionCode).eval
      (body.begin (.header symbol signature
        (prologue.parameters.map fun parameter => parameter.incoming.register)) prologue) := by
  obtain ⟨⟨⟨frame, registers⟩, begun⟩, henter⟩ : ∃ entered,
    (enterFunction table definition symbol signature).eval body = .ok entered :=
      exists_eval_enterFunction hlength hsignature
  obtain ⟨rfl, rfl, rfl⟩ := eval_enterFunction henter hprologue
  rw [lowerDefinition, Pass.eval_bind, henter]
  rfl

/-- A function and its renamed copy are lowered in lock-step. -/
theorem lockstepAt_lowerDefinition {definition : FunctionDef} {symbol symbol' : String}
    {signature : Signature} (hscoped : definition.isScoped)
    (hlocals : definition.locals ⊆ naming.locals)
    (hcalled : Block.called definition.body ⊆ naming.callees)
    (hlength : definition.parameters.length = signature.parameters.length)
    (hsignature : signature.Grounded) (hlinks : naming.links symbol symbol')
    {draft : Draft} (hmatches : draft.body.Matches naming w [] other)
    (hroot : draft.globals.root.Upholds (Contract.calling htable symbols)) :
    LockstepAt naming definition.locals w naming.SameCode
      (lowerDefinition table definition symbol signature)
      (lowerDefinition table (definition.rename naming.change) symbol' signature) draft.body other := by
  rw [FunctionDef.locals, List.append_subset] at hlocals
  have hnames : (definition.rename naming.change).parameters.map TypedName.name =
      (definition.parameters.map TypedName.name).map naming.change := by
    rw [FunctionDef.rename, List.map_map, List.map_map]
    rfl
  have hlength' : (definition.rename naming.change).parameters.length =
      signature.parameters.length := by
    rw [FunctionDef.rename, List.length_map, hlength]
  obtain ⟨prologue, hprologue⟩ : ∃ prologue, draft.globals.root.prologue
    ((definition.parameters.map TypedName.name).zip signature.parameters) signature.returns =
      prologue := ⟨_, rfl⟩
  obtain ⟨prologue', hprologue'⟩ : ∃ prologue', other.scope.prologue
    (((definition.rename naming.change).parameters.map TypedName.name).zip signature.parameters)
      signature.returns = prologue' := ⟨_, rfl⟩
  rw [LockstepAt, eval_lowerDefinition_eq hlength hsignature hprologue,
    eval_lowerDefinition_eq hlength' hsignature hprologue', FunctionDef.rename,
    Block.mustReturn_rename]
  rw [hnames] at hprologue'
  generalize Line.header symbol signature _ = header
  generalize Line.header symbol' signature _ = header'
  obtain ⟨w₁, hle₁, hbegun, hparameters, hexit, hslots⟩ := exists_matches_begin
    (by simpa using hlength) hlocals.1 hsignature.parameters hsignature.returns hmatches hprologue
    hprologue' header header'
  have hframe : Frame.Grounded table
      ⟨table, definition.name, prologue.exit, prologue.returnSlot⟩ :=
    Prologue.grounded_frame hprologue hsignature.returns _
  have hframes : Renaming.SameFrame w₁ ⟨table, definition.name, prologue.exit, prologue.returnSlot⟩
      ⟨table, definition.name, prologue'.exit, prologue'.returnSlot⟩ := ⟨rfl, hexit, hslots⟩
  have hupholds : (draft.body.begin header prologue).Upholds (Contract.calling htable symbols) :=
    Draft.upholds_begin hroot hsignature hprologue header
  obtain ⟨hstatements, -⟩ := tandem_lowerStmts hframe definition.body _ w₁ hscoped hlocals.2 hcalled
    hframes le_rfl hbegun hupholds
  refine (hstatements.bind fun w₂ hle₂ _ _ _ _ _ hfinished _ => ?_ :
    LockstepAt naming definition.locals w₁ naming.SameCode _ _ _ _).imp ?_
  · refine lockstep_finish hframe (hframes.mono hle₂) (fun w₃ hle₃ body other hmatches => ?_) le_rfl
      hfinished
    refine ⟨hlinks, rfl, ?_, hmatches.entry, hmatches.code⟩
    rw [List.forall₂_map_left_iff, List.forall₂_map_right_iff]
    exact hparameters.imp fun _ _ h => h.incoming.register.mono (hle₂.trans hle₃)
  · rintro _ _ ⟨w₂, hle₂, hresult⟩
    exact ⟨w₂, hle₁.trans hle₂, hresult⟩

end Lowering

-- ════════════════════════
-- Functions in their modules
-- ════════════════════════

/-- A permutation of the registers and labels turns one function into the other, if symbols that
stand for each other are changed into each other. -/
theorem Renaming.SameCode.exists_rename_eq {function function' : FunctionCode}
    (h : naming.SameCode w function function') (hnodup : (w.registers.map Prod.fst).Nodup)
    (hnodup' : (w.registers.map Prod.snd).Nodup) {symbols : String → String}
    (hsymbols : ∀ symbol other, naming.Symbols w symbol other → symbols symbol = other) :
    ∃ registers : Equiv.Perm String, function.rename registers symbols = function' := by
  obtain ⟨registers, hregisters⟩ := exists_perm_of_nodup hnodup hnodup'
  have hpairs : ∀ register other, w.Pairs register other → registers register = other :=
    fun register other hpair => hregisters (register, other) hpair
  have hcode {code code' : List Instr} (hsame : List.Forall₂ (naming.SameInstr w) code code') :
      code.map (Instr.rename registers symbols) = code' :=
    map_eq_of_forall₂ hsame fun _ _ hinstr => hinstr.rename_eq hpairs hsymbols
  refine ⟨registers, ?_⟩
  rw [FunctionCode.rename, hsymbols _ _ (Or.inl h.symbol), h.signature, hcode h.entry,
    hcode h.code, map_eq_of_forall₂ h.parameters hpairs]

/-- Two functions that were lowered in two modules, with the names of the modules afterwards. Both
modules take in the same constants, and the functions are the same up to registers, labels and
symbols. -/
structure Renaming.Reproduces (naming : Renaming) (globals globals' : Globals)
    (result result' : FunctionCode × Globals) : Prop where
  constants : ∃ constants, result.2 = globals.internAll constants ∧
    result'.2 = globals'.internAll constants
  code : ∀ symbols : String → String, (∀ symbol other, naming.links symbol other →
      symbols symbol = other) →
    (∀ constant symbol other, result.2.constants.lookup constant = some symbol →
      result'.2.constants.lookup constant = some other → symbols symbol = other) →
    ∃ registers : Equiv.Perm String, result.1.rename registers symbols = result'.1

/-- A function and its renamed copy are both accepted or both rejected, if what they call is the same
up to symbols. -/
theorem agree_lower {function function' : BoundFunction} {signature : Signature}
    (hscoped : function.definition.isScoped) (hlocals : function.definition.locals ⊆ naming.locals)
    (hcalled : Block.called function.definition.body ⊆ naming.callees)
    (hdefinition : function'.definition = function.definition.rename naming.change)
    (hsignature : table.denoteSignature function.definition = .ok signature)
    (hbound : function.requireSignature = .ok signature)
    (hbound' : function'.requireSignature = .ok signature)
    (hlinks : naming.links function.symbol function'.symbol) {globals globals' : Globals}
    (hupholds : globals.root.Upholds (Contract.calling htable symbols)) (hkeyed : globals'.root.Keyed)
    (hfunctions : ∀ callee ∈ naming.callees, Agree
      (fun found found' => naming.links found.1.register found'.1.register ∧ found.2 = found'.2)
      (globals.root.functionNamed callee) (globals'.root.functionNamed callee)) :
    Agree (naming.Reproduces globals globals')
      ((function.lower table).eval globals) ((function'.lower table).eval globals') := by
  let start : World := ⟨[], globals, globals'⟩
  have hmatches : (Draft.body { globals }).Matches naming start [] (Draft.body { globals := globals' }) := {
    keyed := hupholds.keyed
    keyed' := hkeyed
    left := rfl
    right := rfl
    inUse := by simp [start]
    nodup := List.nodup_nil
    nodup' := List.nodup_nil
    subset := List.nil_subset _
    vars := by simp
    functions := hfunctions
    entry := .nil
    code := .nil }
  rw [function.eval_lower_eq hbound, function'.eval_lower_eq hbound', hdefinition]
  have hrun := Lowering.lockstepAt_lowerDefinition hscoped hlocals hcalled
    (TypeTable.length_denoteSignature hsignature) (htable.denoteSignature hsignature) hlinks hmatches
    hupholds
  refine hrun.map ?_
  rintro ⟨code, last⟩ ⟨code', last'⟩ ⟨w, ⟨-, constants, hleft, hright⟩, hend, hsame⟩
  refine ⟨⟨constants, hend.left.trans hleft, hend.right.trans hright⟩, ?_⟩
  intro symbols hlinked hconstants
  refine hsame.exists_rename_eq hend.nodup hend.nodup' fun symbol other hsymbols => ?_
  rcases hsymbols with hlink | ⟨constant, hfound, hfound'⟩
  · exact hlinked symbol other hlink
  · rw [← hend.left] at hfound
    rw [← hend.right] at hfound'
    exact hconstants constant symbol other hfound hfound'

end ThreeAddress
