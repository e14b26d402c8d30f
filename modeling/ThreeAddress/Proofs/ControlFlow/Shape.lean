import ThreeAddress.Proofs.ControlFlow.Parts

/-!
# The shape of lowered statements

Statements that are lowered at the end of an open block add structured code, and each way through it
returns exactly if the statements must return. Statements behind a return are lowered as well, and
what they add is dead.

## Main definitions

* `Body.Adds`: structured code was added to a body.
* `Lowering.ReturnsThrough`: the stack slot of the returned value, which no variable stands for.

## Main statements

* `Lowering.adding_lowerStmts`: lowering statements adds structured code.
-/

namespace ThreeAddress

variable {table : TypeTable} {setting : Setting table} {frame : Frame} {slot : Var}
  {names names' : List String} {must must' : Bool} {body middle last : Body} {result : Unit}

namespace Body

/-- Structured code was added to a body. -/
def Adds (slot exit : String) (must : Bool) (body last : Body) : Prop :=
  ∃ added, last.code = body.code ++ added ∧ Structured slot exit must added

theorem Adds.isOpen {slot exit : String} (h : body.Adds slot exit false last)
    (hopen : body.isClosed = false) : last.isClosed = false := by
  obtain ⟨added, hcode, hadded⟩ := h
  rw [isClosed_eq_closedAfter] at hopen ⊢
  rw [hcode, closedAfter_append, hopen, hadded.closedAfter_eq rfl]

theorem Adds.seq {slot exit : String} (h : body.Adds slot exit false middle)
    (h' : middle.Adds slot exit must last) : body.Adds slot exit must last := by
  obtain ⟨added, hcode, hadded⟩ := h
  obtain ⟨added', hcode', hadded'⟩ := h'
  exact ⟨added ++ added', by rw [hcode', hcode, List.append_assoc], hadded.seq hadded'⟩

theorem Adds.dead {slot exit : String} (h : body.Adds slot exit true middle)
    (hextends : middle.code <+: last.code) : body.Adds slot exit true last := by
  obtain ⟨added, hcode, hadded⟩ := h
  obtain ⟨more, hmore⟩ := hextends
  exact ⟨added ++ more, by rw [← hmore, hcode, List.append_assoc], hadded.dead more⟩

theorem Adds.refl (slot exit : String) (body : Body) : body.Adds slot exit false body :=
  ⟨[], (List.append_nil _).symm, .straight (by simp) (by simp)⟩

end Body

namespace Lowering

/-- A function yields a value through its stack slot, which no variable stands for. -/
structure ReturnsThrough (setting : Setting table) (frame : Frame) (slot : Var) : Prop where
  kept : slot.register ∈ setting.kept
  returnSlot : frame.returnSlot = some slot

/-- Plain code is structured, since only a return stores to the stack slot of the returned value. -/
theorem Fit.adds_plain (h : Fit setting frame names body)
    (hreturns : ReturnsThrough setting frame slot) (hadvances : body.Advances setting names' last)
    {added : List Instr} (hcode : last.code = body.code ++ added)
    (hplain : ∀ instruction ∈ added, instruction.isPlain) :
    body.Adds slot.register frame.exit false last := by
  obtain ⟨added', hcode', hsound⟩ := hadvances.code
  obtain rfl := List.append_cancel_left (hcode.symm.trans hcode')
  refine ⟨added, hcode, .straight hplain fun value hmem => ?_⟩
  exact ((hsound _ hmem).types h.checked).stores rfl hreturns.kept

theorem Fit.adds_straight (h : Fit setting frame names body)
    (hreturns : ReturnsThrough setting frame slot) (hadvances : body.Advances setting names' last)
    (hsteps : body.Steps (.straight True) last)
    (hopen : body.isClosed = false) : body.Adds slot.register frame.exit false last := by
  obtain ⟨-, added, hcode, hplain⟩ := hsteps.exists_plain hopen
  exact h.adds_plain hreturns hadvances hcode hplain

theorem adds_declare {name : String} {ty : Option String} {expression : Expr}
    (h : (declare frame name ty expression).eval body = .ok (result, last))
    (hreturns : ReturnsThrough setting frame slot) (hfit : Fit setting frame names body)
    (hscoped : expression.isScoped names) (hopen : body.isClosed = false) :
    body.Adds slot.register frame.exit false last := by
  obtain ⟨hadvances, -⟩ := advances_declare h hfit.sound hfit.frame.table_eq (fun _ => hscoped)
    hfit.frame.not_mem_spared
  obtain ⟨added, hcode, hplain⟩ := exists_plain_declare h hfit hopen
  exact hfit.adds_plain hreturns hadvances hcode hplain

theorem adds_returnFrom {value : Option Expr}
    (h : (returnFrom frame value).eval body = .ok (result, last))
    (hreturns : ReturnsThrough setting frame slot) (hfit : Fit setting frame names body)
    (hscoped : value.all (Expr.isScoped names)) (hopen : body.isClosed = false) :
    body.Adds slot.register frame.exit true last := by
  cases value with
  | none => simp [returnFrom, hreturns.returnSlot, Except.bind] at h
  | some value =>
    simp only [returnFrom, hreturns.returnSlot, Pass.eval_bind_eq_ok_iff,
      eval_expectType_eq_ok_iff] at h
    obtain ⟨source, lowered, hlower, _, _, ⟨-, rfl⟩, _, stored, hstore, hjump⟩ := h
    obtain ⟨hextends, -, -⟩ := extends_lowerExpr hlower hfit.ready (Or.inl trivial)
    obtain ⟨⟨hadvances, -⟩, -⟩ := delivers_expression hfit.frame.table_eq (fun _ => hscoped)
      hfit.frame.not_mem_spared (by simpa using hfit.frame.known slot hreturns.returnSlot) hlower hfit.sound
    have hlowered := hfit.adds_straight hreturns hadvances hextends.steps hopen
    obtain rfl := eq_append_of_eval_emit hstore (hlowered.isOpen hopen) rfl
    obtain rfl := eq_append_of_eval_emit hjump (Body.isClosed_append _ _) rfl
    exact hlowered.seq ⟨_, by simp [Var.operand], .leave source⟩

theorem adds_testCondition {condition : Expr} {operand : Operand}
    (h : (testCondition frame condition).eval body = .ok (operand, last))
    (hreturns : ReturnsThrough setting frame slot) (hfit : Fit setting frame names body)
    (hscoped : condition.isScoped names) (hopen : body.isClosed = false) :
    body.Adds slot.register frame.exit false last := by
  obtain ⟨⟨hadvances, -⟩, -⟩ :=
    advances_testCondition h hfit.sound hfit.frame.table_eq (fun _ => hscoped)
      hfit.frame.not_mem_spared
  exact hfit.adds_straight hreturns hadvances (hfit.testCondition h hscoped).2 hopen

/-- A pass that adds structured code. -/
def Adding (setting : Setting table) (frame : Frame) (slot : Var) (names : List String)
    (must : Bool) (pass : Lowering Unit) : Prop :=
  ∀ ⦃body last result⦄, pass.eval body = .ok (result, last) → Fit setting frame names body →
    body.isClosed = false → body.Adds slot.register frame.exit must last

theorem adding_ite {condition : Expr} {positive negative : List Stmt}
    (hreturns : ReturnsThrough setting frame slot)
    (hscoped : condition.isScoped names) (hscopedTrue : Block.isScoped names positive)
    (hpositive : Adding setting frame slot names must (lowerStmts frame positive))
    (hnegative : Adding setting frame slot (names ++ Block.declares positive) must'
      (lowerStmts frame negative)) :
    Adding setting frame slot names (must && must')
      (lowerStmt frame (.ite condition positive negative)) := by
  intro body last result h hfit hopen
  obtain ⟨arms, hfitTrue, hfitFalse⟩ := exists_arms h hfit hscoped hscopedTrue hopen
  have htested := adds_testCondition arms.tests hreturns hfit hscoped hopen
  have hpositive := hpositive arms.runs hfitTrue arms.isOpen
  have hnegative := hnegative arms.runs' hfitFalse arms.isOpen'
  have hdone : must = false → arms.doneTrue.isClosed = false := by
    rintro rfl
    exact hpositive.isOpen arms.isOpen
  have hdone' : must' = false → arms.doneFalse.isClosed = false := by
    rintro rfl
    exact hnegative.isOpen arms.isOpen'
  obtain ⟨arm, harm, hpositive⟩ := hpositive
  obtain ⟨arm', harm', hnegative⟩ := hnegative
  refine htested.seq ⟨_, ?_, .ite arms.operand arms.onTrue arms.onFalse arms.after hpositive
    (arms.leaves.mono hdone) hnegative (arms.leaves'.mono hdone') (arms.joins.mono ?_)⟩
  · simp [arms.code_last, harm', arms.code_inFalse, harm, arms.code_inTrue]
  · cases must <;> cases must' <;> simp_all

theorem adding_loop {condition : Expr} {statements : List Stmt}
    (hreturns : ReturnsThrough setting frame slot) (hscoped : condition.isScoped names)
    (hstatements : Adding setting frame slot names must (lowerStmts frame statements)) :
    Adding setting frame slot names false (lowerStmt frame (.loop condition statements)) := by
  intro body last result h hfit hopen
  obtain ⟨turns, hfitTest, hfitLoop⟩ := exists_turns h hfit hscoped hopen
  obtain ⟨code, hcode, htested⟩ :=
    adds_testCondition turns.tests hreturns hfitTest hscoped turns.isOpen
  have hstatements := hstatements turns.runs hfitLoop turns.isOpen'
  have hdone : must = false → turns.doneLoop.isClosed = false := by
    rintro rfl
    exact hstatements.isOpen turns.isOpen'
  obtain ⟨arm, harm, hstatements⟩ := hstatements
  refine ⟨_, ?_, .loop turns.operand turns.test turns.start turns.after htested hstatements
    (turns.repeats.mono hdone)⟩
  simp [turns.code_last, harm, turns.code_inLoop, hcode, turns.code_inTest]

mutual

/-- Lowering a statement adds structured code. -/
theorem adding_lowerStmt (hreturns : ReturnsThrough setting frame slot) : ∀ (statement : Stmt)
    {names : List String}, statement.isScoped names →
      Adding setting frame slot names statement.mustReturn (lowerStmt frame statement)
  | .bind name ty value, names, hscoped => by
    intro body last result h hfit hopen
    rw [lowerStmt] at h
    rw [Stmt.isScoped] at hscoped
    exact adds_declare h hreturns hfit hscoped hopen
  | .assign target value, names, hscoped => by
    intro body last result h hfit hopen
    rw [lowerStmt] at h
    rw [Stmt.isScoped, Bool.and_eq_true] at hscoped
    obtain ⟨hadvances, -⟩ := advances_assign h hfit.sound hfit.frame.table_eq
      (fun _ => hscoped.1) (fun _ => hscoped.2) hfit.frame.not_mem_spared hfit.frame.not_mem_spared
    exact hfit.adds_straight hreturns hadvances
      (extends_assign h hfit.ready (Or.inl trivial)).steps hopen
  | .eval expression, names, hscoped => by
    intro body last result h hfit hopen
    rw [lowerStmt] at h
    rw [Stmt.isScoped] at hscoped
    obtain ⟨hadvances, -⟩ := advances_evaluate h hfit.sound hfit.frame.table_eq (fun _ => hscoped)
      hfit.frame.not_mem_spared
    exact hfit.adds_straight hreturns hadvances
      (extends_evaluate h hfit.ready (Or.inl trivial)).steps hopen
  | .ret value, names, hscoped => by
    intro body last result h hfit hopen
    rw [lowerStmt] at h
    rw [Stmt.isScoped] at hscoped
    exact adds_returnFrom h hreturns hfit hscoped hopen
  | .directive text, names, _ => by
    intro body last result h _ _
    rw [lowerStmt, Pass.eval_report_eq_ok_iff] at h
    subst h
    exact .refl _ _ _
  | .ite condition positive negative, names, hscoped => by
    simp only [Stmt.isScoped, Bool.and_eq_true, and_assoc] at hscoped
    rw [Stmt.mustReturn]
    exact adding_ite hreturns hscoped.1 hscoped.2.1 (adding_lowerStmts hreturns positive hscoped.2.1)
      (adding_lowerStmts hreturns negative hscoped.2.2)
  | .loop condition statements, names, hscoped => by
    simp only [Stmt.isScoped, Bool.and_eq_true] at hscoped
    exact adding_loop hreturns hscoped.1 (adding_lowerStmts hreturns statements hscoped.2)

/-- Lowering statements adds structured code. -/
theorem adding_lowerStmts (hreturns : ReturnsThrough setting frame slot) : ∀ (statements : List Stmt)
    {names : List String}, Block.isScoped names statements →
      Adding setting frame slot names (Block.mustReturn statements) (lowerStmts frame statements)
  | [], names, _ => by
    intro body last result h _ _
    rw [lowerStmts] at h
    obtain ⟨-, rfl⟩ := Pass.eval_pure_eq_ok_iff.mp h
    exact .refl _ _ _
  | statement :: rest, names, hscoped => by
    intro body last result h hfit hopen
    rw [Block.isScoped, Bool.and_eq_true] at hscoped
    simp only [lowerStmts, Pass.eval_bind_eq_ok_iff] at h
    obtain ⟨_, middle, hfirst, hrest⟩ := h
    have hadds := adding_lowerStmt hreturns statement hscoped.1 hfirst hfit hopen
    obtain ⟨hfit, -⟩ := hfit.run (proceeding_lowerStmt frame statement fun _ => hscoped.1)
      (flowing_lowerStmt frame statement (Or.inl trivial)) hfirst
    rw [Block.mustReturn]
    cases hmust : statement.mustReturn with
    | false =>
      rw [hmust] at hadds
      rw [Bool.false_or]
      exact hadds.seq (adding_lowerStmts hreturns rest hscoped.2 hrest hfit (hadds.isOpen hopen))
    | true =>
      rw [hmust] at hadds
      exact hadds.dead (hfit.lowerStmts hscoped.2 hrest).2.code

end

end Lowering

end ThreeAddress
