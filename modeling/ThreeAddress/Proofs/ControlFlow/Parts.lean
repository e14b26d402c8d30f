import ThreeAddress.Proofs.ControlFlow.Structured
import ThreeAddress.Proofs.Emission.Growth
import ThreeAddress.Proofs.Tally.Record
import ThreeAddress.Proofs.Typing.Stmt

/-!
# The parts of lowered statements

A conditional or a loop that is lowered at the end of an open block consists of the code of its
condition and of its blocks, with labels and jumps in between. The passages between two parts reserve no
stack slot, and every name keeps its meaning there.

## Main definitions

* `Lowering.Fit`: a body that statements can be lowered on, where every variable is declared.
* `Lowering.Arms`, `Lowering.Turns`: the parts of a conditional, and of a loop.

## Main statements

* `Lowering.exists_arms`: a conditional has such parts, and its blocks are lowered on fit bodies.
* `Lowering.exists_turns`: so does a loop.
-/

namespace ThreeAddress

variable {table : TypeTable} {setting : Setting table} {frame : Frame}
  {names names' : List String} {must : Bool} {body middle last : Body} {result : Unit}

/-- What may be missing under a condition may be missing under a weaker one. -/
theorem Closing.mono {closed : Bool} {instruction : Instr} {code : List Instr}
    (h : Closing closed instruction code) (hle : must = false → closed = false) :
    Closing must instruction code := by
  refine h.imp_right (And.imp_left fun hclosed => ?_)
  cases must with
  | true => rfl
  | false => rw [hle rfl] at hclosed; cases hclosed

/-- Code without control flow is plain where a block is open. -/
theorem Body.Steps.exists_plain {unchecked : Prop} (h : Steps (.straight unchecked) body last)
    (hopen : body.isClosed = false) :
    last.isClosed = false ∧ ∃ added, last.code = body.code ++ added ∧
      ∀ instruction ∈ added, instruction.isPlain := by
  refine h.invariant (P := fun last => last.isClosed = false ∧ ∃ added,
    last.code = body.code ++ added ∧ ∀ instruction ∈ added, instruction.isPlain) ?_
    ⟨hopen, [], (List.append_nil _).symm, by simp⟩
  rintro middle last hstep ⟨hopen, added, hcode, hplain⟩
  cases hstep with
  | mint | rebind | addConstant => exact ⟨hopen, added, hcode, hplain⟩
  | reserve slot =>
    exact ⟨(isClosed_reserve ..).trans hopen, added, (code_reserve ..).trans hcode, hplain⟩
  | append instruction hplaced hemits _ _ =>
    rw [hopen] at hplaced
    have hadded : instruction.isPlain := by
      rcases hemits with hplain | ⟨name, rfl, -⟩
      · exact hplain
      · cases hplaced
    refine ⟨by rw [isClosed_append, Instr.endsBlock_of_isPlain hadded], added ++ [instruction],
      by rw [code_append, hcode, List.append_assoc], ?_⟩
    simpa [or_imp, forall_and] using ⟨hplain, hadded⟩

namespace Lowering

-- ════════════════════════
-- Bodies
-- ════════════════════════

/-- A body that statements can be lowered on. Every variable is declared. -/
structure Fit (setting : Setting table) (frame : Frame) (names : List String) (body : Body) :
    Prop where
  checked : setting.checked
  live : ¬IsDeadLabel frame.exit
  sound : body.Sound setting names
  frame : frame.Sound setting body
  ready : body.Ready True []

namespace Fit

theorem andThen (h : Fit setting frame names body)
    (hproceeds : body.Proceeds setting names' last) (hready : last.Ready True []) :
    Fit setting frame names' last where
  checked := h.checked
  live := h.live
  sound := hproceeds.sound
  frame := hproceeds.soundFrame h.frame
  ready := hready

theorem keeps (h : Fit setting frame names body) (hkeeps : body.Keeps last) :
    last.Ready True [] :=
  ⟨hkeeps.defined h.ready.inUse_of_defined, Or.inl trivial⟩

theorem newLabel (h : Fit setting frame names body) {base name : String}
    (hlabel : (Lowering.newLabel base).eval body = .ok (name, last)) :
    Fit setting frame names last :=
  h.andThen (proceeds_newLabel hlabel h.sound) (h.keeps (keeps_newLabel hlabel).1)

theorem emit (h : Fit setting frame names body) {instruction : Instr}
    (hemit : (Lowering.emit instruction).eval body = .ok (result, last))
    (hused : ∀ name, instruction.defined? = some name → body.scope.inUse name) :
    Fit setting frame names last where
  checked := h.checked
  live := h.live
  sound := sound_emit hemit h.sound
  frame := h.frame.mono (entry_emit hemit ▸ List.prefix_rfl)
  ready := h.keeps (keeps_emit hemit hused)

theorem setLabel (h : Fit setting frame names body) {name : String}
    (hlabel : (Lowering.emit (.label name)).eval body = .ok (result, last))
    (hused : body.scope.inUse name) : Fit setting frame names last :=
  h.emit hlabel (by rintro _ ⟨⟩; exact hused)

theorem run (h : Fit setting frame names body) {declared strays declared' : List String}
    {pass : Lowering Unit} (hproceeding : Proceeding setting frame names declared strays pass)
    (hflowing : Flowing True frame [] declared' pass)
    (hrun : pass.eval body = .ok (result, last)) :
    Fit setting frame (names ++ declared) last ∧ body.Grows last := by
  obtain ⟨hflows, hready⟩ := hflowing hrun h.ready ⟨h.live, fun _ _ => Or.inr trivial⟩
  exact ⟨h.andThen (hproceeding hrun h.sound h.frame).1 ⟨hready.inUse_of_defined, Or.inl trivial⟩,
    hflows.extended.steps.grows⟩

theorem lowerStmts (h : Fit setting frame names body) {statements : List Stmt}
    (hscoped : Block.isScoped names statements)
    (hrun : (Lowering.lowerStmts frame statements).eval body = .ok (result, last)) :
    Fit setting frame (names ++ Block.declares statements) last ∧ body.Grows last :=
  h.run (proceeding_lowerStmts frame statements fun _ => hscoped)
    (flowing_lowerStmts frame statements (Or.inl trivial)) hrun

theorem testCondition (h : Fit setting frame names body) {condition : Expr} {operand : Operand}
    (htest : (Lowering.testCondition frame condition).eval body = .ok (operand, last))
    (hscoped : condition.isScoped names) :
    Fit setting frame names last ∧ body.Steps (.straight True) last := by
  obtain ⟨⟨hadvances, -⟩, -⟩ :=
    advances_testCondition htest h.sound h.frame.table_eq (fun _ => hscoped) h.frame.not_mem_spared
  obtain ⟨hextends, hready, -⟩ := extends_testCondition htest h.ready (Or.inl trivial)
  exact ⟨h.andThen hadvances.proceeds hready, hextends.steps⟩

end Fit

/-- A declaration evaluates its value and stores it to a stack slot of its own. -/
theorem exists_plain_declare {name : String} {ty : Option String} {expression : Expr}
    (h : (declare frame name ty expression).eval body = .ok (result, last))
    (hfit : Fit setting frame names body) (hopen : body.isClosed = false) :
    ∃ added, last.code = body.code ++ added ∧
      ∀ instruction ∈ added, instruction.isPlain := by
  obtain ⟨_, value, lowered, -, hlower, -, -, hstore⟩ := eval_declare h
  obtain ⟨hlowered, -, -⟩ := extends_lowerExpr hlower hfit.ready (Or.inl trivial)
  obtain ⟨hopen, added, hcode, hplain⟩ := hlowered.steps.exists_plain hopen
  refine ⟨added ++ [.store value (.register (lowered.scope.newRegister name))], ?_, ?_⟩
  · rw [eq_append_of_eval_emit hstore (by simpa using hopen) rfl, Body.code_append,
      Body.code_reserve, Body.code_rebind, hcode, List.append_assoc]
  · exact List.forall_mem_append.mpr ⟨hplain, by simp [Instr.isPlain, Instr.startsBlock,
      Instr.endsBlock]⟩

-- ════════════════════════
-- Labels and jumps
-- ════════════════════════

/-- A label behind a terminator is set as it is. -/
theorem eq_append_label {name : String} (h : (emit (.label name)).eval body = .ok (result, last))
    (hclosed : body.isClosed) : last = body.append (.label name) := by
  rcases eval_emit_cases h with ⟨-, rfl⟩ | ⟨_, -, hopen, -⟩ | ⟨hstart, -, -⟩
  · rfl
  · simp [hclosed] at hopen
  · cases hstart

/-- A label that control runs into is branched to. -/
theorem closing_setLabel {name : String} (h : (emit (.label name)).eval body = .ok (result, last)) :
    ∃ jump, last.code = body.code ++ (jump ++ [.label name]) ∧
      Closing body.isClosed (.branch name) jump := by
  rcases eval_emit_cases h with ⟨hclosed, rfl⟩ | ⟨_, ⟨⟩, -, rfl⟩ | ⟨⟨⟩, -⟩
  · exact ⟨[], Body.code_append _ _, Or.inr ⟨hclosed.symm, rfl⟩⟩
  · exact ⟨[.branch name], by simp [Body.code_append], Or.inl rfl⟩

/-- The end of an arm. -/
theorem closing_joinArm {label after : Option String}
    (h : (joinArm label).eval body = .ok (after, last)) :
    last.isClosed ∧ (body.isClosed = false → after.isSome) ∧ ∃ jump,
      last.code = body.code ++ jump ∧
        ∀ name, (∀ other ∈ after, other = name) → Closing body.isClosed (.branch name) jump := by
  rcases eval_joinArm h with ⟨hclosed, rfl, rfl⟩ | ⟨hbody, name, labelled, rfl, hlabel, hjump⟩
  · exact ⟨hclosed, by simp [hclosed], [], (List.append_nil _).symm, fun _ _ => Or.inr ⟨hclosed, rfl⟩⟩
  · have hcode : labelled.code = body.code := by
      rcases hlabel with ⟨-, rfl⟩ | ⟨-, hnew⟩
      · rfl
      · exact (keeps_newLabel hnew).2.2
    have hlabelled : labelled.isClosed = false := by rwa [Body.isClosed, hcode]
    obtain rfl := eq_append_of_eval_emit hjump hlabelled rfl
    refine ⟨Body.isClosed_append _ _, fun _ => rfl, [.branch name], ?_, fun other hother => ?_⟩
    · rw [Body.code_append, hcode]
    · rw [hother name rfl]
      exact Or.inl rfl

/-- The label behind a conditional is set if some arm comes to its end. -/
theorem closing_afterwards {after : Option String} {name : String}
    (h : (match after with
      | some label => emit (.label label)
      | none => pure () : Lowering Unit).eval body = .ok (result, last)) (hclosed : body.isClosed)
    (hneeds : must = false → after.isSome) (hname : ∀ other ∈ after, other = name) :
    ∃ join, last.code = body.code ++ join ∧ Closing must (.label name) join := by
  cases after with
  | none =>
    obtain ⟨-, rfl⟩ := Pass.eval_pure_eq_ok_iff.mp h
    have hmust : must = true := by simpa using hneeds
    exact ⟨[], (List.append_nil _).symm, Or.inr ⟨hmust, rfl⟩⟩
  | some label =>
    obtain rfl := hname label rfl
    refine ⟨[.label label], ?_, Or.inl rfl⟩
    rw [eq_append_label h hclosed, Body.code_append]

-- ════════════════════════
-- Conditionals
-- ════════════════════════

/-- A passage that reserves no stack slot. -/
abbrev Passage (body last : Body) : Prop := body.Records (fun _ => True) [] last

/-- A pass that meets nothing is such a passage. -/
theorem Books.passage {α : Type} {pass : Lowering α} {value : α}
    (h : Books (Record.ledger fun _ => True) [] pass)
    (hrun : pass.eval body = .ok (value, last)) : Passage body last :=
  h hrun

theorem passage_fork {operand : Operand} {onTrue onFalse : String}
    (h : (emit (.branchIf operand onTrue onFalse)).eval body = .ok (result, last)) :
    Passage body last :=
  Books.passage (books_emit rfl fun _ _ _ _ => trivial) h

theorem passage_label {name : String} (h : (emit (.label name)).eval body = .ok (result, last)) :
    Passage body last :=
  Books.passage (books_emit_silent rfl rfl) h

/-- The parts of a conditional. -/
structure Arms (frame : Frame) (condition : Expr) (positive negative : List Stmt)
    (body last : Body) where
  operand : Operand
  onTrue : String
  onFalse : String
  after : String
  tested : Body
  inTrue : Body
  doneTrue : Body
  inFalse : Body
  doneFalse : Body
  jump : List Instr
  jump' : List Instr
  join : List Instr
  starts : (lowerStmt frame (.ite condition positive negative)).Runs body
    (testCondition frame condition) body
  reaches : (lowerStmt frame (.ite condition positive negative)).Runs body
    (lowerStmts frame positive) inTrue
  reaches' : (lowerStmt frame (.ite condition positive negative)).Runs body
    (lowerStmts frame negative) inFalse
  tests : (testCondition frame condition).eval body = .ok (operand, tested)
  enters : Passage tested inTrue
  runs : (lowerStmts frame positive).eval inTrue = .ok ((), doneTrue)
  turns : Passage doneTrue inFalse
  runs' : (lowerStmts frame negative).eval inFalse = .ok ((), doneFalse)
  ends : Passage doneFalse last
  code_inTrue : inTrue.code =
    tested.code ++ [.branchIf operand onTrue onFalse, .label onTrue]
  code_inFalse : inFalse.code = doneTrue.code ++ (jump ++ [.label onFalse])
  code_last : last.code = doneFalse.code ++ (jump' ++ join)
  isOpen : inTrue.isClosed = false
  isOpen' : inFalse.isClosed = false
  leaves : Closing doneTrue.isClosed (.branch after) jump
  leaves' : Closing doneFalse.isClosed (.branch after) jump'
  joins : Closing (doneTrue.isClosed && doneFalse.isClosed) (.label after) join

/-- Control goes on behind a conditional if it comes to the end of some arm. -/
theorem Arms.isOpen_last {condition : Expr} {positive negative : List Stmt}
    (arms : Arms frame condition positive negative body last)
    (h : (arms.doneTrue.isClosed && arms.doneFalse.isClosed) = false) : last.isClosed = false := by
  have hjoin : arms.join = [.label arms.after] := arms.joins.resolve_right (by simp [h])
  have hends : last.EndsWith (.label arms.after) :=
    ⟨arms.doneFalse.code ++ arms.jump', by rw [arms.code_last, hjoin, List.append_assoc]⟩
  exact hends.isClosed

/-- A conditional at the end of an open block has such parts. -/
theorem exists_arms {condition : Expr} {positive negative : List Stmt}
    (h : (lowerStmt frame (.ite condition positive negative)).eval body = .ok (result, last))
    (hfit : Fit setting frame names body) (hscoped : condition.isScoped names)
    (hscopedTrue : Block.isScoped names positive) (hopen : body.isClosed = false) :
    ∃ arms : Arms frame condition positive negative body last,
      Fit setting frame names arms.inTrue ∧
      Fit setting frame (names ++ Block.declares positive) arms.inFalse := by
  obtain ⟨whole, hwhole⟩ : ∃ whole, whole = lowerStmt frame (.ite condition positive negative) :=
    ⟨_, rfl⟩
  have hself : whole.Runs body (lowerStmt frame (.ite condition positive negative)) body :=
    hwhole ▸ .self
  rw [lowerStmt] at hself
  simp only [lowerStmt, Pass.eval_bind_eq_ok_iff] at h
  obtain ⟨operand, tested, htest, onTrue, labelled, honTrue, onFalse, prepared, honFalse, _, forked,
    hfork, _, inTrue, htrue, _, doneTrue, hruns, join, joined, hjoin, _, inFalse, hfalse, _, doneFalse,
    hruns', join', joined', hjoin', hend⟩ := h
  have hreach :=
    ((((hself.next htest).next honTrue).next honFalse).next hfork).next htrue
  have hreach' := ((hreach.next hruns).next hjoin).next hfalse
  have hstart := hself.first
  rw [hwhole] at hstart hreach hreach'
  obtain ⟨hfit, hsteps⟩ := hfit.testCondition htest hscoped
  obtain ⟨-, husedTrue, hcodeTrue⟩ := keeps_newLabel honTrue
  obtain ⟨hprepared, husedFalse, hcodeFalse⟩ := keeps_newLabel honFalse
  have hfit := (hfit.newLabel honTrue).newLabel honFalse
  have hopen : prepared.isClosed = false := by
    rw [Body.isClosed, hcodeFalse, hcodeTrue]
    exact (hsteps.exists_plain hopen).1
  -- The first arm.
  have hforked := eq_append_of_eval_emit hfork hopen rfl
  have hfit := hfit.emit hfork (by rintro _ ⟨⟩)
  have hinTrue := eq_append_label htrue (isClosed_of_eval_emit hfork)
  have hkeepsFork := keeps_emit hfork (by rintro _ ⟨⟩)
  have hfitTrue := hfit.setLabel htrue (hkeepsFork.inUse (hprepared.inUse husedTrue))
  obtain ⟨hfit, hgrowsTrue⟩ := hfitTrue.lowerStmts hscopedTrue hruns
  obtain ⟨hclosed, hneeds, jump, hjump, hcloses⟩ := closing_joinArm hjoin
  -- The second arm.
  have hkeepsJoin := (keeps_joinArm hjoin).1
  have hfit := hfit.andThen (proceeds_joinArm hjoin hfit.sound) (hfit.keeps hkeepsJoin)
  have hinFalse := eq_append_label hfalse hclosed
  have hfitFalse := hfit.setLabel hfalse (hkeepsJoin.inUse (hgrowsTrue.inUse
    ((grows_emit htrue).inUse (hkeepsFork.inUse husedFalse))))
  obtain ⟨hclosed', hneeds', jump', hjump', hcloses'⟩ := closing_joinArm hjoin'
  -- The label behind both.
  have hpassed := (keeps_joinArm hjoin').2.1
  have hneeds : (doneTrue.isClosed && doneFalse.isClosed) = false → join'.isSome := by
    intro hboth
    rcases Bool.and_eq_false_iff.mp hboth with hfirst | hsecond
    · obtain ⟨name, hname⟩ := Option.isSome_iff_exists.mp (hneeds hfirst)
      exact Option.isSome_iff_exists.mpr ⟨name, hpassed name hname⟩
    · exact hneeds' hsecond
  have hname : ∀ other ∈ join', other = join'.getD "" := by
    rintro other hother
    rw [Option.mem_def.mp hother]
    rfl
  obtain ⟨tail, htail, hjoins⟩ := closing_afterwards hend hclosed' hneeds hname
  refine ⟨{
    operand, onTrue, onFalse, tested, inTrue, doneTrue, inFalse, doneFalse, jump, jump'
    after := join'.getD ""
    join := tail
    starts := hstart
    reaches := hreach.first
    reaches' := hreach'.first
    tests := htest
    enters := (((books_newLabel _).passage honTrue).trans ((books_newLabel _).passage honFalse)).trans
      ((passage_fork hfork).trans (passage_label htrue))
    runs := hruns
    turns := ((books_joinArm none).passage hjoin).trans (passage_label hfalse)
    runs' := hruns'
    ends := ((books_joinArm join).passage hjoin').trans ((books_afterwards join').passage hend)
    code_inTrue := by simp [hinTrue, hforked, hcodeFalse, hcodeTrue]
    code_inFalse := by simp [hinFalse, hjump]
    code_last := by simp [htail, hjump']
    isOpen := isClosed_of_eval_emit htrue
    isOpen' := isClosed_of_eval_emit hfalse
    leaves := hcloses _ fun other hother => hname other (hpassed other hother)
    leaves' := hcloses' _ hname
    joins := hjoins }, hfitTrue, hfitFalse⟩

-- ════════════════════════
-- Loops
-- ════════════════════════

/-- The parts of a loop. -/
structure Turns (frame : Frame) (condition : Expr) (statements : List Stmt) (body last : Body) where
  operand : Operand
  test : String
  start : String
  after : String
  inTest : Body
  tested : Body
  inLoop : Body
  doneLoop : Body
  jump : List Instr
  reaches : (lowerStmt frame (.loop condition statements)).Runs body
    (testCondition frame condition) inTest
  reaches' : (lowerStmt frame (.loop condition statements)).Runs body
    (lowerStmts frame statements) inLoop
  enters : Passage body inTest
  tests : (testCondition frame condition).eval inTest = .ok (operand, tested)
  starts : Passage tested inLoop
  runs : (lowerStmts frame statements).eval inLoop = .ok ((), doneLoop)
  ends : Passage doneLoop last
  code_inTest : inTest.code = body.code ++ [.branch test, .label test]
  code_inLoop : inLoop.code =
    tested.code ++ [.branchIf operand start after, .label start]
  code_last : last.code = doneLoop.code ++ (jump ++ [.label after])
  isOpen : inTest.isClosed = false
  isOpen' : inLoop.isClosed = false
  repeats : Closing doneLoop.isClosed (.branch test) jump

theorem Turns.isOpen_last {condition : Expr} {statements : List Stmt}
    (turns : Turns frame condition statements body last) : last.isClosed = false := by
  have hends : last.EndsWith (.label turns.after) :=
    ⟨turns.doneLoop.code ++ turns.jump, by rw [turns.code_last, List.append_assoc]⟩
  exact hends.isClosed

/-- A loop at the end of an open block has such parts. -/
theorem exists_turns {condition : Expr} {statements : List Stmt}
    (h : (lowerStmt frame (.loop condition statements)).eval body = .ok (result, last))
    (hfit : Fit setting frame names body) (hscoped : condition.isScoped names)
    (hopen : body.isClosed = false) :
    ∃ turns : Turns frame condition statements body last,
      Fit setting frame names turns.inTest ∧ Fit setting frame names turns.inLoop := by
  obtain ⟨whole, hwhole⟩ : ∃ whole, whole = lowerStmt frame (.loop condition statements) := ⟨_, rfl⟩
  have hself : whole.Runs body (lowerStmt frame (.loop condition statements)) body := hwhole ▸ .self
  rw [lowerStmt] at hself
  simp only [lowerStmt, Pass.eval_bind_eq_ok_iff] at h
  obtain ⟨test, hasTest, hnewTest, start, hasStart, hnewStart, after, labelled, hnewAfter, _,
    entered, henter, _, inTest, htest, operand, tested, hcondition, _, forked, hfork, _, inLoop, hloop,
    _, doneLoop, hruns, h⟩ := h
  have hreach :=
    ((((hself.next hnewTest).next hnewStart).next hnewAfter).next henter).next htest
  have hreach' := ((hreach.next hcondition).next hfork).next hloop
  rw [hwhole] at hreach hreach'
  have hlast := Pass.eval_bind_eq_ok_iff.mpr h
  obtain ⟨repeated, hrepeat, hend⟩ := eval_endLoop hlast
  obtain ⟨hkeepsTest, husedTest, hcodeTest⟩ := keeps_newLabel hnewTest
  obtain ⟨hkeepsStart, husedStart, hcodeStart⟩ := keeps_newLabel hnewStart
  obtain ⟨hkeepsAfter, husedAfter, hcodeAfter⟩ := keeps_newLabel hnewAfter
  have hfit := ((hfit.newLabel hnewTest).newLabel hnewStart).newLabel hnewAfter
  have hopen : labelled.isClosed = false := by
    rw [Body.isClosed, hcodeAfter, hcodeStart, hcodeTest]
    exact hopen
  -- The test.
  have hentered := eq_append_of_eval_emit henter hopen rfl
  have hfit := hfit.emit henter (by rintro _ ⟨⟩)
  have hinTest := eq_append_label htest (isClosed_of_eval_emit henter)
  have hgrowsEnter := grows_emit henter
  have hfitTest := hfit.setLabel htest
    (hgrowsEnter.inUse (hkeepsAfter.inUse (hkeepsStart.inUse husedTest)))
  have hopenTest : inTest.isClosed = false := isClosed_of_eval_emit htest
  obtain ⟨hfit, hsteps⟩ := hfitTest.testCondition hcondition hscoped
  -- The body.
  have hforked := eq_append_of_eval_emit hfork (hsteps.exists_plain hopenTest).1 rfl
  have hfit := hfit.emit hfork (by rintro _ ⟨⟩)
  have hinLoop := eq_append_label hloop (isClosed_of_eval_emit hfork)
  have hfitLoop := hfit.setLabel hloop ((grows_emit hfork).inUse (hsteps.grows.inUse
    ((grows_emit htest).inUse (hgrowsEnter.inUse (hkeepsAfter.inUse husedStart)))))
  obtain ⟨hclosed, jump, hjump, hcloses⟩ : repeated.isClosed ∧ ∃ jump,
      repeated.code = doneLoop.code ++ jump ∧
        Closing doneLoop.isClosed (.branch test) jump := by
    rcases hrepeat with ⟨hclosed, rfl⟩ | ⟨hopen, hjump⟩
    · exact ⟨hclosed, [], (List.append_nil _).symm, Or.inr ⟨hclosed, rfl⟩⟩
    · obtain rfl := eq_append_of_eval_emit hjump hopen rfl
      exact ⟨Body.isClosed_append _ _, [.branch test], Body.code_append _ _, Or.inl rfl⟩
  have hnewLabels := ((books_newLabel _).passage hnewTest).trans
    (((books_newLabel _).passage hnewStart).trans ((books_newLabel _).passage hnewAfter))
  refine ⟨{
    operand, test, start, after, inTest, tested, inLoop, doneLoop, jump
    reaches := hreach.first
    reaches' := hreach'.first
    enters := hnewLabels.trans
      (((books_emit_silent rfl rfl).passage henter).trans (passage_label htest))
    tests := hcondition
    starts := (passage_fork hfork).trans (passage_label hloop)
    runs := hruns
    ends := (books_endLoop test after).passage hlast
    code_inTest := by simp [hinTest, hentered, hcodeAfter, hcodeStart, hcodeTest]
    code_inLoop := by simp [hinLoop, hforked]
    code_last := by simp [eq_append_label hend hclosed, hjump]
    isOpen := hopenTest
    isOpen' := isClosed_of_eval_emit hloop
    repeats := hcloses }, hfitTest, hfitLoop⟩

end Lowering

end ThreeAddress
