import ThreeAddress.Proofs.Emission.Stmt
import ThreeAddress.Proofs.Typing.Mentions
import ThreeAddress.Proofs.Typing.Denotation

/-!
# Statements keep to a setting

Statements take a sound body to a sound body, and every instruction that they add is sound. Only a
return writes to a register that is kept. What statements mention without declaring it is known.

## Main definitions

* `Setting.release`: a setting in which no register is kept.
* `Body.Proceeds`: what statements do to a sound body.

## Main statements

* `Lowering.advances_declare`, `Lowering.advances_assign`, `Lowering.advances_evaluate`: the
  statements that write to no register that is kept.
* `Lowering.proceeding_lowerStmts`: lowering statements.
-/

namespace ThreeAddress

variable {table : TypeTable}

/-- The setting in which every register may be written to. -/
def Setting.release (setting : Setting table) : Setting table := { setting with kept := [] }

variable {setting : Setting table} {names : List String} {body middle last : Body} {frame : Frame}

theorem Body.Sound.release (h : body.Sound setting names) : body.Sound setting.release names where
  keyed := h.keyed
  stage := h.stage
  kept := by simp [Setting.release]
  binds := ⟨h.binds.vars, h.binds.functions⟩
  slots hchecked name hmem := by
    obtain ⟨var, hfound, hentry, -⟩ := h.slots hchecked name hmem
    exact ⟨var, hfound, hentry, fun _ => by simp [Setting.release]⟩

theorem Value.Sound.release {value : Value} (h : value.Sound setting body) :
    value.Sound setting.release body :=
  ⟨h.known, h.produces⟩

theorem Body.Advances.release (h : body.Advances setting names last) :
    body.Advances setting.release names last := by
  obtain ⟨added, hcode, hadded⟩ := h.code
  refine ⟨h.sound.release, h.entry, added, hcode, fun instruction hmem => ?_⟩
  obtain ⟨htypes, hcalls, hstores, hbases⟩ := hadded instruction hmem
  refine ⟨fun hchecked => ?_, hcalls, hstores, hbases⟩
  have htypes := htypes hchecked
  exact ⟨htypes.uses, htypes.address, htypes.indices,
    fun heq => ⟨(htypes.loads heq).1, by simp [Setting.release]⟩, by simp [Setting.release],
    htypes.slot⟩

/-- What statements do to a sound body. -/
structure Body.Proceeds (setting : Setting table) (names : List String) (body last : Body) :
    Prop where
  advances : body.Advances setting.release names last
  sound : last.Sound setting names

theorem Body.Advances.proceeds (h : body.Advances setting names last) :
    body.Proceeds setting names last :=
  ⟨h.release, h.sound⟩

theorem Body.Proceeds.trans {names' : List String} (h : body.Proceeds setting names' middle)
    (h' : middle.Proceeds setting names last) : body.Proceeds setting names last :=
  ⟨h.advances.trans h'.advances, h'.sound⟩

/-- A function whose returned value keeps to a setting in which all variables may be read. -/
structure Frame.Sound (setting : Setting table) (body : Body) (frame : Frame) : Prop where
  table_eq : frame.table = table
  spared : setting.spared = []
  known : ∀ slot ∈ frame.returnSlot, setting.value slot.ty
  reserved : ∀ slot ∈ frame.returnSlot, .alloca slot.register slot.ty ∈ body.entry

theorem Frame.Sound.mono (h : frame.Sound setting body) (hentry : body.entry <+: last.entry) :
    frame.Sound setting last :=
  ⟨h.table_eq, h.spared, h.known, fun slot hslot => hentry.subset (h.reserved slot hslot)⟩

theorem Frame.Sound.not_mem_spared (h : frame.Sound setting body) {reads : List String} :
    ∀ name ∈ reads, name ∉ setting.spared := by
  simp [h.spared]

theorem Body.Proceeds.soundFrame (h : body.Proceeds setting names last)
    (hframe : frame.Sound setting body) : frame.Sound setting last :=
  hframe.mono h.advances.entry

theorem Frame.Sound.place (h : frame.Sound setting body) {slot : Var}
    (hslot : slot ∈ frame.returnSlot) :
    slot.place.Sound setting.release body :=
  ⟨h.known slot hslot, fun _ => ⟨slot.register, rfl, by simp [Setting.release],
    Or.inl (h.reserved slot hslot)⟩⟩

theorem TypeTable.Denotes.isConcrete {text : List Char} {ty : Ty} (h : table.Denotes text ty) :
    ty.isConcrete := by
  cases h with
  | name _ hname => cases hname <;> rfl
  | ref => rfl
  | array => rfl

theorem TypeTable.Denotes.isObscure {text : List Char} {ty : Ty} (h : table.Denotes text ty) :
    ty.isObscure = false := by
  cases h with
  | name _ hname => cases hname <;> rfl
  | ref => rfl
  | @array _ _ _ extent _ hmember =>
    cases extent with
    | sized length => simp [Ty.isObscure, hmember.isConcrete]
    | unsized => rfl

namespace Lowering

-- ════════════════════════
-- Simple statements
-- ════════════════════════

theorem subset_of_isScoped {expression : Expr}
    (h : setting.checked → expression.isScoped names) (hchecked : setting.checked) :
    expression.mentions ⊆ names :=
  Expr.isScoped_iff.mp (h hchecked)

/-- The type of a text is built from integers, success or error values and structs. -/
theorem value_of_denoteChars {text : List Char} {ty : Ty} (h : table.denoteChars text = .ok ty) :
    setting.value ty := by
  rw [TypeTable.denoteChars_eq_ok_iff] at h
  induction h with
  | name _ hname =>
    cases hname with
    | int => exact setting.int _
    | result => exact setting.result
    | struct _ _ hfound => exact setting.struct (List.mem_of_find?_eq_some hfound)
  | ref _ _ ih => exact setting.ref ih
  | array _ hmember ih => exact setting.array _ hmember.isObscure ih

/-- Lowering an expression of a statement. -/
theorem delivers_expression {expression : Expr} {expected : Option Ty} {value : Value}
    (htable : frame.table = table) (hscoped : setting.checked → expression.isScoped names)
    (hreads : ∀ name ∈ expression.reads, name ∉ setting.spared)
    (hexpected : ∀ ty ∈ expected, setting.value ty)
    (h : (lowerExpr frame expression expected).eval body = .ok (value, last))
    (hsound : body.Sound setting names) :
    (body.Advances setting names last ∧ value.Sound setting last) ∧
      ∀ stray ∈ expression.strays names, setting.known stray := by
  have hmentions := subset_of_isScoped hscoped
  exact ⟨delivers_lowerExpr htable expression hmentions hreads _ hexpected h hsound,
    (names_lowerExpr htable expression hmentions hreads hexpected
      ⟨body, value, last, hsound, h⟩).known_of_mem_strays⟩

theorem value_of_mapM_denote {text : Option String} {ty : Option Ty}
    (h : text.mapM table.denote = .ok ty) : ∀ found ∈ ty, setting.value found := by
  intro found hfound
  cases text with
  | none =>
    cases h
    cases hfound
  | some text =>
    cases htext : table.denote text with
    | error diagnostic =>
      rw [Option.mapM_some, htext] at h
      cases h
    | ok other =>
      rw [Option.mapM_some, htext] at h
      cases h
      cases hfound
      exact value_of_denoteChars htext

theorem advances_declare {name : String} {ty : Option String} {expression : Expr} {result : Unit}
    (h : (declare frame name ty expression).eval body = .ok (result, last))
    (hsound : body.Sound setting names) (htable : frame.table = table)
    (hscoped : setting.checked → expression.isScoped names)
    (hreads : ∀ name ∈ expression.reads, name ∉ setting.spared) :
    body.Advances setting (names ++ [name]) last ∧
      ∀ stray ∈ expression.strays names, setting.known stray := by
  obtain ⟨declared, value, lowered, hdenote, hlower, -, -, hstore⟩ := eval_declare h
  have hdeclared : ∀ found ∈ declared, setting.value found :=
    value_of_mapM_denote (by rwa [htable] at hdenote)
  obtain ⟨⟨hlowered, hvalue⟩, hstrays⟩ :=
    delivers_expression htable hscoped hreads hdeclared hlower hsound
  have hty : setting.value (declared.getD value.ty) := by
    cases declared with
    | none => exact hvalue.known
    | some found => exact hdeclared found rfl
  let slot := Var.make (lowered.scope.newRegister name) (declared.getD value.ty)
  have hbound := hlowered.sound.declare name hty
  have hdeclares : lowered.Advances setting (names ++ [name])
      ((lowered.rebind name (declared.getD value.ty)).reserve slot) := by
    refine .of_code_eq hbound ?_ (Body.code_reserve _ _)
    rw [Body.entry_reserve]
    exact List.prefix_append _ _
  refine ⟨hlowered.trans (hdeclares.trans (advances_emit hstore hbound ?_)), hstrays⟩
  have hslot : slot.place.Sound setting
      ((lowered.rebind name (declared.getD value.ty)).reserve slot) :=
    ⟨hty, fun _ => ⟨_, rfl, hlowered.sound.newRegister_not_mem_kept name, Or.inl (by
      simp [slot, Var.make, Var.place])⟩⟩
  exact .store (hdeclares.precedes.soundValue hvalue) hslot

theorem advances_assign {target value : Expr} {result : Unit}
    (h : (assign frame target value).eval body = .ok (result, last))
    (hsound : body.Sound setting names) (htable : frame.table = table)
    (htarget : setting.checked → target.isScoped names)
    (hvalue : setting.checked → value.isScoped names)
    (hreads : ∀ name ∈ target.reads, name ∉ setting.spared)
    (hreads' : ∀ name ∈ value.reads, name ∉ setting.spared) :
    body.Advances setting names last ∧
      ∀ stray ∈ target.strays names ++ value.strays names, setting.known stray := by
  simp only [assign, Pass.eval_bind_eq_ok_iff, eval_expectType_eq_ok_iff] at h
  obtain ⟨place, _, hplace, source, _, hlower, _, _, ⟨-, rfl⟩, hstore⟩ := h
  have hmentions := subset_of_isScoped htarget
  have hstrays := (names_lowerTarget htable hplace hsound hmentions hreads).known_of_mem_strays
  obtain ⟨hplaced, hplace⟩ := advances_lowerTarget htable hplace hsound hmentions hreads
  obtain ⟨⟨hlowered, hsource⟩, hstrays'⟩ := delivers_expression htable hvalue hreads'
    (by simpa using hplace.known) hlower hplaced.sound
  exact ⟨hplaced.trans (hlowered.trans (advances_emit hstore hlowered.sound
    (.store hsource (hlowered.precedes.soundPlace hplace)))),
    List.forall_mem_append.mpr ⟨hstrays, hstrays'⟩⟩

theorem advances_evaluate {expression : Expr} {result : Unit}
    (h : (evaluate frame expression).eval body = .ok (result, last))
    (hsound : body.Sound setting names) (htable : frame.table = table)
    (hscoped : setting.checked → expression.isScoped names)
    (hreads : ∀ name ∈ expression.reads, name ∉ setting.spared) :
    body.Advances setting names last ∧
      ∀ stray ∈ expression.strays names, setting.known stray := by
  unfold evaluate at h
  split at h
  · next callee arguments =>
    have hmentions : setting.checked → Expr.mentionsAll arguments ⊆ names := by
      simpa only [Expr.mentions] using subset_of_isScoped hscoped
    simp only [Expr.reads] at hreads
    simp only [Pass.eval_bind_eq_ok_iff, Pass.eval_pure_eq_ok_iff] at h
    obtain ⟨_, _, hcall, -, rfl⟩ := h
    obtain ⟨hcalled, hexamined⟩ := supplies_call hcall hsound
      (delivers_pending htable arguments hmentions hreads) (by simp)
    have hnames : setting.Names names (Expr.call callee arguments).mentions := by
      simpa only [Expr.mentions] using names_pending htable arguments hmentions hreads hexamined
    exact ⟨hcalled.advances, hnames.known_of_mem_strays⟩
  · simp only [Pass.eval_bind_eq_ok_iff, Pass.eval_pure_eq_ok_iff] at h
    obtain ⟨_, _, hlower, -, rfl⟩ := h
    obtain ⟨⟨hlowered, -⟩, hstrays⟩ :=
      delivers_expression htable hscoped hreads (by simp) hlower hsound
    exact ⟨hlowered, hstrays⟩

theorem proceeds_emit {instruction : Instr} {result : Unit}
    (h : (emit instruction).eval body = .ok (result, last)) (hsound : body.Sound setting names)
    (hinstruction : instruction.Sound setting.release body) : body.Proceeds setting names last :=
  ⟨advances_emit h hsound.release hinstruction, sound_emit h hsound⟩

theorem proceeds_returnFrom {value : Option Expr} {result : Unit}
    (h : (returnFrom frame value).eval body = .ok (result, last))
    (hsound : body.Sound setting names) (hframe : frame.Sound setting body)
    (hscoped : setting.checked → value.all (Expr.isScoped names)) :
    body.Proceeds setting names last ∧
      ∀ stray ∈ value.toList.flatMap (Expr.strays names), setting.known stray := by
  cases value with
  | none =>
    cases hslot : frame.returnSlot with
    | none =>
      simp only [returnFrom, hslot] at h
      exact ⟨proceeds_emit h hsound (.branch frame.exit), by simp⟩
    | some slot => simp [returnFrom, hslot, Except.bind] at h
  | some value =>
    cases hslot : frame.returnSlot with
    | none => simp [returnFrom, hslot, Except.bind] at h
    | some slot =>
      simp only [returnFrom, hslot, Pass.eval_bind_eq_ok_iff, eval_expectType_eq_ok_iff] at h
      obtain ⟨source, lowered, hlower, _, _, ⟨-, rfl⟩, _, stored, hstore, hjump⟩ := h
      obtain ⟨⟨hlowered, hsource⟩, hstrays⟩ := delivers_expression hframe.table_eq hscoped
        hframe.not_mem_spared (by simpa using hframe.known slot hslot) hlower hsound
      have hplace := (hlowered.proceeds.soundFrame hframe).place hslot
      have hstored := proceeds_emit hstore hlowered.sound (.store hsource.release hplace)
      exact ⟨hlowered.proceeds.trans (hstored.trans
        (proceeds_emit hjump hstored.sound (.branch frame.exit))), by simpa using hstrays⟩

-- ════════════════════════
-- Conditionals and loops
-- ════════════════════════

theorem proceeds_newLabel {base name : String} (h : (newLabel base).eval body = .ok (name, last))
    (hsound : body.Sound setting names) : body.Proceeds setting names last := by
  obtain ⟨rfl, rfl⟩ := eval_newLabel_eq_ok_iff.mp h
  have hlabelled : body.Advances setting names (body.mint base .label) :=
    .of_code_eq (hsound.label base) List.prefix_rfl rfl
  exact hlabelled.proceeds

theorem advances_testCondition {condition : Expr} {operand : Operand}
    (h : (testCondition frame condition).eval body = .ok (operand, last))
    (hsound : body.Sound setting names) (htable : frame.table = table)
    (hscoped : setting.checked → condition.isScoped names)
    (hreads : ∀ name ∈ condition.reads, name ∉ setting.spared) :
    (body.Advances setting names last ∧ (Value.mk operand .bool).Sound setting last) ∧
      ∀ stray ∈ condition.strays names, setting.known stray :=
  delivers_expression htable hscoped hreads (by simpa using setting.int _) (eval_testCondition h) hsound

theorem proceeds_fork {operand : Operand} {positive negative : String} {result : Unit}
    (h : (emit (.branchIf operand positive negative)).eval body = .ok (result, last))
    (hsound : body.Sound setting names) (hoperand : (Value.mk operand .bool).Sound setting body) :
    body.Proceeds setting names last := by
  refine proceeds_emit h hsound ⟨fun hchecked => ?_, by simp, by simp, by simp⟩
  refine ⟨?_, by simp [Instr.address?], by simp [Instr.indices], by simp, by simp, rfl⟩
  intro register spelling hmem
  simp only [Instr.typedUses, List.mem_singleton, Prod.mk.injEq] at hmem
  obtain ⟨heq, rfl⟩ := hmem
  exact hoperand.produces hchecked register heq.symm

theorem proceeds_joinArm {label after : Option String}
    (h : (joinArm label).eval body = .ok (after, last)) (hsound : body.Sound setting names) :
    body.Proceeds setting names last := by
  rcases eval_joinArm h with ⟨-, -, rfl⟩ | ⟨-, name, labelled, -, hlabel, hjump⟩
  · exact (Body.Advances.refl hsound).proceeds
  · have hlabelled : body.Proceeds setting names labelled := by
      rcases hlabel with ⟨-, rfl⟩ | ⟨-, hname⟩
      · exact (Body.Advances.refl hsound).proceeds
      · exact proceeds_newLabel hname hsound
    exact hlabelled.trans (proceeds_emit hjump hlabelled.sound (.branch name))

theorem proceeds_afterwards {after : Option String} {result : Unit}
    (h : (match after with
      | some label => emit (.label label)
      | none => pure () : Lowering Unit).eval body = .ok (result, last))
    (hsound : body.Sound setting names) : body.Proceeds setting names last := by
  cases after with
  | none =>
    obtain ⟨-, rfl⟩ := Pass.eval_pure_eq_ok_iff.mp h
    exact (Body.Advances.refl hsound).proceeds
  | some name => exact proceeds_emit h hsound (.label name)

/-- A pass that keeps to a setting, declares some names and knows some others. -/
def Proceeding (setting : Setting table) (frame : Frame) (names declared strays : List String)
    (pass : Lowering Unit) : Prop :=
  ∀ ⦃body last result⦄, pass.eval body = .ok (result, last) → body.Sound setting names →
    frame.Sound setting body →
      body.Proceeds setting (names ++ declared) last ∧ ∀ stray ∈ strays, setting.known stray

theorem proceeding_ite {condition : Expr} {positive negative : List Stmt}
    (hscoped : setting.checked → condition.isScoped names)
    (hpositive : Proceeding setting frame names (Block.declares positive)
      (Block.strays names positive) (lowerStmts frame positive))
    (hnegative : Proceeding setting frame (names ++ Block.declares positive)
      (Block.declares negative) (Block.strays (names ++ Block.declares positive) negative)
      (lowerStmts frame negative)) :
    Proceeding setting frame names (Block.declares positive ++ Block.declares negative)
      (condition.strays names ++ Block.strays names positive ++
        Block.strays (names ++ Block.declares positive) negative)
      (lowerStmt frame (.ite condition positive negative)) := by
  intro body last result h hsound hframe
  simp only [lowerStmt, Pass.eval_bind_eq_ok_iff] at h
  obtain ⟨operand, tested, htest, onTrue, labelled, honTrue, onFalse, prepared, honFalse, _, forked,
    hfork, _, inTrue, htrue, _, doneTrue, hruns, join, joined, hjoin, _, inFalse, hfalse, _, doneFalse,
    hruns', join', joined', hjoin', hend⟩ := h
  obtain ⟨⟨htested, hoperand⟩, hstrays⟩ :=
    advances_testCondition htest hsound hframe.table_eq hscoped hframe.not_mem_spared
  have hnewTrue := proceeds_newLabel honTrue htested.sound
  have hnewFalse := proceeds_newLabel honFalse hnewTrue.sound
  have hlabels := hnewTrue.trans hnewFalse
  have hforked := proceeds_fork hfork hlabels.sound
    (hlabels.advances.precedes.soundValue hoperand)
  have hinTrue := proceeds_emit htrue hforked.sound (.label onTrue)
  have htoTrue := htested.proceeds.trans (hlabels.trans (hforked.trans hinTrue))
  obtain ⟨hdoneTrue, hinPositive⟩ := hpositive hruns hinTrue.sound (htoTrue.soundFrame hframe)
  have hjoined := proceeds_joinArm hjoin hdoneTrue.sound
  have hinFalse := proceeds_emit hfalse hjoined.sound (.label onFalse)
  have htoFalse := htoTrue.trans (hdoneTrue.trans (hjoined.trans hinFalse))
  obtain ⟨hdoneFalse, hinNegative⟩ := hnegative hruns' hinFalse.sound (htoFalse.soundFrame hframe)
  have hjoined' := proceeds_joinArm hjoin' hdoneFalse.sound
  have hended := proceeds_afterwards hend hjoined'.sound
  rw [← List.append_assoc names]
  exact ⟨htoFalse.trans (hdoneFalse.trans (hjoined'.trans hended)), List.forall_mem_append.mpr
    ⟨List.forall_mem_append.mpr ⟨hstrays, hinPositive⟩, hinNegative⟩⟩

theorem proceeding_loop {condition : Expr} {statements : List Stmt}
    (hscoped : setting.checked → condition.isScoped names)
    (hstatements : Proceeding setting frame names (Block.declares statements)
      (Block.strays names statements) (lowerStmts frame statements)) :
    Proceeding setting frame names (Block.declares statements)
      (condition.strays names ++ Block.strays names statements)
      (lowerStmt frame (.loop condition statements)) := by
  intro body last result h hsound hframe
  simp only [lowerStmt, Pass.eval_bind_eq_ok_iff] at h
  obtain ⟨test, hasTest, hnewTest, start, hasStart, hnewStart, afterwards, labelled, hnewAfter, _,
    entered, henter, _, inTest, htest, operand, tested, hcondition, _, forked, hfork, _, inLoop, hloop,
    _, doneLoop, hruns, h⟩ := h
  have hnewTest := proceeds_newLabel hnewTest hsound
  have hnewStart := proceeds_newLabel hnewStart hnewTest.sound
  have hnewAfter := proceeds_newLabel hnewAfter hnewStart.sound
  have hentered := proceeds_emit henter hnewAfter.sound (.branch test)
  have hinTest := proceeds_emit htest hentered.sound (.label test)
  obtain ⟨⟨htested, hoperand⟩, hstrays⟩ :=
    advances_testCondition hcondition hinTest.sound hframe.table_eq hscoped hframe.not_mem_spared
  have hforked := proceeds_fork hfork htested.sound hoperand
  have hinLoop := proceeds_emit hloop hforked.sound (.label start)
  have htoLoop := hnewTest.trans (hnewStart.trans (hnewAfter.trans (hentered.trans (hinTest.trans
    (htested.proceeds.trans (hforked.trans hinLoop))))))
  obtain ⟨hdoneLoop, hinside⟩ := hstatements hruns hinLoop.sound (htoLoop.soundFrame hframe)
  obtain ⟨repeated, hrepeat, hend⟩ := eval_endLoop (Pass.eval_bind_eq_ok_iff.mpr h)
  have hrepeated : doneLoop.Proceeds setting (names ++ Block.declares statements) repeated := by
    rcases hrepeat with ⟨-, rfl⟩ | ⟨-, hjump⟩
    · exact (Body.Advances.refl hdoneLoop.sound).proceeds
    · exact proceeds_emit hjump hdoneLoop.sound (.branch test)
  exact ⟨htoLoop.trans (hdoneLoop.trans (hrepeated.trans
    (proceeds_emit hend hrepeated.sound (.label afterwards)))),
    List.forall_mem_append.mpr ⟨hstrays, hinside⟩⟩

mutual

/-- Lowering a statement keeps to a setting. -/
theorem proceeding_lowerStmt (frame : Frame) : ∀ (statement : Stmt) {names : List String},
    (setting.checked → statement.isScoped names) →
      Proceeding setting frame names statement.declares (statement.strays names)
        (lowerStmt frame statement)
  | .bind name ty value, names, hscoped => by
    intro body last result h hsound hframe
    rw [lowerStmt] at h
    rw [Stmt.isScoped] at hscoped
    obtain ⟨hadvances, hstrays⟩ :=
      advances_declare h hsound hframe.table_eq hscoped hframe.not_mem_spared
    exact ⟨hadvances.proceeds, by simpa only [Stmt.strays] using hstrays⟩
  | .assign target value, names, hscoped => by
    intro body last result h hsound hframe
    rw [lowerStmt] at h
    rw [Stmt.isScoped, Bool.and_eq_true] at hscoped
    obtain ⟨hadvances, hstrays⟩ := advances_assign h hsound hframe.table_eq
      (fun hchecked => (hscoped hchecked).1) (fun hchecked => (hscoped hchecked).2)
      hframe.not_mem_spared hframe.not_mem_spared
    rw [Stmt.declares, Stmt.strays, List.append_nil]
    exact ⟨hadvances.proceeds, hstrays⟩
  | .eval expression, names, hscoped => by
    intro body last result h hsound hframe
    rw [lowerStmt] at h
    rw [Stmt.isScoped] at hscoped
    obtain ⟨hadvances, hstrays⟩ :=
      advances_evaluate h hsound hframe.table_eq hscoped hframe.not_mem_spared
    rw [Stmt.declares, Stmt.strays, List.append_nil]
    exact ⟨hadvances.proceeds, hstrays⟩
  | .ret value, names, hscoped => by
    intro body last result h hsound hframe
    rw [lowerStmt] at h
    rw [Stmt.isScoped] at hscoped
    rw [Stmt.declares, Stmt.strays, List.append_nil]
    exact proceeds_returnFrom h hsound hframe hscoped
  | .directive text, names, _ => by
    intro body last result h hsound _
    rw [lowerStmt, Pass.eval_report_eq_ok_iff] at h
    subst h
    rw [Stmt.declares, Stmt.strays, List.append_nil]
    exact ⟨(Body.Advances.refl hsound).proceeds, by simp⟩
  | .ite condition positive negative, names, hscoped => by
    simp only [Stmt.isScoped, Bool.and_eq_true, and_assoc] at hscoped
    rw [Stmt.declares, Stmt.strays]
    exact proceeding_ite (fun hchecked => (hscoped hchecked).1)
      (proceeding_lowerStmts frame positive fun hchecked => (hscoped hchecked).2.1)
      (proceeding_lowerStmts frame negative fun hchecked => (hscoped hchecked).2.2)
  | .loop condition statements, names, hscoped => by
    simp only [Stmt.isScoped, Bool.and_eq_true] at hscoped
    rw [Stmt.declares, Stmt.strays]
    exact proceeding_loop (fun hchecked => (hscoped hchecked).1)
      (proceeding_lowerStmts frame statements fun hchecked => (hscoped hchecked).2)

/-- Lowering statements keeps to a setting. -/
theorem proceeding_lowerStmts (frame : Frame) : ∀ (statements : List Stmt) {names : List String},
    (setting.checked → Block.isScoped names statements) →
      Proceeding setting frame names (Block.declares statements) (Block.strays names statements)
        (lowerStmts frame statements)
  | [], names, _ => by
    intro body last result h hsound _
    rw [lowerStmts] at h
    obtain ⟨-, rfl⟩ := Pass.eval_pure_eq_ok_iff.mp h
    rw [Block.declares, Block.strays, List.append_nil]
    exact ⟨(Body.Advances.refl hsound).proceeds, by simp⟩
  | statement :: rest, names, hscoped => by
    intro body last result h hsound hframe
    rw [Block.isScoped, Bool.and_eq_true] at hscoped
    simp only [lowerStmts, Pass.eval_bind_eq_ok_iff] at h
    obtain ⟨_, middle, hfirst, hrest⟩ := h
    obtain ⟨hproceeds, hstrays⟩ := proceeding_lowerStmt frame statement
      (fun hchecked => (hscoped hchecked).1) hfirst hsound hframe
    obtain ⟨hproceeds', hstrays'⟩ := proceeding_lowerStmts frame rest
      (fun hchecked => (hscoped hchecked).2) hrest hproceeds.sound (hproceeds.soundFrame hframe)
    rw [Block.declares, Block.strays, ← List.append_assoc]
    exact ⟨hproceeds.trans hproceeds', List.forall_mem_append.mpr ⟨hstrays, hstrays'⟩⟩

end

end Lowering

end ThreeAddress
