import ThreeAddress.Lower.Statement
import ThreeAddress.Proofs.Emission.Expr

/-!
# Statements as steps

Every pass that lowers a statement consists of steps with the permit `Permit.flow`. Every label that
it branches to is set by the pass itself, except for the exit of the function.

## Main definitions

* `Body.Flows`: steps of this kind, up to labels that are still to be set.
* `Lowering.Flowing`: a pass of this kind, with the names that it declares.

## Main statements

* `Lowering.flowing_lowerStmts`: lowering statements in order is such a pass.
-/

namespace ThreeAddress

namespace Permit

/-- The permit for control flow without declarations. -/
def branching (unchecked : Prop) : Permit where
  unchecked := unchecked
  emits := (flow unchecked).emits
  binds := False

theorem branching_le_flow (unchecked : Prop) : Le (branching unchecked) (flow unchecked) where
  unchecked h := h
  emits _ h := h
  binds h := h.elim

end Permit

namespace Body

/-- The labels that the instructions so far branch to. -/
def leadsTo (body : Body) : List String :=
  body.code.flatMap Instr.leadsTo

@[simp] theorem leadsTo_reserve (body : Body) (slot : Var) :
    (body.reserve slot).leadsTo = body.leadsTo := by
  simp [leadsTo]

/-- The labels set so far. -/
def labels (body : Body) : List String :=
  body.code.filterMap Instr.label?

/-- Steps that introduce, of the names owed before, at most those in `spent`, and that branch only
to labels which are set and to those in `pending`. -/
structure Flows (unchecked : Prop) (spent pending : List String) (body last : Body) : Prop where
  extended : body.Extends (.flow unchecked) spent last
  leads : ∀ name ∈ last.leadsTo, name ∈ body.leadsTo ∨ name ∈ last.labels ∨ name ∈ pending

variable {unchecked : Prop} {names spent pending : List String} {body middle last : Body}

theorem Steps.labels_subset {permit : Permit} (h : Steps permit body last) :
    body.labels ⊆ last.labels := by
  intro name hmem
  obtain ⟨added, hadded⟩ := h.code_isPrefix
  rw [labels, ← hadded, List.filterMap_append]
  exact List.mem_append_left _ hmem

theorem Flows.refl (unchecked : Prop) (spent pending : List String) (body : Body) :
    Flows unchecked spent pending body body :=
  ⟨.refl _ _ _, fun _ hmem => Or.inl hmem⟩

theorem Flows.trans (h : Flows unchecked spent pending body middle)
    (h' : Flows unchecked spent pending middle last) : Flows unchecked spent pending body last := by
  refine ⟨h.extended.trans h'.extended (List.Subset.refl _), fun name hmem => ?_⟩
  rcases h'.leads name hmem with hmem | hset | hpending
  · rcases h.leads name hmem with hmem | hset | hpending
    · exact Or.inl hmem
    · exact Or.inr (Or.inl (h'.extended.steps.labels_subset hset))
    · exact Or.inr (Or.inr hpending)
  · exact Or.inr (Or.inl hset)
  · exact Or.inr (Or.inr hpending)

theorem Flows.weaken {spent' pending' : List String} (h : Flows unchecked spent pending body last)
    (hspent : spent ⊆ spent') (hpending : pending ⊆ pending') :
    Flows unchecked spent' pending' body last :=
  ⟨h.extended.weaken hspent, fun name hmem =>
    (h.leads name hmem).imp_right (Or.imp_right fun hmem => hpending hmem)⟩

theorem Flows.andThen {spent' pending' : List String} (h : Flows unchecked spent pending body middle)
    (h' : Flows unchecked spent' pending' middle last) (hspent : spent ⊆ spent')
    (hpending : pending ⊆ pending') : Flows unchecked spent' pending' body last :=
  (h.weaken hspent hpending).trans h'

/-- Labels that are set are not pending any more. -/
theorem Flows.settle {settled : List String}
    (h : Flows unchecked spent (settled ++ pending) body last) (hset : settled ⊆ last.labels) :
    Flows unchecked spent pending body last := by
  refine ⟨h.extended, fun name hmem => ?_⟩
  rcases h.leads name hmem with hmem | hmem | hmem
  · exact Or.inl hmem
  · exact Or.inr (Or.inl hmem)
  · rcases List.mem_append.mp hmem with hmem | hmem
    · exact Or.inr (Or.inl (hset hmem))
    · exact Or.inr (Or.inr hmem)

theorem Flows.of_mint {base : String} {ty : Ty}
    (h : Flows unchecked (body.scope.newRegister base :: spent) pending (body.mint base ty) last) :
    Flows unchecked spent pending body last :=
  ⟨h.extended.of_mint, h.leads⟩

/-- Code without control flow branches nowhere. -/
theorem Steps.leadsTo_eq (h : Steps (.straight unchecked) body last) :
    last.leadsTo = body.leadsTo := by
  refine h.relation (R := fun body last => last.leadsTo = body.leadsTo) (fun _ => rfl)
    (fun _ _ _ h h' => h'.trans h) ?_
  intro body last hstep
  cases hstep with
  | mint | rebind | addConstant => rfl
  | reserve slot _ => exact body.leadsTo_reserve slot
  | append instruction _ hemits _ _ =>
    have hleads : instruction.leadsTo = [] := by
      rcases hemits with hplain | ⟨name, rfl, _⟩
      · exact Instr.leadsTo_of_not_endsBlock (Instr.endsBlock_of_isPlain hplain)
      · rfl
    simp [leadsTo, hleads]

theorem Extends.flows (h : Extends (.straight unchecked) spent body last) :
    Flows unchecked spent [] body last :=
  ⟨h.mono (Permit.straight_le_flow unchecked), fun name hmem => by
    rw [h.steps.leadsTo_eq] at hmem
    exact Or.inl hmem⟩

end Body

namespace Lowering

variable {unchecked : Prop} {names : List String} {body middle last : Body} {result : Unit}

-- ════════════════════════
-- Labels and branches
-- ════════════════════════

theorem flows_emit {instruction : Instr}
    (h : (emit instruction).eval body = .ok (result, last)) (hready : body.Ready unchecked names)
    (hreturn : instruction.isReturn = false)
    (hlive : ∀ name, name ∈ instruction.leadsTo ∨ instruction = .label name → ¬IsDeadLabel name)
    (howed : ∀ name, instruction.defined? = some name → body.Owes name)
    (hoperands : ∀ operand ∈ instruction.operands, body.Readable unchecked operand) :
    body.Flows unchecked instruction.defined?.toList instruction.leadsTo last ∧
      last.Ready unchecked names := by
  have hextends : body.Extends (.branching unchecked) instruction.defined?.toList last := by
    refine extends_emit h hready.inUse_of_defined ⟨hreturn, fun name hmem => hlive name (Or.inl hmem)⟩
      ?_ howed (Body.reads_of_readable hoperands)
    rintro name rfl
    refine ⟨rfl, fun other hmem => ?_⟩
    obtain rfl : other = name := by simpa [Instr.leadsTo] using hmem
    exact hlive other (Or.inr rfl)
  refine ⟨⟨hextends.mono (Permit.branching_le_flow unchecked), fun name hmem => ?_⟩,
    hextends.steps.ready (fun hbinds => hbinds) hready⟩
  rcases eval_emit_cases h with ⟨_, rfl⟩ | ⟨target, rfl, _, rfl⟩ | ⟨_, _, rfl⟩
  · simp only [Body.leadsTo, Body.code_append, List.flatMap_append, List.mem_append] at hmem
    rcases hmem with hmem | hmem
    · exact Or.inl hmem
    · exact Or.inr (Or.inr (by simpa using hmem))
  · simp only [Body.leadsTo, Body.code_append, List.flatMap_append, List.mem_append] at hmem
    rcases hmem with (hmem | hmem) | hmem
    · exact Or.inl hmem
    · obtain rfl : name = target := by simpa [Instr.leadsTo] using hmem
      exact Or.inr (Or.inl (by simp [Body.labels, Instr.label?]))
    · simp [Instr.leadsTo] at hmem
  · simp only [Body.leadsTo, Body.code_append, List.flatMap_append, List.mem_append] at hmem
    rcases hmem with (hmem | hmem) | hmem
    · exact Or.inl hmem
    · simp [Instr.leadsTo] at hmem
    · exact Or.inr (Or.inr (by simpa using hmem))

theorem not_isDeadLabel_newRegister (scope : Scope) {base : String} {first : Char}
    {rest : List Char} (hbase : base.toList = first :: rest) (hfirst : first ≠ 'd') :
    ¬IsDeadLabel (scope.newRegister base) := by
  rintro ⟨suffix, hdead⟩
  obtain ⟨suffix', hregister⟩ := scope.exists_newRegister_eq base
  have htext := congrArg String.toList (hregister.symm.trans hdead)
  simp [hbase] at htext
  exact hfirst htext.1

/-- From `body` to `middle` a label was made, which the passes behind may set. -/
structure Labels (unchecked : Prop) (name : String) (body middle : Body) : Prop where
  extended : body.Extends (.straight unchecked) [] middle
  fresh : ¬body.scope.inUse name
  owes : middle.Owes name
  live : ¬IsDeadLabel name
  spend : ∀ {spent pending last}, middle.Flows unchecked (name :: spent) pending last →
    body.Flows unchecked spent pending last

theorem labels_newLabel {base name : String} {first : Char} {rest : List Char}
    (h : (newLabel base).eval body = .ok (name, middle)) (hready : body.Ready unchecked names)
    (hbase : base.toList = first :: rest) (hfirst : first ≠ 'd') :
    Labels unchecked name body middle ∧ middle.Ready unchecked names := by
  obtain ⟨rfl, rfl⟩ := eval_newLabel_eq_ok_iff.mp h
  have hmint : body.Extends (.straight unchecked) [] (body.mint base .label) :=
    Body.extends_mint base .label
  refine ⟨⟨hmint, body.scope.not_inUse_newRegister base, ?_, ?_, Body.Flows.of_mint⟩,
    Ready.andThen hready hmint⟩
  · exact Body.owes_newRegister hready.inUse_of_defined base .label
  · exact not_isDeadLabel_newRegister body.scope hbase hfirst

theorem flows_setLabel {name : String} (h : (emit (.label name)).eval body = .ok (result, last))
    (hready : body.Ready unchecked names) (howes : body.Owes name) (hlive : ¬IsDeadLabel name) :
    body.Flows unchecked [name] [] last ∧ last.Ready unchecked names ∧ name ∈ last.labels := by
  obtain ⟨hflows, hready⟩ := flows_emit h hready rfl (by
      rintro other (hmem | heq)
      · simp [Instr.leadsTo] at hmem
      · cases heq
        exact hlive)
    (by rintro _ ⟨⟩; exact howes) (by simp [Instr.operands])
  refine ⟨hflows, hready, ?_⟩
  rcases eval_emit_cases h with ⟨_, rfl⟩ | ⟨_, _, _, rfl⟩ | ⟨_, _, rfl⟩ <;>
    simp [Body.labels, Instr.label?]

theorem flows_jump {name : String} (h : (emit (.branch name)).eval body = .ok (result, last))
    (hready : body.Ready unchecked names) (hlive : ¬IsDeadLabel name) :
    body.Flows unchecked [] [name] last ∧ last.Ready unchecked names := by
  refine flows_emit h hready rfl ?_ (by rintro _ ⟨⟩) (by simp [Instr.operands])
  rintro other (hmem | hlabel)
  · obtain rfl : other = name := by simpa [Instr.leadsTo] using hmem
    exact hlive
  · cases hlabel

theorem flows_fork {condition : Operand} {positive negative : String}
    (h : (emit (.branchIf condition positive negative)).eval body = .ok (result, last))
    (hready : body.Ready unchecked names) (hcondition : body.Readable unchecked condition)
    (hpositive : ¬IsDeadLabel positive) (hnegative : ¬IsDeadLabel negative) :
    body.Flows unchecked [] [positive, negative] last ∧ last.Ready unchecked names := by
  refine flows_emit h hready rfl ?_ (by rintro _ ⟨⟩) (by simpa [Instr.operands] using hcondition)
  rintro other (hmem | hlabel)
  · rcases List.mem_pair.mp hmem with rfl | rfl
    · exact hpositive
    · exact hnegative
  · cases hlabel

-- ════════════════════════
-- Simple statements
-- ════════════════════════

/-- What is ready for declared names is ready for an expression that mentions only those. -/
theorem Ready.forExpr (hready : body.Ready unchecked names) {expression : Expr}
    (hscoped : unchecked ∨ expression.isScoped names) :
    body.Ready unchecked expression.mentions := by
  rcases hscoped with hunchecked | hscoped
  · exact ⟨hready.inUse_of_defined, Or.inl hunchecked⟩
  · exact hready.subset (Expr.isScoped_iff.mp hscoped)

theorem extends_lowerExpr {frame : Frame} {expression : Expr} {expected : Option Ty} {value : Value}
    (h : (lowerExpr frame expression expected).eval body = .ok (value, last))
    (hready : body.Ready unchecked names) (hscoped : unchecked ∨ expression.isScoped names) :
    body.Extends (.straight unchecked) [] last ∧ last.Ready unchecked names ∧
      last.Readable unchecked value.operand := by
  obtain ⟨hextends, hvalue⟩ := yields_lowerExpr frame expression expected (List.Subset.refl _) h
    (Ready.forExpr hready hscoped)
  exact ⟨hextends, Ready.andThen hready hextends, hvalue⟩

theorem extends_assign {frame : Frame} {target value : Expr}
    (h : (assign frame target value).eval body = .ok (result, last))
    (hready : body.Ready unchecked names)
    (hscoped : unchecked ∨ target.isScoped names ∧ value.isScoped names) :
    body.Extends (.straight unchecked) [] last := by
  simp only [assign, Pass.eval_bind_eq_ok_iff, eval_expectType_eq_ok_iff] at h
  obtain ⟨place, placed, hplace, source, lowered, hvalue, _, _, ⟨-, rfl⟩, hstore⟩ := h
  obtain ⟨hplaced, haddress⟩ := extends_lowerTarget hplace
    (Ready.forExpr hready (hscoped.imp_right And.left)) (List.Subset.refl _)
  obtain ⟨hlowered, hready, hsource⟩ := extends_lowerExpr hvalue (Ready.andThen hready hplaced)
    (hscoped.imp_right And.right)
  have haddress := hlowered.steps.readable haddress
  have hstored := extends_emit_effect hstore hready rfl rfl
    (by simp [Instr.operands, haddress, hsource])
  exact hplaced.andThen (hlowered.andThen hstored)

theorem extends_evaluate {frame : Frame} {expression : Expr}
    (h : (evaluate frame expression).eval body = .ok (result, last))
    (hready : body.Ready unchecked names) (hscoped : unchecked ∨ expression.isScoped names) :
    body.Extends (.straight unchecked) [] last := by
  unfold evaluate at h
  split at h
  · next callee arguments =>
    simp only [Pass.eval_bind_eq_ok_iff, Pass.eval_pure_eq_ok_iff] at h
    obtain ⟨_, _, hcall, -, rfl⟩ := h
    exact (fills_call (yields_pending frame arguments (List.Subset.refl _)) hcall
      (Ready.forExpr hready hscoped) (by simp [targets])).1
  · simp only [Pass.eval_bind_eq_ok_iff, Pass.eval_pure_eq_ok_iff] at h
    obtain ⟨_, _, hlower, -, rfl⟩ := h
    exact (extends_lowerExpr hlower hready hscoped).1

/-- A variable stands for its stack slot once that is reserved. -/
theorem Ready.declare (hready : body.Ready unchecked names) (name : String) (ty : Ty) :
    ((body.rebind name ty).reserve (Var.make (body.scope.newRegister name) ty)).Ready unchecked
      (names ++ [name]) := by
  have hrebind : body.Steps (.flow unchecked) (body.rebind name ty) :=
    .single (.rebind body name ty trivial)
  refine ⟨?_, ?_⟩
  · intro introduced hmem
    rcases Body.mem_defined_reserve.mp hmem with hmem | hname
    · exact hrebind.inUse (hready.inUse_of_defined introduced hmem)
    · cases hname
      exact Body.inUse_rebind.mpr (Or.inl rfl)
  · rcases hready.resolved with hunchecked | ⟨hkeyed, hnames⟩
    · exact Or.inl hunchecked
    · have hkept := hrebind.keyed hkeyed
      refine Or.inr ⟨⟨hkept.scope, hkept.root⟩, fun other hmem => ?_⟩
      by_cases heq : other = name
      · subst heq
        exact ⟨_, Scope.find?_insert_self _ _ _, by simp [Var.make]⟩
      · obtain ⟨var, hfound, hslot⟩ := hnames other (by simpa [heq] using hmem)
        refine ⟨var, (Scope.find?_insert_of_ne _ _ heq).trans hfound, ?_⟩
        rw [Body.slots_reserve]
        exact List.mem_append_left _ hslot

/-- A new variable: a register for its address, a stack slot, and the first value. -/
theorem flows_initialise {name : String} {ty : Ty} {value : Value}
    (h : (emit (.store value (.register (body.scope.newRegister name)))).eval
      ((body.rebind name ty).reserve (Var.make (body.scope.newRegister name) ty)) =
        .ok (result, last))
    (hready : body.Ready unchecked names) (hvalue : body.Readable unchecked value.operand) :
    body.Flows unchecked [] [] last ∧ last.Ready unchecked (names ++ [name]) := by
  have howes : (body.rebind name ty).Owes (body.scope.newRegister name) :=
    Body.owes_newRegister hready.inUse_of_defined name ty
  have hreserved : (body.rebind name ty).Extends (.straight unchecked)
      [body.scope.newRegister name]
      ((body.rebind name ty).reserve (Var.make (body.scope.newRegister name) ty)) :=
    Body.extends_reserve (Var.make (body.scope.newRegister name) ty) howes
  have hvalue : (body.rebind name ty).Readable unchecked value.operand := hvalue
  have hvalue := hreserved.steps.readable hvalue
  have hdeclared := Ready.declare hready name ty
  obtain ⟨hstored, hready⟩ := flows_emit h hdeclared rfl (by simp [Instr.leadsTo])
    (by rintro _ ⟨⟩) (by
      simp only [Instr.operands, List.mem_cons, List.not_mem_nil, or_false, forall_eq_or_imp,
        forall_eq]
      refine ⟨hvalue, fun register hregister => Or.inl (Or.inl ?_)⟩
      cases hregister
      simp [Var.make])
  have hall : (body.rebind name ty).Extends (.flow unchecked) [body.scope.newRegister name] last :=
    (hreserved.mono (Permit.straight_le_flow unchecked)).trans
      (hstored.extended.weaken (List.nil_subset _)) (List.Subset.refl _)
  have hleads := hstored.leads
  rw [Body.leadsTo_reserve] at hleads
  exact ⟨⟨hall.of_rebind trivial, hleads⟩, hready⟩

/-- The stages of a declaration. -/
theorem eval_declare {frame : Frame} {name : String} {ty : Option String} {expression : Expr}
    (h : (declare frame name ty expression).eval body = .ok (result, last)) :
    ∃ declared value lowered, ty.mapM frame.table.denote = .ok declared ∧
      (lowerExpr frame expression declared).eval body = .ok (value, lowered) ∧
      (∀ found ∈ declared, found.agrees value.ty) ∧ (declared.getD value.ty).isConcrete ∧
      (emit (.store value (.register (lowered.scope.newRegister name)))).eval
        ((lowered.rebind name (declared.getD value.ty)).reserve
          (Var.make (lowered.scope.newRegister name) (declared.getD value.ty))) =
        .ok (result, last) := by
  simp only [declare, Pass.eval_bind_eq_ok_iff, Pass.eval_ofExcept_eq_ok_iff] at h
  obtain ⟨declared, _, ⟨hdeclared, rfl⟩, value, lowered, hvalue, h⟩ := h
  refine ⟨declared, value, lowered, hdeclared, hvalue, ?_⟩
  cases declared with
  | none =>
    simp only [Pass.eval_bind_eq_ok_iff, eval_bindName_eq_ok_iff, eval_reserve_eq_ok_iff] at h
    obtain ⟨_, _, ⟨rfl, rfl⟩, _, _, ⟨hconcrete, rfl⟩, hstore⟩ := h
    exact ⟨by simp, hconcrete, hstore⟩
  | some found =>
    simp only [Pass.eval_bind_eq_ok_iff, eval_expectType_eq_ok_iff, eval_bindName_eq_ok_iff,
      eval_reserve_eq_ok_iff] at h
    obtain ⟨_, _, ⟨hagrees, rfl⟩, _, _, ⟨rfl, rfl⟩, _, _, ⟨hconcrete, rfl⟩, hstore⟩ := h
    exact ⟨by simpa using hagrees, hconcrete, hstore⟩

theorem flows_declare {frame : Frame} {name : String} {ty : Option String} {value : Expr}
    (h : (declare frame name ty value).eval body = .ok (result, last))
    (hready : body.Ready unchecked names) (hscoped : unchecked ∨ value.isScoped names) :
    body.Flows unchecked [] [] last ∧ last.Ready unchecked (names ++ [name]) := by
  obtain ⟨_, _, lowered, -, hvalue, -, -, hstore⟩ := eval_declare h
  obtain ⟨hlowered, hready, hsource⟩ := extends_lowerExpr hvalue hready hscoped
  obtain ⟨hstored, hready⟩ := flows_initialise hstore hready hsource
  exact ⟨hlowered.flows.trans hstored, hready⟩

/-- The exit of a function is no dead label, and the returned value has a stack slot. -/
structure Returns (unchecked : Prop) (frame : Frame) (body : Body) : Prop where
  live : ¬IsDeadLabel frame.exit
  reserved : ∀ slot ∈ frame.returnSlot, slot.register ∈ body.slots ∨ unchecked

theorem Returns.andThen {frame : Frame} {permit : Permit} (h : Returns unchecked frame body)
    (hsteps : body.Steps permit last) : Returns unchecked frame last :=
  ⟨h.live, fun slot hslot => (h.reserved slot hslot).imp_left fun hmem => hsteps.slots_subset hmem⟩

theorem flows_returnFrom {frame : Frame} {value : Option Expr}
    (h : (returnFrom frame value).eval body = .ok (result, last))
    (hready : body.Ready unchecked names) (hframe : Returns unchecked frame body)
    (hscoped : unchecked ∨ value.all (Expr.isScoped names)) :
    body.Flows unchecked [] [frame.exit] last ∧ last.Ready unchecked names := by
  cases value with
  | none =>
    cases hslot : frame.returnSlot with
    | none =>
      simp only [returnFrom, hslot] at h
      exact flows_jump h hready hframe.live
    | some slot => simp [returnFrom, hslot, Except.bind] at h
  | some value =>
    cases hslot : frame.returnSlot with
    | none => simp [returnFrom, hslot, Except.bind] at h
    | some slot =>
      simp only [returnFrom, hslot, Pass.eval_bind_eq_ok_iff, eval_expectType_eq_ok_iff] at h
      obtain ⟨source, lowered, hvalue, _, _, ⟨-, rfl⟩, _, stored, hstore, hjump⟩ := h
      obtain ⟨hlowered, hready, hsource⟩ := extends_lowerExpr hvalue hready hscoped
      have hreserved := (hframe.andThen hlowered.steps).reserved slot hslot
      have haddress : lowered.Readable unchecked slot.operand := by
        rintro register ⟨⟩
        exact hreserved.imp_left Or.inl
      have hstored := extends_emit_effect hstore hready rfl rfl
        (by simp [Instr.operands, haddress, hsource])
      obtain ⟨hjumped, hready⟩ := flows_jump hjump (Ready.andThen hready hstored) hframe.live
      exact ⟨(hlowered.andThen hstored).flows.andThen hjumped (by simp) (by simp), hready⟩

-- ════════════════════════
-- Conditionals and loops
-- ════════════════════════

theorem eval_testCondition {frame : Frame} {condition : Expr} {operand : Operand}
    (h : (testCondition frame condition).eval body = .ok (operand, last)) :
    (lowerExpr frame condition (some .bool)).eval body = .ok (⟨operand, .bool⟩, last) := by
  simp only [testCondition, Pass.eval_bind_eq_ok_iff, Pass.eval_require_eq_ok_iff,
    Pass.eval_pure_eq_ok_iff, decide_eq_true_eq] at h
  obtain ⟨⟨found, ty⟩, _, hlower, _, _, ⟨rfl, rfl⟩, rfl, rfl⟩ := h
  exact hlower

theorem extends_testCondition {frame : Frame} {condition : Expr} {operand : Operand}
    (h : (testCondition frame condition).eval body = .ok (operand, last))
    (hready : body.Ready unchecked names) (hscoped : unchecked ∨ condition.isScoped names) :
    body.Extends (.straight unchecked) [] last ∧ last.Ready unchecked names ∧
      last.Readable unchecked operand :=
  extends_lowerExpr (eval_testCondition h) hready hscoped

/-- How an arm of a conditional ends. A closed one is left as it is, and an open one goes to the
label behind the conditional, which is made if there is none. -/
theorem eval_joinArm {label after : Option String}
    (h : (joinArm label).eval body = .ok (after, last)) :
    (body.isClosed ∧ after = label ∧ body = last) ∨
    (body.isClosed = false ∧ ∃ name labelled, after = some name ∧
      (label = some name ∧ body = labelled ∨
        label = none ∧ (newLabel "ifend").eval body = .ok (name, labelled)) ∧
      (emit (.branch name)).eval labelled = .ok ((), last)) := by
  simp only [joinArm, Pass.eval_bind_eq_ok_iff, Pass.eval_get_eq_ok_iff] at h
  obtain ⟨_, _, ⟨rfl, rfl⟩, h⟩ := h
  split at h
  · next hclosed =>
    obtain ⟨rfl, rfl⟩ := Pass.eval_pure_eq_ok_iff.mp h
    exact Or.inl ⟨hclosed, rfl, rfl⟩
  · next hopen =>
    refine Or.inr ⟨by simpa using hopen, ?_⟩
    cases label with
    | some name =>
      simp only [Pass.eval_bind_eq_ok_iff, Pass.eval_pure_eq_ok_iff] at h
      obtain ⟨_, _, ⟨rfl, rfl⟩, _, _, hjump, rfl, rfl⟩ := h
      exact ⟨name, body, rfl, Or.inl ⟨rfl, rfl⟩, hjump⟩
    | none =>
      simp only [Pass.eval_bind_eq_ok_iff, Pass.eval_pure_eq_ok_iff] at h
      obtain ⟨name, labelled, hname, _, _, hjump, rfl, rfl⟩ := h
      exact ⟨name, labelled, rfl, Or.inr ⟨rfl, hname⟩, hjump⟩

/-- From `body` to `middle` an arm was ended. The label behind the conditional was passed on as
`after`, or made if there was none and the arm was open. -/
structure Joins (unchecked : Prop) (label after : Option String) (body middle : Body) : Prop where
  extended : body.Extends (.flow unchecked) [] middle
  passed : ∀ name ∈ label, name ∈ after
  fresh : ∀ name ∈ after, name ∈ label ∨ ¬body.scope.inUse name
  owes : ∀ name ∈ after, middle.Owes name
  live : ∀ name ∈ after, ¬IsDeadLabel name
  spend : ∀ {spent pending last}, after.toList ⊆ pending →
    middle.Flows unchecked (after.toList ++ spent) pending last →
    body.Flows unchecked (label.toList ++ spent) pending last

theorem joins_jump {name : String} (h : (emit (.branch name)).eval body = .ok (result, last))
    (hready : body.Ready unchecked names) (howes : body.Owes name) (hlive : ¬IsDeadLabel name) :
    Joins unchecked (some name) (some name) body last ∧ last.Ready unchecked names := by
  obtain ⟨hflows, hready⟩ := flows_jump h hready hlive
  refine ⟨⟨hflows.extended, fun _ hmem => hmem, fun _ hmem => Or.inl hmem, ?_, ?_, ?_⟩, hready⟩
  · rintro _ ⟨⟩
    exact hflows.extended.owes name (by simp) howes
  · rintro _ ⟨⟩
    exact hlive
  · intro spent pending last hmem hlast
    exact hflows.andThen hlast (by simp) (by simpa using hmem)

theorem joins_joinArm {label after : Option String}
    (h : (joinArm label).eval body = .ok (after, middle)) (hready : body.Ready unchecked names)
    (howes : ∀ name ∈ label, body.Owes name) (hlive : ∀ name ∈ label, ¬IsDeadLabel name) :
    Joins unchecked label after body middle ∧ middle.Ready unchecked names := by
  rcases eval_joinArm h with ⟨-, rfl, rfl⟩ | ⟨-, name, labelled, rfl, hlabel, hjump⟩
  · exact ⟨⟨.refl _ _ _, fun _ hmem => hmem, fun _ hmem => Or.inl hmem, howes, hlive,
      fun _ hlast => hlast⟩, hready⟩
  · rcases hlabel with ⟨rfl, rfl⟩ | ⟨rfl, hname⟩
    · exact joins_jump hjump hready (howes name rfl) (hlive name rfl)
    · obtain ⟨hlabels, hready⟩ := labels_newLabel hname hready rfl (by decide)
      obtain ⟨hjoins, hready⟩ := joins_jump hjump hready hlabels.owes hlabels.live
      refine ⟨⟨?_, by simp, ?_, hjoins.owes, hjoins.live, ?_⟩, hready⟩
      · exact (hlabels.extended.mono (Permit.straight_le_flow unchecked)).andThen hjoins.extended
      · rintro _ ⟨⟩
        exact Or.inr hlabels.fresh
      · exact fun hmem hlast => hlabels.spend (hjoins.spend hmem hlast)

/-- The label behind a conditional is set if some arm needs it. -/
theorem flows_afterwards {after : Option String}
    (h : (match after with
      | some label => emit (.label label)
      | none => pure () : Lowering Unit).eval body = .ok (result, last))
    (hready : body.Ready unchecked names) (howes : ∀ name ∈ after, body.Owes name)
    (hlive : ∀ name ∈ after, ¬IsDeadLabel name) :
    body.Flows unchecked after.toList [] last ∧ last.Ready unchecked names ∧
      after.toList ⊆ last.labels := by
  cases after with
  | none =>
    obtain ⟨-, rfl⟩ := Pass.eval_pure_eq_ok_iff.mp h
    exact ⟨.refl _ _ _ _, hready, by simp⟩
  | some name =>
    obtain ⟨hflows, hready, hset⟩ := flows_setLabel h hready (howes name rfl) (hlive name rfl)
    exact ⟨hflows, hready, by simpa using hset⟩

/-- A pass whose branches lead to labels that it sets, and to the exit, and which declares the given
names. -/
def Flowing (unchecked : Prop) (frame : Frame) (names declared : List String)
    (pass : Lowering Unit) : Prop :=
  ∀ ⦃body last result⦄, pass.eval body = .ok (result, last) → body.Ready unchecked names →
    Returns unchecked frame body →
    body.Flows unchecked [] [frame.exit] last ∧ last.Ready unchecked (names ++ declared)

theorem flowing_ite {frame : Frame} {condition : Expr} {positive negative : List Stmt}
    (hscoped : unchecked ∨ condition.isScoped names)
    (hpositive : Flowing unchecked frame names (Block.declares positive) (lowerStmts frame positive))
    (hnegative : Flowing unchecked frame (names ++ Block.declares positive)
      (Block.declares negative) (lowerStmts frame negative)) :
    Flowing unchecked frame names (Block.declares positive ++ Block.declares negative)
      (lowerStmt frame (.ite condition positive negative)) := by
  intro body last result h hready hframe
  simp only [lowerStmt, Pass.eval_bind_eq_ok_iff] at h
  obtain ⟨operand, tested, htest, onTrue, labelled, honTrue, onFalse, prepared, honFalse, _, forked,
    hfork, _, inTrue, htrue, _, doneTrue, hruns, join, joined, hjoin, _, inFalse, hfalse, _, doneFalse,
    hruns', join', joined', hjoin', hend⟩ := h
  obtain ⟨htested, hready, hoperand⟩ := extends_testCondition htest hready hscoped
  obtain ⟨hnewTrue, hready⟩ := labels_newLabel honTrue hready rfl (by decide)
  obtain ⟨hnewFalse, hready⟩ := labels_newLabel honFalse hready rfl (by decide)
  have hoperand := hnewFalse.extended.steps.readable (hnewTrue.extended.steps.readable hoperand)
  have howesTrue := hnewFalse.extended.owes onTrue (by simp) hnewTrue.owes
  have hne : onFalse ≠ onTrue := by
    rintro rfl
    exact hnewFalse.fresh hnewTrue.owes.1
  obtain ⟨hforked, hready⟩ := flows_fork hfork hready hoperand hnewTrue.live hnewFalse.live
  have howesTrue := hforked.extended.owes onTrue (by simp) howesTrue
  have howesFalse := hforked.extended.owes onFalse (by simp) hnewFalse.owes
  -- The first arm.
  obtain ⟨hinTrue, hready, hsetTrue⟩ := flows_setLabel htrue hready howesTrue hnewTrue.live
  have howesFalse := hinTrue.extended.owes onFalse (by simpa using hne) howesFalse
  have hframe := hframe.andThen
    (htested.steps.trans (hnewTrue.extended.steps.trans hnewFalse.extended.steps))
  have hframe := (hframe.andThen hforked.extended.steps).andThen hinTrue.extended.steps
  obtain ⟨hdoneTrue, hready⟩ := hpositive hruns hready hframe
  have howesFalse := hdoneTrue.extended.owes onFalse (by simp) howesFalse
  obtain ⟨hjoined, hready⟩ := joins_joinArm hjoin hready (by simp) (by simp)
  have hjoinNe : ∀ name ∈ join, name ≠ onFalse := by
    rintro name hname rfl
    exact (hjoined.fresh name hname).elim (by simp) fun hfresh => hfresh howesFalse.1
  have howesFalse := hjoined.extended.owes onFalse (by simp) howesFalse
  -- The second arm.
  obtain ⟨hinFalse, hready, hsetFalse⟩ := flows_setLabel hfalse hready howesFalse hnewFalse.live
  have hframe := ((hframe.andThen hdoneTrue.extended.steps).andThen hjoined.extended.steps).andThen
    hinFalse.extended.steps
  obtain ⟨hdoneFalse, hready⟩ := hnegative hruns' hready hframe
  have howesJoin : ∀ name ∈ join, doneFalse.Owes name := fun name hname =>
    hdoneFalse.extended.owes name (by simp)
      (hinFalse.extended.owes name (by simpa using hjoinNe name hname) (hjoined.owes name hname))
  obtain ⟨hjoined', hready⟩ := joins_joinArm hjoin' hready howesJoin hjoined.live
  obtain ⟨hended, hready, hsetJoin⟩ := flows_afterwards hend hready hjoined'.owes hjoined'.live
  -- From the end to the start, every label is spent where it is set.
  let pending := [onTrue, onFalse] ++ join'.toList ++ [frame.exit]
  have hpending' : join'.toList ⊆ pending := fun name hname => by simp [pending, hname]
  have hpending : join.toList ⊆ pending := fun name hname =>
    hpending' (by simpa using hjoined'.passed name (by simpa using hname))
  have hfromEnd : joined'.Flows unchecked (join'.toList ++ []) pending last :=
    hended.weaken (by simp) (by simp)
  have hfromFalse : inFalse.Flows unchecked join.toList pending last :=
    hdoneFalse.andThen (by simpa using hjoined'.spend hpending' hfromEnd) (by simp)
      (by simp [pending])
  have hfromJoin : joined.Flows unchecked (join.toList ++ [onFalse]) pending last :=
    hinFalse.andThen (hfromFalse.weaken (by simp) (List.Subset.refl _)) (by simp) (by simp)
  have hfromTrue : inTrue.Flows unchecked [onFalse] pending last :=
    hdoneTrue.andThen (hjoined.spend hpending hfromJoin) (by simp) (by simp [pending])
  have hfromFork : forked.Flows unchecked [onFalse, onTrue] pending last :=
    hinTrue.andThen (hfromTrue.weaken (by simp) (List.Subset.refl _)) (by simp) (by simp)
  have hfromTest : tested.Flows unchecked [] pending last :=
    hnewTrue.spend (hnewFalse.spend (hforked.andThen hfromFork (by simp) (by simp [pending])))
  refine ⟨(htested.flows.andThen hfromTest (by simp) (by simp)).settle ?_, by simpa using hready⟩
  refine List.append_subset.mpr ⟨?_, hsetJoin⟩
  simp only [List.cons_subset, List.nil_subset, and_true]
  exact ⟨hfromTrue.extended.steps.labels_subset hsetTrue,
    hfromFalse.extended.steps.labels_subset hsetFalse⟩

/-- How a loop ends. Its body goes back to the test if it is open. -/
theorem eval_endLoop {test afterwards : String}
    (h : (do
      let last ← Pass.get
      unless last.isClosed do
        emit (.branch test)
      emit (.label afterwards) : Lowering Unit).eval body = .ok (result, last)) :
    ∃ repeated, (body.isClosed ∧ body = repeated ∨
        body.isClosed = false ∧ (emit (.branch test)).eval body = .ok ((), repeated)) ∧
      (emit (.label afterwards)).eval repeated = .ok (result, last) := by
  simp only [Pass.eval_bind_eq_ok_iff, Pass.eval_get_eq_ok_iff] at h
  obtain ⟨_, _, ⟨rfl, rfl⟩, h⟩ := h
  split at h
  · next hclosed => exact ⟨body, Or.inl ⟨hclosed, rfl⟩, h⟩
  · next hopen =>
    simp only [Pass.eval_bind_eq_ok_iff] at h
    obtain ⟨_, repeated, hjump, hend⟩ := h
    exact ⟨repeated, Or.inr ⟨by simpa using hopen, hjump⟩, hend⟩

theorem flowing_loop {frame : Frame} {condition : Expr} {statements : List Stmt}
    (hscoped : unchecked ∨ condition.isScoped names)
    (hstatements : Flowing unchecked frame names (Block.declares statements)
      (lowerStmts frame statements)) :
    Flowing unchecked frame names (Block.declares statements)
      (lowerStmt frame (.loop condition statements)) := by
  intro body last result h hready hframe
  simp only [lowerStmt, Pass.eval_bind_eq_ok_iff] at h
  obtain ⟨test, hasTest, hnewTest, start, hasStart, hnewStart, afterwards, labelled, hnewAfter, _,
    entered, henter, _, inTest, htest, operand, tested, hcondition, _, forked, hfork, _, inLoop, hloop,
    _, doneLoop, hruns, h⟩ := h
  obtain ⟨hnewTest, hready⟩ := labels_newLabel hnewTest hready rfl (by decide)
  obtain ⟨hnewStart, hready⟩ := labels_newLabel hnewStart hready rfl (by decide)
  obtain ⟨hnewAfter, hready⟩ := labels_newLabel hnewAfter hready rfl (by decide)
  have howesTest := hnewStart.extended.owes test (by simp) hnewTest.owes
  have hstartNe : start ≠ test := by
    rintro rfl
    exact hnewStart.fresh hnewTest.owes.1
  have hafterNe : afterwards ≠ test ∧ afterwards ≠ start := by
    constructor
    · rintro rfl
      exact hnewAfter.fresh howesTest.1
    · rintro rfl
      exact hnewAfter.fresh hnewStart.owes.1
  have howesTest := hnewAfter.extended.owes test (by simp) howesTest
  have howesStart := hnewAfter.extended.owes start (by simp) hnewStart.owes
  obtain ⟨hentered, hready⟩ := flows_jump henter hready hnewTest.live
  have howesTest := hentered.extended.owes test (by simp) howesTest
  obtain ⟨hinTest, hready, hsetTest⟩ := flows_setLabel htest hready howesTest hnewTest.live
  obtain ⟨htested, hready, hoperand⟩ := extends_testCondition hcondition hready hscoped
  obtain ⟨hforked, hready⟩ := flows_fork hfork hready hoperand hnewStart.live hnewAfter.live
  -- What leads to the fork introduces the label of the test and nothing else that is owed.
  have htoFork : labelled.Flows unchecked [test] [test, start, afterwards] forked :=
    hentered.andThen (hinTest.andThen (htested.flows.andThen
      (hforked.weaken (List.nil_subset [test]) (List.subset_cons_self _ _))
      (by simp) (by simp)) (by simp) (by simp)) (by simp) (by simp)
  have howesStart := htoFork.extended.owes start (by simpa using hstartNe) howesStart
  have howesAfter := htoFork.extended.owes afterwards (by simpa using hafterNe.1) hnewAfter.owes
  obtain ⟨hinLoop, hready, hsetStart⟩ := flows_setLabel hloop hready howesStart hnewStart.live
  have howesAfter := hinLoop.extended.owes afterwards (by simpa using hafterNe.2) howesAfter
  have hframe := hframe.andThen (hnewTest.extended.steps.trans
    (hnewStart.extended.steps.trans hnewAfter.extended.steps))
  have hframe := (hframe.andThen htoFork.extended.steps).andThen hinLoop.extended.steps
  obtain ⟨hdoneLoop, hready⟩ := hstatements hruns hready hframe
  have howesAfter := hdoneLoop.extended.owes afterwards (by simp) howesAfter
  obtain ⟨repeated, hrepeat, hend⟩ := eval_endLoop (Pass.eval_bind_eq_ok_iff.mpr h)
  obtain ⟨hrepeated, hready⟩ : doneLoop.Flows unchecked [] [test] repeated ∧
      repeated.Ready unchecked (names ++ Block.declares statements) := by
    rcases hrepeat with ⟨-, rfl⟩ | ⟨-, hjump⟩
    · exact ⟨.refl _ _ _ _, hready⟩
    · exact flows_jump hjump hready hnewTest.live
  have howesAfter := hrepeated.extended.owes afterwards (by simp) howesAfter
  obtain ⟨hended, hready, hsetAfter⟩ := flows_setLabel hend hready howesAfter hnewAfter.live
  have hfromLoop : inLoop.Flows unchecked [afterwards] [test, frame.exit] last :=
    hdoneLoop.andThen (hrepeated.andThen (hended.weaken (by simp) (List.nil_subset [test, frame.exit]))
      (by simp) (by simp)) (by simp) (by simp)
  let pending := [test, start, afterwards] ++ [frame.exit]
  have hfromFork : forked.Flows unchecked [afterwards, start, test] pending last :=
    hinLoop.andThen (hfromLoop.weaken (by simp) (by simp [pending])) (by simp) (by simp)
  have hflows : body.Flows unchecked [] pending last :=
    hnewTest.spend (hnewStart.spend (hnewAfter.spend
      (htoFork.andThen hfromFork (by simp) (by simp [pending]))))
  refine ⟨hflows.settle ?_, hready⟩
  simp only [List.cons_subset, List.nil_subset, and_true]
  refine ⟨?_, hfromLoop.extended.steps.labels_subset hsetStart, hsetAfter⟩
  exact hfromFork.extended.steps.labels_subset (hforked.extended.steps.labels_subset
    (htested.steps.labels_subset hsetTest))

mutual

/-- Lowering a statement only branches to labels that it sets, and to the exit. -/
theorem flowing_lowerStmt (frame : Frame) : ∀ (statement : Stmt) {names : List String},
    (unchecked ∨ statement.isScoped names) →
    Flowing unchecked frame names statement.declares (lowerStmt frame statement)
  | .bind name ty value, names, hscoped => by
    intro body last result h hready _
    rw [lowerStmt] at h
    rw [Stmt.isScoped] at hscoped
    obtain ⟨hflows, hready⟩ := flows_declare h hready hscoped
    exact ⟨hflows.weaken (by simp) (by simp), hready⟩
  | .assign target value, names, hscoped => by
    intro body last result h hready _
    rw [lowerStmt] at h
    rw [Stmt.isScoped, Bool.and_eq_true] at hscoped
    have hextends := extends_assign h hready hscoped
    exact ⟨hextends.flows.weaken (by simp) (by simp),
      by simpa [Stmt.declares] using Ready.andThen hready hextends⟩
  | .eval expression, names, hscoped => by
    intro body last result h hready _
    rw [lowerStmt] at h
    rw [Stmt.isScoped] at hscoped
    have hextends := extends_evaluate h hready hscoped
    exact ⟨hextends.flows.weaken (by simp) (by simp),
      by simpa [Stmt.declares] using Ready.andThen hready hextends⟩
  | .ret value, names, hscoped => by
    intro body last result h hready hframe
    rw [lowerStmt] at h
    rw [Stmt.isScoped] at hscoped
    simpa [Stmt.declares] using flows_returnFrom h hready hframe hscoped
  | .directive text, names, _ => by
    intro body last result h hready _
    rw [lowerStmt, Pass.eval_report_eq_ok_iff] at h
    subst h
    exact ⟨.refl _ _ _ _, by simpa [Stmt.declares] using hready⟩
  | .ite condition positive negative, names, hscoped => by
    simp only [Stmt.isScoped, Bool.and_eq_true, and_assoc] at hscoped
    rw [Stmt.declares]
    exact flowing_ite (hscoped.imp_right And.left)
      (flowing_lowerStmts frame positive (hscoped.imp_right fun h => h.2.1))
      (flowing_lowerStmts frame negative (hscoped.imp_right fun h => h.2.2))
  | .loop condition statements, names, hscoped => by
    simp only [Stmt.isScoped, Bool.and_eq_true] at hscoped
    rw [Stmt.declares]
    exact flowing_loop (hscoped.imp_right And.left)
      (flowing_lowerStmts frame statements (hscoped.imp_right And.right))

/-- Lowering statements only branches to labels that they set, and to the exit. -/
theorem flowing_lowerStmts (frame : Frame) : ∀ (statements : List Stmt) {names : List String},
    (unchecked ∨ Block.isScoped names statements) →
    Flowing unchecked frame names (Block.declares statements) (lowerStmts frame statements)
  | [], names, _ => by
    intro body last result h hready _
    rw [lowerStmts] at h
    obtain ⟨-, rfl⟩ := Pass.eval_pure_eq_ok_iff.mp h
    exact ⟨.refl _ _ _ _, by simpa [Block.declares] using hready⟩
  | statement :: rest, names, hscoped => by
    intro body last result h hready hframe
    rw [Block.isScoped, Bool.and_eq_true] at hscoped
    simp only [lowerStmts, Pass.eval_bind_eq_ok_iff] at h
    obtain ⟨_, middle, hfirst, hrest⟩ := h
    obtain ⟨hflows, hready⟩ := flowing_lowerStmt frame statement (hscoped.imp_right And.left)
      hfirst hready hframe
    obtain ⟨hflows', hready⟩ := flowing_lowerStmts frame rest (hscoped.imp_right And.right)
      hrest hready (hframe.andThen hflows.extended.steps)
    exact ⟨hflows.trans hflows', by simpa [Block.declares] using hready⟩

end

end Lowering

end ThreeAddress
