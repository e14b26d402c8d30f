import ThreeAddress.Proofs.Emission.Step

/-!
# Passes as steps

How to show that a pass consists of permitted steps. A pass may introduce the names that it makes
itself, and besides them only names that it is given for that purpose.

## Main definitions

* `Body.Ready`: a body on which code may be emitted that mentions the given source names.
* `Body.Extends`: permitted steps which leave every owed name owed, except for some given ones.

## Main statements

* `Lowering.eval_emit_cases`: the ways in which emitting an instruction changes a body.
* `Lowering.extends_emit`: emitting an instruction is a row of permitted steps.
-/

namespace ThreeAddress

namespace Body

/-- A body on which code may be emitted that mentions the given source names. -/
structure Ready (unchecked : Prop) (names : List String) (body : Body) : Prop where
  /-- What an instruction introduces is in use. -/
  inUse_of_defined : ∀ name ∈ body.defined, body.scope.inUse name
  /-- The names stand for stack slots, unless operands need not be defined. -/
  resolved : unchecked ∨ body.Keyed ∧
    ∀ name ∈ names, ∃ var, body.scope.find? name = some var ∧ var.register ∈ body.slots

/-- Steps which leave every owed name owed, except for those in `spent`. -/
structure Extends (permit : Permit) (spent : List String) (body last : Body) : Prop where
  steps : Steps permit body last
  owes : ∀ name, name ∉ spent → body.Owes name → last.Owes name

/-- What may be read as an operand. -/
def Readable (unchecked : Prop) (body : Body) (operand : Operand) : Prop :=
  ∀ register, operand.register? = some register → body.Reads unchecked register

variable {permit : Permit} {unchecked : Prop} {names spent : List String} {body middle last : Body}

-- ════════════════════════
-- Structural rules
-- ════════════════════════

theorem Extends.refl (permit : Permit) (spent : List String) (body : Body) :
    Extends permit spent body body :=
  ⟨.refl, fun _ _ h => h⟩

theorem Extends.trans {spent' : List String} (h : Extends permit spent body middle)
    (h' : Extends permit spent' middle last) (hsubset : spent ⊆ spent') :
    Extends permit spent' body last :=
  ⟨h.steps.trans h'.steps, fun name hmem howes =>
    h'.owes name hmem (h.owes name (fun hmem' => hmem (hsubset hmem')) howes)⟩

/-- What introduces nothing that was owed may come first. -/
theorem Extends.andThen (h : Extends permit [] body middle) (h' : Extends permit spent middle last) :
    Extends permit spent body last :=
  h.trans h' (List.nil_subset _)

theorem Extends.weaken {spent' : List String} (h : Extends permit spent body last)
    (hsubset : spent ⊆ spent') : Extends permit spent' body last :=
  h.trans (.refl permit spent' last) hsubset

theorem Extends.mono {larger : Permit} (hle : permit.Le larger)
    (h : Extends permit spent body last) : Extends larger spent body last :=
  ⟨h.steps.mono hle, h.owes⟩

/-- Steps keep introduced names in use. -/
theorem Step.inUse_of_defined (h : Step permit body last)
    (hbody : ∀ name ∈ body.defined, body.scope.inUse name) :
    ∀ name ∈ last.defined, last.scope.inUse name := by
  intro name hmem
  cases h with
  | mint base ty => exact inUse_mint.mpr (Or.inr (hbody name hmem))
  | rebind source ty _ => exact inUse_rebind.mpr (Or.inr (hbody name hmem))
  | addConstant => exact hbody name hmem
  | reserve slot howed =>
    rcases mem_defined_reserve.mp hmem with hmem | hname
    · exact hbody name hmem
    · cases hname
      exact howed.1
  | append instruction _ _ howed _ =>
    rcases mem_defined_append.mp hmem with hmem | hname
    · exact hbody name hmem
    · exact (howed name hname).1

theorem Steps.inUse_of_defined (h : Steps permit body last)
    (hbody : ∀ name ∈ body.defined, body.scope.inUse name) :
    ∀ name ∈ last.defined, last.scope.inUse name :=
  h.invariant (P := fun body => ∀ name ∈ body.defined, body.scope.inUse name)
    (fun _ _ => Step.inUse_of_defined) hbody

/-- A body stays ready while no source name is bound. -/
theorem Steps.ready (h : Steps permit body last) (hbinds : ¬permit.binds)
    (hready : body.Ready unchecked names) : last.Ready unchecked names := by
  refine ⟨h.inUse_of_defined hready.inUse_of_defined, ?_⟩
  rcases hready.resolved with hunchecked | ⟨hkeyed, hnames⟩
  · exact Or.inl hunchecked
  · refine Or.inr ⟨h.keyed hkeyed, fun name hmem => ?_⟩
    obtain ⟨var, hfound, hslot⟩ := hnames name hmem
    exact ⟨var, h.find? hbinds hkeyed hfound, h.slots_subset hslot⟩

theorem Ready.subset {names' : List String} (h : body.Ready unchecked names')
    (hsubset : names ⊆ names') : body.Ready unchecked names :=
  ⟨h.inUse_of_defined, h.resolved.imp_right fun hresolved =>
    ⟨hresolved.1, fun name hmem => hresolved.2 name (hsubset hmem)⟩⟩

/-- The variable that a name stands for may be read. -/
theorem Ready.reads (h : body.Ready unchecked names) {name : String} (hmem : name ∈ names) {var : Var}
    (hfound : body.scope.find? name = some var) : body.Reads unchecked var.register := by
  rcases h.resolved with hunchecked | ⟨_, hnames⟩
  · exact Or.inr hunchecked
  · obtain ⟨var', hfound', hslot⟩ := hnames name hmem
    rw [hfound] at hfound'
    cases hfound'
    exact Or.inl (Or.inl hslot)

theorem Steps.reads (h : Steps (.straight unchecked) body last)
    {register : String} (hreads : body.Reads unchecked register) :
    last.Reads unchecked register :=
  hreads.imp_left h.available

theorem Steps.readable (h : Steps (.straight unchecked) body last)
    {operand : Operand} (hreadable : body.Readable unchecked operand) :
    last.Readable unchecked operand :=
  fun register hregister => h.reads (hreadable register hregister)

/-- An instruction may read what its operands may read. -/
theorem reads_of_readable {instruction : Instr}
    (h : ∀ operand ∈ instruction.operands, body.Readable unchecked operand) :
    ∀ register ∈ instruction.uses, body.Reads unchecked register := by
  intro register hmem
  obtain ⟨operand, hoperand, hregister⟩ := List.mem_filterMap.mp hmem
  exact h operand hoperand register hregister

-- ════════════════════════
-- New registers
-- ════════════════════════

theorem extends_mint (base : String) (ty : Ty) : Extends permit [] body (body.mint base ty) :=
  ⟨.single (.mint body base ty), fun _ _ howes => ⟨inUse_mint.mpr (Or.inr howes.1), howes.2⟩⟩

/-- A new register is owed. -/
theorem owes_newRegister (hbody : ∀ name ∈ body.defined, body.scope.inUse name) (base : String)
    (ty : Ty) : (body.mint base ty).Owes (body.scope.newRegister base) := by
  refine ⟨inUse_mint.mpr (Or.inl rfl), fun hmem => ?_⟩
  exact body.scope.not_inUse_newRegister base (hbody _ hmem)

/-- A pass that makes a register may introduce it. -/
theorem Extends.of_mint {base : String} {ty : Ty}
    (h : Extends permit (body.scope.newRegister base :: spent) (body.mint base ty) last) :
    Extends permit spent body last := by
  refine ⟨(extends_mint base ty).steps.trans h.steps, fun name hmem howes => ?_⟩
  have hne : name ≠ body.scope.newRegister base := by
    rintro rfl
    exact body.scope.not_inUse_newRegister base howes.1
  exact h.owes name (by simp [hne, hmem]) ⟨inUse_mint.mpr (Or.inr howes.1), howes.2⟩

/-- A pass that binds a source name may introduce the register that it is bound to. -/
theorem Extends.of_rebind {name : String} {ty : Ty} (hbinds : permit.binds)
    (h : Extends permit (body.scope.newRegister name :: spent) (body.rebind name ty) last) :
    Extends permit spent body last := by
  refine ⟨.head (.rebind body name ty hbinds) h.steps, fun other hmem howes => ?_⟩
  have hne : other ≠ body.scope.newRegister name := by
    rintro rfl
    exact body.scope.not_inUse_newRegister name howes.1
  exact h.owes other (by simp [hne, hmem]) ⟨inUse_rebind.mpr (Or.inr howes.1), howes.2⟩

theorem extends_reserve (slot : Var) (howed : body.Owes slot.register) :
    Extends permit [slot.register] body (body.reserve slot) := by
  refine ⟨.single (.reserve body slot howed), fun name hmem howes => ⟨howes.1, fun hdefined => ?_⟩⟩
  rcases mem_defined_reserve.mp hdefined with hdefined | hname
  · exact howes.2 hdefined
  · cases hname
    simp at hmem

theorem extends_append {instruction : Instr} (hplaced : instruction.startsBlock = body.isClosed)
    (hemits : permit.emits instruction ∨ ∃ name, instruction = .label name ∧ IsDeadLabel name)
    (howed : ∀ name, instruction.defined? = some name → body.Owes name)
    (hreads : ∀ register ∈ instruction.uses, body.Reads permit.unchecked register) :
    Extends permit instruction.defined?.toList body (body.append instruction) := by
  refine ⟨.single (.append body instruction hplaced hemits howed hreads), fun name hmem howes =>
    ⟨howes.1, fun hdefined => ?_⟩⟩
  rcases mem_defined_append.mp hdefined with hdefined | hname
  · exact howes.2 hdefined
  · simp [hname] at hmem

end Body

namespace Lowering

variable {permit : Permit} {body last : Body} {instruction : Instr} {result : Unit}

/-- The ways in which emitting an instruction changes a body. It may fit as it is; a label may end
an open block; and any other instruction behind a terminator opens a block of its own. -/
theorem eval_emit_cases (h : (emit instruction).eval body = .ok (result, last)) :
    (instruction.startsBlock = body.isClosed ∧ last = body.append instruction) ∨
    (∃ name, instruction = .label name ∧ body.isClosed = false ∧
      last = (body.append (.branch name)).append instruction) ∨
    (instruction.startsBlock = false ∧ body.isClosed = true ∧
      last = ((body.mint "dead" .label).append
        (.label (body.scope.newRegister "dead"))).append instruction) := by
  simp only [emit, separate, Pass.eval_bind_eq_ok_iff, eval_checkConcrete_eq_ok_iff,
    eval_append_eq_ok_iff, Pass.eval_get_eq_ok_iff] at h
  obtain ⟨_, _, ⟨-, rfl⟩, _, separated, ⟨_, _, ⟨rfl, rfl⟩, hseparate⟩, rfl⟩ := h
  cases hstart : instruction.startsBlock with
  | true =>
    obtain ⟨name, rfl⟩ : ∃ name, instruction = .label name := by
      cases instruction <;> simp_all [Instr.startsBlock]
    cases hclosed : body.isClosed with
    | true =>
      rw [hclosed] at hseparate
      obtain ⟨-, rfl⟩ := Pass.eval_pure_eq_ok_iff.mp hseparate
      exact Or.inl ⟨rfl, rfl⟩
    | false =>
      rw [hclosed] at hseparate
      cases eval_append_eq_ok_iff.mp hseparate
      exact Or.inr (Or.inl ⟨name, rfl, rfl, rfl⟩)
  | false =>
    have hlabel : ∀ name, instruction ≠ .label name := by
      rintro name rfl
      simp [Instr.startsBlock] at hstart
    cases hclosed : body.isClosed with
    | true =>
      simp only [hclosed, Pass.eval_bind_eq_ok_iff, eval_newLabel_eq_ok_iff,
        eval_append_eq_ok_iff] at hseparate
      obtain ⟨_, _, ⟨rfl, rfl⟩, rfl⟩ := hseparate
      exact Or.inr (Or.inr ⟨rfl, rfl, rfl⟩)
    | false =>
      simp only [hclosed] at hseparate
      obtain ⟨-, rfl⟩ := Pass.eval_pure_eq_ok_iff.mp hseparate
      exact Or.inl ⟨rfl, rfl⟩

/-- Instructions are emitted behind the entry of a function. -/
theorem entry_emit (h : (emit instruction).eval body = .ok (result, last)) :
    last.entry = body.entry := by
  rcases eval_emit_cases h with ⟨-, rfl⟩ | ⟨_, -, -, rfl⟩ | ⟨-, -, rfl⟩ <;> simp

/-- Whatever is emitted in front of it, an instruction comes last. -/
theorem endsWith_of_eval_emit (h : (emit instruction).eval body = .ok (result, last)) :
    last.EndsWith instruction := by
  rcases eval_emit_cases h with ⟨_, rfl⟩ | ⟨_, _, _, rfl⟩ | ⟨_, _, rfl⟩ <;>
    exact ⟨_, Body.code_append _ _⟩

/-- After an instruction the block is open unless the instruction closes it. -/
theorem isClosed_of_eval_emit (h : (emit instruction).eval body = .ok (result, last)) :
    last.isClosed = instruction.endsBlock :=
  (endsWith_of_eval_emit h).isClosed

/-- An instruction that starts no block is appended to an open block as it is. -/
theorem eq_append_of_eval_emit (h : (emit instruction).eval body = .ok (result, last))
    (hopen : body.isClosed = false) (hstart : instruction.startsBlock = false) :
    last = body.append instruction := by
  rcases eval_emit_cases h with ⟨_, rfl⟩ | ⟨_, rfl, _, _⟩ | ⟨_, hclosed, _⟩
  · rfl
  · simp [Instr.startsBlock] at hstart
  · simp [hopen] at hclosed

/-- Emitting an instruction is a row of permitted steps. -/
theorem extends_emit (h : (emit instruction).eval body = .ok (result, last))
    (hbody : ∀ name ∈ body.defined, body.scope.inUse name) (hemits : permit.emits instruction)
    (hbranch : ∀ name, instruction = .label name → permit.emits (.branch name))
    (howed : ∀ name, instruction.defined? = some name → body.Owes name)
    (hreads : ∀ register ∈ instruction.uses, body.Reads permit.unchecked register) :
    body.Extends permit instruction.defined?.toList last := by
  rcases eval_emit_cases h with ⟨hplaced, rfl⟩ | ⟨name, rfl, hopen, rfl⟩ | ⟨hstart, hclosed, rfl⟩
  · exact Body.extends_append hplaced (Or.inl hemits) howed hreads
  · have hjump : body.Extends permit [] (body.append (.branch name)) :=
      Body.extends_append (by simp [Instr.startsBlock, hopen]) (Or.inl (hbranch name rfl))
        (by simp [Instr.defined?, Instr.label?, Instr.target?])
        (by simp [Instr.uses, Instr.operands])
    refine hjump.andThen (Body.extends_append ?_ (Or.inl hemits) ?_ ?_)
    · simp [Instr.startsBlock, Instr.endsBlock]
    · intro introduced hintroduced
      exact hjump.owes introduced (by simp) (howed introduced hintroduced)
    · simp [Instr.uses, Instr.operands]
  · -- The label of the dead block is new, so nothing that is owed is spent on it.
    have hopened : (body.mint "dead" .label).Extends permit
        (Instr.label (body.scope.newRegister "dead")).defined?.toList
        ((body.mint "dead" .label).append (.label (body.scope.newRegister "dead"))) := by
      refine Body.extends_append ?_ ?_ ?_ ?_
      · exact hclosed.symm
      · obtain ⟨suffix, hsuffix⟩ := body.scope.exists_newRegister_eq "dead"
        exact Or.inr ⟨_, rfl, suffix, hsuffix⟩
      · rintro name ⟨⟩
        exact Body.owes_newRegister hbody "dead" .label
      · simp [Instr.uses, Instr.operands]
    have hdead : body.Extends permit []
        ((body.mint "dead" .label).append (.label (body.scope.newRegister "dead"))) :=
      Body.Extends.of_mint hopened
    refine hdead.andThen (Body.extends_append ?_ (Or.inl hemits) ?_ ?_)
    · simp [hstart, Instr.endsBlock]
    · exact fun name hname => hdead.owes name (by simp) (howed name hname)
    · intro register hmem
      refine (hreads register hmem).imp_left fun havailable => ?_
      rw [Body.Available, Body.slots_append]
      refine havailable.imp_right fun hopen => ?_
      rw [Body.openBlock_of_isClosed hclosed] at hopen
      simp at hopen

end Lowering

end ThreeAddress
