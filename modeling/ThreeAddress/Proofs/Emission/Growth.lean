import ThreeAddress.Proofs.Emission.Stmt

/-!
# Growing bodies

A body under construction only grows. What the single steps of a statement keep besides is stated
here, for arguments that follow a statement step by step.

## Main definitions

* `Body.Grows`: a body got longer.
* `Body.Keeps`: a body got longer and no declared name changed its meaning.
-/

namespace ThreeAddress

namespace Body

/-- A body got longer. -/
structure Grows (body last : Body) : Prop where
  code : body.code <+: last.code
  inUse : ∀ {register}, body.scope.inUse register → last.scope.inUse register
  slots : body.slots ⊆ last.slots

/-- A body got longer, and bound names kept their meaning. -/
structure Keeps (body last : Body) : Prop extends Grows body last where
  keyed : body.Keyed → last.Keyed
  find? : body.Keyed → ∀ name var, body.scope.find? name = some var →
    last.scope.find? name = some var
  defined : (∀ name ∈ body.defined, body.scope.inUse name) →
    ∀ name ∈ last.defined, last.scope.inUse name

variable {body middle last : Body}

theorem Grows.refl (body : Body) : body.Grows body :=
  ⟨List.prefix_rfl, fun h => h, List.Subset.refl _⟩

theorem Grows.trans (h : body.Grows middle) (h' : middle.Grows last) : body.Grows last :=
  ⟨h.code.trans h'.code, fun hused => h'.inUse (h.inUse hused),
    List.Subset.trans h.slots h'.slots⟩

theorem Keeps.refl (body : Body) : body.Keeps body :=
  ⟨.refl body, fun h => h, fun _ _ _ h => h, fun h => h⟩

theorem Keeps.trans (h : body.Keeps middle) (h' : middle.Keeps last) : body.Keeps last :=
  ⟨h.toGrows.trans h'.toGrows, fun hkeyed => h'.keyed (h.keyed hkeyed),
    fun hkeyed name var hfound => h'.find? (h.keyed hkeyed) name var (h.find? hkeyed name var hfound),
    fun hdefined => h'.defined (h.defined hdefined)⟩

theorem Steps.grows {permit : Permit} (h : Steps permit body last) : body.Grows last :=
  ⟨h.code_isPrefix, h.inUse, h.slots_subset⟩

/-- Steps that bind no source name keep the meaning of every name. -/
theorem Steps.keeps {permit : Permit} (h : Steps permit body last) (hbinds : ¬permit.binds) :
    body.Keeps last :=
  ⟨h.grows, h.keyed, fun hkeyed _ _ => h.find? hbinds hkeyed, h.inUse_of_defined⟩

theorem keeps_mint (base : String) (ty : Ty) : body.Keeps (body.mint base ty) :=
  have hmint : body.Extends (.straight True) [] (body.mint base ty) := extends_mint base ty
  hmint.steps.keeps fun h => h

theorem grows_declare (body : Body) (name : String) (ty : Ty) :
    body.Grows ((body.rebind name ty).reserve (Var.make (body.scope.newRegister name) ty)) := by
  refine ⟨by simp, fun hused => inUse_rebind.mpr (Or.inr hused), ?_⟩
  rw [slots_reserve]
  exact List.subset_append_left _ _

theorem grows_append (body : Body) (instruction : Instr) : body.Grows (body.append instruction) :=
  ⟨by simp, fun hused => hused, by simp⟩

theorem keeps_append {instruction : Instr}
    (h : ∀ name, instruction.defined? = some name → body.scope.inUse name) :
    body.Keeps (body.append instruction) := by
  refine ⟨body.grows_append instruction, fun hkeyed => ⟨hkeyed.scope, hkeyed.root⟩,
    fun _ _ _ hfound => hfound, fun hdefined name hmem => ?_⟩
  rcases mem_defined_append.mp hmem with hmem | hname
  · exact hdefined name hmem
  · exact h name hname

end Body

namespace Lowering

variable {body last : Body} {result : Unit}

theorem grows_emit {instruction : Instr}
    (h : (emit instruction).eval body = .ok (result, last)) : body.Grows last := by
  rcases eval_emit_cases h with ⟨_, rfl⟩ | ⟨target, _, _, rfl⟩ | ⟨_, _, rfl⟩
  · exact body.grows_append instruction
  · exact (body.grows_append _).trans (Body.grows_append _ _)
  · exact ((Body.keeps_mint "dead" .label).toGrows.trans (Body.grows_append _ _)).trans
      (Body.grows_append _ _)

theorem keeps_emit {instruction : Instr}
    (h : (emit instruction).eval body = .ok (result, last))
    (hdefined : ∀ name, instruction.defined? = some name → body.scope.inUse name) :
    body.Keeps last := by
  rcases eval_emit_cases h with ⟨_, rfl⟩ | ⟨target, rfl, _, rfl⟩ | ⟨_, _, rfl⟩
  · exact Body.keeps_append hdefined
  · have hjump : body.Keeps (body.append (.branch target)) := Body.keeps_append (by rintro _ ⟨⟩)
    exact hjump.trans (Body.keeps_append hdefined)
  · refine (Body.keeps_mint "dead" .label).trans (Body.Keeps.trans (Body.keeps_append ?_)
      (Body.keeps_append fun name hname => ?_))
    · rintro _ ⟨⟩
      exact Body.inUse_mint.mpr (Or.inl rfl)
    · exact Body.inUse_mint.mpr (Or.inr (hdefined name hname))

theorem keeps_newLabel {base name : String} (h : (newLabel base).eval body = .ok (name, last)) :
    body.Keeps last ∧ last.scope.inUse name ∧ last.code = body.code := by
  obtain ⟨rfl, rfl⟩ := eval_newLabel_eq_ok_iff.mp h
  exact ⟨Body.keeps_mint base .label, Body.inUse_mint.mpr (Or.inl rfl), rfl⟩

/-- What ending an arm keeps. The label behind the conditional is in use once there is one. -/
theorem keeps_joinArm {label after : Option String}
    (h : (joinArm label).eval body = .ok (after, last)) :
    body.Keeps last ∧ (∀ name ∈ label, name ∈ after) ∧
      ((∀ name ∈ label, body.scope.inUse name) → ∀ name ∈ after, last.scope.inUse name) := by
  rcases eval_joinArm h with ⟨-, rfl, rfl⟩ | ⟨-, name, labelled, rfl, hlabel, hjump⟩
  · exact ⟨.refl body, fun _ hname => hname, fun hlabel => hlabel⟩
  · have hjumped := keeps_emit hjump (by rintro _ ⟨⟩)
    rcases hlabel with ⟨rfl, rfl⟩ | ⟨rfl, hnew⟩
    · refine ⟨hjumped, fun _ hname => hname, fun hlabel old hold => ?_⟩
      exact hjumped.inUse (hlabel old hold)
    · obtain ⟨hlabelled, hused, -⟩ := keeps_newLabel hnew
      refine ⟨hlabelled.trans hjumped, by simp, ?_⟩
      rintro - _ ⟨⟩
      exact hjumped.inUse hused

theorem keeps_afterwards {after : Option String}
    (h : (match after with
      | some label => emit (.label label)
      | none => pure () : Lowering Unit).eval body = .ok (result, last))
    (hused : ∀ name ∈ after, body.scope.inUse name) :
    body.Keeps last ∧ ∀ name ∈ after, last.EndsWith (.label name) := by
  cases after with
  | none =>
    obtain ⟨-, rfl⟩ := Pass.eval_pure_eq_ok_iff.mp h
    exact ⟨.refl body, by simp⟩
  | some name =>
    refine ⟨keeps_emit h ?_, ?_⟩
    · rintro _ ⟨⟩
      exact hused name rfl
    · rintro _ ⟨⟩
      exact endsWith_of_eval_emit h

end Lowering

end ThreeAddress
