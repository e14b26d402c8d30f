import ThreeAddress.Proofs.Typing.Expr

/-!
# Mentioned variables

Every variable that a lowered expression mentions was looked up, so it is declared or known under its
name.

## Main definitions

* `Setting.Names`: variables that are declared or known.

## Main statements

* `Lowering.names_lowerExpr`: the variables that a lowered expression mentions.
* `Lowering.names_lowerTarget`: the same for the target of an assignment.
-/

namespace ThreeAddress

variable {table : TypeTable} {setting : Setting table} {names : List String} {body last : Body}
  {frame : Frame}

/-- All of the mentioned variables are declared or known. -/
def Setting.Names (setting : Setting table) (names mentions : List String) : Prop :=
  ∀ name ∈ mentions, name ∈ names ∨ setting.known name

theorem Setting.Names.nil : setting.Names names [] := by
  simp [Setting.Names]

theorem Setting.Names.append {mentions others : List String} (h : setting.Names names mentions)
    (h' : setting.Names names others) : setting.Names names (mentions ++ others) := by
  intro name hmem
  rcases List.mem_append.mp hmem with hmem | hmem
  · exact h name hmem
  · exact h' name hmem

theorem Setting.Names.known_of_mem_strays {expression : Expr}
    (h : setting.Names names expression.mentions) :
    ∀ name ∈ expression.strays names, setting.known name := by
  intro name hmem
  obtain ⟨hmem, hstray⟩ := List.mem_filter.mp hmem
  exact (h name hmem).resolve_left (of_decide_eq_true hstray)

namespace Lowering

theorem names_variable {name : String} {var : Var}
    (h : (variableNamed name).eval body = .ok (var, last)) (hsound : body.Sound setting names) :
    setting.Names names [name] := by
  obtain ⟨hfound, hstorable, -⟩ := eval_variableNamed_eq_ok_iff.mp h
  simpa [Setting.Names] using (hsound.binds.vars hfound hstorable).2

/-- The place of a variable is looked up before anything else is done with it. -/
theorem names_place {target : Expr} {place : Place}
    (h : (lowerTarget frame target).eval body = .ok (place, last))
    (hsound : body.Sound setting names) (htable : frame.table = table)
    (hnames : setting.checked → target.mentions ⊆ names)
    (hreads : ∀ name ∈ target.reads, name ∉ setting.spared)
    (hindex : ∀ array index, target = .element array index →
      Reached setting names (lowerExpr frame index none) → setting.Names names index.mentions) :
    setting.Names names target.mentions := by
  cases target with
  | variableRef name =>
    obtain ⟨var, hvar, -⟩ := Pass.eval_map_eq_ok_iff.mp h
    exact names_variable hvar hsound
  | deref name depth =>
    simp only [lowerTarget, derefPlace, Pass.eval_bind_eq_ok_iff] at h
    obtain ⟨var, _, hvar, -⟩ := h
    exact names_variable hvar hsound
  | field base field =>
    simp only [lowerTarget, fieldPlace, Pass.eval_bind_eq_ok_iff] at h
    obtain ⟨var, _, hvar, -⟩ := h
    exact names_variable hvar hsound
  | element array index =>
    simp only [Expr.mentions, List.cons_subset] at hnames
    simp only [Expr.reads, List.forall_mem_cons] at hreads
    obtain ⟨-, hreached⟩ := advances_elementPlace h hsound (fun hchecked => (hnames hchecked).1)
      hreads.1 (delivers_lowerExpr htable index (fun hchecked => (hnames hchecked).2) hreads.2 none
        (by simp))
    simp only [lowerTarget, elementPlace, Pass.eval_bind_eq_ok_iff] at h
    obtain ⟨var, _, hvar, -⟩ := h
    exact (names_variable hvar hsound).append (hindex array index rfl hreached)
  | _ => cases h

/-- The same for a place that is loaded. -/
theorem names_loadPlace {target : Expr} {expected : Option Ty} (htable : frame.table = table)
    (hnames : setting.checked → target.mentions ⊆ names)
    (hreads : ∀ name ∈ target.reads, name ∉ setting.spared)
    (hexpected : ∀ ty ∈ expected, setting.value ty)
    (h : Reached setting names (compute expected fun register => do
      let place ← lowerTarget frame target
      loadInto register.register place))
    (hindex : ∀ array index, target = .element array index →
      Reached setting names (lowerExpr frame index none) → setting.Names names index.mentions) :
    setting.Names names target.mentions := by
  obtain ⟨body, value, last, hsound, hrun⟩ := h
  obtain ⟨register, made, ty, hgrown, -, hcompute, -⟩ := advances_compute hrun hsound hexpected
  simp only [Pass.eval_bind_eq_ok_iff] at hcompute
  obtain ⟨place, _, hplace, -⟩ := hcompute
  exact names_place hplace hgrown.sound htable hnames hreads hindex

/-- The elements of a constant array are literals. -/
theorem mentionsAll_of_forall₂ {width : Width} {elements : List Expr} {values : List Int}
    (h : List.Forall₂ (fun element value => constantElement width element = .ok value) elements
      values) : Expr.mentionsAll elements = [] := by
  induction h with
  | nil => rfl
  | @cons element value _ _ hvalue _ ih =>
    rw [Expr.mentionsAll, ih]
    cases element <;> first | rfl | cases hvalue

mutual

/-- The variables that a lowered expression mentions are declared or known. -/
theorem names_lowerExpr (htable : frame.table = table) : ∀ (expression : Expr) {expected : Option Ty},
    (setting.checked → expression.mentions ⊆ names) →
      (∀ name ∈ expression.reads, name ∉ setting.spared) → (∀ ty ∈ expected, setting.value ty) →
      Reached setting names (lowerExpr frame expression expected) →
        setting.Names names expression.mentions
  | .integer _, _, _, _, _, _ | .boolean _, _, _, _, _, _ | .text _, _, _, _, _, _ => .nil
  | .address name, _, _, _, _, ⟨body, value, last, hsound, hrun⟩ => by
    simp only [lowerExpr_address, Pass.eval_bind_eq_ok_iff] at hrun
    obtain ⟨var, _, hvar, -⟩ := hrun
    exact names_variable hvar hsound
  | .variableRef name, _, hnames, hreads, hexpected, hreached => by
    rw [lowerExpr_variableRef] at hreached
    exact names_loadPlace htable hnames hreads hexpected hreached (by simp)
  | .deref name depth, _, hnames, hreads, hexpected, hreached => by
    rw [lowerExpr_deref] at hreached
    exact names_loadPlace htable hnames hreads hexpected hreached (by simp)
  | .field base field, _, hnames, hreads, hexpected, hreached => by
    rw [lowerExpr_field] at hreached
    exact names_loadPlace htable hnames hreads hexpected hreached (by simp)
  | .element array index, _, hnames, hreads, hexpected, hreached => by
    rw [lowerExpr_element] at hreached
    refine names_loadPlace htable hnames hreads hexpected hreached ?_
    rintro _ _ ⟨⟩ hreached
    simp only [Expr.mentions, List.cons_subset] at hnames
    simp only [Expr.reads, List.forall_mem_cons] at hreads
    exact names_lowerExpr htable index (fun hchecked => (hnames hchecked).2) hreads.2 (by simp)
      hreached
  | .binary operator lhs rhs, _, hnames, hreads, hexpected, ⟨body, value, last, hsound, hrun⟩ => by
    rw [lowerExpr_binary] at hrun
    simp only [Expr.mentions, List.append_subset] at hnames
    simp only [Expr.reads, List.forall_mem_append] at hreads
    obtain ⟨target, made, ty, hgrown, -, hcompute, -⟩ := advances_compute hrun hsound hexpected
    obtain ⟨common, left, middle, right, before, -, hsupports, hlower, hlower', -⟩ :=
      eval_applyOperator hcompute
    have hint := value_of_supports setting hsupports
    obtain ⟨hleft, -⟩ := delivers_lowerExpr htable lhs (fun hchecked => (hnames hchecked).1) hreads.1
      _ hint hlower hgrown.sound
    exact (names_lowerExpr htable lhs (fun hchecked => (hnames hchecked).1) hreads.1 hint
      ⟨_, _, _, hgrown.sound, hlower⟩).append
        (names_lowerExpr htable rhs (fun hchecked => (hnames hchecked).2) hreads.2 hint
          ⟨_, _, _, hleft.sound, hlower'⟩)
  | .call callee arguments, _, hnames, hreads, hexpected, ⟨body, value, last, hsound, hrun⟩ => by
    rw [lowerExpr_call] at hrun
    simp only [Expr.mentions] at hnames
    simp only [Expr.reads] at hreads
    obtain ⟨target, made, ty, hgrown, htarget, hcompute, -⟩ := advances_compute hrun hsound hexpected
    obtain ⟨-, hexamined⟩ := supplies_call (eval_callForValue hcompute) hgrown.sound
      (delivers_pending htable arguments hnames hreads) (by simpa using htarget)
    exact names_pending htable arguments hnames hreads hexamined
  | .build struct fields, _, hnames, hreads, hexpected, ⟨body, value, last, hsound, hrun⟩ => by
    rw [lowerExpr_build] at hrun
    simp only [Expr.mentions] at hnames
    simp only [Expr.reads] at hreads
    obtain ⟨target, made, ty, hgrown, -, hcompute, -⟩ := advances_compute hrun hsound hexpected
    obtain ⟨-, hfollowed⟩ := supplies_buildStruct hcompute htable hgrown.sound
      (delivers_pendingFields htable fields hnames hreads)
    exact names_pendingFields htable fields hnames hreads hfollowed
  | .array elements, _, hnames, _, hexpected, ⟨body, value, last, hsound, hrun⟩ => by
    rw [lowerExpr_array] at hrun
    obtain ⟨target, made, ty, -, -, hcompute, -⟩ := advances_compute hrun hsound hexpected
    simp only [constantArray_eq, Pass.eval_bind_eq_ok_iff, Pass.eval_ofExcept_eq_ok_iff] at hcompute
    obtain ⟨values, _, ⟨hvalues, -⟩, -⟩ := hcompute
    rw [Expr.mentions, mentionsAll_of_forall₂ (forall₂_constantElements hvalues)]
    exact .nil

theorem names_pending (htable : frame.table = table) : ∀ expressions : List Expr,
    (setting.checked → Expr.mentionsAll expressions ⊆ names) →
      (∀ name ∈ Expr.readsAll expressions, name ∉ setting.spared) →
      (∀ argument ∈ pending frame expressions, Examined setting names argument) →
        setting.Names names (Expr.mentionsAll expressions)
  | [], _, _, _ => .nil
  | expression :: rest, hnames, hreads, hexamined => by
    simp only [Expr.mentionsAll, List.append_subset] at hnames
    simp only [Expr.readsAll, List.forall_mem_append] at hreads
    simp only [pending, List.forall_mem_cons] at hexamined
    obtain ⟨hfirst, hrest⟩ := hexamined
    refine Setting.Names.append ?_
      (names_pending htable rest (fun hchecked => (hnames hchecked).2) hreads.2 hrest)
    rcases hfirst with ⟨size, rfl⟩ | ⟨expected, hexpected, hreached⟩
    · exact .nil
    · exact names_lowerExpr htable expression (fun hchecked => (hnames hchecked).1) hreads.1 hexpected
        hreached

theorem names_pendingFields (htable : frame.table = table) : ∀ fields : List FieldValue,
    (setting.checked → FieldValue.mentionsAll fields ⊆ names) →
      (∀ name ∈ FieldValue.readsAll fields, name ∉ setting.spared) →
      (∀ field ∈ pendingFields frame fields, Followed setting names field.lower) →
        setting.Names names (FieldValue.mentionsAll fields)
  | [], _, _, _ => .nil
  | ⟨name, value⟩ :: rest, hnames, hreads, hfollowed => by
    simp only [FieldValue.mentionsAll, List.append_subset] at hnames
    simp only [FieldValue.readsAll, List.forall_mem_append] at hreads
    simp only [pendingFields, List.forall_mem_cons] at hfollowed
    obtain ⟨⟨expected, hexpected, hreached⟩, hrest⟩ := hfollowed
    exact (names_lowerExpr htable value (fun hchecked => (hnames hchecked).1) hreads.1 hexpected
      hreached).append
        (names_pendingFields htable rest (fun hchecked => (hnames hchecked).2) hreads.2 hrest)

end

/-- The variables that the target of an assignment mentions are declared or known. -/
theorem names_lowerTarget (htable : frame.table = table) {target : Expr} {place : Place}
    (h : (lowerTarget frame target).eval body = .ok (place, last))
    (hsound : body.Sound setting names) (hnames : setting.checked → target.mentions ⊆ names)
    (hreads : ∀ name ∈ target.reads, name ∉ setting.spared) :
    setting.Names names target.mentions := by
  refine names_place h hsound htable hnames hreads ?_
  rintro array index rfl hreached
  simp only [Expr.mentions, List.cons_subset] at hnames
  simp only [Expr.reads, List.forall_mem_cons] at hreads
  exact names_lowerExpr htable index (fun hchecked => (hnames hchecked).2) hreads.2 (by simp) hreached

end Lowering

end ThreeAddress
