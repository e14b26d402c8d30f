import ThreeAddress.Proofs.Emission.Routine

/-!
# Warnings

The only warning is about a function that may end without a return. No other pass reports one, so the
warnings of a module are those of its functions, in source order.

## Main definitions

* `Pass.Quiet`: a pass that reports no warning, whether or not it succeeds.
* `FunctionDef.missesReturn`: a function that the warning is about.

## Main statements

* `Lowering.Routine.quiet`: lowering a body is quiet.
* `warnings_lowerWith`: the warnings of a module that can be lowered.
* `warning_mem_iff`: which functions of a module are warned about.
-/

namespace ThreeAddress

namespace Pass

variable {σ τ α β : Type}

/-- What a pass reports. -/
def trace (pass : Pass σ α) (state : σ) : Trace := (pass state).trace

/-- A pass that reports no warning. -/
def Quiet (pass : Pass σ α) : Prop :=
  ∀ state, (pass.trace state).warnings = []

theorem trace_bind (first : Pass σ α) (next : α → Pass σ β) (state : σ) :
    (first >>= next).trace state = first.trace state ++
      match first.eval state with
      | .ok (value, middle) => (next value).trace middle
      | .error _ => [] := by
  show (Pass.bind first next state).trace = _
  simp only [Pass.bind, trace, eval]
  obtain ⟨result, middle, events⟩ := first state
  cases result with
  | error diagnostic => exact (List.append_nil events).symm
  | ok value => rfl

/-- The warnings of a sequence whose first part succeeds. -/
theorem warnings_bind_of_ok {first : Pass σ α} {next : α → Pass σ β} {state middle : σ} {value : α}
    (h : first.eval state = .ok (value, middle)) :
    ((first >>= next).trace state).warnings =
      (first.trace state).warnings ++ ((next value).trace middle).warnings := by
  simp [trace_bind, h, Trace.warnings]

namespace Quiet

theorem pure (value : α) : Quiet (Pure.pure value : Pass σ α) := fun _ => rfl

theorem fail (diagnostic : Diagnostic) : Quiet (Pass.fail diagnostic : Pass σ α) :=
  fun _ => rfl

theorem ofExcept (result : Except Diagnostic α) :
    Quiet (Pass.ofExcept result : Pass σ α) := fun _ => rfl

theorem require (condition : Bool) (diagnostic : Diagnostic) :
    Quiet (Pass.require condition diagnostic : Pass σ Unit) := by
  cases condition <;> exact fun _ => rfl

theorem get : Quiet (Pass.get : Pass σ σ) := fun _ => rfl

theorem modify (change : σ → σ) : Quiet (Pass.modify change) := fun _ => rfl

theorem modifyGet (change : σ → α × σ) : Quiet (Pass.modifyGet change) := fun _ => rfl

theorem report {events : Trace} (h : events.warnings = []) :
    Quiet (Pass.report events : Pass σ Unit) := fun _ => h

theorem bind {first : Pass σ α} {next : α → Pass σ β} (hfirst : Quiet first)
    (hnext : ∀ value, Quiet (next value)) : Quiet (first >>= next) := by
  intro state
  cases h : first.eval state with
  | error diagnostic =>
    rw [trace_bind, h, List.append_nil]
    exact hfirst state
  | ok pair => rw [warnings_bind_of_ok h, hfirst state, hnext pair.1 pair.2, List.nil_append]

theorem within {inner : Pass σ α} (h : Quiet inner) (start : σ) :
    Quiet (Pass.within start inner : Pass τ (α × σ)) := fun _ => h start

end Quiet

/-- A pass that has reported exactly the given warnings when it succeeds. -/
def Warns (pass : Pass σ α) (warnings : List String) : Prop :=
  ∀ ⦃state last value⦄, pass.eval state = .ok (value, last) → (pass.trace state).warnings = warnings

theorem Quiet.warns {pass : Pass σ α} (h : Quiet pass) : Warns pass [] :=
  fun state _ _ _ => h state

theorem Warns.bind {first : Pass σ α} {next : α → Pass σ β} {warnings warnings' : List String}
    (hfirst : Warns first warnings) (hnext : ∀ value, Warns (next value) warnings') :
    Warns (first >>= next) (warnings ++ warnings') := by
  intro state last value h
  obtain ⟨between, middle, hrun, hrest⟩ := eval_bind_eq_ok_iff.mp h
  rw [warnings_bind_of_ok hrun, hfirst hrun, hnext between hrest]

/-- What a quiet pass is followed by warns alone. -/
theorem Quiet.thenWarns {first : Pass σ α} {next : α → Pass σ β} {warnings : List String}
    (hfirst : Quiet first) (hnext : ∀ value, Warns (next value) warnings) :
    Warns (first >>= next) warnings :=
  hfirst.warns.bind hnext

theorem Warns.thenQuiet {first : Pass σ α} {next : α → Pass σ β} {warnings : List String}
    (hfirst : Warns first warnings) (hnext : ∀ value, Quiet (next value)) :
    Warns (first >>= next) warnings := by
  simpa using hfirst.bind fun value => (hnext value).warns

end Pass

/-- Routines report no warning. -/
theorem Lowering.Routine.quiet {α : Type} {pass : Lowering α} (h : Routine pass) : pass.Quiet := by
  induction h with
  | pure value => exact .pure value
  | fail diagnostic => exact .fail diagnostic
  | ofExcept result => exact .ofExcept result
  | require condition diagnostic => exact .require condition diagnostic
  | report h => exact .report h
  | read _ _ ih => exact Pass.Quiet.get.bind ih
  | modify change => exact .modify change
  | modifyGet change => exact .modifyGet change
  | bind _ _ ih ih' => exact ih.bind ih'

theorem quoted_inj {text other : String} : quoted text = quoted other ↔ text = other := by
  simp [quoted]

namespace FunctionDef

/-- The warning that a function may end without a return. -/
def warning (definition : FunctionDef) : String :=
  "not every path through " ++ quoted definition.name ++ " returns a value"

/-- Whether a function that yields a value may end without a return. -/
def missesReturn (definition : FunctionDef) : Bool :=
  definition.returns.isSome && !Block.mustReturn definition.body

/-- What is reported about a function. -/
def warnings (definition : FunctionDef) : List String :=
  if definition.missesReturn then [definition.warning] else []

theorem name_eq_of_warning_eq {definition other : FunctionDef}
    (h : definition.warning = other.warning) : definition.name = other.name :=
  quoted_inj.mp ((String.append_right_inj _).mp ((String.append_left_inj _).mp h))

end FunctionDef

open Pass

theorem warns_lowerDefinition {table : TypeTable} {definition : FunctionDef} {symbol : String}
    {signature : Signature} (h : signature.returns.isSome = definition.returns.isSome) :
    Warns (Lowering.lowerDefinition table definition symbol signature) definition.warnings := by
  refine (Lowering.routine_enterFunction _ _ _ _).quiet.thenWarns fun _ =>
    (Lowering.routine_lowerStmts _ _).quiet.thenWarns fun _ =>
    (Lowering.routine_leave _).quiet.thenWarns fun _ =>
    (Quiet.modify _).thenWarns fun _ => ?_
  rw [h, FunctionDef.warnings, FunctionDef.missesReturn]
  cases definition.returns.isSome && !Block.mustReturn definition.body with
  | false => exact (Quiet.bind (.report rfl) fun _ => .bind .get fun _ => .pure _).warns
  | true =>
    have hreports : Warns (Pass.report [.missingReturn definition.name] : Lowering Unit)
      [definition.warning] := fun _ _ _ _ => rfl
    exact hreports.thenQuiet fun _ => .bind (.report rfl) fun _ => .bind .get fun _ => .pure _

theorem Pass.Warns.focus {σ τ α : Type} {enter : σ → τ} {leave : τ → σ} {inner : Pass τ α}
    {warnings : List String} (h : Warns inner warnings) :
    Warns (Pass.focus enter leave inner) warnings := by
  intro state last value hrun
  rw [Pass.eval_focus] at hrun
  cases hinner : inner.eval (enter state) with
  | error diagnostic => simp [hinner, Except.map] at hrun
  | ok pair => exact h hinner

theorem warns_lowerFunction {table : TypeTable} {function : BoundFunction}
    (h : function.signature.returns.isSome = function.definition.returns.isSome) :
    Warns (lowerFunction table function) function.definition.warnings := by
  refine (Quiet.report rfl).thenWarns fun _ draft last code hrun => ?_
  obtain ⟨signature, _, hsignature, hrun⟩ := Pass.eval_bind_eq_ok_iff.mp hrun
  obtain ⟨hrequire, rfl⟩ := Pass.eval_ofExcept_eq_ok_iff.mp hsignature
  obtain rfl := BoundFunction.eq_signature hrequire
  rw [warnings_bind_of_ok hsignature, Quiet.ofExcept _ _, List.nil_append]
  exact (warns_lowerDefinition h).focus hrun

/-- Functions that are lowered in order are warned about in order. -/
theorem warns_lowerFunctions {table : TypeTable} {functions : List BoundFunction}
    (h : ∀ function ∈ functions,
      function.signature.returns.isSome = function.definition.returns.isSome) :
    Warns (lowerFunctions table functions)
      ((functions.map BoundFunction.definition).flatMap FunctionDef.warnings) := by
  induction functions with
  | nil => exact (Quiet.pure _).warns
  | cons function rest ih =>
    obtain ⟨hfirst, hrest⟩ := List.forall_mem_cons.mp h
    rw [List.map_cons, List.flatMap_cons]
    exact (warns_lowerFunction hfirst).bind fun _ => (ih hrest).thenQuiet fun _ => .pure _

theorem warns_writeFunctions {table : TypeTable} {functions : List BoundFunction}
    (h : ∀ function ∈ functions,
      function.signature.returns.isSome = function.definition.returns.isSome) :
    Warns (writeFunctions table functions)
      ((functions.map BoundFunction.definition).flatMap FunctionDef.warnings) :=
  ((warns_lowerFunctions h).thenQuiet fun _ => .bind .get fun _ => .pure _).focus

-- ════════════════════════
-- Modules
-- ════════════════════════

theorem quiet_bindGlobal (name : String) (ty : Ty) : Quiet (bindGlobal name ty) :=
  .bind (.modifyGet _) fun _ => .bind (.report rfl) fun _ => .pure _

theorem quiet_declareSupport (functions : List Support) : Quiet (declareSupport functions) := by
  induction functions with
  | nil => exact .pure _
  | cons function rest ih =>
    refine .bind .get fun _ => ?_
    split
    · exact ih
    · exact .bind (quiet_bindGlobal _ _) fun _ => .bind ih fun _ => .pure _

theorem quiet_define (definition : StructDef) : Quiet (TypeTable.define definition) :=
  .bind .get fun _ => .bind (.require _ _) fun _ => .bind (.ofExcept _) fun _ =>
    .bind (.report rfl) fun _ => .bind (.modify _) fun _ => .pure _

theorem quiet_defineStructs (table : TypeTable) (items : List Item) :
    Quiet (defineStructs table items) := by
  induction items generalizing table with
  | nil => exact .pure _
  | cons item rest ih =>
    cases item with
    | function definition => exact ih table
    | struct definition => exact .bind ((quiet_define definition).within table) fun _ => ih _
    | directive text => exact .bind (.report rfl) fun _ => ih table

theorem quiet_bindFunctions (table : TypeTable) (seen : List String)
    (definitions : List FunctionDef) : Quiet (bindFunctions table seen definitions) := by
  induction definitions generalizing seen with
  | nil => exact .pure _
  | cons definition rest ih =>
    exact .bind (.require _ _) fun _ => .bind (.ofExcept _) fun _ =>
      .bind (quiet_bindGlobal _ _) fun _ => .bind (ih _) fun _ => .pure _

/-- The functions of a module that can be lowered have different names. -/
theorem nodup_names_of_bindFunctions {table : TypeTable} {seen : List String}
    {definitions : List FunctionDef} {functions : List BoundFunction} {globals last : Globals}
    (h : (bindFunctions table seen definitions).eval globals = .ok (functions, last)) :
    (definitions.map FunctionDef.name).Nodup ∧ ∀ definition ∈ definitions, definition.name ∉ seen := by
  induction definitions generalizing globals last seen functions with
  | nil => simp
  | cons definition rest ih =>
    simp only [bindFunctions, Pass.eval_bind_eq_ok_iff, Pass.eval_require_eq_ok_iff] at h
    obtain ⟨_, _, ⟨hseen, -⟩, _, _, -, _, _, -, _, _, hrest, -⟩ := h
    obtain ⟨hnodup, hunseen⟩ := ih hrest
    have hname : ∀ other ∈ rest, other.name ≠ definition.name := fun other hmem heq =>
      hunseen other hmem (heq ▸ List.mem_cons_self)
    refine ⟨List.nodup_cons.mpr ⟨by simpa using hname, hnodup⟩, List.forall_mem_cons.mpr ⟨?_, ?_⟩⟩
    · simpa using hseen
    · exact fun other hmem hseen => hunseen other hmem (List.mem_cons_of_mem _ hseen)

variable {prelude : Scope} {module : Module} {program : Program}

/-- The warnings of a module are those of its functions, in source order. -/
theorem warnings_lowerWith (h : (lowerWith prelude module).result = .ok program) :
    (lowerWith prelude module).trace.warnings = module.functions.flatMap FunctionDef.warnings := by
  obtain ⟨support, declared, table, bound, named, last, hsupport, hstructs, hbind, hcodes, -⟩ :=
    eval_lowerWith h
  obtain ⟨hdefinitions, hsignatures, -⟩ := eval_bindFunctions hbind
  have hwarns : Warns (writeFunctions table bound) (module.functions.flatMap _) :=
    hdefinitions ▸ warns_writeFunctions fun function hmem =>
      TypeTable.isSome_returns (hsignatures function hmem)
  have hwrite := eval_writeFunctions_eq_ok_iff.mpr hcodes
  show ((assemble prelude.ownFunctions module).trace { root := prelude.nest }).warnings = _
  have hreport : (Pass.report [.moduleStarted module.items.length]).eval declared =
      .ok ((), declared) := rfl
  rw [assemble, warnings_bind_of_ok hsupport, warnings_bind_of_ok hreport,
    warnings_bind_of_ok hstructs, warnings_bind_of_ok hbind, warnings_bind_of_ok hwrite,
    quiet_declareSupport, Quiet.report rfl, quiet_defineStructs, quiet_bindFunctions, hwarns hwrite]
  exact List.append_nil _

/-- A function of a module is warned about exactly if it may end without a return. -/
theorem warning_mem_iff (h : (lowerWith prelude module).result = .ok program)
    {definition : FunctionDef} (hmem : definition ∈ module.functions) :
    definition.warning ∈ (lowerWith prelude module).trace.warnings ↔ definition.missesReturn := by
  obtain ⟨_, _, _, _, _, _, -, -, hbind, -, -⟩ := eval_lowerWith h
  obtain ⟨hnodup, -⟩ := nodup_names_of_bindFunctions hbind
  rw [warnings_lowerWith h, List.mem_flatMap]
  constructor
  · rintro ⟨other, hother, hwarning⟩
    rw [FunctionDef.warnings] at hwarning
    split at hwarning
    next hmisses =>
      have hname := FunctionDef.name_eq_of_warning_eq (List.mem_singleton.mp hwarning)
      rwa [List.inj_on_of_nodup_map hnodup hmem hother hname]
    next => cases hwarning
  · intro hmisses
    refine ⟨definition, hmem, ?_⟩
    rw [FunctionDef.warnings, if_pos hmisses]
    exact List.mem_singleton_self _

end ThreeAddress
