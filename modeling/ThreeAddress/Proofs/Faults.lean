import ThreeAddress.Proofs.Contract.Function
import ThreeAddress.Proofs.Emission.Session

/-!
# Faults

Lowering a module breaks one of its own invariants in one situation only: the operands of a binary
operator are lowered at an integer type, and the right one comes out as a reference or as a success or
error value. All other faults are out of reach, whatever the module is.

## Main definitions

* `Contract.ofSession`: the contract of lowering a function, which knows only such faults.

## Main statements

* `internal_iff_exists_session`: the function that a module stops at a fault in.
* `Session.exists_clashes`: the operation of that function, and the state in which it is lowered.
* `internal_iff_exists_clashes`: when lowering a module stops at a fault.
-/

namespace ThreeAddress

/-- If lowering functions fails, then in one of them, and those before it are lowered. -/
theorem eval_lowerFunctions_eq_error_iff {table : TypeTable} {functions : List BoundFunction}
    {draft : Draft} {diagnostic : Diagnostic} :
    (lowerFunctions table functions).eval draft = .error diagnostic ↔
      ∃ before function after codes middle, functions = before ++ function :: after ∧
        (lowerFunctions table before).eval draft = .ok (codes, middle) ∧
        (lowerFunction table function).eval middle = .error diagnostic := by
  constructor
  · intro h
    induction functions generalizing draft with
    | nil => cases h
    | cons first rest ih =>
      rcases Pass.eval_bind_eq_error_iff.mp h with hfirst | ⟨code, between, hfirst, h⟩
      · exact ⟨[], first, rest, [], draft, rfl, rfl, hfirst⟩
      rcases Pass.eval_bind_eq_error_iff.mp h with hrest | ⟨_, _, -, h⟩
      · obtain ⟨before, function, after, codes, middle, rfl, hbefore, hfunction⟩ := ih hrest
        exact ⟨first :: before, function, after, code :: codes, middle, rfl,
          eval_lowerFunctions_cons.mpr ⟨code, between, codes, hfirst, hbefore, rfl⟩, hfunction⟩
      · cases h
  · rintro ⟨before, function, after, codes, middle, rfl, hbefore, hfunction⟩
    induction before generalizing draft codes with
    | nil =>
      obtain ⟨-, rfl⟩ := Pass.eval_pure_eq_ok_iff.mp hbefore
      exact Pass.eval_bind_eq_error_iff.mpr (Or.inl hfunction)
    | cons first before ih =>
      obtain ⟨code, between, others, hfirst, hothers, -⟩ := eval_lowerFunctions_cons.mp hbefore
      refine Pass.eval_bind_eq_error_iff.mpr (Or.inr ⟨code, between, hfirst, ?_⟩)
      exact Pass.eval_bind_eq_error_iff.mpr (Or.inl (ih others hothers))

theorem eval_writeFunctions_eq_error_iff {table : TypeTable} {functions : List BoundFunction}
    {globals : Globals} {diagnostic : Diagnostic} :
    (writeFunctions table functions).eval globals = .error diagnostic ↔
      (lowerFunctions table functions).eval { globals } = .error diagnostic := by
  rw [eval_writeFunctions]
  cases (lowerFunctions table functions).eval { globals } <;> simp [Except.map]

theorem lower_eq_error_iff {module : Module} {diagnostic : Diagnostic} :
    (lower module).result = .error diagnostic ↔
      (assemble (Scope.ownFunctions {}) module).eval { root := Scope.nest {} } =
        .error diagnostic :=
  Pass.eval_eq_error_iff.symm

/-- Structs and signatures are not where an invariant is broken, so a module stops at a fault in one of its
functions. -/
theorem internal_iff_exists_session {module : Module} {fault : Fault} :
    (lower module).result = .error (.internal fault) ↔
      ∃ session : Session {} module,
        (lowerFunction session.table session.function).eval session.draft =
          .error (.internal fault) := by
  rw [lower_eq_error_iff]
  constructor
  · intro hrun
    simp only [assemble, Pass.eval_bind_eq_error_iff] at hrun
    rcases hrun with hrun | ⟨support, declared, hsupport, hrun | ⟨_, _, hreport, hrun |
      ⟨table, _, hstructs, hrun | ⟨bound, named, hbind, hrun | ⟨_, _, -, hrun | ⟨_, _, -, hrun⟩⟩⟩⟩⟩⟩
    · exact absurd hrun (flawless_declareSupport _ fault)
    · cases hrun
    · exact absurd hrun (flawless_defineStructs _ _ fault)
    · exact absurd hrun (flawless_bindFunctions _ _ _ fault)
    · obtain rfl := Pass.eval_report_eq_ok_iff.mp hreport
      obtain rfl := eq_of_eval_defineStructs hstructs
      obtain ⟨before, function, after, codes, middle, rfl, hbefore, hfunction⟩ :=
        eval_lowerFunctions_eq_error_iff.mp (eval_writeFunctions_eq_error_iff.mp hrun)
      exact ⟨⟨table, codes, middle, function, support, declared, before, after, named, hsupport,
        hstructs, hbind, hbefore⟩, hfunction⟩
    · cases hrun
    · cases hrun
  · rintro ⟨session, hfunction⟩
    obtain ⟨support, declared, before, after, named, hsupport, hstructs, hbind, hbefore⟩ :=
      session.reached
    refine Pass.eval_bind_eq_error_iff.mpr (Or.inr ⟨_, _, hsupport, ?_⟩)
    refine Pass.eval_bind_eq_error_iff.mpr (Or.inr ⟨_, _, Pass.eval_report _ _, ?_⟩)
    refine Pass.eval_bind_eq_error_iff.mpr (Or.inr ⟨_, _, hstructs, ?_⟩)
    refine Pass.eval_bind_eq_error_iff.mpr (Or.inr ⟨_, _, hbind, ?_⟩)
    refine Pass.eval_bind_eq_error_iff.mpr (Or.inl ?_)
    exact eval_writeFunctions_eq_error_iff.mpr (eval_lowerFunctions_eq_error_iff.mpr
      ⟨before, _, after, _, _, rfl, hbefore, hfunction⟩)

section Sessions

variable {module : Module} (session : Session {} module)

/-- The contract of lowering a function. Functions are called by the symbols that the module scope binds
them to, and the known faults are those of the binary expressions in the body of the function, where it
runs them. -/
def Contract.ofSession : Contract session.table where
  grounded := session.grounded_table
  symbol name := ((session.draft.globals.root.find? name).map Var.register).getD name
  runs pass body := (lowerFunction session.table session.function).Runs session.draft pass body
  first := .first
  next := .next
  faults fault last := ∃ operation ∈ Block.operations session.function.definition.body,
    ∃ expected body,
      (lowerFunction session.table session.function).Runs session.draft
        (Lowering.lowerExpr session.frame operation.expression expected) body ∧
      operation.Clashes session.frame expected body fault last

theorem Contract.foresees_ofSession :
    (Contract.ofSession session).Foresees session.frame
      (Block.operations session.function.definition.body) :=
  fun operation hmem expected body _ _ hruns hclashes =>
    ⟨operation, hmem, expected, body, hruns, hclashes⟩

theorem Session.upholds_root :
    session.draft.globals.root.Upholds (Contract.ofSession session) where
  keyed := session.keyed_root Scope.Keyed.empty
  binds := session.binds_root
  symbols hfound _ := by simp [Contract.ofSession, hfound]

/-- A function that stops at a fault does so at an operation of its body that it runs. -/
theorem Session.exists_clashes {fault : Fault} {final : Draft}
    (h : (lowerFunction session.table session.function).Stops session.draft (.internal fault)
      final) :
    ∃ operation ∈ Block.operations session.function.definition.body, ∃ expected body last,
      (lowerFunction session.table session.function).Runs session.draft
        (Lowering.lowerExpr session.frame operation.expression expected) body ∧
      operation.Clashes session.frame expected body fault last ∧ final = last.draft := by
  have hgrounded := session.grounded_table.denoteSignature session.signature_eq
  have hsignature := (Pass.eval_ofExcept_eq_ok_iff.mpr ⟨session.requireSignature_eq, rfl⟩ :
    (Pass.ofExcept session.function.requireSignature).eval session.draft = .ok (_, session.draft))
  -- Nothing but its definition can stop a function whose name is bound with a signature.
  rcases Pass.stops_bind_iff.mp h with h | ⟨_, _, hreport, h⟩
  · cases h.1
  obtain rfl := Pass.eval_report_eq_ok_iff.mp hreport
  rcases Pass.stops_bind_iff.mp h with h | ⟨_, _, hfound, h⟩
  · have hrun := h.eval
    rw [hsignature] at hrun
    cases hrun
  have hself : (lowerFunction session.table session.function).Runs session.draft
    (lowerFunction session.table session.function) session.draft := .self
  have hruns := ((hself.next hreport).next hsignature).focus
  rw [hsignature] at hfound
  cases hfound
  obtain ⟨last, hstops, rfl⟩ := Pass.stops_focus_iff.mp h
  have hframe : Frame.Grounded session.table session.frame :=
    Prologue.grounded_frame rfl hgrounded.returns _
  obtain ⟨operation, hmem, expected, body, hruns, hclashes⟩ :=
    Lowering.faults_lowerDefinition (TypeTable.length_denoteSignature session.signature_eq) hgrounded
      rfl hframe (Draft.upholds_begin session.upholds_root hgrounded rfl)
      (Contract.foresees_ofSession session) hruns hstops
  exact ⟨operation, hmem, expected, body, last, hruns, hclashes, rfl⟩

end Sessions

/-- Lowering a module breaks one of its own invariants exactly if, in one of its functions, it runs into a
binary expression whose operands clash. The left one was lowered at an integer type, and the right one came
out as a reference or as a success or error value. Lowering the function stops there. -/
theorem internal_iff_exists_clashes {module : Module} {fault : Fault} :
    (lower module).result = .error (.internal fault) ↔
      ∃ session : Session {} module, session.function.definition ∈ module.functions ∧
        ∃ operation ∈ Block.operations session.function.definition.body, ∃ expected body last,
          (lowerFunction session.table session.function).Runs session.draft
            (Lowering.lowerExpr session.frame operation.expression expected) body ∧
          operation.Clashes session.frame expected body fault last ∧
          (lowerFunction session.table session.function).Stops session.draft (.internal fault)
            last.draft := by
  rw [internal_iff_exists_session]
  constructor
  · rintro ⟨session, hfunction⟩
    have hstops := Pass.stops_of_eval hfunction
    obtain ⟨operation, hmem, expected, body, last, hruns, hclashes, hlast⟩ :=
      session.exists_clashes hstops
    exact ⟨session, session.definition_mem, operation, hmem, expected, body, last, hruns, hclashes,
      hlast ▸ hstops⟩
  · rintro ⟨session, -, operation, -, expected, body, last, -, -, hstops⟩
    exact ⟨session, hstops.eval⟩

/-- A module that prints the sum of a number and the address that it is kept at. -/
def addressed : Module where
  items := [.function {
    name := "main"
    parameters := [⟨"count", "i32"⟩]
    returns := none
    body := [.eval (.call "printf" [.text "%d",
      .binary .add (.variableRef "count") (.address "count")])] }]

theorem exists_clashes_addressed :
    ∃ session : Session {} addressed, ∃ operation ∈ Block.operations session.function.definition.body,
      ∃ expected body last,
        (lowerFunction session.table session.function).Runs session.draft
          (Lowering.lowerExpr session.frame operation.expression expected) body ∧
        operation.Clashes session.frame expected body (.operandsDiffer .add .i32 (.ref .i32)) last := by
  have h : (lower addressed).result = .error (.internal (.operandsDiffer .add .i32 (.ref .i32))) := by
    decide +kernel
  obtain ⟨session, -, operation, hmem, expected, body, last, hruns, hclashes, -⟩ :=
    internal_iff_exists_clashes.mp h
  exact ⟨session, operation, hmem, expected, body, last, hruns, hclashes⟩

end ThreeAddress
