import ThreeAddress.Proofs.Contract.Flawless
import ThreeAddress.Proofs.Emission.Evolution
import ThreeAddress.Proofs.Typing.Grounded

/-!
# Contracts of passes

What lowering promises about the body it works on: all types in scope have a runtime representation,
functions are called by the symbols they are bound to, and the invariants of the lowering are broken at
known faults and in known states only. A pass that keeps such a contract also says which functions the
code it emits calls, in order.

## Main definitions

* `Contract`: the symbols of functions, the states that are worked on, and the faults that are known.
* `Scope.Upholds`, `Body.Upholds`: a scope and a body that uphold a contract.
* `Body.callees`: the functions that the instructions so far call.
* `Lowering.Abides`: a pass that keeps a contract.

## Main statements

* `Lowering.Abides.bind`, `Lowering.Abides.append`: a sequence abides if its parts do.
* `Lowering.abides_emit`: emitting an instruction whose types have a runtime representation.
-/

namespace ThreeAddress

/-- The symbol that a call names. -/
def Instr.callee? : Instr → Option String
  | call _ callee _ _ => some callee
  | _ => none

namespace Body

/-- The symbols that the instructions so far call, in order. -/
def callees (body : Body) : List String :=
  (body.entry ++ body.code).filterMap Instr.callee?

theorem callees_mint (body : Body) (base : String) (ty : Ty) :
    (body.mint base ty).callees = body.callees := rfl

theorem callees_append (body : Body) (instruction : Instr) :
    (body.append instruction).callees = body.callees ++ instruction.callee?.toList := by
  simp only [callees, code_append, entry_append, List.filterMap_append, List.append_assoc]
  cases hcallee : instruction.callee? <;> simp [hcallee]

theorem callees_reserve (body : Body) (slot : Var) : (body.reserve slot).callees = body.callees := by
  simp [callees, List.filterMap_cons, Instr.callee?]

end Body

-- ════════════════════════
-- Contracts
-- ════════════════════════

/-- What lowering promises while it works on the functions of a module. -/
structure Contract (table : TypeTable) where
  /-- The structs have a runtime representation. -/
  grounded : table.Grounded
  /-- The symbol that a name is bound to as a function. -/
  symbol : String → String
  /-- The passes that lowering is made of, with the bodies that they are run from. -/
  runs : {α : Type} → Lowering α → Body → Prop
  first : ∀ {α β : Type} {first : Lowering α} {next : α → Lowering β} {body : Body},
    runs (first >>= next) body → runs first body
  next : ∀ {α β : Type} {first : Lowering α} {next : α → Lowering β} {body middle : Body} {value : α},
    runs (first >>= next) body → first.eval body = .ok (value, middle) → runs (next value) middle
  /-- The faults that lowering may stop at, with the body that it leaves behind. -/
  faults : Fault → Body → Prop

variable {table : TypeTable} {contract : Contract table}

/-- A scope that upholds a contract. -/
structure Scope.Upholds (contract : Contract table) (scope : Scope) : Prop where
  keyed : scope.Keyed
  binds : (Setting.grounded contract.grounded).Binds [] scope
  symbols : ∀ {name var signature}, scope.find? name = some var → var.ty = .function signature →
    var.register = contract.symbol name

namespace Scope.Upholds

variable {scope : Scope}

/-- A variable that is no function may be bound under any name. -/
theorem insert (h : scope.Upholds contract) {name : String} {var : Var}
    (hty : var.ty.isConcrete → var.ty ≠ .label → var.ty.Grounded)
    (hname : name = var.register ∨ scope.inUse name) : (scope.insert name var).Upholds contract where
  keyed := h.keyed.insert hname
  binds := h.binds.insert (List.Subset.refl _) hty fun _ => Or.inr trivial
  symbols {other found signature} hfound hfunction := by
    by_cases heq : other = name
    · subst heq
      rw [find?_insert_self] at hfound
      cases hfound
      rw [hfunction] at hty
      exact absurd rfl ((hty rfl (by simp)).ne_function signature)
    · rw [find?_insert_of_ne _ _ heq] at hfound
      exact h.symbols hfound hfunction

theorem mint (h : scope.Upholds contract) (base : String) {ty : Ty}
    (hty : ty.isConcrete → ty ≠ .label → ty.Grounded) : (scope.mint base ty).2.Upholds contract :=
  h.insert hty (Or.inl rfl)

theorem bind (h : scope.Upholds contract) (name : String) {ty : Ty} (hty : ty.Grounded) :
    (scope.bind name ty).2.Upholds contract :=
  h.insert (fun _ _ => hty) (scope.eq_newRegister_or_inUse name)

theorem addConstant (h : scope.Upholds contract) (constant : Constant) :
    (scope.mint constant.base constant.ty).2.Upholds contract := by
  refine h.mint _ fun _ _ => ?_
  cases constant <;> exact .array _ (.int _)

theorem enter (h : scope.Upholds contract) {parameters : List (String × Ty)}
    (hparameters : ∀ parameter ∈ parameters, parameter.2.Grounded) :
    (scope.enter parameters).2.Upholds contract := by
  induction parameters generalizing scope with
  | nil => exact h
  | cons parameter rest ih =>
    rw [List.forall_mem_cons] at hparameters
    exact ih ((h.mint _ fun _ _ => hparameters.1).bind _ hparameters.1) hparameters.2

end Scope.Upholds

/-- A body that upholds a contract, in its own scope and in that of the module. -/
structure Body.Upholds (contract : Contract table) (body : Body) : Prop where
  scope : body.scope.Upholds contract
  root : body.globals.root.Upholds contract

namespace Body.Upholds

variable {body : Body}

theorem find? (h : body.Upholds contract) {name : String} {var : Var}
    (hfound : body.scope.find? name = some var) (hstorable : var.ty.isStorable) : var.ty.Grounded :=
  (h.scope.binds.vars hfound hstorable).1

theorem mint (h : body.Upholds contract) (base : String) {ty : Ty}
    (hty : ty.isConcrete → ty ≠ .label → ty.Grounded) : (body.mint base ty).Upholds contract :=
  ⟨h.scope.mint base hty, h.root⟩

theorem rebind (h : body.Upholds contract) (name : String) {ty : Ty} (hty : ty.Grounded) :
    (body.rebind name ty).Upholds contract :=
  ⟨h.scope.bind name hty, h.root⟩

theorem addConstant (h : body.Upholds contract) (constant : Constant) :
    (body.addConstant constant).Upholds contract :=
  ⟨h.scope, h.root.addConstant constant⟩

theorem reserve (h : body.Upholds contract) (slot : Var) : (body.reserve slot).Upholds contract :=
  ⟨h.scope, h.root⟩

theorem append (h : body.Upholds contract) (instruction : Instr) :
    (body.append instruction).Upholds contract :=
  ⟨h.scope, h.root⟩

end Body.Upholds

-- ════════════════════════
-- Passes
-- ════════════════════════

namespace Lowering

variable {α β : Type} {P : α → Prop} {Q : β → Prop} {calls calls' : List String} {body : Body}

/-- A pass that keeps a contract where lowering runs it from the given body. If it succeeds, the code it
adds calls the given symbols in order, and its result is of the given kind. If it stops at a fault, then at
one that is known in the state it stops in. -/
structure AbidesAt (contract : Contract table) (calls : List String) (P : α → Prop)
    (pass : Lowering α) (body : Body) : Prop where
  ok : contract.runs pass body → ∀ {value last}, pass.eval body = .ok (value, last) →
    last.Upholds contract ∧ last.callees = body.callees ++ calls ∧ P value
  error : contract.runs pass body → ∀ {fault last}, pass.Stops body (.internal fault) last →
    contract.faults fault last

/-- A pass that keeps a contract. -/
def Abides (contract : Contract table) (calls : List String) (P : α → Prop) (pass : Lowering α) :
    Prop :=
  ∀ ⦃body⦄, body.Upholds contract → AbidesAt contract calls P pass body

/-- Whether a pass abides only matters where lowering runs it. -/
theorem AbidesAt.of_runs {pass : Lowering α}
    (h : contract.runs pass body → AbidesAt contract calls P pass body) :
    AbidesAt contract calls P pass body :=
  ⟨fun hruns => (h hruns).ok hruns, fun hruns => (h hruns).error hruns⟩

/-- A sequence, where what comes first is still known when the rest is looked at. -/
theorem AbidesAt.append {first : Lowering α} {next : α → Lowering β}
    (h : AbidesAt contract calls P first body)
    (h' : ∀ value middle, first.eval body = .ok (value, middle) → middle.Upholds contract → P value →
      AbidesAt contract calls' Q (next value) middle) :
    AbidesAt contract (calls ++ calls') Q (first >>= next) body where
  ok hruns _ _ hrun := by
    obtain ⟨between, middle, hfirst, hnext⟩ := Pass.eval_bind_eq_ok_iff.mp hrun
    obtain ⟨hmiddle, hcalls, hbetween⟩ := h.ok (contract.first hruns) hfirst
    obtain ⟨hlast, hcalls', hvalue⟩ :=
      (h' between middle hfirst hmiddle hbetween).ok (contract.next hruns hfirst) hnext
    exact ⟨hlast, by rw [hcalls', hcalls, List.append_assoc], hvalue⟩
  error hruns _ _ hstops := by
    rcases Pass.stops_bind_iff.mp hstops with hfirst | ⟨between, middle, hfirst, hnext⟩
    · exact h.error (contract.first hruns) hfirst
    · obtain ⟨hmiddle, -, hbetween⟩ := h.ok (contract.first hruns) hfirst
      exact (h' between middle hfirst hmiddle hbetween).error (contract.next hruns hfirst) hnext

/-- A sequence that begins without a call. -/
theorem AbidesAt.bind {first : Lowering α} {next : α → Lowering β}
    (h : AbidesAt contract [] P first body)
    (h' : ∀ value middle, first.eval body = .ok (value, middle) → middle.Upholds contract → P value →
      AbidesAt contract calls Q (next value) middle) :
    AbidesAt contract calls Q (first >>= next) body :=
  h.append h'

/-- A sequence that ends without a call. -/
theorem AbidesAt.finish {first : Lowering α} {next : α → Lowering β}
    (h : AbidesAt contract calls P first body)
    (h' : ∀ value middle, first.eval body = .ok (value, middle) → middle.Upholds contract → P value →
      AbidesAt contract [] Q (next value) middle) :
    AbidesAt contract calls Q (first >>= next) body := by
  rw [← List.append_nil calls]
  exact h.append h'

theorem Abides.append {first : Lowering α} {next : α → Lowering β} (h : Abides contract calls P first)
    (h' : ∀ value, P value → Abides contract calls' Q (next value)) :
    Abides contract (calls ++ calls') Q (first >>= next) :=
  fun _ hbody => (h hbody).append fun value _ _ hmiddle hvalue => h' value hvalue hmiddle

theorem Abides.bind {first : Lowering α} {next : α → Lowering β} (h : Abides contract [] P first)
    (h' : ∀ value, P value → Abides contract calls Q (next value)) :
    Abides contract calls Q (first >>= next) :=
  h.append h'

theorem Abides.finish {first : Lowering α} {next : α → Lowering β} (h : Abides contract calls P first)
    (h' : ∀ value, P value → Abides contract [] Q (next value)) :
    Abides contract calls Q (first >>= next) :=
  fun _ hbody => (h hbody).finish fun value _ _ hmiddle hvalue => h' value hvalue hmiddle

/-- A pass that begins with a look at the body. -/
theorem abidesAt_get {next : Body → Lowering α} (h : AbidesAt contract calls P (next body) body) :
    AbidesAt contract calls P (Pass.get >>= next) body := by
  constructor
  · intro hruns value last hrun
    exact h.ok (contract.next hruns (Pass.eval_get body)) (by simpa [Except.bind] using hrun)
  · intro hruns fault last hrun
    rcases Pass.stops_bind_iff.mp hrun with ⟨hget, -⟩ | ⟨_, _, hget, hnext⟩
    · cases hget
    · obtain ⟨rfl, rfl⟩ := Pass.eval_get_eq_ok_iff.mp hget
      exact h.error (contract.next hruns (Pass.eval_get body)) hnext

/-- A pass that always succeeds and adds no code. -/
theorem abides_of_eval {pass : Lowering α} {result : Body → α} {change : Body → Body}
    (hrun : ∀ body, pass.eval body = .ok (result body, change body))
    (h : ∀ body, body.Upholds contract → (change body).Upholds contract ∧ P (result body))
    (hcallees : ∀ body, (change body).callees = body.callees) : Abides contract [] P pass := by
  intro body hbody
  constructor
  · intro _ value last heq
    rw [hrun] at heq
    cases heq
    obtain ⟨hupholds, hresult⟩ := h body hbody
    exact ⟨hupholds, by rw [hcallees, List.append_nil], hresult⟩
  · intro _ fault last hstops
    have heq := hstops.eval
    rw [hrun] at heq
    cases heq

theorem abides_pure {value : α} (h : P value) : Abides contract [] P (pure value) :=
  abides_of_eval (fun _ => rfl) (fun _ hbody => ⟨hbody, h⟩) fun _ => rfl

theorem abides_nothing : Abides contract [] (fun _ => True) (pure ()) :=
  abides_pure trivial

theorem Abides.map {pass : Lowering α} (h : Abides contract calls P pass) {change : α → β}
    (hchange : ∀ value, P value → Q (change value)) :
    Abides contract calls Q (change <$> pass) := by
  rw [map_eq_pure_bind]
  exact h.finish fun value hvalue => abides_pure (hchange value hvalue)

theorem abides_ofExcept {source : Except Diagnostic α} (hflawless : Flawless source)
    (h : ∀ value, source = .ok value → P value) :
    Abides contract [] P (Pass.ofExcept source) := by
  intro body hbody
  constructor
  · intro _ value last hrun
    obtain ⟨hsource, rfl⟩ := Pass.eval_ofExcept_eq_ok_iff.mp hrun
    exact ⟨hbody, (List.append_nil _).symm, h value hsource⟩
  · intro _ fault last hstops
    exact absurd (Pass.eval_ofExcept_eq_error_iff.mp hstops.eval) (hflawless fault)

/-- A pass that fails keeps any contract that knows its fault. -/
theorem abidesAt_fail {diagnostic : Diagnostic}
    (h : ∀ fault, diagnostic = .internal fault → contract.faults fault body) :
    AbidesAt contract calls P (Pass.fail diagnostic) body := by
  constructor
  · intro _ value last hrun
    cases hrun
  · rintro _ fault _ ⟨hresult, rfl⟩
    exact h fault (Except.error.inj hresult)

theorem abidesAt_require {condition : Bool} {diagnostic : Diagnostic} (hbody : body.Upholds contract)
    (h : condition = false → ∀ fault, diagnostic = .internal fault → contract.faults fault body) :
    AbidesAt contract [] (fun _ => condition = true) (Pass.require condition diagnostic) body := by
  cases condition with
  | true => exact (abides_pure rfl : Abides contract [] (fun _ => true = true) _) hbody
  | false => exact abidesAt_fail (h rfl)

/-- A mistake in the program is no fault. -/
theorem abides_fail {diagnostic : Diagnostic} (h : ∀ fault, diagnostic ≠ .internal fault) :
    Abides contract calls P (Pass.fail diagnostic) :=
  fun _ _ => abidesAt_fail fun fault heq => absurd heq (h fault)

theorem abides_require {condition : Bool} {diagnostic : Diagnostic}
    (h : ∀ fault, diagnostic ≠ .internal fault) :
    Abides contract [] (fun _ => condition = true) (Pass.require condition diagnostic) :=
  fun _ hbody => abidesAt_require hbody fun _ fault heq => absurd heq (h fault)

theorem abides_report (events : Trace) :
    Abides contract [] (fun _ => True) (Pass.report events) :=
  abides_of_eval (fun _ => rfl) (fun _ hbody => ⟨hbody, trivial⟩) fun _ => rfl

-- ════════════════════════
-- Registers and instructions
-- ════════════════════════

theorem abides_mint (base : String) {ty : Ty} (hty : ty.isConcrete → ty ≠ .label → ty.Grounded) :
    Abides contract [] (fun var => var.ty = ty) (mint base ty) :=
  abides_of_eval (fun _ => eval_mint base ty)
    (fun _ hbody => ⟨hbody.mint base hty, rfl⟩) fun _ => rfl

theorem abides_temporary {ty : Ty} (hty : ty.isConcrete → ty.Grounded) :
    Abides contract [] (fun var => var.ty = ty) (temporary ty) :=
  abides_of_eval (fun _ => rfl)
    (fun _ hbody => ⟨hbody.mint _ fun hconcrete _ => hty hconcrete, rfl⟩)
    fun _ => rfl

theorem abides_bindName (name : String) {ty : Ty} (hty : ty.Grounded) :
    Abides contract [] (fun var => var.ty = ty) (bindName name ty) :=
  abides_of_eval (fun _ => eval_bindName name ty)
    (fun _ hbody => ⟨hbody.rebind name hty, rfl⟩) fun _ => rfl

theorem abides_newLabel (base : String) : Abides contract [] (fun _ => True) (newLabel base) :=
  (abides_mint base fun _ hne => absurd rfl hne).map fun _ _ => trivial

/-- An instruction is only refused for a type that has no runtime representation. -/
theorem eval_checkConcrete_of_forall {instruction : Instr}
    (h : ∀ ty ∈ instruction.mentions, ty.isConcrete) :
    (checkConcrete instruction).eval body = .ok ((), body) := by
  have hnone : instruction.placeholder? = none := by
    rw [Instr.placeholder?, List.find?_eq_none]
    simpa using h
  rw [checkConcrete, hnone]
  rfl

theorem eval_separate_ne_error (instruction : Instr) (diagnostic : Diagnostic) :
    (separate instruction).eval body ≠ .error diagnostic := by
  cases instruction <;> cases hclosed : body.isClosed <;>
    simp [separate, hclosed, Except.bind]

/-- What an instruction calls is what it adds to the calls of a body. -/
theorem callees_of_eval_emit {instruction : Instr} {result : Unit} {last : Body}
    (h : (emit instruction).eval body = .ok (result, last)) :
    last.callees = body.callees ++ instruction.callee?.toList := by
  rcases eval_emit_cases h with ⟨-, rfl⟩ | ⟨name, rfl, -, rfl⟩ | ⟨-, -, rfl⟩
  · exact body.callees_append instruction
  · rw [Body.callees_append, Body.callees_append]
    simp [Instr.callee?]
  · rw [Body.callees_append, Body.callees_append, Body.callees_mint]
    simp [Instr.callee?]

theorem eval_emit_ne_error {instruction : Instr} (h : ∀ ty ∈ instruction.mentions, ty.isConcrete)
    (diagnostic : Diagnostic) : (emit instruction).eval body ≠ .error diagnostic := by
  intro hrun
  simp only [emit, Pass.eval_bind_eq_error_iff, eval_checkConcrete_of_forall h] at hrun
  rcases hrun with hrun | ⟨_, _, -, hrun | ⟨_, _, -, hrun⟩⟩
  · cases hrun
  · exact eval_separate_ne_error instruction _ hrun
  · cases hrun

theorem abides_emit_any {instruction : Instr} (h : ∀ ty ∈ instruction.mentions, ty.isConcrete) :
    Abides contract instruction.callee?.toList (fun _ => True) (emit instruction) := by
  intro body hbody
  constructor
  · intro _ result last hrun
    refine ⟨?_, callees_of_eval_emit hrun, trivial⟩
    rcases eval_emit_cases hrun with ⟨-, rfl⟩ | ⟨name, -, -, rfl⟩ | ⟨-, -, rfl⟩
    · exact hbody.append _
    · exact (hbody.append _).append _
    · exact ((hbody.mint "dead" fun _ hne => absurd rfl hne).append _).append _
  · intro _ fault last hstops
    exact absurd hstops.eval (eval_emit_ne_error h _)

/-- An instruction that is no call. -/
theorem abides_emit {instruction : Instr} (h : ∀ ty ∈ instruction.mentions, ty.isConcrete)
    (hcallee : instruction.callee? = none) :
    Abides contract [] (fun _ => True) (emit instruction) := by
  have habides : Abides contract instruction.callee?.toList (fun _ => True) (emit instruction) :=
    abides_emit_any h
  rwa [hcallee] at habides

/-- Labels and branches mention no types. -/
theorem abides_emit_control {instruction : Instr} (h : instruction.mentions = [])
    (hcallee : instruction.callee? = none) :
    Abides contract [] (fun _ => True) (emit instruction) :=
  abides_emit (by simp [h]) hcallee

theorem abides_reserve {slot : Var} (h : slot.ty.Grounded) :
    Abides contract [] (fun _ => True) (reserve slot) := by
  have hconcrete : ∀ ty ∈ (Instr.alloca slot.register slot.ty).mentions, ty.isConcrete := by
    simpa [Instr.mentions] using h.isConcrete
  have hrun (body : Body) : (reserve slot).eval body = .ok ((), body.reserve slot) := by
    rw [reserve, Pass.eval_bind, eval_checkConcrete_of_forall hconcrete]
    rfl
  exact abides_of_eval hrun (fun _ hbody => ⟨hbody.reserve slot, trivial⟩) fun body =>
    body.callees_reserve slot

theorem abides_intern (constant : Constant) :
    Abides contract [] (fun _ => True) (intern constant) := by
  intro body hbody
  constructor
  · intro _ symbol last hrun
    rcases eval_intern hrun with rfl | rfl
    · exact ⟨hbody, (List.append_nil _).symm, trivial⟩
    · exact ⟨hbody.addConstant constant, (List.append_nil _).symm, trivial⟩
  · intro _ fault last hstops
    have hrun := hstops.eval
    rw [eval_intern_eq] at hrun
    cases hrun

theorem abides_expectType (site : Site) (expected actual : Ty) :
    Abides contract [] (fun _ => expected.agrees actual) (expectType site expected actual) :=
  abides_require (by simp)

end Lowering

end ThreeAddress
