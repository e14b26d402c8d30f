import ThreeAddress.Proofs.Contract.Basic
import ThreeAddress.Proofs.Contract.Occurrences

/-!
# Expressions abide by a contract

Lowering an expression mentions only types with a runtime representation, and only of them it asks
for the size. So the one invariant that it can break is that both operands of a binary operator come
out at the same type. The code that it emits calls what the expression calls, in the order of
evaluation.

## Main definitions

* `Operation.Clashes`: a binary expression whose operands come out at different types in a given state.
* `Contract.Foresees`: a contract that knows the faults of some binary expressions.
* `Lowering.Secure`: a way of lowering an expression that abides by a contract.

## Main statements

* `Lowering.eq_of_operandsDiffer`: what the operands are if they differ.
* `Lowering.secure_lowerExpr`: lowering an expression abides by a contract.
-/

namespace ThreeAddress

variable {table : TypeTable} {contract : Contract table} {calls : List String} {body : Body}

namespace Lowering

-- ════════════════════════
-- Places
-- ════════════════════════

theorem abides_variableNamed (name : String) :
    Abides contract [] (fun var => var.ty.Grounded) (variableNamed name) := by
  intro body hbody
  refine abidesAt_get (abides_ofExcept (flawless_variableNamed body.scope name) ?_ hbody)
  intro var hvar
  obtain ⟨hfound, hstorable⟩ := Scope.variableNamed_eq_ok_iff.mp hvar
  exact hbody.find? hfound hstorable

theorem abides_load (target : String) {ty : Ty} (address : Operand) (h : ty.Grounded) :
    Abides contract [] (fun _ => True) (emit (.load target ty address)) :=
  abides_emit (by simpa [Instr.mentions] using h.isConcrete) rfl

theorem abides_store {value : Value} (address : Operand) (h : value.ty.Grounded) :
    Abides contract [] (fun _ => True) (emit (.store value address)) :=
  abides_emit (by simpa [Instr.mentions] using h.isConcrete) rfl

theorem abides_loadInto (target : String) {place : Place} (h : place.ty.Grounded) :
    Abides contract [] Ty.Grounded (loadInto target place) :=
  (abides_load target place.address h).bind fun _ _ => abides_pure h

theorem abides_follow {ty : Ty} (address : Operand) (h : ty.Grounded) :
    Abides contract [] (fun _ => True) (follow ty address) :=
  (abides_temporary fun _ => h).bind fun _ _ =>
    (abides_load _ address h).bind fun _ _ => abides_pure trivial

/-- As many references are followed as the type has, so there is one for each load. -/
theorem abides_followAll {place : Place} {depth : Nat} (h : place.ty.Grounded)
    (hdepth : depth ≤ place.ty.refDepth) :
    Abides contract [] (fun place => place.ty.Grounded) (followAll place depth) := by
  induction depth generalizing place with
  | zero => exact abides_pure h
  | succ depth ih =>
    obtain ⟨address, ty⟩ := place
    refine (abides_follow address h).bind fun pointer _ => ?_
    cases h with
    | ref htarget => exact ih htarget (Nat.le_of_succ_le_succ hdepth)
    | _ => cases hdepth

theorem abides_variablePlace (name : String) :
    Abides contract [] (fun place => place.ty.Grounded) (variablePlace name) :=
  (abides_variableNamed name).map fun _ h => h

theorem abides_derefPlace (name : String) (depth : Nat) :
    Abides contract [] (fun place => place.ty.Grounded) (derefPlace name depth) := by
  refine (abides_variableNamed name).bind fun var hvar => ?_
  refine (abides_ofExcept (P := fun _ => depth ≤ var.ty.refDepth)
    (flawless_dereferenced name var.ty depth) ?_).bind fun _ hdepth => ?_
  · exact fun _ hpath => Ty.le_refDepth_of_dereferenced hpath
  · exact abides_followAll hvar hdepth

theorem abides_memberPlace {definition : StructTy} (address : Operand) (position : Nat)
    {member : Member} (h : member.ty.Grounded) :
    Abides contract [] (fun place => place.ty.Grounded)
      (memberPlace definition address position member) := by
  refine (abides_temporary fun _ => .ref h).bind fun target _ => ?_
  refine (abides_emit ?_ rfl).bind fun _ _ => abides_pure h
  simp [Instr.mentions, Value.index, Value.immediate, Ty.isConcrete]

theorem abides_memberNamed {definition : StructTy} (h : (Ty.struct definition).Grounded)
    (field : String) :
    Abides contract [] (fun found => found.2.ty.Grounded)
      (Pass.ofExcept (definition.memberNamed field)) := by
  refine abides_ofExcept (flawless_memberNamed definition field) fun found hfound => ?_
  exact (Setting.grounded contract.grounded).member h found.2 (mem_of_memberNamed hfound)

theorem abides_structAddress {var : Var} (h : var.ty.Grounded) :
    Abides contract [] (fun _ => True) (structAddress var) := by
  unfold structAddress
  split
  · exact abides_follow var.operand h
  · exact abides_pure trivial

theorem abides_fieldPlace (base field : String) :
    Abides contract [] (fun place => place.ty.Grounded) (fieldPlace base field) := by
  refine (abides_variableNamed base).bind fun var hvar => ?_
  refine (abides_ofExcept (P := fun definition => (Ty.struct definition).Grounded)
    (flawless_requireStruct base var.ty) ?_).bind fun definition hdefinition => ?_
  · intro definition hstruct
    rcases Ty.eq_of_requireStruct hstruct with hty | hty <;> rw [hty] at hvar
    · exact hvar
    · exact (Setting.grounded contract.grounded).target hvar
  refine (abides_structAddress hvar).bind fun address _ => ?_
  exact (abides_memberNamed hdefinition field).bind fun found hfound =>
    abides_memberPlace address found.1 hfound

theorem abides_elementPlace (array : String) {index : Lowering Value}
    (hindex : Abides contract calls (fun value => value.ty.Grounded) index) :
    Abides contract calls (fun place => place.ty.Grounded) (elementPlace array index) := by
  refine (abides_variableNamed array).bind fun var hvar => ?_
  refine (abides_ofExcept (P := Ty.Grounded) (flawless_requireArray array var.ty) ?_).bind
    fun member hmember => ?_
  · intro member harray
    obtain ⟨extent, hty⟩ := Ty.eq_of_requireArray harray
    rw [hty] at hvar
    exact (Setting.grounded contract.grounded).element hvar
  refine (abides_follow var.operand hvar).bind fun address _ => ?_
  refine hindex.finish fun index hindex => ?_
  refine (abides_require (by simp)).bind fun _ _ => ?_
  refine (abides_temporary fun _ => .ref hmember).bind fun target _ => ?_
  refine (abides_emit ?_ rfl).bind fun _ _ => abides_pure hmember
  simp [Instr.mentions, hmember.isConcrete, hindex.isConcrete]

-- ════════════════════════
-- Arguments
-- ════════════════════════

/-- A way of lowering an expression that abides by a contract, whatever type with a runtime
representation is asked for. -/
def Secure (contract : Contract table) (calls : List String) (lower : Option Ty → Lowering Value) :
    Prop :=
  ∀ expected, (∀ ty ∈ expected, ty.Grounded) →
    Abides contract calls (fun value => value.ty.Grounded) (lower expected)

/-- An argument that is lowered by a contract, with the calls in its expression. -/
def SecureArgument (contract : Contract table) (argument : Pending) : Prop :=
  Secure contract (argument.expression.callees contract.symbol) argument.lower

/-- The symbols that the calls in some arguments go to. -/
def argumentCallees (contract : Contract table) (arguments : List Pending) : List String :=
  Expr.calleesAll contract.symbol (arguments.map Pending.expression)

theorem Secure.at {lower : Option Ty → Lowering Value} (h : Secure contract calls lower) {ty : Ty}
    (hty : ty.Grounded) :
    Abides contract calls (fun value => value.ty.Grounded) (lower (some ty)) :=
  h (some ty) (by simpa using hty)

theorem Secure.unasked {lower : Option Ty → Lowering Value} (h : Secure contract calls lower) :
    Abides contract calls (fun value => value.ty.Grounded) (lower none) :=
  h none (by simp)

theorem abides_passArguments {arguments : List Pending} {parameters : List Ty}
    (harguments : ∀ argument ∈ arguments, SecureArgument contract argument)
    (hparameters : ∀ ty ∈ parameters, ty.Grounded) :
    Abides contract (argumentCallees contract arguments)
      (fun values => ∀ value ∈ values, value.ty.Grounded) (passArguments arguments parameters) := by
  induction arguments generalizing parameters with
  | nil => exact abides_pure (by simp)
  | cons argument rest ih =>
    rw [List.forall_mem_cons] at harguments
    cases parameters with
    | nil =>
      refine harguments.1.unasked.append fun value hvalue => ?_
      refine (ih harguments.2 hparameters).finish fun values hvalues => ?_
      exact abides_pure (List.forall_mem_cons.mpr ⟨hvalue, hvalues⟩)
    | cons parameter parameters =>
      rw [List.forall_mem_cons] at hparameters
      refine (harguments.1.at hparameters.1).append fun value hvalue => ?_
      refine (abides_expectType _ _ _).bind fun _ _ => ?_
      refine (ih harguments.2 hparameters.2).finish fun values hvalues => ?_
      exact abides_pure (List.forall_mem_cons.mpr ⟨hvalue, hvalues⟩)

theorem abides_promote {value : Value} (h : value.ty.Grounded) :
    Abides contract [] (fun value => value.ty.Grounded) (promote value) := by
  unfold promote
  split
  · refine (abides_temporary fun _ => .int _).bind fun target _ => ?_
    refine (abides_emit ?_ rfl).bind fun _ _ => abides_pure (.int _)
    simpa [Instr.mentions] using ⟨h.isConcrete, rfl⟩
  · exact abides_pure h

theorem abides_passVariadic {arguments : List Pending}
    (harguments : ∀ argument ∈ arguments, SecureArgument contract argument) :
    Abides contract (argumentCallees contract arguments)
      (fun values => ∀ value ∈ values, value.ty.Grounded) (passVariadic arguments) := by
  induction arguments with
  | nil => exact abides_pure (by simp)
  | cons argument rest ih =>
    rw [List.forall_mem_cons] at harguments
    refine harguments.1.unasked.append fun value hvalue => ?_
    refine (abides_promote hvalue).bind fun value hvalue => ?_
    refine (ih harguments.2).finish fun values hvalues => ?_
    exact abides_pure (List.forall_mem_cons.mpr ⟨hvalue, hvalues⟩)

/-- A size is a literal, in which there is no call. -/
theorem abides_sizeArgument (builtin : Builtin) (size : Expr) :
    Abides contract (size.callees contract.symbol) (fun value => value.ty.Grounded)
      (Pass.ofExcept (sizeArgument builtin size)) := by
  cases size with
  | integer value =>
    refine abides_ofExcept (flawless_sizeArgument builtin _) fun found hfound => ?_
    simp only [sizeArgument] at hfound
    split at hfound
    · cases hfound
      exact .int _
    · cases hfound
  | _ => exact abides_fail (by simp)

-- ════════════════════════
-- Calls
-- ════════════════════════

theorem abides_emit_call (target : Option String) (callee : String) {signature : Signature}
    {arguments : List Value} (hsignature : signature.Grounded)
    (harguments : ∀ argument ∈ arguments, argument.ty.Grounded) :
    Abides contract [callee] (fun _ => True) (emit (.call target callee signature arguments)) := by
  show Abides contract (Instr.call target callee signature arguments).callee?.toList _ _
  refine abides_emit_any fun ty hmem => Ty.Grounded.isConcrete ?_
  simp only [Instr.mentions, List.mem_append, Option.mem_toList, List.mem_map] at hmem
  rcases hmem with (hmem | hmem) | ⟨argument, hmem, rfl⟩
  · exact hsignature.returns ty hmem
  · exact hsignature.parameters ty hmem
  · exact harguments argument hmem

theorem abides_callSupport (function : Support) (target : Option String) {arguments : List Value}
    (harguments : ∀ argument ∈ arguments, argument.ty.Grounded) :
    Abides contract [function.name] (fun _ => True) (callSupport function target arguments) :=
  abides_emit_call target function.name function.grounded harguments

theorem abides_printFormat {format : Pending} {values : List Pending} (target : Option Var)
    (harguments : ∀ argument ∈ format :: values, SecureArgument contract argument) :
    Abides contract (argumentCallees contract (format :: values) ++ [Support.printf.name])
      (fun _ => True) (printFormat format values target) := by
  rw [List.forall_mem_cons] at harguments
  rw [argumentCallees, List.map_cons, Expr.calleesAll, List.append_assoc]
  refine (harguments.1.at (.ref (.int _))).append fun format hformat => ?_
  refine (abides_require (by simp)).bind fun _ _ => ?_
  refine (abides_passVariadic harguments.2).append fun values hvalues => ?_
  exact abides_callSupport _ _ (List.forall_mem_cons.mpr ⟨hformat, hvalues⟩)

theorem abides_size {ty : Ty} (h : ty.Grounded) :
    Abides contract [] (fun _ => True) (Pass.ofExcept ty.size) := by
  obtain ⟨size, hsize⟩ := h.exists_size
  rw [hsize]
  exact abides_ofExcept (.ok size) fun _ _ => trivial

theorem argumentCallees_singleton (argument : Pending) :
    argumentCallees contract [argument] = argument.expression.callees contract.symbol := by
  simp [argumentCallees, Expr.calleesAll]

theorem abides_wrap (constructor : Support) {argument : Pending} (target : Option Var)
    (hargument : SecureArgument contract argument) :
    Abides contract (argumentCallees contract [argument] ++ [Support.malloc.name, constructor.name])
      (fun _ => True) (wrap constructor argument target) := by
  rw [argumentCallees_singleton]
  refine hargument.unasked.append fun value hvalue => ?_
  refine (abides_size hvalue).bind fun size _ => ?_
  refine (abides_temporary fun _ => .ref hvalue).bind fun payload hpayload => ?_
  refine (abides_callSupport .malloc _ (by simpa using .int _)).append fun _ _ => ?_
  refine (abides_store _ hvalue).bind fun _ _ => ?_
  refine abides_callSupport constructor _ (List.forall_mem_singleton.mpr ?_)
  rw [Var.value, hpayload]
  exact .ref hvalue

/-- A register that has no type yet, or one with a runtime representation. -/
def Awaits (target : Var) : Prop := target.ty.isConcrete → target.ty.Grounded

theorem abides_unwrap {argument : Pending} {target : Option Var}
    (hargument : SecureArgument contract argument) (htarget : ∀ var ∈ target, Awaits var) :
    Abides contract (argumentCallees contract [argument]) Ty.Grounded (unwrap argument target) := by
  have hty : (payloadTy target).Grounded :=
    (value_payloadTy htarget : (Setting.grounded contract.grounded).value (payloadTy target))
  rw [argumentCallees_singleton]
  refine (hargument.at .result).finish fun value hvalue => ?_
  refine (abides_require (by simp)).bind fun _ _ => ?_
  refine (abides_temporary fun _ => .ref hty).bind fun payload _ => ?_
  refine (abides_emit (by simpa [Instr.mentions] using hvalue.isConcrete) rfl).bind fun _ _ => ?_
  have hload (written : Var) : Abides contract [] Ty.Grounded (do
      emit (.load written.register (payloadTy target) payload.operand)
      return payloadTy target) :=
    (abides_load _ _ hty).bind fun _ _ => abides_pure hty
  cases target with
  | none => exact (abides_temporary fun _ => hty).bind fun written _ => hload written
  | some var => exact hload var

theorem abides_allocate (size : Pending) (target : Option Var) :
    Abides contract (argumentCallees contract [size] ++ [Support.malloc.name]) (fun _ => True)
      (allocate size target) := by
  rw [argumentCallees_singleton]
  exact (abides_sizeArgument .alloc size.expression).append fun _ hsize =>
    abides_callSupport _ _ (List.forall_mem_singleton.mpr hsize)

theorem abides_reallocate {pointer : Pending} (size : Pending) (target : Option Var)
    (hpointer : SecureArgument contract pointer) :
    Abides contract (argumentCallees contract [pointer, size] ++ [Support.realloc.name])
      (fun _ => True) (reallocate pointer size target) := by
  rw [argumentCallees, List.map_cons, Expr.calleesAll, List.append_assoc, ← argumentCallees,
    argumentCallees_singleton]
  refine (hpointer.at (.ref (.int _))).append fun pointer hpointer => ?_
  refine (abides_require (by simp)).bind fun _ _ => ?_
  refine (abides_sizeArgument .realloc size.expression).append fun size hsize => ?_
  exact abides_callSupport _ _
    (List.forall_mem_cons.mpr ⟨hpointer, List.forall_mem_singleton.mpr hsize⟩)

theorem Abides.andReturn {pass : Lowering Unit} (h : Abides contract calls (fun _ => True) pass)
    {ty : Ty} (hty : ty.Grounded) : Abides contract calls Ty.Grounded (do pass; return ty) :=
  h.finish fun _ _ => abides_pure hty

theorem Builtin.grounded (builtin : Builtin) : builtin.resultTy.Grounded := by
  cases builtin with
  | printf | unwrap => exact .int _
  | ok | err => exact .result
  | alloc | realloc => exact .ref (.int _)

/-- A built-in calls its support functions behind the calls in its arguments. -/
theorem abides_callBuiltin {builtin : Builtin} {arguments : List Pending} {target : Option Var}
    (harguments : ∀ argument ∈ arguments, SecureArgument contract argument)
    (htarget : ∀ var ∈ target, Awaits var) :
    Abides contract (argumentCallees contract arguments ++ builtin.support.map Support.name)
      Ty.Grounded (callBuiltin builtin arguments target) := by
  unfold callBuiltin
  split
  · exact abides_fail (by simp)
  · exact (abides_printFormat target harguments).andReturn (Builtin.grounded _)
  · exact (abides_wrap .makeOk target (harguments _ (by simp))).andReturn (Builtin.grounded _)
  · exact (abides_wrap .makeErr target (harguments _ (by simp))).andReturn (Builtin.grounded _)
  · simpa [Builtin.support] using abides_unwrap (harguments _ (by simp)) htarget
  · exact (abides_allocate _ target).andReturn (Builtin.grounded _)
  · exact (abides_reallocate _ target (harguments _ (by simp))).andReturn (Builtin.grounded _)
  · exact abides_fail (by simp)

/-- A function is called by the symbol that its name is bound to. -/
theorem abides_callFunction {callee : String} {arguments : List Pending} {target : Option Var}
    (harguments : ∀ argument ∈ arguments, SecureArgument contract argument) :
    Abides contract (argumentCallees contract arguments ++ [contract.symbol callee])
      (fun returned => ∀ ty ∈ returned, ty.Grounded) (callFunction callee arguments target) := by
  intro body hbody
  have hnamed : Abides contract []
      (fun found => found.2.Grounded ∧ found.1.register = contract.symbol callee)
      (Pass.ofExcept (body.scope.functionNamed callee)) := by
    refine abides_ofExcept (flawless_functionNamed body.scope callee) fun found hfound => ?_
    obtain ⟨hfind, hty⟩ := Scope.functionNamed_eq_ok_iff.mp hfound
    exact ⟨hbody.scope.binds.functions hfind hty, hbody.scope.symbols hfind hty⟩
  refine abidesAt_get (hnamed.bind (fun (function, signature) ⟨hsignature, hsymbol⟩ => ?_) hbody)
  refine (abides_require (by simp)).bind fun _ _ => ?_
  refine (abides_require (by simp)).bind fun _ _ => ?_
  refine (abides_passArguments harguments hsignature.parameters).append fun values hvalues => ?_
  rw [← hsymbol]
  refine (abides_emit_call _ _ hsignature hvalues).finish fun _ _ => ?_
  exact abides_pure hsignature.returns

theorem abides_call {callee : String} {arguments : List Pending} {target : Option Var}
    (harguments : ∀ argument ∈ arguments, SecureArgument contract argument)
    (htarget : ∀ var ∈ target, Awaits var) :
    Abides contract (argumentCallees contract arguments ++ calleesOf contract.symbol callee)
      (fun returned => ∀ ty ∈ returned, ty.Grounded) (call callee arguments target) := by
  unfold call calleesOf
  cases Builtin.ofName? callee with
  | some builtin =>
    refine (abides_report _).bind fun _ _ => ?_
    exact (abides_callBuiltin harguments htarget).map fun ty hty => by simpa using hty
  | none => exact abides_callFunction harguments

theorem abides_callForValue {callee : String} {arguments : List Pending} {target : Var}
    (harguments : ∀ argument ∈ arguments, SecureArgument contract argument)
    (htarget : Awaits target) :
    Abides contract (argumentCallees contract arguments ++ calleesOf contract.symbol callee)
      Ty.Grounded (callForValue callee arguments target) := by
  refine (abides_call harguments (by simpa using htarget)).finish fun returned hreturned => ?_
  cases returned with
  | none => exact abides_fail (by simp)
  | some ty => exact abides_pure (hreturned ty rfl)

-- ════════════════════════
-- Compound expressions
-- ════════════════════════

/-- A value is computed into a register that is made first. -/
theorem abidesAt_compute {expected : Option Ty} {computation : Var → Lowering Ty}
    (hexpected : ∀ ty ∈ expected, ty.Grounded) (hbody : body.Upholds contract)
    (h : ∀ target middle, Awaits target →
      (temporary ((expected.filter Ty.isStorable).getD .dynamic)).eval body = .ok (target, middle) →
        middle.Upholds contract → AbidesAt contract calls Ty.Grounded (computation target) middle) :
    AbidesAt contract calls (fun value => value.ty.Grounded) (compute expected computation) body := by
  have hty : ((expected.filter Ty.isStorable).getD .dynamic).isConcrete →
      ((expected.filter Ty.isStorable).getD .dynamic).Grounded := by
    intro hconcrete
    cases hfilter : expected.filter Ty.isStorable with
    | none =>
      rw [hfilter] at hconcrete
      cases hconcrete
    | some asked => exact hexpected asked (Option.filter_eq_some_iff.mp hfilter).1
  rw [compute_eq]
  refine (abides_temporary hty hbody).bind fun target middle hrun hmiddle htarget => ?_
  refine (h target middle (by rw [Awaits, htarget]; exact hty) hrun hmiddle).finish
    fun ty last _ hlast hty => ?_
  exact (abides_pure (P := fun value : Value => value.ty.Grounded) hty) hlast

theorem abides_compute {expected : Option Ty} {computation : Var → Lowering Ty}
    (hexpected : ∀ ty ∈ expected, ty.Grounded)
    (h : ∀ target, Awaits target → Abides contract calls Ty.Grounded (computation target)) :
    Abides contract calls (fun value => value.ty.Grounded) (compute expected computation) :=
  fun _ hbody => abidesAt_compute hexpected hbody fun target _ htarget _ hmiddle =>
    h target htarget hmiddle

theorem abides_addressConstant (constant : Constant) (target : Var) :
    Abides contract [] (fun _ => True) (addressConstant constant target) := by
  refine (abides_intern constant).bind fun symbol _ => abides_emit ?_ rfl
  cases constant <;>
    simp [Instr.mentions, Constant.ty, Value.index, Value.immediate, Ty.isConcrete]

/-- The members are given by expressions, and the calls are those in these. -/
theorem abides_storeFields {frame : Frame} {definition : StructTy} {address : Operand}
    {fields : List FieldValue} (hdefinition : (Ty.struct definition).Grounded)
    (hfields : ∀ field ∈ fields,
      Secure contract (field.value.callees contract.symbol) (lowerExpr frame field.value)) :
    Abides contract (FieldValue.calleesAll contract.symbol fields) (fun _ => True)
      (storeFields definition address (pendingFields frame fields)) := by
  induction fields with
  | nil => exact abides_nothing
  | cons entry rest ih =>
    obtain ⟨field, value⟩ := entry
    rw [List.forall_mem_cons] at hfields
    rw [pendingFields_cons, FieldValue.calleesAll]
    refine (abides_memberNamed hdefinition field).bind fun (position, member) hmember => ?_
    refine (hfields.1.at hmember).append fun value hvalue => ?_
    refine (abides_expectType _ _ _).bind fun _ _ => ?_
    refine (abides_memberPlace address position hmember).bind fun place _ => ?_
    exact (abides_store place.address hvalue).bind fun _ _ => ih hfields.2

theorem abides_buildStruct {frame : Frame} (hframe : frame.table = table) (struct : String)
    {fields : List FieldValue} (target : Var)
    (hfields : ∀ field ∈ fields,
      Secure contract (field.value.callees contract.symbol) (lowerExpr frame field.value)) :
    Abides contract (FieldValue.calleesAll contract.symbol fields) Ty.Grounded
      (buildStruct frame struct (pendingFields frame fields) target) := by
  refine (abides_ofExcept (P := fun definition => (Ty.struct definition).Grounded)
    (flawless_get frame.table struct) ?_).bind fun definition hdefinition => ?_
  · intro definition hget
    exact contract.grounded definition (hframe ▸ TypeTable.mem_of_get hget)
  refine (abides_temporary fun _ => hdefinition).bind fun slot hslot => ?_
  have hgrounded : slot.ty.Grounded := hslot ▸ hdefinition
  refine (abides_reserve hgrounded).bind fun _ _ => ?_
  refine (abides_storeFields hdefinition hfields).finish fun _ _ => ?_
  exact abides_loadInto target.register hgrounded

/-- The elements of a constant array are literals, in which there is no call. -/
theorem calleesAll_of_constantElements {symbol : String → String} {width : Width}
    {elements : List Expr} {values : List Int} (h : constantElements width elements = .ok values) :
    Expr.calleesAll symbol elements = [] := by
  have hall := forall₂_constantElements h
  clear h
  induction hall with
  | nil => rfl
  | @cons element value elements values helement _ ih =>
    rw [Expr.calleesAll, ih, List.append_nil]
    cases element with
    | integer | boolean => rw [Expr.callees]
    | _ => cases helement

theorem abides_constantArray (elements : List Expr) (target : Var) :
    Abides contract (Expr.calleesAll contract.symbol elements) Ty.Grounded
      (constantArray elements target) := by
  rw [constantArray_eq]
  refine (abides_ofExcept (flawless_constantElements _ elements) fun _ h => h).bind
    fun values hvalues => ?_
  rw [calleesAll_of_constantElements hvalues]
  exact (abides_addressConstant _ target).andReturn (.array _ (.int _))

-- ════════════════════════
-- Binary operators
-- ════════════════════════

theorem eq_int_of_supports {ty : Ty} {operator : Operator} (h : ty.supports operator) :
    ∃ width, ty = .int width := by
  cases ty with
  | int width => exact ⟨width, rfl⟩
  | _ => cases h

/-- Where an integer is asked for, only references and success or error values go with it besides. -/
theorem eq_of_agrees_int {width : Width} {ty : Ty} (h : (Ty.int width).agrees ty) :
    ty = .int width ∨ ty.isReference ∨ ty = .result := by
  cases ty with
  | int other => exact Or.inl (by simpa [Ty.agrees, eq_comm] using h)
  | ref target => exact Or.inr (Or.inl rfl)
  | result => exact Or.inr (Or.inr rfl)
  | _ => simp [Ty.agrees] at h

/-- A literal goes with an integer type only at that very type. -/
theorem ty_literal_of_agrees {frame : Frame} {literal : Expr} {width : Width} {value : Value}
    {last : Body} (hliteral : literal.isLiteral)
    (h : (lowerExpr frame literal (some (.int width))).eval body = .ok (value, last))
    (hagrees : (Ty.int width).agrees value.ty) : value.ty = .int width := by
  cases literal with
  | integer number =>
    rw [lowerExpr_integer] at h
    obtain ⟨rfl, -⟩ := Pass.eval_pure_eq_ok_iff.mp h
    rfl
  | boolean truth =>
    rw [lowerExpr_boolean] at h
    obtain ⟨rfl, -⟩ := Pass.eval_pure_eq_ok_iff.mp h
    rcases eq_of_agrees_int hagrees with hty | hreference | hresult
    · exact hty
    · cases hreference
    · cases hresult
  | _ => cases hliteral

/-- If the operands of a binary operator both go with its type and still differ, the left one has that
type and the right one is a reference or a success or error value. -/
theorem eq_of_operandsDiffer {frame : Frame} {lhs rhs : Expr} {expected : Option Ty} {width : Width}
    {left right : Value} {middle : Body}
    (hcommon : commonType frame.table body.scope lhs rhs expected = .ok (.int width))
    (hleft : (lowerExpr frame lhs (some (.int width))).eval body = .ok (left, middle))
    (hkeyed : body.scope.Keyed) (hagrees : (Ty.int width).agrees left.ty)
    (hagrees' : (Ty.int width).agrees right.ty) (hdiffer : left.ty ≠ right.ty) :
    left.ty = .int width ∧ (right.ty.isReference ∨ right.ty = .result) := by
  have hty : left.ty = .int width := by
    unfold commonType at hcommon
    by_cases hliteral : lhs.isLiteral
    · exact ty_literal_of_agrees hliteral hleft hagrees
    · rw [if_pos (by simpa using hliteral)] at hcommon
      exact ty_lowerExpr hleft hkeyed hcommon (Or.inr rfl)
  refine ⟨hty, (eq_of_agrees_int hagrees').resolve_left fun hsame => ?_⟩
  exact hdiffer (hty.trans hsame.symm)

end Lowering

/-- Lowering an operation from the given body, where a value of the expected type is asked for, stops at a
fault and leaves the last body behind. A register was made for the value, and then the operands were
lowered at an integer type: the left one came out at that type, the right one as a reference or as a
success or error value, and the fault says so. -/
structure Operation.Clashes (frame : Frame) (operation : Operation) (expected : Option Ty)
    (body : Body) (fault : Fault) (last : Body) : Prop where
  operands : ∃ target made width left middle right,
    (Lowering.temporary ((expected.filter Ty.isStorable).getD .dynamic)).eval body =
      .ok (target, made) ∧
    (Lowering.lowerExpr frame operation.lhs (some (.int width))).eval made = .ok (left, middle) ∧
    (Lowering.lowerExpr frame operation.rhs (some (.int width))).eval middle = .ok (right, last) ∧
    left.ty = .int width ∧ (right.ty.isReference ∨ right.ty = .result) ∧
    fault = .operandsDiffer operation.operator left.ty right.ty
  stops : (Lowering.lowerExpr frame operation.expression expected).Stops body (.internal fault) last

namespace Contract

/-- A contract that knows the faults that a binary expression meets where lowering runs it. -/
def Knows (contract : Contract table) (frame : Frame) (operation : Operation) : Prop :=
  ∀ expected body fault last,
    contract.runs (Lowering.lowerExpr frame operation.expression expected) body →
      operation.Clashes frame expected body fault last → contract.faults fault last

/-- A contract that knows the faults of some binary expressions. -/
def Foresees (contract : Contract table) (frame : Frame) (operations : List Operation) : Prop :=
  ∀ operation ∈ operations, contract.Knows frame operation

variable {frame : Frame}

theorem foresees_append {operations more : List Operation} :
    contract.Foresees frame (operations ++ more) ↔
      contract.Foresees frame operations ∧ contract.Foresees frame more :=
  List.forall_mem_append

theorem foresees_cons {operation : Operation} {rest : List Operation} :
    contract.Foresees frame (operation :: rest) ↔
      contract.Knows frame operation ∧ contract.Foresees frame rest :=
  List.forall_mem_cons

end Contract

namespace Lowering

theorem stops_applyOperator_of_ne {frame : Frame} {operator : Operator} {lhs rhs : Pending}
    {target : Var} {ty : Ty} {left right : Value} {middle last : Body}
    (hcommon : commonType frame.table body.scope lhs.expression rhs.expression
      (if target.dynamic || operator.isComparison then none else some target.ty) = .ok ty)
    (hsupports : ty.supports operator)
    (hleft : (lhs.lower (some ty)).eval body = .ok (left, middle))
    (hright : (rhs.lower (some ty)).eval middle = .ok (right, last))
    (hagrees : ty.agrees left.ty) (hagrees' : ty.agrees right.ty) (hne : left.ty ≠ right.ty) :
    (applyOperator frame operator lhs rhs target).Stops body
      (.internal (.operandsDiffer operator left.ty right.ty)) last := by
  have hrequire {condition : Bool} (h : condition = true) (diagnostic : Diagnostic) (state : Body) :
      (Pass.require condition diagnostic).eval state = .ok ((), state) :=
    Pass.eval_require_eq_ok_iff.mpr ⟨h, rfl⟩
  refine Pass.stops_bind_iff.mpr (Or.inr ⟨_, _, Pass.eval_get body, ?_⟩)
  refine Pass.stops_bind_iff.mpr (Or.inr
    ⟨ty, body, Pass.eval_ofExcept_eq_ok_iff.mpr ⟨hcommon, rfl⟩, ?_⟩)
  refine Pass.stops_bind_iff.mpr (Or.inr ⟨_, _, hrequire hsupports _ _, ?_⟩)
  refine Pass.stops_bind_iff.mpr (Or.inr ⟨_, _, hleft, ?_⟩)
  refine Pass.stops_bind_iff.mpr (Or.inr ⟨_, _, hright, ?_⟩)
  refine Pass.stops_bind_iff.mpr (Or.inr ⟨_, _, hrequire hagrees _ _, ?_⟩)
  refine Pass.stops_bind_iff.mpr (Or.inr ⟨_, _, hrequire hagrees' _ _, ?_⟩)
  refine Pass.stops_bind_iff.mpr (Or.inl ?_)
  rw [decide_eq_false hne]
  exact ⟨rfl, rfl⟩

/-- The value of an operation is kept in a register that is made before its operands are lowered. -/
theorem abidesAt_applyOperator {frame : Frame} {operator : Operator} {lhs rhs : Expr} {target : Var}
    {expected : Option Ty} {made : Body} {calls calls' : List String}
    (hlhs : Secure contract calls (lowerExpr frame lhs))
    (hrhs : Secure contract calls' (lowerExpr frame rhs))
    (hknows : contract.Knows frame ⟨operator, lhs, rhs⟩)
    (hruns : contract.runs (lowerExpr frame (.binary operator lhs rhs) expected) body)
    (htarget : (temporary ((expected.filter Ty.isStorable).getD .dynamic)).eval body =
      .ok (target, made))
    (hmade : made.Upholds contract) :
    AbidesAt contract (calls ++ calls') Ty.Grounded
      (applyOperator frame operator ⟨lhs, lowerExpr frame lhs⟩ ⟨rhs, lowerExpr frame rhs⟩ target)
      made := by
  let asked := if target.dynamic || operator.isComparison then none else some target.ty
  refine abidesAt_get ((abides_ofExcept
    (P := fun ty => commonType frame.table made.scope lhs rhs asked = .ok ty)
    (flawless_commonType _ _ _ _ _) (fun _ h => h) hmade).bind fun ty _ hrun _ hcommon => ?_)
  obtain ⟨-, rfl⟩ := Pass.eval_ofExcept_eq_ok_iff.mp hrun
  refine (abides_require (by simp) hmade).bind fun _ _ hrun _ hsupports => ?_
  obtain ⟨-, rfl⟩ := Pass.eval_require_eq_ok_iff.mp hrun
  obtain ⟨width, rfl⟩ := eq_int_of_supports hsupports
  refine (hlhs.at (.int width) hmade).append fun left middle hleft hmiddle _ => ?_
  refine (hrhs.at (.int width) hmiddle).finish fun right last hright hlast _ => ?_
  refine (abides_expectType _ _ _ hlast).bind fun _ _ hrun _ hagrees => ?_
  obtain ⟨-, rfl⟩ := Pass.eval_require_eq_ok_iff.mp hrun
  refine (abides_expectType _ _ _ hlast).bind fun _ _ hrun _ hagrees' => ?_
  obtain ⟨-, rfl⟩ := Pass.eval_require_eq_ok_iff.mp hrun
  refine (abidesAt_require hlast fun hsame fault hfault => ?_).bind fun _ _ _ hlast _ => ?_
  · have hdiffer := of_decide_eq_false hsame
    obtain ⟨hty, hright'⟩ :=
      eq_of_operandsDiffer hcommon hleft hmade.scope.keyed hagrees hagrees' hdiffer
    obtain rfl := Diagnostic.internal.inj hfault
    refine hknows expected body _ _ hruns
      ⟨⟨target, made, width, left, middle, right, htarget, hleft, hright, hty, hright', rfl⟩, ?_⟩
    have hstops : (applyOperator frame operator ⟨lhs, lowerExpr frame lhs⟩ ⟨rhs, lowerExpr frame rhs⟩
        target).Stops made _ _ :=
      stops_applyOperator_of_ne hcommon hsupports hleft hright hagrees hagrees' hdiffer
    rw [Operation.expression, lowerExpr_binary, compute_eq]
    exact Pass.stops_bind_iff.mpr (Or.inr ⟨_, _, htarget, Pass.stops_bind_iff.mpr (Or.inl hstops)⟩)
  refine ((abides_emit ?_ ?_).bind fun _ _ => abides_pure ?_) hlast
  · cases operator <;> simp [Operator.instruction, Instr.mentions, Ty.isConcrete]
  · cases operator <;> rfl
  · split <;> exact .int _

-- ════════════════════════
-- Expressions
-- ════════════════════════

theorem map_expression_pending (frame : Frame) (expressions : List Expr) :
    (pending frame expressions).map Pending.expression = expressions := by
  induction expressions with
  | nil => rfl
  | cons expression rest ih => rw [pending_cons, List.map_cons, ih]

theorem argumentCallees_pending (frame : Frame) (expressions : List Expr) :
    argumentCallees contract (pending frame expressions) =
      Expr.calleesAll contract.symbol expressions := by
  rw [argumentCallees, map_expression_pending]

mutual

/-- Lowering an expression stops only at the faults of its binary operators, and the code it adds
calls what the expression calls. -/
theorem secure_lowerExpr {frame : Frame} (hframe : frame.table = table) : ∀ expression : Expr,
    contract.Foresees frame expression.operations →
      Secure contract (expression.callees contract.symbol) (lowerExpr frame expression)
  | .integer value, _, expected, _ => by
    rw [lowerExpr_integer, Expr.callees]
    refine abides_pure ?_
    unfold Value.immediate Ty.ofLiteral
    split <;> exact .int _
  | .boolean value, _, _, _ => by
    rw [lowerExpr_boolean, Expr.callees]
    exact abides_pure (.int _)
  | .address name, _, _, _ => by
    rw [lowerExpr_address, Expr.callees]
    exact (abides_variableNamed name).bind fun _ hvar => abides_pure (.ref hvar)
  | .text value, _, _, hexpected => by
    rw [lowerExpr_text, Expr.callees]
    exact abides_compute hexpected fun target _ =>
      (abides_addressConstant _ target).andReturn (.ref (.int _))
  | .variableRef name, _, _, hexpected => by
    rw [lowerExpr_variableRef, Expr.callees]
    exact abides_compute hexpected fun target _ =>
      (abides_variablePlace name).bind fun _ hplace => abides_loadInto target.register hplace
  | .binary operator lhs rhs, hfaults, _, hexpected => by
    rw [Expr.callees]
    rw [Expr.operations, Contract.foresees_cons, Contract.foresees_append] at hfaults
    refine fun body hbody => .of_runs fun hruns => ?_
    rw [lowerExpr_binary]
    exact abidesAt_compute hexpected hbody fun target made _ htarget hmade =>
      abidesAt_applyOperator (secure_lowerExpr hframe lhs hfaults.2.1)
        (secure_lowerExpr hframe rhs hfaults.2.2) hfaults.1 hruns htarget hmade
  | .call callee arguments, hfaults, _, hexpected => by
    rw [lowerExpr_call, Expr.callees, ← argumentCallees_pending frame]
    rw [Expr.operations] at hfaults
    exact abides_compute hexpected fun target htarget =>
      abides_callForValue (secure_pending hframe arguments hfaults) htarget
  | .deref name depth, _, _, hexpected => by
    rw [lowerExpr_deref, Expr.callees]
    exact abides_compute hexpected fun target _ =>
      (abides_derefPlace name depth).bind fun _ hplace => abides_loadInto target.register hplace
  | .field base field, _, _, hexpected => by
    rw [lowerExpr_field, Expr.callees]
    exact abides_compute hexpected fun target _ =>
      (abides_fieldPlace base field).bind fun _ hplace => abides_loadInto target.register hplace
  | .element array index, hfaults, _, hexpected => by
    rw [lowerExpr_element, Expr.callees]
    rw [Expr.operations] at hfaults
    exact abides_compute hexpected fun target _ =>
      (abides_elementPlace array (secure_lowerExpr hframe index hfaults).unasked).finish
        fun _ hplace => abides_loadInto target.register hplace
  | .build struct fields, hfaults, _, hexpected => by
    rw [lowerExpr_build, Expr.callees]
    rw [Expr.operations] at hfaults
    exact abides_compute hexpected fun target _ =>
      abides_buildStruct hframe struct target (secure_fields hframe fields hfaults)
  | .array elements, _, _, hexpected => by
    rw [lowerExpr_array, Expr.callees]
    exact abides_compute hexpected fun target _ => abides_constantArray elements target

theorem secure_pending {frame : Frame} (hframe : frame.table = table) : ∀ expressions : List Expr,
    contract.Foresees frame (Expr.operationsAll expressions) →
      ∀ argument ∈ pending frame expressions, SecureArgument contract argument
  | [], _ => by simp [pending]
  | expression :: rest, hfaults => by
    rw [Expr.operationsAll, Contract.foresees_append] at hfaults
    rw [pending_cons]
    exact List.forall_mem_cons.mpr
      ⟨secure_lowerExpr hframe expression hfaults.1, secure_pending hframe rest hfaults.2⟩

theorem secure_fields {frame : Frame} (hframe : frame.table = table) :
    ∀ fields : List FieldValue, contract.Foresees frame (FieldValue.operationsAll fields) →
      ∀ field ∈ fields,
        Secure contract (field.value.callees contract.symbol) (lowerExpr frame field.value)
  | [], _ => by simp
  | ⟨name, value⟩ :: rest, hfaults => by
    rw [FieldValue.operationsAll, Contract.foresees_append] at hfaults
    exact List.forall_mem_cons.mpr
      ⟨secure_lowerExpr hframe value hfaults.1, secure_fields hframe rest hfaults.2⟩

end

/-- The target of an assignment, with the calls in its index. -/
theorem abides_lowerTarget {frame : Frame} (hframe : frame.table = table) {target : Expr}
    (hfaults : contract.Foresees frame target.operations) :
    Abides contract (target.callees contract.symbol) (fun place => place.ty.Grounded)
      (lowerTarget frame target) := by
  cases target with
  | variableRef name =>
    rw [Expr.callees]
    exact abides_variablePlace name
  | deref name depth =>
    rw [Expr.callees]
    exact abides_derefPlace name depth
  | field base field =>
    rw [Expr.callees]
    exact abides_fieldPlace base field
  | element array index =>
    rw [Expr.operations] at hfaults
    rw [Expr.callees]
    exact abides_elementPlace array (secure_lowerExpr hframe index hfaults).unasked
  | _ => exact abides_fail (by simp)

end Lowering

end ThreeAddress
