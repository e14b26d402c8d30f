import ThreeAddress.Proofs.Requests.Basic
import ThreeAddress.Proofs.Tally.Expr

/-!
# Expressions get what they ask for

Lowering an expression serves its requests: it reserves the stack slots of the struct values in it and
emits its calls, each in its turn, and nothing else of that kind. Only the call of a function that is not
built in depends on the scope, so for that one the scope in which the function was found is kept.

## Main statements

* `Lowering.responds_call`: a call serves its arguments and then itself.
* `Lowering.responds_lowerExpr`: lowering an expression serves what it asks for.
-/

namespace ThreeAddress

variable {table : TypeTable} {requests : List Request}

/-- An argument whose requests are served when it is lowered, whatever type is asked for. -/
def Pending.Served (table : TypeTable) (argument : Pending) : Prop :=
  ∀ expected, Lowering.Responds table argument.expression.requests (argument.lower expected)

/-- What some arguments ask for. -/
def Pending.requestsAll (arguments : List Pending) : List Request :=
  Expr.requestsAll (arguments.map Pending.expression)

theorem Pending.requestsAll_cons (argument : Pending) (rest : List Pending) :
    requestsAll (argument :: rest) = argument.expression.requests ++ requestsAll rest := by
  rw [requestsAll, List.map_cons, Expr.requestsAll, requestsAll]

theorem Pending.requestsAll_singleton (argument : Pending) :
    requestsAll [argument] = argument.expression.requests := by
  rw [requestsAll_cons, requestsAll, List.map_nil, Expr.requestsAll, List.append_nil]

namespace Lowering

-- ════════════════════════
-- Places
-- ════════════════════════

theorem responds_loadInto (target : String) (place : Place) :
    Responds table [] (loadInto target place) :=
  (responds_emit rfl rfl).bind fun _ _ => responds_pure _

theorem responds_follow (ty : Ty) (address : Operand) : Responds table [] (follow ty address) :=
  (responds_temporary ty).bind fun _ _ => (responds_emit rfl rfl).bind fun _ _ => responds_pure _

theorem responds_followAll (place : Place) (depth : Nat) :
    Responds table [] (followAll place depth) := by
  induction depth generalizing place with
  | zero => exact responds_pure _
  | succ depth ih =>
    refine (responds_follow place.ty place.address).bind fun pointer _ => ?_
    split
    · exact ih _
    · exact responds_fail _

theorem responds_structAddress (var : Var) : Responds table [] (structAddress var) := by
  unfold structAddress
  split
  · exact responds_follow var.ty var.operand
  · exact responds_pure _

theorem responds_variablePlace (name : String) : Responds table [] (variablePlace name) :=
  (responds_variableNamed name).map _

theorem responds_derefPlace (name : String) (depth : Nat) :
    Responds table [] (derefPlace name depth) := by
  refine (responds_variableNamed name).bind fun var _ => ?_
  exact (responds_ofExcept _).bind fun _ _ => responds_followAll var.place depth

theorem responds_memberPlace (definition : StructTy) (address : Operand) (position : Nat)
    (member : Member) : Responds table [] (memberPlace definition address position member) := by
  refine (responds_temporary _).bind fun target _ => ?_
  exact (responds_emit rfl rfl).bind fun _ _ => responds_pure _

theorem responds_fieldPlace (base field : String) : Responds table [] (fieldPlace base field) := by
  refine (responds_variableNamed base).bind fun var _ => ?_
  refine (responds_ofExcept _).bind fun definition _ => ?_
  refine (responds_structAddress var).bind fun address _ => ?_
  exact (responds_ofExcept _).bind fun found _ => responds_memberPlace ..

theorem responds_elementPlace (array : String) {index : Lowering Value}
    (h : Responds table requests index) : Responds table requests (elementPlace array index) := by
  refine (responds_variableNamed array).bind fun var _ => ?_
  refine (responds_ofExcept _).bind fun member _ => ?_
  refine (responds_follow var.ty var.operand).bind fun address _ => ?_
  refine h.finish fun index _ => ?_
  refine (responds_require _ _).bind fun _ _ => ?_
  refine (responds_temporary _).bind fun target _ => ?_
  exact (responds_emit rfl rfl).bind fun _ _ => responds_pure _

-- ════════════════════════
-- Arguments
-- ════════════════════════

theorem responds_passArguments {arguments : List Pending}
    (h : ∀ argument ∈ arguments, argument.Served table) (parameters : List Ty) :
    Responds table (Pending.requestsAll arguments) (passArguments arguments parameters) := by
  induction arguments generalizing parameters with
  | nil => exact responds_pure _
  | cons argument rest ih =>
    rw [List.forall_mem_cons] at h
    rw [Pending.requestsAll_cons]
    cases parameters with
    | nil =>
      refine (h.1 none).append fun value _ => ?_
      exact (ih h.2 []).finish fun _ _ => responds_pure _
    | cons parameter parameters =>
      refine (h.1 (some parameter)).append fun value _ => ?_
      refine (responds_expectType _ _ _).bind fun _ _ => ?_
      exact (ih h.2 parameters).finish fun _ _ => responds_pure _

theorem length_passArguments {arguments : List Pending} {parameters : List Ty} {values : List Value}
    {body last : Body} (h : (passArguments arguments parameters).eval body = .ok (values, last)) :
    values.length = arguments.length := by
  induction arguments generalizing parameters body values with
  | nil =>
    obtain ⟨rfl, -⟩ := Pass.eval_pure_eq_ok_iff.mp h
    rfl
  | cons argument rest ih =>
    obtain ⟨value, lowered, others, -, hothers, rfl⟩ := eval_passArguments_cons h
    rw [List.length_cons, List.length_cons, ih hothers]

theorem responds_promote (value : Value) : Responds table [] (promote value) := by
  unfold promote
  cases value.ty.promotion? with
  | none => exact responds_pure _
  | some extension =>
    refine (responds_temporary _).bind fun target _ => ?_
    exact (responds_emit rfl rfl).bind fun _ _ => responds_pure _

/-- A promoted value needs no promotion. -/
theorem promotion?_promote {value promoted : Value} (h : MayReturn (promote value) promoted) :
    promoted.ty.promotion? = none := by
  obtain ⟨body, last, hrun⟩ := h
  unfold promote at hrun
  cases hpromotion : value.ty.promotion? with
  | some extension =>
    simp only [hpromotion, Pass.eval_bind_eq_ok_iff, Pass.eval_pure_eq_ok_iff] at hrun
    obtain ⟨target, _, -, _, _, -, rfl, -⟩ := hrun
    rfl
  | none =>
    rw [hpromotion] at hrun
    obtain ⟨rfl, -⟩ := Pass.eval_pure_eq_ok_iff.mp hrun
    exact hpromotion

theorem responds_passVariadic {arguments : List Pending}
    (h : ∀ argument ∈ arguments, argument.Served table) :
    Responds table (Pending.requestsAll arguments) (passVariadic arguments) := by
  induction arguments with
  | nil => exact responds_pure _
  | cons argument rest ih =>
    rw [List.forall_mem_cons] at h
    rw [Pending.requestsAll_cons]
    refine (h.1 none).append fun value _ => ?_
    refine (responds_promote value).bind fun value _ => ?_
    exact (ih h.2).finish fun _ _ => responds_pure _

/-- Every argument behind a format text is promoted. -/
theorem promotion?_passVariadic {arguments : List Pending} {values : List Value}
    (h : MayReturn (passVariadic arguments) values) :
    ∀ value ∈ values, value.ty.promotion? = none := by
  obtain ⟨body, last, hrun⟩ := h
  induction arguments generalizing body values with
  | nil =>
    obtain ⟨rfl, -⟩ := Pass.eval_pure_eq_ok_iff.mp hrun
    simp
  | cons argument rest ih =>
    simp only [passVariadic, Pass.eval_bind_eq_ok_iff, Pass.eval_pure_eq_ok_iff] at hrun
    obtain ⟨value, _, -, promoted, _, hpromote, others, _, hothers, rfl, rfl⟩ := hrun
    exact List.forall_mem_cons.mpr ⟨promotion?_promote ⟨_, _, hpromote⟩, ih _ hothers⟩

/-- A size is a literal, which asks for nothing. -/
theorem responds_sizeArgument (builtin : Builtin) (size : Expr) :
    Responds table size.requests (Pass.ofExcept (sizeArgument builtin size)) := by
  cases size with
  | integer value =>
    rw [Expr.requests]
    exact responds_ofExcept _
  | _ => exact responds_fail _

-- ════════════════════════
-- Calls
-- ════════════════════════

section Builtins

variable {callee : String} {builtin : Builtin} {expressions : List Expr}

/-- The request for a built-in is answered by the calls of its support functions. -/
theorem serves_of_emits (hfound : Builtin.ofName? callee = some builtin) {calls : List Instr}
    {body last : Body} (hcalled : List.Forall₂ Support.IsCalled builtin.support calls)
    (h : body.Emits [] calls last) : body.Serves table [.call callee expressions] last :=
  ⟨[], calls, .of_called (.builtin hfound hcalled), h⟩

theorem responds_callSupport (hfound : Builtin.ofName? callee = some builtin) {function : Support}
    (hsupport : builtin.support = [function]) (target : Option String) {arguments : List Value}
    (hpromoted : ∀ argument ∈ arguments.drop function.signature.parameters.length,
      argument.ty.promotion? = none) :
    Responds table [.call callee expressions] (callSupport function target arguments) := by
  intro body result last hrun
  refine serves_of_emits hfound ?_ (emits_callSupport hrun)
  rw [hsupport]
  exact .cons ⟨target, arguments, rfl, hpromoted⟩ .nil

theorem responds_printFormat (hfound : Builtin.ofName? callee = some .printf) {format : Pending}
    {values : List Pending} (target : Option Var)
    (h : ∀ argument ∈ format :: values, argument.Served table) :
    Responds table (Pending.requestsAll (format :: values) ++ [.call callee expressions])
      (printFormat format values target) := by
  rw [List.forall_mem_cons] at h
  rw [Pending.requestsAll_cons, List.append_assoc]
  refine (h.1 _).append fun format _ => ?_
  refine (responds_require _ _).bind fun _ _ => ?_
  refine (responds_passVariadic h.2).append fun values hvalues => ?_
  exact responds_callSupport hfound rfl _ (promotion?_passVariadic hvalues)

/-- A success or error value is put into memory of its own before it is made. -/
theorem responds_wrap (hfound : Builtin.ofName? callee = some builtin) {constructor : Support}
    (hsupport : builtin.support = [.malloc, constructor])
    (hparameters : constructor.signature.parameters.length = 1) {argument : Pending}
    (target : Option Var) (h : argument.Served table) :
    Responds table (Pending.requestsAll [argument] ++ [.call callee expressions])
      (wrap constructor argument target) := by
  rw [Pending.requestsAll_singleton]
  refine (h none).append fun value _ => ?_
  refine (responds_ofExcept _).bind fun size _ => ?_
  refine (responds_temporary _).bind fun payload _ => ?_
  intro body result last hrun
  simp only [Pass.eval_bind_eq_ok_iff] at hrun
  obtain ⟨_, allocated, hallocate, _, stored, hstore, hmake⟩ := hrun
  have hemits := ((emits_callSupport hallocate).trans (emits_emit hstore rfl)).trans
    (emits_callSupport hmake)
  refine serves_of_emits hfound ?_ hemits
  rw [hsupport]
  refine .cons ⟨_, _, rfl, by simp [Support.signature]⟩ (.cons ⟨_, _, rfl, ?_⟩ .nil)
  simp [hparameters]

/-- A payload is read without a call. -/
theorem responds_unwrap (hfound : Builtin.ofName? callee = some .unwrap) {argument : Pending}
    (target : Option Var) (h : argument.Served table) :
    Responds table (Pending.requestsAll [argument] ++ [.call callee expressions])
      (unwrap argument target) := by
  have hread : Responds table (Pending.requestsAll [argument]) (unwrap argument target) := by
    rw [Pending.requestsAll_singleton]
    refine (h _).finish fun value _ => ?_
    refine (responds_require _ _).bind fun _ _ => ?_
    refine (responds_temporary _).bind fun payload _ => ?_
    refine (responds_emit rfl rfl).bind fun _ _ => ?_
    have hload (written : Var) : Responds table [] (do
        emit (.load written.register (payloadTy target) payload.operand)
        return payloadTy target) :=
      (responds_emit rfl rfl).bind fun _ _ => responds_pure _
    cases target with
    | none => exact (responds_temporary _).bind fun written _ => hload written
    | some var => exact hload var
  intro body ty last hrun
  exact (hread hrun).trans (serves_of_emits hfound .nil (.refl last))

theorem responds_allocate (hfound : Builtin.ofName? callee = some .alloc) (size : Pending)
    (target : Option Var) :
    Responds table (Pending.requestsAll [size] ++ [.call callee expressions])
      (allocate size target) := by
  rw [Pending.requestsAll_singleton]
  refine (responds_sizeArgument .alloc size.expression).append fun value _ => ?_
  exact responds_callSupport hfound rfl _ (by simp [Support.signature])

theorem responds_reallocate (hfound : Builtin.ofName? callee = some .realloc) {pointer : Pending}
    (size : Pending) (target : Option Var) (h : pointer.Served table) :
    Responds table (Pending.requestsAll [pointer, size] ++ [.call callee expressions])
      (reallocate pointer size target) := by
  rw [Pending.requestsAll_cons, Pending.requestsAll_singleton, List.append_assoc]
  refine (h _).append fun value _ => ?_
  refine (responds_require _ _).bind fun _ _ => ?_
  refine (responds_sizeArgument .realloc size.expression).append fun count _ => ?_
  exact responds_callSupport hfound rfl _ (by simp [Support.signature])

theorem Responds.andReturn {pass : Lowering Unit} (h : Responds table requests pass) (ty : Ty) :
    Responds table requests (do pass; return ty) :=
  h.finish fun _ _ => responds_pure _

theorem responds_callBuiltin (hfound : Builtin.ofName? callee = some builtin) {arguments : List Pending}
    (target : Option Var) (h : ∀ argument ∈ arguments, argument.Served table) :
    Responds table (Pending.requestsAll arguments ++ [.call callee expressions])
      (callBuiltin builtin arguments target) := by
  unfold callBuiltin
  split
  · exact responds_fail _
  · exact (responds_printFormat hfound target h).andReturn _
  · exact (responds_wrap hfound rfl rfl target (h _ (by simp))).andReturn _
  · exact (responds_wrap hfound rfl rfl target (h _ (by simp))).andReturn _
  · exact responds_unwrap hfound target (h _ (by simp))
  · exact (responds_allocate hfound _ target).andReturn _
  · exact (responds_reallocate hfound _ target (h _ (by simp))).andReturn _
  · exact responds_fail _

end Builtins

/-- The function is looked up before its arguments are evaluated. -/
theorem responds_callFunction {callee : String} (hmissing : Builtin.ofName? callee = none)
    {arguments : List Pending} (target : Option Var)
    (h : ∀ argument ∈ arguments, argument.Served table) :
    Responds table
      (Pending.requestsAll arguments ++ [.call callee (arguments.map Pending.expression)])
      (callFunction callee arguments target) := by
  intro body returned last hrun
  obtain ⟨function, signature, values, before, hfound, hty, -, hpass, hcall, -⟩ := eval_callFunction hrun
  obtain ⟨slots, calls, hanswered, hemits⟩ := responds_passArguments h signature.parameters hpass
  have hlength : values.length = (arguments.map Pending.expression).length := by
    rw [length_passArguments hpass, List.length_map]
  exact ⟨_, _, hanswered.append (.of_called (.function hmissing .refl hfound hty hlength)),
    hemits.trans (emits_emit hcall rfl)⟩

/-- A call serves its arguments and then itself. -/
theorem responds_call (callee : String) {arguments : List Pending} (target : Option Var)
    (h : ∀ argument ∈ arguments, argument.Served table) :
    Responds table
      (Pending.requestsAll arguments ++ [.call callee (arguments.map Pending.expression)])
      (call callee arguments target) := by
  unfold call
  cases hfound : Builtin.ofName? callee with
  | some builtin =>
    exact (responds_report _).bind fun _ _ => (responds_callBuiltin hfound target h).map _
  | none => exact responds_callFunction hfound target h

theorem responds_callForValue (callee : String) {arguments : List Pending} (target : Var)
    (h : ∀ argument ∈ arguments, argument.Served table) :
    Responds table
      (Pending.requestsAll arguments ++ [.call callee (arguments.map Pending.expression)])
      (callForValue callee arguments target) :=
  fun _ _ _ hrun => responds_call callee (some target) h (eval_callForValue hrun)

-- ════════════════════════
-- Compound expressions
-- ════════════════════════

theorem responds_compute {expected : Option Ty} {computation : Var → Lowering Ty}
    (h : ∀ target, Responds table requests (computation target)) :
    Responds table requests (compute expected computation) := by
  rw [compute_eq]
  exact (responds_temporary _).bind fun target _ => (h target).finish fun _ _ => responds_pure _

theorem responds_addressConstant (constant : Constant) (target : Var) :
    Responds table [] (addressConstant constant target) :=
  (responds_intern constant).bind fun _ _ => responds_emit rfl rfl

/-- The elements of a constant array are literals, which ask for nothing. -/
theorem requestsAll_of_constantElements {width : Width} {elements : List Expr} {values : List Int}
    (h : constantElements width elements = .ok values) : Expr.requestsAll elements = [] := by
  have hall := forall₂_constantElements h
  clear h
  induction hall with
  | nil => rw [Expr.requestsAll]
  | @cons element value elements values helement _ ih =>
    rw [Expr.requestsAll, ih, List.append_nil]
    cases element with
    | integer | boolean => rw [Expr.requests]
    | _ => cases helement

theorem responds_constantArray (elements : List Expr) (target : Var) :
    Responds table (Expr.requestsAll elements) (constantArray elements target) := by
  rw [constantArray_eq]
  refine (responds_ofExcept _).bind fun values hvalues => ?_
  rw [requestsAll_of_constantElements (eq_ok_of_mayReturn hvalues)]
  exact (responds_addressConstant _ target).andReturn _

theorem responds_storeFields {frame : Frame} (definition : StructTy) (address : Operand)
    {fields : List FieldValue}
    (h : ∀ field ∈ fields, (Pending.mk field.value (lowerExpr frame field.value)).Served table) :
    Responds table (FieldValue.requestsAll fields)
      (storeFields definition address (pendingFields frame fields)) := by
  induction fields with
  | nil =>
    rw [pendingFields, FieldValue.requestsAll]
    exact responds_pure _
  | cons entry rest ih =>
    obtain ⟨field, value⟩ := entry
    rw [List.forall_mem_cons] at h
    rw [pendingFields_cons, FieldValue.requestsAll]
    refine (responds_ofExcept _).bind fun found _ => ?_
    refine (h.1 (some found.2.ty)).append fun value _ => ?_
    refine (responds_expectType _ _ _).bind fun _ _ => ?_
    refine (responds_memberPlace ..).bind fun place _ => ?_
    exact (responds_emit rfl rfl).bind fun _ _ => ih h.2

/-- The stack slot of a struct value. -/
theorem responds_slot {struct : String} {definition : StructTy}
    (h : table.get struct = .ok definition) : Responds table [.build struct] (do
      let slot ← temporary (.struct definition)
      reserve slot
      return slot) := by
  intro body slot last hrun
  simp only [Pass.eval_bind_eq_ok_iff, eval_reserve_eq_ok_iff, Pass.eval_pure_eq_ok_iff] at hrun
  obtain ⟨slot, made, hmade, _, _, ⟨-, rfl⟩, rfl, rfl⟩ := hrun
  have hemits := (emits_temporary hmade).trans (.reserve made slot)
  obtain ⟨rfl, -⟩ := eval_temporary_eq_ok_iff.mp hmade
  exact ⟨_, [], .of_reserved (.build h), hemits⟩

/-- The stack slot is there before the members. -/
theorem responds_buildStruct {frame : Frame} (hframe : frame.table = table) (struct : String)
    {fields : List FieldValue} (target : Var)
    (h : ∀ field ∈ fields, (Pending.mk field.value (lowerExpr frame field.value)).Served table) :
    Responds table (.build struct :: FieldValue.requestsAll fields)
      (buildStruct frame struct (pendingFields frame fields) target) := by
  subst hframe
  refine (responds_ofExcept _).bind fun definition hdefinition => ?_
  have hstruct := (responds_slot (eq_ok_of_mayReturn hdefinition)).append fun slot _ =>
    (responds_storeFields definition slot.operand h).finish fun _ _ =>
      responds_loadInto target.register slot.place
  simp only [bind_assoc, pure_bind] at hstruct
  exact hstruct

theorem responds_applyOperator {frame : Frame} (operator : Operator) {lhs rhs : Pending} (target : Var)
    (hlhs : lhs.Served table) (hrhs : rhs.Served table) :
    Responds table (lhs.expression.requests ++ rhs.expression.requests)
      (applyOperator frame operator lhs rhs target) := by
  refine responds_get.bind fun body _ => ?_
  refine (responds_ofExcept _).bind fun ty _ => ?_
  refine (responds_require _ _).bind fun _ _ => ?_
  refine (hlhs (some ty)).append fun left _ => ?_
  refine (hrhs (some ty)).finish fun right _ => ?_
  refine (responds_expectType _ _ _).bind fun _ _ => ?_
  refine (responds_expectType _ _ _).bind fun _ _ => ?_
  refine (responds_require _ _).bind fun _ _ => ?_
  refine (responds_emit ?_ ?_).bind fun _ _ => responds_pure _
  · cases operator <;> rfl
  · cases operator <;> rfl

-- ════════════════════════
-- Expressions
-- ════════════════════════

theorem requestsAll_pending (frame : Frame) (expressions : List Expr) :
    Pending.requestsAll (pending frame expressions) = Expr.requestsAll expressions := by
  rw [Pending.requestsAll, map_expression_pending]

mutual

/-- Lowering an expression serves what it asks for. -/
theorem responds_lowerExpr {frame : Frame} (hframe : frame.table = table) :
    ∀ (expression : Expr) (expected : Option Ty),
      Responds table expression.requests (lowerExpr frame expression expected)
  | .integer value, _ => by
    rw [lowerExpr_integer, Expr.requests]
    exact responds_pure _
  | .boolean value, _ => by
    rw [lowerExpr_boolean, Expr.requests]
    exact responds_pure _
  | .address name, _ => by
    rw [lowerExpr_address, Expr.requests]
    exact (responds_variableNamed name).bind fun _ _ => responds_pure _
  | .text value, _ => by
    rw [lowerExpr_text, Expr.requests]
    exact responds_compute fun target => (responds_addressConstant _ target).andReturn _
  | .variableRef name, _ => by
    rw [lowerExpr_variableRef, Expr.requests]
    exact responds_compute fun target =>
      (responds_variablePlace name).bind fun place _ => responds_loadInto target.register place
  | .binary operator lhs rhs, _ => by
    rw [lowerExpr_binary, Expr.requests]
    exact responds_compute fun target => responds_applyOperator operator target
      (responds_lowerExpr hframe lhs) (responds_lowerExpr hframe rhs)
  | .call callee arguments, _ => by
    have hcall := fun target => responds_callForValue callee target (served_pending hframe arguments)
    rw [requestsAll_pending, map_expression_pending] at hcall
    rw [lowerExpr_call, Expr.requests]
    exact responds_compute hcall
  | .deref name depth, _ => by
    rw [lowerExpr_deref, Expr.requests]
    exact responds_compute fun target =>
      (responds_derefPlace name depth).bind fun place _ => responds_loadInto target.register place
  | .field base field, _ => by
    rw [lowerExpr_field, Expr.requests]
    exact responds_compute fun target =>
      (responds_fieldPlace base field).bind fun place _ => responds_loadInto target.register place
  | .element array index, _ => by
    rw [lowerExpr_element, Expr.requests]
    exact responds_compute fun target =>
      (responds_elementPlace array (responds_lowerExpr hframe index none)).finish
        fun place _ => responds_loadInto target.register place
  | .build struct fields, _ => by
    rw [lowerExpr_build, Expr.requests]
    exact responds_compute fun target =>
      responds_buildStruct hframe struct target (served_fields hframe fields)
  | .array elements, _ => by
    rw [lowerExpr_array, Expr.requests]
    exact responds_compute fun target => responds_constantArray elements target

theorem served_pending {frame : Frame} (hframe : frame.table = table) : ∀ expressions : List Expr,
    ∀ argument ∈ pending frame expressions, argument.Served table
  | [] => by simp [pending]
  | expression :: rest => by
    rw [pending]
    exact List.forall_mem_cons.mpr
      ⟨responds_lowerExpr hframe expression, served_pending hframe rest⟩

theorem served_fields {frame : Frame} (hframe : frame.table = table) : ∀ fields : List FieldValue,
    ∀ field ∈ fields, (Pending.mk field.value (lowerExpr frame field.value)).Served table
  | [] => by simp
  | ⟨_, value⟩ :: rest =>
    List.forall_mem_cons.mpr ⟨responds_lowerExpr hframe value, served_fields hframe rest⟩

end

/-- The target of an assignment asks for what its index asks for. -/
theorem responds_lowerTarget {frame : Frame} (hframe : frame.table = table) (target : Expr) :
    Responds table target.requests (lowerTarget frame target) := by
  cases target with
  | variableRef name =>
    rw [Expr.requests]
    exact responds_variablePlace name
  | deref name depth =>
    rw [Expr.requests]
    exact responds_derefPlace name depth
  | field base field =>
    rw [Expr.requests]
    exact responds_fieldPlace base field
  | element array index =>
    rw [Expr.requests]
    exact responds_elementPlace array (responds_lowerExpr hframe index none)
  | _ => exact responds_fail _

end Lowering

end ThreeAddress
