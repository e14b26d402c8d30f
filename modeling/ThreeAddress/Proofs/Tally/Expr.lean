import ThreeAddress.Proofs.Contract.Expr
import ThreeAddress.Proofs.Tally.Basic

/-!
# Expressions keep a ledger

Lowering an expression meets what the tally lists of it. Addresses are computed from registers, so the
only constants whose addresses are taken are those of texts and arrays.

## Main definitions

* `Pending.Tallied`: an argument that is lowered by the ledger.
* `Lowering.drawn_lowerExpr`: an expression is lowered to a number only if it is that number.

## Main statements

* `Lowering.books_lowerExpr`: lowering an expression keeps every ledger.
-/

namespace ThreeAddress

variable {ε : Type} {tally : Tally ε} {ledger : Ledger tally} {events : List ε}

/-- An argument that is lowered by the ledger, whatever type is asked for. Its literals may be met. -/
structure Pending.Tallied (ledger : Ledger tally) (argument : Pending) : Prop where
  books : ∀ expected,
    Lowering.Books ledger (argument.expression.tally tally) (argument.lower expected)
  drawn : ∀ {expected value}, Lowering.MayReturn (argument.lower expected) value →
    value.Drawn ledger.literal
  integers : ∀ number ∈ argument.expression.integers, ledger.literal number

/-- What is listed of some arguments. -/
def Pending.tallyAll (tally : Tally ε) (arguments : List Pending) : List ε :=
  Expr.tallyAll tally (arguments.map Pending.expression)

namespace Pending

theorem tallyAll_cons (argument : Pending) (rest : List Pending) :
    tallyAll tally (argument :: rest) = argument.expression.tally tally ++ tallyAll tally rest := by
  rw [tallyAll, List.map_cons, Expr.tallyAll, tallyAll]

theorem tallyAll_singleton (argument : Pending) :
    tallyAll tally [argument] = argument.expression.tally tally := by
  rw [tallyAll_cons, tallyAll, List.map_nil, Expr.tallyAll, List.append_nil]

end Pending

namespace Lowering

theorem eq_ok_of_mayReturn {α : Type} {source : Except Diagnostic α} {value : α}
    (h : MayReturn (Pass.ofExcept source) value) : source = .ok value := by
  obtain ⟨body, last, hrun⟩ := h
  exact (Pass.eval_ofExcept_eq_ok_iff.mp hrun).1

-- ════════════════════════
-- Numbers
-- ════════════════════════

theorem drawn_of_register {literal : Int → Prop} {value : Value} {register : String}
    (h : value.operand = .register register) : value.Drawn literal := by
  intro number hnumber
  rw [h] at hnumber
  cases hnumber

theorem drawn_immediate {literal : Int → Prop} {number : Int} {ty : Ty} (h : literal number) :
    (Value.immediate number ty).Drawn literal := by
  rintro _ ⟨⟩
  exact h

/-- A computed value is in a register. -/
theorem drawn_compute {literal : Int → Prop} {expected : Option Ty} {computation : Var → Lowering Ty}
    {value : Value} (h : MayReturn (compute expected computation) value) : value.Drawn literal := by
  obtain ⟨body, last, hrun⟩ := h
  simp only [compute_eq, Pass.eval_bind_eq_ok_iff, Pass.eval_pure_eq_ok_iff] at hrun
  obtain ⟨target, _, -, ty, _, -, rfl, -⟩ := hrun
  exact drawn_of_register rfl

-- ════════════════════════
-- Places
-- ════════════════════════

theorem books_loadInto (target : String) (place : Place) :
    Books ledger [] (loadInto target place) :=
  (books_emit_silent rfl rfl).bind fun _ _ => books_pure _

theorem books_follow (ty : Ty) (address : Operand) : Books ledger [] (follow ty address) :=
  (books_temporary ty).bind fun _ _ => (books_emit_silent rfl rfl).bind fun _ _ => books_pure _

theorem books_followAll (place : Place) (depth : Nat) : Books ledger [] (followAll place depth) := by
  induction depth generalizing place with
  | zero => exact books_pure _
  | succ depth ih =>
    refine (books_follow place.ty place.address).bind fun pointer _ => ?_
    split
    · exact ih _
    · exact books_fail _

/-- A pointer is loaded into a register. -/
theorem exists_register_of_follow {ty : Ty} {address pointer : Operand}
    (h : MayReturn (follow ty address) pointer) : ∃ register, pointer = .register register := by
  obtain ⟨body, last, hrun⟩ := h
  simp only [follow, Pass.eval_bind_eq_ok_iff, Pass.eval_pure_eq_ok_iff] at hrun
  obtain ⟨var, _, -, _, _, -, rfl, -⟩ := hrun
  exact ⟨var.register, rfl⟩

theorem books_structAddress (var : Var) : Books ledger [] (structAddress var) := by
  unfold structAddress
  split
  · exact books_follow var.ty var.operand
  · exact books_pure _

theorem exists_register_of_structAddress {var : Var} {address : Operand}
    (h : MayReturn (structAddress var) address) : ∃ register, address = .register register := by
  unfold structAddress at h
  split at h
  · exact exists_register_of_follow h
  · obtain ⟨body, last, hrun⟩ := h
    exact ⟨var.register, (Pass.eval_pure_eq_ok_iff.mp hrun).1.symm⟩

theorem books_variablePlace (name : String) : Books ledger [] (variablePlace name) :=
  (books_variableNamed name).map _

theorem books_derefPlace (name : String) (depth : Nat) :
    Books ledger [] (derefPlace name depth) := by
  refine (books_variableNamed name).bind fun var _ => ?_
  exact (books_ofExcept _).bind fun _ _ => books_followAll var.place depth

theorem books_memberPlace {definition : StructTy} (register : String) {position : Nat}
    (member : Member) (hposition : position < definition.members.length) :
    Books ledger [] (memberPlace definition (.register register) position member) := by
  refine (books_temporary _).bind fun target _ => ?_
  have hemit : Books ledger [] (emit (.elementAddress target.register (.struct definition)
      (.register register) [.index 0, .index position] true)) :=
    fun _ _ _ hrun => booked_emit hrun fun body => ledger.member body _ register hposition
  exact hemit.bind fun _ _ => books_pure _

/-- A member that is found by its name has a position. -/
theorem lt_of_memberNamed {definition : StructTy} {name : String} {found : Nat × Member}
    (h : definition.memberNamed name = .ok found) : found.1 < definition.members.length := by
  have hgo (members : List Member) : ∀ start, StructTy.field?.go name start members = some found →
      found.1 < start + members.length := by
    induction members with
    | nil =>
      intro start hfound
      cases hfound
    | cons first rest ih =>
      intro start hfound
      rw [StructTy.field?.go] at hfound
      split_ifs at hfound
      · cases hfound
        simp
      · have hrest := ih (start + 1) hfound
        rw [List.length_cons]
        omega
  unfold StructTy.memberNamed at h
  split at h
  · next hfound =>
    cases h
    simpa using hgo _ 0 hfound
  · cases h

theorem books_fieldPlace (base field : String) : Books ledger [] (fieldPlace base field) := by
  refine (books_variableNamed base).bind fun var _ => ?_
  refine (books_ofExcept _).bind fun definition _ => ?_
  refine (books_structAddress var).bind fun address haddress => ?_
  obtain ⟨register, rfl⟩ := exists_register_of_structAddress haddress
  refine (books_ofExcept _).bind fun found hfound => ?_
  exact books_memberPlace register found.2 (lt_of_memberNamed (eq_ok_of_mayReturn hfound))

theorem books_elementPlace (array : String) {index : Lowering Value}
    (hindex : Books ledger events index)
    (hdrawn : ∀ {value}, MayReturn index value → value.Drawn ledger.literal) :
    Books ledger events (elementPlace array index) := by
  refine (books_variableNamed array).bind fun var _ => ?_
  refine (books_ofExcept _).bind fun member _ => ?_
  refine (books_follow var.ty var.operand).bind fun address haddress => ?_
  obtain ⟨register, rfl⟩ := exists_register_of_follow haddress
  refine hindex.finish fun index hreturn => ?_
  refine (books_require _ _).bind fun _ _ => ?_
  refine (books_temporary _).bind fun target _ => ?_
  refine (books_emit rfl ?_).bind fun _ _ => books_pure _
  simpa [Instr.readings] using hdrawn hreturn

-- ════════════════════════
-- Arguments
-- ════════════════════════

theorem books_passArguments {arguments : List Pending}
    (h : ∀ argument ∈ arguments, argument.Tallied ledger) (parameters : List Ty) :
    Books ledger (Pending.tallyAll tally arguments) (passArguments arguments parameters) := by
  induction arguments generalizing parameters with
  | nil => exact books_pure _
  | cons argument rest ih =>
    rw [List.forall_mem_cons] at h
    rw [Pending.tallyAll_cons]
    cases parameters with
    | nil =>
      refine (h.1.books none).append fun value _ => ?_
      exact (ih h.2 []).finish fun _ _ => books_pure _
    | cons parameter parameters =>
      refine (h.1.books (some parameter)).append fun value _ => ?_
      refine (books_expectType _ _ _).bind fun _ _ => ?_
      exact (ih h.2 parameters).finish fun _ _ => books_pure _

/-- The values of arguments are registers or literals. -/
theorem drawn_passArguments {arguments : List Pending} {parameters : List Ty} {values : List Value}
    (h : ∀ argument ∈ arguments, argument.Tallied ledger)
    (hreturn : MayReturn (passArguments arguments parameters) values) :
    ∀ value ∈ values, value.Drawn ledger.literal := by
  obtain ⟨body, last, hrun⟩ := hreturn
  induction arguments generalizing parameters body values with
  | nil =>
    obtain ⟨rfl, -⟩ := Pass.eval_pure_eq_ok_iff.mp hrun
    simp
  | cons argument rest ih =>
    rw [List.forall_mem_cons] at h
    obtain ⟨value, lowered, others, hlower, hothers, rfl⟩ := eval_passArguments_cons hrun
    exact List.forall_mem_cons.mpr ⟨h.1.drawn ⟨_, _, hlower⟩, ih h.2 _ hothers⟩

theorem books_promote {value : Value} (hvalue : value.Drawn ledger.literal) :
    Books ledger [] (promote value) := by
  unfold promote
  cases value.ty.promotion? with
  | none => exact books_pure _
  | some extension =>
    refine (books_temporary _).bind fun target _ => ?_
    exact (books_emit rfl (by simpa [Instr.readings] using hvalue)).bind fun _ _ => books_pure _

theorem drawn_promote {value promoted : Value} (hvalue : value.Drawn ledger.literal)
    (hreturn : MayReturn (promote value) promoted) : promoted.Drawn ledger.literal := by
  obtain ⟨body, last, hrun⟩ := hreturn
  unfold promote at hrun
  split at hrun
  · simp only [Pass.eval_bind_eq_ok_iff, Pass.eval_pure_eq_ok_iff] at hrun
    obtain ⟨target, _, -, _, _, -, rfl, -⟩ := hrun
    exact drawn_of_register rfl
  · obtain ⟨rfl, -⟩ := Pass.eval_pure_eq_ok_iff.mp hrun
    exact hvalue

theorem books_passVariadic {arguments : List Pending}
    (h : ∀ argument ∈ arguments, argument.Tallied ledger) :
    Books ledger (Pending.tallyAll tally arguments) (passVariadic arguments) := by
  induction arguments with
  | nil => exact books_pure _
  | cons argument rest ih =>
    rw [List.forall_mem_cons] at h
    rw [Pending.tallyAll_cons]
    refine (h.1.books none).append fun value hreturn => ?_
    refine (books_promote (h.1.drawn hreturn)).bind fun value _ => ?_
    exact (ih h.2).finish fun _ _ => books_pure _

theorem drawn_passVariadic {arguments : List Pending} {values : List Value}
    (h : ∀ argument ∈ arguments, argument.Tallied ledger)
    (hreturn : MayReturn (passVariadic arguments) values) :
    ∀ value ∈ values, value.Drawn ledger.literal := by
  obtain ⟨body, last, hrun⟩ := hreturn
  induction arguments generalizing body values with
  | nil =>
    obtain ⟨rfl, -⟩ := Pass.eval_pure_eq_ok_iff.mp hrun
    simp
  | cons argument rest ih =>
    rw [List.forall_mem_cons] at h
    simp only [passVariadic, Pass.eval_bind_eq_ok_iff, Pass.eval_pure_eq_ok_iff] at hrun
    obtain ⟨value, _, hlower, promoted, _, hpromote, others, _, hothers, rfl, rfl⟩ := hrun
    have hvalue := h.1.drawn ⟨_, _, hlower⟩
    exact List.forall_mem_cons.mpr ⟨drawn_promote hvalue ⟨_, _, hpromote⟩, ih h.2 _ hothers⟩

/-- A size is a literal, of which nothing is listed. -/
theorem books_sizeArgument (builtin : Builtin) (size : Expr) :
    Books ledger (size.tally tally) (Pass.ofExcept (sizeArgument builtin size)) := by
  cases size with
  | integer value =>
    rw [Expr.tally]
    exact books_ofExcept _
  | _ => exact books_fail _

theorem drawn_sizeArgument {builtin : Builtin} {size : Expr} {value : Value}
    (h : ∀ number ∈ size.integers, ledger.literal number)
    (hreturn : MayReturn (Pass.ofExcept (sizeArgument builtin size)) value) :
    value.Drawn ledger.literal := by
  have hsize := eq_ok_of_mayReturn hreturn
  cases size with
  | integer number =>
    simp only [sizeArgument] at hsize
    split at hsize
    · cases hsize
      exact drawn_immediate (h number (by simp [Expr.integers]))
    · cases hsize
  | _ => cases hsize

-- ════════════════════════
-- Calls
-- ════════════════════════

theorem books_callSupport (function : Support) (target : Option String) {arguments : List Value}
    (h : ∀ value ∈ arguments, value.Drawn ledger.literal) :
    Books ledger [] (callSupport function target arguments) :=
  books_emit rfl h

theorem books_printFormat {format : Pending} {values : List Pending} (target : Option Var)
    (h : ∀ argument ∈ format :: values, argument.Tallied ledger) :
    Books ledger (Pending.tallyAll tally (format :: values)) (printFormat format values target) := by
  rw [List.forall_mem_cons] at h
  rw [Pending.tallyAll_cons]
  refine (h.1.books _).append fun format hformat => ?_
  refine (books_require _ _).bind fun _ _ => ?_
  refine (books_passVariadic h.2).finish fun values hvalues => books_callSupport _ _ ?_
  exact List.forall_mem_cons.mpr ⟨h.1.drawn hformat, drawn_passVariadic h.2 hvalues⟩

/-- The room for a value is made right before the value is stored there. -/
theorem books_allocation {value : Value} {size : UInt64} (payload : Var)
    (hsize : value.ty.size = .ok size) (hvalue : value.Drawn ledger.literal) :
    Books ledger [] (do
      callSupport .malloc (some payload.register) [.immediate (signedWord size) .i32]
      emit (.store value payload.operand)) := by
  intro body result last hrun
  obtain ⟨_, allocated, hcall, hstore⟩ := Pass.eval_bind_eq_ok_iff.mp hrun
  have hdrawn : (Instr.store value payload.operand).Drawn ledger.literal :=
    ⟨rfl, placeholder?_of_eval_emit hstore, by simpa [Instr.readings] using hvalue⟩
  have hstored : ∀ body, ledger.Booked [] body ((body.append (.allocation payload.register size)).append
      (.store value payload.operand)) :=
    fun body => ledger.allocate body _ _ hsize hdrawn
  -- The call does not end its block, so the store comes right behind it.
  have hbehind : allocated.isClosed = false → last = allocated.append (.store value payload.operand) :=
    fun hopen => eq_append_of_eval_emit hstore hopen rfl
  rcases eval_emit_cases hcall with ⟨-, rfl⟩ | ⟨name, hlabel, -⟩ | ⟨-, -, rfl⟩
  · rw [hbehind (Body.isClosed_append _ _)]
    exact hstored body
  · cases hlabel
  · rw [hbehind (Body.isClosed_append _ _)]
    exact ledger.trans (ledger.trans (ledger.mint body "dead" .label)
      (ledger.append _ ⟨rfl, rfl, by simp [Instr.readings]⟩)) (hstored _)

theorem books_wrap (constructor : Support) {argument : Pending} (target : Option Var)
    (h : argument.Tallied ledger) :
    Books ledger (Pending.tallyAll tally [argument]) (wrap constructor argument target) := by
  rw [Pending.tallyAll_singleton]
  refine (h.books none).finish fun value hvalue => ?_
  refine (books_ofExcept _).bind fun size hsize => ?_
  refine (books_temporary _).bind fun payload _ => ?_
  rw [← bind_assoc]
  refine (books_allocation payload (eq_ok_of_mayReturn hsize) (h.drawn hvalue)).bind fun _ _ => ?_
  exact books_callSupport _ _ (by simpa using drawn_of_register rfl)

theorem books_unwrap {argument : Pending} (target : Option Var) (h : argument.Tallied ledger) :
    Books ledger (Pending.tallyAll tally [argument]) (unwrap argument target) := by
  rw [Pending.tallyAll_singleton]
  refine (h.books _).finish fun value hvalue => ?_
  refine (books_require _ _).bind fun _ _ => ?_
  refine (books_temporary _).bind fun payload _ => ?_
  refine (books_emit rfl (by simpa [Instr.readings] using h.drawn hvalue)).bind fun _ _ => ?_
  have hload (written : Var) : Books ledger [] (do
      emit (.load written.register (payloadTy target) payload.operand)
      return payloadTy target) :=
    (books_emit_silent rfl rfl).bind fun _ _ => books_pure _
  cases target with
  | none => exact (books_temporary _).bind fun written _ => hload written
  | some var => exact hload var

theorem books_allocate {size : Pending} (target : Option Var) (h : size.Tallied ledger) :
    Books ledger (Pending.tallyAll tally [size]) (allocate size target) := by
  rw [Pending.tallyAll_singleton]
  refine (books_sizeArgument .alloc size.expression).finish fun value hvalue => ?_
  exact books_callSupport _ _ (by simpa using drawn_sizeArgument h.integers hvalue)

theorem books_reallocate {pointer size : Pending} (target : Option Var)
    (h : ∀ argument ∈ [pointer, size], argument.Tallied ledger) :
    Books ledger (Pending.tallyAll tally [pointer, size]) (reallocate pointer size target) := by
  have hpointer := h pointer (by simp)
  rw [Pending.tallyAll_cons, Pending.tallyAll_singleton]
  refine (hpointer.books _).append fun value hvalue => ?_
  refine (books_require _ _).bind fun _ _ => ?_
  refine (books_sizeArgument .realloc size.expression).finish fun count hcount => ?_
  refine books_callSupport _ _ (List.forall_mem_cons.mpr ⟨hpointer.drawn hvalue, ?_⟩)
  simpa using drawn_sizeArgument (h size (by simp)).integers hcount

theorem Books.andReturn {pass : Lowering Unit} (h : Books ledger events pass) (ty : Ty) :
    Books ledger events (do pass; return ty) :=
  h.finish fun _ _ => books_pure _

theorem books_callBuiltin (builtin : Builtin) {arguments : List Pending} (target : Option Var)
    (h : ∀ argument ∈ arguments, argument.Tallied ledger) :
    Books ledger (Pending.tallyAll tally arguments) (callBuiltin builtin arguments target) := by
  unfold callBuiltin
  split
  · exact books_fail _
  · exact (books_printFormat target h).andReturn _
  · exact (books_wrap .makeOk target (h _ (by simp))).andReturn _
  · exact (books_wrap .makeErr target (h _ (by simp))).andReturn _
  · exact books_unwrap target (h _ (by simp))
  · exact (books_allocate target (h _ (by simp))).andReturn _
  · exact (books_reallocate target h).andReturn _
  · exact books_fail _

theorem books_callFunction (callee : String) {arguments : List Pending} (target : Option Var)
    (h : ∀ argument ∈ arguments, argument.Tallied ledger) :
    Books ledger (Pending.tallyAll tally arguments) (callFunction callee arguments target) := by
  refine books_get.bind fun body _ => ?_
  refine (books_ofExcept _).bind fun (function, signature) _ => ?_
  refine (books_require _ _).bind fun _ _ => ?_
  refine (books_require _ _).bind fun _ _ => ?_
  refine (books_passArguments h signature.parameters).finish fun values hvalues => ?_
  exact (books_emit rfl (drawn_passArguments h hvalues)).bind fun _ _ => books_pure _

theorem books_call (callee : String) {arguments : List Pending} (target : Option Var)
    (h : ∀ argument ∈ arguments, argument.Tallied ledger) :
    Books ledger (Pending.tallyAll tally arguments) (call callee arguments target) := by
  unfold call
  cases Builtin.ofName? callee with
  | some builtin =>
    exact (books_report _).bind fun _ _ => (books_callBuiltin builtin target h).map _
  | none => exact books_callFunction callee target h

theorem books_callForValue (callee : String) {arguments : List Pending} (target : Var)
    (h : ∀ argument ∈ arguments, argument.Tallied ledger) :
    Books ledger (Pending.tallyAll tally arguments) (callForValue callee arguments target) := by
  refine (books_call callee (some target) h).finish fun returned _ => ?_
  cases returned with
  | none => exact books_fail _
  | some ty => exact books_pure _

-- ════════════════════════
-- Compound expressions
-- ════════════════════════

theorem books_compute {expected : Option Ty} {computation : Var → Lowering Ty}
    (h : ∀ target, Books ledger events (computation target)) :
    Books ledger events (compute expected computation) := by
  rw [compute_eq]
  exact (books_temporary _).bind fun target _ => (h target).finish fun _ _ => books_pure _

theorem books_addressText (value : String) (target : Var) :
    Books ledger (tally.text value) (addressConstant (.text value) target) :=
  fun _ _ _ hrun => ledger.text hrun

/-- The elements of a constant array are literals, of which nothing is listed. -/
theorem tallyAll_of_constantElements {width : Width} {elements : List Expr} {values : List Int}
    (h : constantElements width elements = .ok values) : Expr.tallyAll tally elements = [] := by
  have hall := forall₂_constantElements h
  clear h
  induction hall with
  | nil => rw [Expr.tallyAll]
  | @cons element value elements values helement _ ih =>
    rw [Expr.tallyAll, ih, List.append_nil]
    cases element with
    | integer | boolean => rw [Expr.tally]
    | _ => cases helement

theorem books_constantArray {elements : List Expr} (target : Var)
    (h : ∀ number ∈ Expr.integersAll elements, ledger.literal number) :
    Books ledger (Expr.tallyAll tally elements ++ tally.array elements)
      (constantArray elements target) := by
  rw [constantArray_eq]
  refine (books_ofExcept _).bind fun values hvalues => ?_
  obtain ⟨body, last, hrun⟩ := hvalues
  have helements := (Pass.eval_ofExcept_eq_ok_iff.mp hrun).1
  rw [tallyAll_of_constantElements helements, List.nil_append]
  exact Books.andReturn (fun _ _ _ hrun => ledger.array h helements hrun) _

theorem books_storeFields {frame : Frame} (definition : StructTy) (register : String)
    {fields : List FieldValue}
    (h : ∀ field ∈ fields, (Pending.mk field.value (lowerExpr frame field.value)).Tallied ledger) :
    Books ledger (FieldValue.tallyAll tally fields)
      (storeFields definition (.register register) (pendingFields frame fields)) := by
  induction fields with
  | nil =>
    rw [pendingFields, FieldValue.tallyAll]
    exact books_pure _
  | cons entry rest ih =>
    obtain ⟨field, value⟩ := entry
    rw [List.forall_mem_cons] at h
    rw [pendingFields, FieldValue.tallyAll]
    refine (books_ofExcept _).bind fun (position, member) hfound => ?_
    have hposition := lt_of_memberNamed (eq_ok_of_mayReturn hfound)
    refine (h.1.books (some member.ty)).append fun value hvalue => ?_
    refine (books_expectType _ _ _).bind fun _ _ => ?_
    refine (books_memberPlace register member hposition).bind fun place _ => ?_
    exact (books_emit rfl (by simpa [Instr.readings] using h.1.drawn hvalue)).bind fun _ _ => ih h.2

theorem books_buildStruct {frame : Frame} (struct : String) {fields : List FieldValue} (target : Var)
    (h : ∀ field ∈ fields, (Pending.mk field.value (lowerExpr frame field.value)).Tallied ledger) :
    Books ledger (tally.build struct ++ FieldValue.tallyAll tally fields)
      (buildStruct frame struct (pendingFields frame fields) target) := by
  refine (books_ofExcept _).bind fun definition _ => ?_
  refine (books_temporary _).bind fun slot _ => ?_
  refine (books_reserve_build struct slot).append fun _ _ => ?_
  exact (books_storeFields definition slot.register h).finish fun _ _ =>
    books_loadInto target.register slot.place

theorem books_applyOperator {frame : Frame} (operator : Operator) {lhs rhs : Pending} (target : Var)
    (hlhs : lhs.Tallied ledger) (hrhs : rhs.Tallied ledger) :
    Books ledger (lhs.expression.tally tally ++ rhs.expression.tally tally)
      (applyOperator frame operator lhs rhs target) := by
  refine books_get.bind fun body _ => ?_
  refine (books_ofExcept _).bind fun ty _ => ?_
  refine (books_require _ _).bind fun _ _ => ?_
  refine (hlhs.books (some ty)).append fun left hleft => ?_
  refine (hrhs.books (some ty)).finish fun right hright => ?_
  refine (books_expectType _ _ _).bind fun _ _ => ?_
  refine (books_expectType _ _ _).bind fun _ _ => ?_
  refine (books_require _ _).bind fun _ _ => ?_
  refine (books_emit ?_ ?_).bind fun _ _ => books_pure _
  · cases operator <;> rfl
  · have hreadings : (operator.instruction target.register ty left.operand right.operand).readings =
        [⟨left.operand, ty⟩, ⟨right.operand, ty⟩] := by
      cases operator <;> rfl
    have hleft : left.Drawn ledger.literal := hlhs.drawn hleft
    have hright : right.Drawn ledger.literal := hrhs.drawn hright
    rw [hreadings]
    exact List.forall_mem_cons.mpr ⟨hleft, List.forall_mem_singleton.mpr hright⟩

-- ════════════════════════
-- Expressions
-- ════════════════════════

theorem tallyAll_pending (frame : Frame) (expressions : List Expr) :
    Pending.tallyAll tally (pending frame expressions) = Expr.tallyAll tally expressions := by
  rw [Pending.tallyAll, map_expression_pending]

/-- An expression is lowered to a number only if it is that number. -/
theorem drawn_lowerExpr {frame : Frame} {expression : Expr} {expected : Option Ty} {value : Value}
    {literal : Int → Prop} (h : ∀ number ∈ expression.integers, literal number)
    (hreturn : MayReturn (lowerExpr frame expression expected) value) : value.Drawn literal := by
  obtain ⟨body, last, hrun⟩ := hreturn
  cases expression with
  | integer number =>
    rw [lowerExpr_integer] at hrun
    obtain ⟨rfl, -⟩ := Pass.eval_pure_eq_ok_iff.mp hrun
    exact drawn_immediate (h number (by simp [Expr.integers]))
  | boolean truth =>
    rw [lowerExpr_boolean] at hrun
    obtain ⟨rfl, -⟩ := Pass.eval_pure_eq_ok_iff.mp hrun
    simp [Value.Drawn]
  | address name =>
    rw [lowerExpr_address] at hrun
    simp only [Pass.eval_bind_eq_ok_iff, Pass.eval_pure_eq_ok_iff] at hrun
    obtain ⟨var, _, -, rfl, -⟩ := hrun
    exact drawn_of_register rfl
  | text | variableRef | binary | call | deref | field | element | build | array =>
    exact drawn_compute ⟨_, _, hrun⟩

mutual

/-- Lowering an expression meets what the tally lists of it. -/
theorem books_lowerExpr (ledger : Ledger tally) (frame : Frame) :
    ∀ expression : Expr, (∀ number ∈ expression.integers, ledger.literal number) →
      ∀ expected : Option Ty,
        Books ledger (expression.tally tally) (lowerExpr frame expression expected)
  | .integer value, _, _ => by
    rw [lowerExpr_integer, Expr.tally]
    exact books_pure _
  | .boolean value, _, _ => by
    rw [lowerExpr_boolean, Expr.tally]
    exact books_pure _
  | .address name, _, _ => by
    rw [lowerExpr_address, Expr.tally]
    exact (books_variableNamed name).bind fun _ _ => books_pure _
  | .text value, _, _ => by
    rw [lowerExpr_text, Expr.tally]
    exact books_compute fun target => (books_addressText value target).andReturn _
  | .variableRef name, _, _ => by
    rw [lowerExpr_variableRef, Expr.tally]
    exact books_compute fun target =>
      (books_variablePlace name).bind fun place _ => books_loadInto target.register place
  | .binary operator lhs rhs, h, _ => by
    rw [lowerExpr_binary, Expr.tally]
    rw [Expr.integers, List.forall_mem_append] at h
    exact books_compute fun target => books_applyOperator operator target
      (tallied_expression ledger frame lhs h.1) (tallied_expression ledger frame rhs h.2)
  | .call callee arguments, h, _ => by
    rw [lowerExpr_call, Expr.tally, ← tallyAll_pending frame]
    rw [Expr.integers] at h
    exact books_compute fun target =>
      books_callForValue callee target (tallied_pending ledger frame arguments h)
  | .deref name depth, _, _ => by
    rw [lowerExpr_deref, Expr.tally]
    exact books_compute fun target =>
      (books_derefPlace name depth).bind fun place _ => books_loadInto target.register place
  | .field base field, _, _ => by
    rw [lowerExpr_field, Expr.tally]
    exact books_compute fun target =>
      (books_fieldPlace base field).bind fun place _ => books_loadInto target.register place
  | .element array index, h, _ => by
    rw [lowerExpr_element, Expr.tally]
    rw [Expr.integers] at h
    exact books_compute fun target =>
      (books_elementPlace array (books_lowerExpr ledger frame index h none) (drawn_lowerExpr h)).finish
        fun place _ => books_loadInto target.register place
  | .build struct fields, h, _ => by
    rw [lowerExpr_build, Expr.tally]
    rw [Expr.integers] at h
    exact books_compute fun target =>
      books_buildStruct struct target (tallied_fields ledger frame fields h)
  | .array elements, h, _ => by
    rw [lowerExpr_array, Expr.tally]
    rw [Expr.integers] at h
    exact books_compute fun target => books_constantArray target h

theorem tallied_expression (ledger : Ledger tally) (frame : Frame) (expression : Expr)
    (h : ∀ number ∈ expression.integers, ledger.literal number) :
    (Pending.mk expression (lowerExpr frame expression)).Tallied ledger :=
  ⟨books_lowerExpr ledger frame expression h, drawn_lowerExpr h, h⟩

theorem tallied_pending (ledger : Ledger tally) (frame : Frame) : ∀ expressions : List Expr,
    (∀ number ∈ Expr.integersAll expressions, ledger.literal number) →
      ∀ argument ∈ pending frame expressions, argument.Tallied ledger
  | [], _ => by simp [pending]
  | expression :: rest, h => by
    rw [Expr.integersAll, List.forall_mem_append] at h
    rw [pending]
    exact List.forall_mem_cons.mpr
      ⟨tallied_expression ledger frame expression h.1, tallied_pending ledger frame rest h.2⟩

theorem tallied_fields (ledger : Ledger tally) (frame : Frame) : ∀ fields : List FieldValue,
    (∀ number ∈ FieldValue.integersAll fields, ledger.literal number) →
      ∀ field ∈ fields, (Pending.mk field.value (lowerExpr frame field.value)).Tallied ledger
  | [], _ => by simp
  | ⟨_, value⟩ :: rest, h => by
    rw [FieldValue.integersAll, List.forall_mem_append] at h
    exact List.forall_mem_cons.mpr
      ⟨tallied_expression ledger frame value h.1, tallied_fields ledger frame rest h.2⟩

end

/-- The target of an assignment: what is met there is in its index. -/
theorem books_lowerTarget (frame : Frame) {target : Expr}
    (h : ∀ number ∈ target.integers, ledger.literal number) :
    Books ledger (target.tally tally) (lowerTarget frame target) := by
  cases target with
  | variableRef name =>
    rw [Expr.tally]
    exact books_variablePlace name
  | deref name depth =>
    rw [Expr.tally]
    exact books_derefPlace name depth
  | field base field =>
    rw [Expr.tally]
    exact books_fieldPlace base field
  | element array index =>
    rw [Expr.tally]
    rw [Expr.integers] at h
    exact books_elementPlace array (books_lowerExpr ledger frame index h none) (drawn_lowerExpr h)
  | _ => exact books_fail _

end Lowering

end ThreeAddress
