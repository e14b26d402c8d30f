import ThreeAddress.Proofs.Emission.Expr

/-!
# Predicted types

The type that is found for an expression without emitting code is the type that its value comes out
at when it is lowered.

## Main statements

* `Expr.typeIn_of_find?`: what is predicted depends only on what names are bound to.
* `Lowering.ty_lowerExpr`: an expression that is lowered at its predicted type, or at none, yields a
  value of that type.
* `Lowering.ty_operands`: both operands of a binary operator come out at the type of the operator.

## Design notes

The register of a value is made before its parts are lowered, so the prediction and the lowering see
scopes that differ by that register. It has a name that nothing was bound to.
-/

namespace ThreeAddress

-- ════════════════════════
-- Lookups
-- ════════════════════════

theorem Ty.signature?_eq_some_iff {ty : Ty} {signature : Signature} :
    ty.signature? = some signature ↔ ty = .function signature := by
  cases ty <;> simp [Ty.signature?]

namespace Scope

variable {scope later : Scope} {name : String}

theorem variableNamed_eq_ok_iff {var : Var} :
    scope.variableNamed name = .ok var ↔ scope.find? name = some var ∧ var.ty.isStorable := by
  unfold variableNamed
  cases scope.find? name with
  | none => simp
  | some found =>
    by_cases hstorable : found.ty.isStorable
    · simp only [hstorable, if_true, Except.ok.injEq, Option.some.injEq]
      exact ⟨fun h => ⟨h, h ▸ hstorable⟩, fun h => h.1⟩
    · simp only [hstorable, Option.some.injEq]
      exact ⟨fun h => by simp at h, fun h => absurd (h.1 ▸ h.2) hstorable⟩

theorem functionNamed_eq_ok_iff {found : Var × Signature} :
    scope.functionNamed name = .ok found ↔
      scope.find? name = some found.1 ∧ found.1.ty = .function found.2 := by
  obtain ⟨var, signature⟩ := found
  rw [← Ty.signature?_eq_some_iff]
  unfold functionNamed
  cases scope.find? name with
  | none => simp
  | some bound =>
    cases hty : bound.ty.signature? with
    | none =>
      simp only [hty, reduceCtorEq, Option.some.injEq, false_iff, not_and]
      rintro rfl
      simp [hty]
    | some other =>
      simp only [hty, Except.ok.injEq, Prod.mk.injEq, Option.some.injEq]
      refine and_congr_right ?_
      rintro rfl
      rw [hty, Option.some.injEq]

end Scope

-- ════════════════════════
-- Predictions in larger scopes
-- ════════════════════════

/-- What follows a lookup only depends on what is found. -/
theorem bind_eq_ok_of_imp {α β : Type} {first second : Except Diagnostic α}
    (h : ∀ value, first = .ok value → second = .ok value) {next : α → Except Diagnostic β}
    {result : β} (hrun : first >>= next = .ok result) : second >>= next = .ok result := by
  cases first with
  | error diagnostic => cases hrun
  | ok value =>
    rw [h value rfl]
    exact hrun

section

variable {table : TypeTable} {scope later : Scope}
  (hfind : ∀ name var, scope.find? name = some var → later.find? name = some var)

include hfind

theorem variableNamed_of_find? (name : String) (var : Var)
    (h : scope.variableNamed name = .ok var) : later.variableNamed name = .ok var := by
  rw [Scope.variableNamed_eq_ok_iff] at h ⊢
  exact ⟨hfind _ _ h.1, h.2⟩

theorem functionNamed_of_find? (name : String) (found : Var × Signature)
    (h : scope.functionNamed name = .ok found) : later.functionNamed name = .ok found := by
  rw [Scope.functionNamed_eq_ok_iff] at h ⊢
  exact ⟨hfind _ _ h.1, h.2⟩

/-- What is predicted depends only on what names are bound to. -/
theorem Expr.typeIn_of_find? : ∀ {expression : Expr} {ty : Ty},
    expression.typeIn table scope = .ok ty → expression.typeIn table later = .ok ty
  | .integer _, _, h | .boolean _, _, h | .text _, _, h | .build _ _, _, h | .array _, _, h => by
    rw [Expr.typeIn] at h ⊢
    exact h
  | .variableRef name, _, h | .address name, _, h => by
    rw [Expr.typeIn] at h ⊢
    cases hvar : scope.variableNamed name with
    | error diagnostic =>
      rw [hvar] at h
      cases h
    | ok var =>
      rw [variableNamed_of_find? hfind name var hvar, ← hvar]
      exact h
  | .deref name _, _, h | .field name _, _, h | .element name _, _, h => by
    rw [Expr.typeIn] at h ⊢
    exact bind_eq_ok_of_imp (variableNamed_of_find? hfind name) h
  | .call callee _, _, h => by
    rw [Expr.typeIn] at h ⊢
    split at h
    · exact h
    · exact bind_eq_ok_of_imp (functionNamed_of_find? hfind callee) h
  | .binary operator lhs rhs, _, h => by
    rw [Expr.typeIn] at h ⊢
    split_ifs at h ⊢
    · exact h
    · exact typeIn_of_find? h
    · exact typeIn_of_find? h
    · exact h

end

-- ════════════════════════
-- Predictions and lowered values
-- ════════════════════════

theorem forall₂_constantElements {width : Width} {elements : List Expr} {values : List Int}
    (h : constantElements width elements = .ok values) :
    List.Forall₂ (fun element value => constantElement width element = .ok value) elements
      values := by
  induction elements generalizing values with
  | nil =>
    cases h
    exact .nil
  | cons element rest ih =>
    rw [constantElements] at h
    cases hvalue : constantElement width element with
    | error diagnostic =>
      rw [hvalue] at h
      cases h
    | ok value =>
      cases hvalues : constantElements width rest with
      | error diagnostic =>
        rw [hvalue, hvalues] at h
        cases h
      | ok others =>
        rw [hvalue, hvalues] at h
        cases h
        exact .cons hvalue (ih hvalues)

namespace Lowering

variable {body last : Body}

/-- The type that a payload is read at: that of the place it is read into, if it has one. -/
def payloadTy (target : Option Var) : Ty :=
  ((target.filter fun var => !var.dynamic && var.ty.isStorable).map Var.ty).getD .i32

/-- The stages of reading a payload. -/
theorem eval_unwrap {argument : Pending} {target : Option Var} {ty : Ty}
    (h : (unwrap argument target).eval body = .ok (ty, last)) :
    ty = payloadTy target ∧ ∃ value lowered payload made extracted written before,
      (argument.lower (some .result)).eval body = .ok (value, lowered) ∧ value.ty = .result ∧
      (temporary (.ref ty)).eval lowered = .ok (payload, made) ∧
      (emit (.extractMember payload.register value 1)).eval made = .ok ((), extracted) ∧
      (target = some written ∧ extracted = before ∨
        target = none ∧ (temporary ty).eval extracted = .ok (written, before)) ∧
      (emit (.load written.register ty payload.operand)).eval before = .ok ((), last) := by
  simp only [unwrap, Pass.eval_bind_eq_ok_iff, Pass.eval_require_eq_ok_iff] at h
  obtain ⟨value, lowered, hlower, _, _, ⟨hresult, rfl⟩, payload, made, hmade, _, extracted, hextract,
    hload⟩ := h
  cases target with
  | some var =>
    simp only [Pass.eval_bind_eq_ok_iff, Pass.eval_pure_eq_ok_iff] at hload
    obtain ⟨_, _, ⟨rfl, rfl⟩, _, _, hload, rfl, rfl⟩ := hload
    exact ⟨rfl, value, lowered, payload, made, extracted, _, _, hlower, of_decide_eq_true hresult,
      hmade, hextract, Or.inl ⟨rfl, rfl⟩, hload⟩
  | none =>
    simp only [Pass.eval_bind_eq_ok_iff, Pass.eval_pure_eq_ok_iff] at hload
    obtain ⟨scratch, _, hscratch, _, _, hload, rfl, rfl⟩ := hload
    exact ⟨rfl, value, lowered, payload, made, extracted, _, _, hlower, of_decide_eq_true hresult,
      hmade, hextract, Or.inr ⟨rfl, hscratch⟩, hload⟩

theorem eval_andReturn {pass : Lowering Unit} {ty found : Ty}
    (h : (do pass; return ty : Lowering Ty).eval body = .ok (found, last)) :
    pass.eval body = .ok ((), last) ∧ found = ty := by
  simp only [Pass.eval_bind_eq_ok_iff, Pass.eval_pure_eq_ok_iff] at h
  obtain ⟨_, _, hrun, rfl, rfl⟩ := h
  exact ⟨hrun, rfl⟩

/-- The type of a built-in call. Only a payload has a type that its surroundings decide. -/
theorem ty_callBuiltin {builtin : Builtin} {arguments : List Pending} {target : Option Var} {ty : Ty}
    (h : (callBuiltin builtin arguments target).eval body = .ok (ty, last)) :
    ty = builtin.resultTy ∨ builtin = .unwrap ∧ ty = payloadTy target := by
  unfold callBuiltin at h
  split at h
  · cases h
  · exact Or.inl (eval_andReturn h).2
  · exact Or.inl (eval_andReturn h).2
  · exact Or.inl (eval_andReturn h).2
  · exact Or.inr ⟨rfl, (eval_unwrap h).1⟩
  · exact Or.inl (eval_andReturn h).2
  · exact Or.inl (eval_andReturn h).2
  · cases h

theorem eval_callFunction {callee : String} {arguments : List Pending} {target : Option Var}
    {returned : Option Ty}
    (h : (callFunction callee arguments target).eval body = .ok (returned, last)) :
    ∃ function signature values before,
      body.scope.find? callee = some function ∧ function.ty = .function signature ∧
      signature.accepts arguments.length ∧
      (passArguments arguments signature.parameters).eval body = .ok (values, before) ∧
      (emit (.call (target.map Var.register) function.register signature values)).eval before =
        .ok ((), last) ∧
      (signature.returns.isSome || target.isNone) ∧ returned = signature.returns := by
  simp only [callFunction, Pass.eval_bind_eq_ok_iff, Pass.eval_get_eq_ok_iff,
    Pass.eval_ofExcept_eq_ok_iff, Pass.eval_require_eq_ok_iff, Pass.eval_pure_eq_ok_iff] at h
  obtain ⟨_, _, ⟨rfl, rfl⟩, ⟨function, signature⟩, _, ⟨hfunction, rfl⟩, _, _, ⟨haccepts, rfl⟩, _, _,
    ⟨hvalue, rfl⟩, values, before, hpass, _, _, hcall, rfl, rfl⟩ := h
  obtain ⟨hfound, hty⟩ := Scope.functionNamed_eq_ok_iff.mp hfunction
  exact ⟨function, signature, values, before, hfound, hty, haccepts, hpass, hcall, hvalue, rfl⟩

theorem eval_callForValue {callee : String} {arguments : List Pending} {target : Var} {ty : Ty}
    (h : (callForValue callee arguments target).eval body = .ok (ty, last)) :
    (call callee arguments (some target)).eval body = .ok (some ty, last) := by
  simp only [callForValue, Pass.eval_bind_eq_ok_iff] at h
  obtain ⟨returned, _, hcall, hreturn⟩ := h
  cases returned with
  | none => cases hreturn
  | some _ =>
    obtain ⟨rfl, rfl⟩ := Pass.eval_pure_eq_ok_iff.mp hreturn
    exact hcall

theorem variableNamed_of_eval {name : String} {var : Var}
    (h : (variableNamed name).eval body = .ok (var, last)) :
    body.scope.variableNamed name = .ok var := by
  obtain ⟨hfound, hstorable, rfl⟩ := eval_variableNamed_eq_ok_iff.mp h
  exact Scope.variableNamed_eq_ok_iff.mpr ⟨hfound, hstorable⟩

theorem ty_loadInto {target : String} {place : Place} {ty : Ty}
    (h : (loadInto target place).eval body = .ok (ty, last)) : ty = place.ty := by
  simp only [loadInto, Pass.eval_bind_eq_ok_iff, Pass.eval_pure_eq_ok_iff] at h
  obtain ⟨_, _, -, rfl, -⟩ := h
  rfl

theorem ty_call {callee : String} {arguments : List Pending} {expected : Option Ty}
    {register : String} {returned : Option Ty} {table : TypeTable} {ty : Ty}
    {expressions : List Expr}
    (h : (call callee arguments (some (.make register
      ((expected.filter Ty.isStorable).getD .dynamic)))).eval body = .ok (returned, last))
    (hty : (Expr.call callee expressions).typeIn table body.scope = .ok ty)
    (hexpected : expected = none ∨ expected = some ty) : returned = some ty := by
  rw [Expr.typeIn] at hty
  unfold call at h
  cases hbuiltin : Builtin.ofName? callee with
  | some builtin =>
    rw [hbuiltin] at h hty
    obtain rfl : builtin.resultTy = ty := Except.ok.inj hty
    simp only [Pass.eval_bind_eq_ok_iff, Pass.eval_report_eq_ok_iff, Pass.eval_map_eq_ok_iff] at h
    obtain ⟨_, _, rfl, found, hcall, rfl⟩ := h
    rcases ty_callBuiltin hcall with rfl | ⟨rfl, rfl⟩
    · rfl
    · rcases hexpected with rfl | rfl <;> rfl
  | none =>
    rw [hbuiltin] at h hty
    obtain ⟨function, signature, -, -, hfound, hfunction, -, -, -, -, rfl⟩ := eval_callFunction h
    have hnamed : body.scope.functionNamed callee = .ok (function, signature) :=
      Scope.functionNamed_eq_ok_iff.mpr ⟨hfound, hfunction⟩
    rw [hnamed] at hty
    cases hreturns : signature.returns with
    | none =>
      simp only [bind, Except.bind, hreturns] at hty
      cases hty
    | some found =>
      simp only [bind, Except.bind, hreturns] at hty
      cases hty
      rfl

theorem ty_applyOperator {frame : Frame} {operator : Operator} {lhs rhs : Pending}
    {expected : Option Ty} {register : String} {found ty : Ty}
    (h : (applyOperator frame operator lhs rhs (.make register
      ((expected.filter Ty.isStorable).getD .dynamic))).eval body = .ok (found, last))
    (hty : (Expr.binary operator lhs.expression rhs.expression).typeIn frame.table body.scope = .ok ty)
    (hexpected : expected = none ∨ expected = some ty) : found = ty := by
  obtain ⟨common, _, _, _, _, hcommon, -, -, -, -, -, -, -, rfl⟩ := eval_applyOperator h
  rw [Expr.typeIn] at hty
  by_cases hcompares : operator.isComparison
  · rw [if_pos hcompares] at hty ⊢
    exact Except.ok.inj hty
  rw [if_neg hcompares] at hty ⊢
  unfold commonType at hcommon
  by_cases hleft : !lhs.expression.isLiteral
  · rw [if_pos hleft] at hty hcommon
    exact Except.ok.inj (hcommon.symm.trans hty)
  rw [if_neg hleft] at hty hcommon
  by_cases hright : !rhs.expression.isLiteral
  · rw [if_pos hright] at hty hcommon
    exact Except.ok.inj (hcommon.symm.trans hty)
  rw [if_neg hright] at hty hcommon
  -- Two literals: what is asked for is what they have without being asked.
  cases hcommon
  cases hty
  rw [Bool.not_eq_true] at hcompares
  rw [hcompares, Bool.or_false]
  rcases hexpected with rfl | rfl
  · rfl
  · cases lhs.expression <;> rfl

/-- What is predicted before the register of a value is made is still predicted then. -/
theorem ty_compute {table : TypeTable} {expression : Expr} {expected : Option Ty}
    {computation : Var → Lowering Ty} {value : Value} {ty : Ty}
    (h : (compute expected computation).eval body = .ok (value, last))
    (hkeyed : body.scope.Keyed) (hty : expression.typeIn table body.scope = .ok ty)
    (hcomputation : ∀ {register : String} {made : Body} {found : Ty},
      (computation (.make register ((expected.filter Ty.isStorable).getD .dynamic))).eval made =
        .ok (found, last) → expression.typeIn table made.scope = .ok ty → found = ty) :
    value.ty = ty := by
  obtain ⟨base, target, found, rfl, hrun, rfl⟩ := eval_compute h
  exact hcomputation hrun (Expr.typeIn_of_find? (fun _ _ => hkeyed.find?_mint base _) hty)

/-- An expression that is lowered at its predicted type, or at none, yields a value of that type. -/
theorem ty_lowerExpr {frame : Frame} {expression : Expr} {expected : Option Ty} {value : Value}
    {ty : Ty} (h : (lowerExpr frame expression expected).eval body = .ok (value, last))
    (hkeyed : body.scope.Keyed) (hty : expression.typeIn frame.table body.scope = .ok ty)
    (hexpected : expected = none ∨ expected = some ty) : value.ty = ty := by
  cases expression with
  | integer number =>
    cases hty
    rw [lowerExpr_integer] at h
    obtain ⟨rfl, -⟩ := Pass.eval_pure_eq_ok_iff.mp h
    rcases hexpected with rfl | rfl <;> rfl
  | boolean truth =>
    cases hty
    rw [lowerExpr_boolean] at h
    obtain ⟨rfl, -⟩ := Pass.eval_pure_eq_ok_iff.mp h
    rfl
  | address name =>
    rw [lowerExpr_address] at h
    simp only [Pass.eval_bind_eq_ok_iff, Pass.eval_pure_eq_ok_iff] at h
    obtain ⟨var, _, hvar, rfl, -⟩ := h
    obtain ⟨hfound, hstorable, -⟩ := eval_variableNamed_eq_ok_iff.mp hvar
    rw [Expr.typeIn, Scope.variableNamed_eq_ok_iff.mpr ⟨hfound, hstorable⟩] at hty
    exact Except.ok.inj hty
  | text content =>
    rw [lowerExpr_text] at h
    refine ty_compute h hkeyed hty fun hrun hty => ?_
    simp only [Pass.eval_bind_eq_ok_iff, Pass.eval_pure_eq_ok_iff] at hrun
    obtain ⟨_, _, -, rfl, -⟩ := hrun
    exact Except.ok.inj hty
  | variableRef name =>
    rw [lowerExpr_variableRef] at h
    refine ty_compute h hkeyed hty fun hrun hty => ?_
    simp only [variablePlace, Pass.eval_bind_eq_ok_iff, Pass.eval_map_eq_ok_iff] at hrun
    obtain ⟨_, _, ⟨var, hvar, rfl⟩, hload⟩ := hrun
    rw [Expr.typeIn, variableNamed_of_eval hvar] at hty
    exact (ty_loadInto hload).trans (Except.ok.inj hty)
  | binary operator lhs rhs =>
    rw [lowerExpr_binary] at h
    exact ty_compute h hkeyed hty fun hrun hty => ty_applyOperator hrun hty hexpected
  | call callee arguments =>
    rw [lowerExpr_call] at h
    refine ty_compute h hkeyed hty fun hrun hty => ?_
    exact Option.some.inj (ty_call (eval_callForValue hrun) hty hexpected)
  | deref name depth =>
    rw [lowerExpr_deref] at h
    refine ty_compute h hkeyed hty fun hrun hty => ?_
    obtain ⟨place, _, hplace, hload⟩ := Pass.eval_bind_eq_ok_iff.mp hrun
    obtain ⟨var, _, hvar, hpath, -⟩ := eval_derefPlace hplace
    rw [Expr.typeIn, variableNamed_of_eval hvar] at hty
    simp only [bind, Except.bind, hpath] at hty
    exact (ty_loadInto hload).trans (Except.ok.inj hty)
  | field base field =>
    rw [lowerExpr_field] at h
    refine ty_compute h hkeyed hty fun hrun hty => ?_
    simp only [fieldPlace, memberPlace, Pass.eval_bind_eq_ok_iff, Pass.eval_ofExcept_eq_ok_iff,
      Pass.eval_pure_eq_ok_iff] at hrun
    obtain ⟨_, _, ⟨var, _, hvar, _, _, ⟨hstruct, rfl⟩, _, _, -, _, _, ⟨hmember, rfl⟩, _, _, -, _, _, -,
      rfl, rfl⟩, hload⟩ := hrun
    rw [Expr.typeIn, variableNamed_of_eval hvar] at hty
    simp only [bind, Except.bind, hstruct, hmember] at hty
    exact (ty_loadInto hload).trans (Except.ok.inj hty)
  | element array index =>
    rw [lowerExpr_element] at h
    refine ty_compute h hkeyed hty fun hrun hty => ?_
    simp only [elementPlace, Pass.eval_bind_eq_ok_iff, Pass.eval_ofExcept_eq_ok_iff,
      Pass.eval_pure_eq_ok_iff] at hrun
    obtain ⟨_, _, ⟨var, _, hvar, _, _, ⟨hmember, rfl⟩, _, _, -, _, _, -, _, _, -, _, _, -, _, _, -,
      rfl, rfl⟩, hload⟩ := hrun
    rw [Expr.typeIn, variableNamed_of_eval hvar] at hty
    simp only [bind, Except.bind, hmember] at hty
    exact (ty_loadInto hload).trans (Except.ok.inj hty)
  | build struct fields =>
    rw [lowerExpr_build] at h
    refine ty_compute h hkeyed hty fun hrun hty => ?_
    simp only [buildStruct, Pass.eval_bind_eq_ok_iff, Pass.eval_ofExcept_eq_ok_iff] at hrun
    obtain ⟨definition, _, ⟨hget, rfl⟩, _, _, hslot, _, _, -, _, _, -, hload⟩ := hrun
    obtain ⟨rfl, -⟩ := eval_temporary_eq_ok_iff.mp hslot
    rw [Expr.typeIn, hget] at hty
    exact (ty_loadInto hload).trans (Except.ok.inj hty)
  | array elements =>
    rw [lowerExpr_array] at h
    refine ty_compute h hkeyed hty fun hrun hty => ?_
    simp only [constantArray_eq, Pass.eval_bind_eq_ok_iff, Pass.eval_ofExcept_eq_ok_iff,
      Pass.eval_pure_eq_ok_iff] at hrun
    obtain ⟨values, _, ⟨hvalues, rfl⟩, _, _, -, rfl, -⟩ := hrun
    rw [Expr.typeIn] at hty
    cases hty
    rw [Constant.ty, ← (forall₂_constantElements hvalues).length_eq]
    rcases hexpected with rfl | rfl <;> rfl

theorem eq_of_isLiteral {frame : Frame} {literal : Expr} {expected : Option Ty} {value : Value}
    (hliteral : literal.isLiteral)
    (h : (lowerExpr frame literal expected).eval body = .ok (value, last)) : body = last := by
  cases literal with
  | integer =>
    rw [lowerExpr_integer] at h
    exact (Pass.eval_pure_eq_ok_iff.mp h).2
  | boolean =>
    rw [lowerExpr_boolean] at h
    exact (Pass.eval_pure_eq_ok_iff.mp h).2
  | _ => cases hliteral

/-- A literal at the type of an operator on literals has that type. -/
theorem ty_literal {frame : Frame} {literal : Expr} {expected : Option Ty} {value : Value}
    {operator : Operator} (hliteral : literal.isLiteral)
    (hsupports : (literalsType literal expected).supports operator)
    (h : (lowerExpr frame literal (some (literalsType literal expected))).eval body =
      .ok (value, last)) : value.ty = literalsType literal expected := by
  cases literal with
  | boolean truth =>
    rw [lowerExpr_boolean] at h
    obtain ⟨rfl, -⟩ := Pass.eval_pure_eq_ok_iff.mp h
    rfl
  | integer number =>
    rw [lowerExpr_integer] at h
    obtain ⟨rfl, -⟩ := Pass.eval_pure_eq_ok_iff.mp h
    cases hty : literalsType (.integer number) expected with
    | int width => rfl
    | _ =>
      rw [hty] at hsupports
      cases hsupports
  | _ => cases hliteral

/-- Both operands of a binary operator come out at the type of the operator. -/
theorem ty_operands {frame : Frame} {lhs rhs : Expr} {expected : Option Ty} {ty : Ty}
    {left right : Value} {middle before : Body} {operator : Operator}
    (hcommon : commonType frame.table body.scope lhs rhs expected = .ok ty)
    (hsupports : ty.supports operator)
    (hleft : (lowerExpr frame lhs (some ty)).eval body = .ok (left, middle))
    (hright : (lowerExpr frame rhs (some ty)).eval middle = .ok (right, before))
    (hkeyed : body.scope.Keyed) (hsame : left.ty = right.ty) : left.ty = ty ∧ right.ty = ty := by
  unfold commonType at hcommon
  split_ifs at hcommon with hlhs hrhs
  · have hty := ty_lowerExpr hleft hkeyed hcommon (Or.inr rfl)
    exact ⟨hty, hsame ▸ hty⟩
  · obtain rfl := eq_of_isLiteral (by simpa using hlhs) hleft
    have hty := ty_lowerExpr hright hkeyed hcommon (Or.inr rfl)
    exact ⟨hsame ▸ hty, hty⟩
  · cases hcommon
    have hty := ty_literal (by simpa using hlhs) hsupports hleft
    exact ⟨hty, hsame ▸ hty⟩

end Lowering

end ThreeAddress
