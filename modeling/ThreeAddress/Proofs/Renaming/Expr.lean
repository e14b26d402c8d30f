import ThreeAddress.Proofs.Renaming.Lockstep
import ThreeAddress.Proofs.Typing.Expr
import ThreeAddress.Proofs.Typing.Prediction

/-!
# Expressions in lock-step

An expression and its renamed copy are lowered to values that are the same up to names. Both runs ask
for the same types and find the same variables and functions, so they also fail together.

## Main definitions

* `Renaming.SamePlace`: two places that are the same up to names.
* `Renaming.SamePending`: two arguments whose lowering is in lock-step.

## Main statements

* `Body.Matches.agree_typeIn`: an expression has one type under both names.
* `Lowering.lockstep_lowerExpr`: expressions are lowered in lock-step.
-/

namespace ThreeAddress

variable {naming : Renaming} {w w' : World} {names : List String} {body other : Body}

-- ════════════════════════
-- Types
-- ════════════════════════

namespace Ty

theorem signature?_of_isStorable {ty : Ty} (h : ty.isStorable) : ty.signature? = none := by
  cases ty with
  | function signature => cases h
  | _ => rfl

theorem agree_dereferenced (name name' : String) (ty : Ty) (depth : Nat) :
    Agree Eq (ty.dereferenced name depth) (ty.dereferenced name' depth) := by
  unfold dereferenced
  split
  · exact .error _ _
  · exact .refl _

theorem agree_requireStruct (name name' : String) (ty : Ty) :
    Agree Eq (ty.requireStruct name) (ty.requireStruct name') := by
  unfold requireStruct
  cases ty.struct? with
  | some definition => exact .ok rfl
  | none => exact .error _ _

theorem agree_requireArray (name name' : String) (ty : Ty) :
    Agree Eq (ty.requireArray name) (ty.requireArray name') := by
  unfold requireArray
  cases ty.member? with
  | some member => exact .ok rfl
  | none => exact .error _ _

/-- What can be dereferenced is a reference. -/
theorem exists_eq_ref_of_lt_refDepth {depth : Nat} {ty : Ty} (h : depth < ty.refDepth) :
    ∃ target, ty = .ref target ∧ depth ≤ target.refDepth := by
  cases ty with
  | ref target => exact ⟨target, rfl, Nat.le_of_lt_succ h⟩
  | _ => cases h

end Ty

/-- A literal takes the type of the other side, and two literals that of the first. -/
theorem agree_of_literals (change : String → String) {lhs rhs : Expr} (expected : Option Ty)
    {left left' right right' : Except Diagnostic Ty} (hleft : Agree Eq left left')
    (hright : Agree Eq right right') :
    Agree Eq
      (if !lhs.isLiteral then left else if !rhs.isLiteral then right else
        .ok (literalsType lhs expected))
      (if !lhs.isLiteral then left' else if !rhs.isLiteral then right' else
        .ok (literalsType (lhs.rename change) expected)) := by
  cases hlhs : lhs.isLiteral with
  | false => exact hleft
  | true =>
    rw [Expr.rename_of_isLiteral change hlhs]
    cases rhs.isLiteral with
    | false => exact hright
    | true => exact .ok rfl

namespace Body.Matches

/-- An expression has the same type under both names, or none under both. -/
theorem agree_typeIn (h : body.Matches naming w names other) (table : TypeTable) :
    ∀ expression : Expr, expression.mentions ⊆ names → expression.called ⊆ naming.callees →
      Agree Eq (expression.typeIn table body.scope)
        ((expression.rename naming.change).typeIn table other.scope)
  | .integer _, _, _ | .boolean _, _, _ | .text _, _, _ => by
    simp only [Expr.rename, Expr.typeIn]
    exact .ok rfl
  | .variableRef name, hmentions, _ => by
    simp only [Expr.rename, Expr.typeIn]
    exact (h.agree_variableNamed (hmentions (by simp [Expr.mentions]))).map
      fun _ _ hsame => hsame.ty
  | .address name, hmentions, _ => by
    simp only [Expr.rename, Expr.typeIn]
    exact (h.agree_variableNamed (hmentions (by simp [Expr.mentions]))).map
      fun _ _ hsame => congrArg Ty.ref hsame.ty
  | .binary operator lhs rhs, hmentions, hcalled => by
    rw [Expr.mentions, List.append_subset] at hmentions
    rw [Expr.called, List.append_subset] at hcalled
    simp only [Expr.rename, Expr.typeIn, Expr.isLiteral_rename]
    by_cases hcomparison : operator.isComparison
    · rw [if_pos hcomparison, if_pos hcomparison]
      exact .ok rfl
    rw [if_neg hcomparison, if_neg hcomparison]
    exact agree_of_literals naming.change _ (h.agree_typeIn table lhs hmentions.1 hcalled.1)
      (h.agree_typeIn table rhs hmentions.2 hcalled.2)
  | .call callee arguments, _, hcalled => by
    simp only [Expr.rename, Expr.typeIn]
    cases Builtin.ofName? callee with
    | some builtin => exact .ok rfl
    | none =>
      refine (h.functions callee (hcalled (by simp [Expr.called]))).bind ?_
      rintro ⟨var, signature⟩ ⟨var', signature'⟩ - ⟨-, rfl⟩
      exact .refl _
  | .deref name depth, hmentions, _ => by
    simp only [Expr.rename, Expr.typeIn]
    refine (h.agree_variableNamed (hmentions (by simp [Expr.mentions]))).bind
      fun var var' _ hsame => ?_
    rw [← hsame.ty]
    exact Ty.agree_dereferenced _ _ _ _
  | .field base name, hmentions, _ => by
    simp only [Expr.rename, Expr.typeIn]
    refine (h.agree_variableNamed (hmentions (by simp [Expr.mentions]))).bind
      fun var var' _ hsame => ?_
    rw [← hsame.ty]
    refine (Ty.agree_requireStruct _ _ _).bind ?_
    rintro definition _ - rfl
    exact .refl _
  | .build struct fields, _, _ => by
    simp only [Expr.rename, Expr.typeIn]
    exact .refl _
  | .array elements, _, _ => by
    simp only [Expr.rename, Expr.typeIn, Expr.length_renameAll]
    exact .ok rfl
  | .element array index, hmentions, _ => by
    simp only [Expr.rename, Expr.typeIn]
    refine (h.agree_variableNamed (hmentions (by simp [Expr.mentions]))).bind
      fun var var' _ hsame => ?_
    rw [← hsame.ty]
    exact Ty.agree_requireArray _ _ _

theorem agree_commonType (h : body.Matches naming w names other) (table : TypeTable) {lhs rhs : Expr}
    (expected : Option Ty) (hmentions : lhs.mentions ++ rhs.mentions ⊆ names)
    (hcalled : lhs.called ++ rhs.called ⊆ naming.callees) :
    Agree Eq (commonType table body.scope lhs rhs expected)
      (commonType table other.scope (lhs.rename naming.change) (rhs.rename naming.change)
        expected) := by
  rw [List.append_subset] at hmentions hcalled
  simp only [commonType, Expr.isLiteral_rename]
  exact agree_of_literals naming.change expected (h.agree_typeIn table lhs hmentions.1 hcalled.1)
    (h.agree_typeIn table rhs hmentions.2 hcalled.2)

end Body.Matches

/-- A size is a number, which has no name in it. -/
theorem operand_sizeArgument {registers symbols : String → String → Prop} {builtin : Builtin}
    {size : Expr} {value : Value} (h : sizeArgument builtin size = .ok value) :
    Operand.Matches registers symbols value.operand value.operand := by
  cases size with
  | integer number =>
    simp only [sizeArgument] at h
    split at h
    · cases h
      exact .immediate _
    · cases h
  | _ => cases h

-- ════════════════════════
-- Places
-- ════════════════════════

/-- Two places that are the same up to names. -/
structure Renaming.SamePlace (naming : Renaming) (w : World) (place place' : Place) : Prop where
  address : naming.SameOperand w place.address place'.address
  ty : place.ty = place'.ty

theorem World.SameVar.place {var var' : Var} (h : w.SameVar var var') :
    naming.SamePlace w var.place var'.place :=
  ⟨h.operand, h.ty⟩

namespace Lowering

theorem lockstep_loadInto {target target' : String} (htarget : w.Pairs target target')
    {place place' : Place} (hplace : naming.SamePlace w place place') :
    Lockstep naming names w (fun _ => Eq) (loadInto target place) (loadInto target' place') := by
  rw [loadInto, loadInto, hplace.ty]
  exact (lockstep_emit (.load htarget _ hplace.address)).bind fun _ _ _ _ _ =>
    lockstep_pure fun _ _ => rfl

theorem lockstep_follow {address address' : Operand} {ty : Ty}
    (haddress : naming.SameOperand w address address') (hty : ty.signature? = none) :
    Lockstep naming names w naming.SameOperand (follow ty address) (follow ty address') := by
  refine (lockstep_temporary hty).bind fun w₁ hle₁ pointer pointer' hpointer => ?_
  refine (lockstep_emit (.load hpointer.register ty
    (Renaming.SameOperand.mono haddress hle₁))).bind fun w₂ hle₂ _ _ _ => ?_
  exact lockstep_pure fun _ hle => (hpointer.mono (hle₂.trans hle)).operand

theorem lockstep_followAll {depth : Nat} {place place' : Place}
    (hplace : naming.SamePlace w place place') (hdepth : depth ≤ place.ty.refDepth) :
    Lockstep naming names w naming.SamePlace (followAll place depth) (followAll place' depth) := by
  induction depth generalizing place place' w with
  | zero => exact lockstep_pure fun _ hle => ⟨Renaming.SameOperand.mono hplace.address hle, hplace.ty⟩
  | succ depth ih =>
    obtain ⟨address, ty⟩ := place
    obtain ⟨address', ty'⟩ := place'
    obtain rfl : ty = ty' := hplace.ty
    obtain ⟨target, rfl, htarget⟩ := Ty.exists_eq_ref_of_lt_refDepth hdepth
    exact (lockstep_follow hplace.address rfl).bind fun _ _ _ _ haddress => ih ⟨haddress, rfl⟩ htarget

theorem lockstep_structAddress {var var' : Var} (hvar : w.SameVar var var') :
    Lockstep naming names w naming.SameOperand (structAddress var) (structAddress var') := by
  rw [structAddress, structAddress, ← hvar.ty]
  cases hty : var.ty with
  | ref target => exact lockstep_follow hvar.operand rfl
  | _ => exact lockstep_pure fun _ hle => (hvar.mono hle).operand

theorem lockstep_variablePlace {name : String} (hname : name ∈ names) :
    Lockstep naming names w naming.SamePlace (variablePlace name)
      (variablePlace (naming.change name)) :=
  (lockstep_variableNamed hname).map fun _ _ _ _ hsame _ hle => (hsame.mono hle).place

theorem lockstep_derefPlace {name : String} (hname : name ∈ names) (depth : Nat) :
    Lockstep naming names w naming.SamePlace (derefPlace name depth)
      (derefPlace (naming.change name) depth) := by
  refine (lockstep_variableNamed hname).bind fun w₁ _ var var' hvar => ?_
  rw [← hvar.ty]
  refine (lockstep_ofExcept (Ty.agree_dereferenced _ _ _ _)).bind ?_
  rintro w₂ hle₂ final _ ⟨rfl, hpath⟩
  exact lockstep_followAll (hvar.mono hle₂).place (Ty.le_refDepth_of_dereferenced hpath)

theorem lockstep_memberPlace (definition : StructTy) {address address' : Operand}
    (haddress : naming.SameOperand w address address') (position : Nat) (member : Member) :
    Lockstep naming names w naming.SamePlace (memberPlace definition address position member)
      (memberPlace definition address' position member) := by
  refine (lockstep_temporary rfl).bind fun w₁ hle₁ target target' htarget => ?_
  refine (lockstep_emit (.elementAddress htarget.register _
    (Renaming.SameOperand.mono haddress hle₁) (.cons ⟨.immediate _, rfl⟩
      (.cons ⟨.immediate _, rfl⟩ .nil)) true)).bind fun w₂ hle₂ _ _ _ => ?_
  exact lockstep_pure fun _ hle => ⟨(htarget.mono (hle₂.trans hle)).operand, rfl⟩

theorem lockstep_fieldPlace {base : String} (hbase : base ∈ names) (field : String) :
    Lockstep naming names w naming.SamePlace (fieldPlace base field)
      (fieldPlace (naming.change base) field) := by
  refine (lockstep_variableNamed hbase).bind fun w₁ _ var var' hvar => ?_
  rw [← hvar.ty]
  refine (lockstep_ofExcept (Ty.agree_requireStruct _ _ _)).bind ?_
  rintro w₂ hle₂ definition _ ⟨rfl, -⟩
  refine (lockstep_structAddress (hvar.mono hle₂)).bind fun w₃ hle₃ address address' haddress => ?_
  refine (lockstep_ofExcept (.refl (definition.memberNamed field))).bind ?_
  rintro w₄ hle₄ ⟨position, member⟩ _ ⟨rfl, -⟩
  exact lockstep_memberPlace definition (Renaming.SameOperand.mono haddress hle₄) position member

theorem lockstep_elementPlace {array : String} (harray : array ∈ names)
    {index index' : Lowering Value}
    (hindex : Lockstep naming names w naming.SameValue index index') :
    Lockstep naming names w naming.SamePlace (elementPlace array index)
      (elementPlace (naming.change array) index') := by
  refine (lockstep_variableNamed harray).bind fun w₁ hle₁ var var' hvar => ?_
  rw [← hvar.ty]
  refine (lockstep_ofExcept (Ty.agree_requireArray _ _ _)).bind ?_
  rintro w₂ hle₂ member _ ⟨rfl, hmember⟩
  have hty : var.ty.signature? = none := by
    obtain ⟨extent, hty⟩ := Ty.eq_of_requireArray hmember
    rw [hty]
    rfl
  refine (lockstep_follow (hvar.mono hle₂).operand hty).bind
    fun w₃ hle₃ address address' haddress => ?_
  refine (hindex.mono (hle₁.trans (hle₂.trans hle₃))).bind fun w₄ hle₄ value value' hvalue => ?_
  refine (lockstep_require (by rw [hvalue.ty])).bind fun w₅ hle₅ _ _ _ => ?_
  refine (lockstep_temporary rfl).bind fun w₆ hle₆ target target' htarget => ?_
  have hle : w₄ ≤ w₆ := hle₅.trans hle₆
  refine (lockstep_emit (.elementAddress htarget.register _
    (Renaming.SameOperand.mono haddress (hle₄.trans hle))
    (.cons (Renaming.SameValue.mono hvalue hle) .nil) false)).bind fun w₇ hle₇ _ _ _ => ?_
  exact lockstep_pure fun _ hle => ⟨(htarget.mono (hle₇.trans hle)).operand, rfl⟩

end Lowering

-- ════════════════════════
-- Arguments
-- ════════════════════════

/-- Two arguments whose lowering is in lock-step, one of them renamed. -/
structure Renaming.SamePending (naming : Renaming) (names : List String) (w : World)
    (argument argument' : Pending) : Prop where
  expression : argument'.expression = argument.expression.rename naming.change
  lower : ∀ expected,
    Lowering.Lockstep naming names w naming.SameValue (argument.lower expected)
      (argument'.lower expected)

theorem Renaming.SamePending.mono {argument argument' : Pending}
    (h : naming.SamePending names w argument argument') (hle : w ≤ w') :
    naming.SamePending names w' argument argument' :=
  ⟨h.expression, fun expected => (h.lower expected).mono hle⟩

namespace Lowering

theorem lockstep_values {values values' : List Value} {value value' : Value}
    (hvalue : naming.SameValue w value value')
    (hvalues : List.Forall₂ (naming.SameValue w) values values') :
    Lockstep naming names w (fun w' => List.Forall₂ (naming.SameValue w')) (pure (value :: values))
      (pure (value' :: values')) :=
  lockstep_pure fun _ hle => .cons (Renaming.SameValue.mono hvalue hle)
    (hvalues.imp fun _ _ h => Renaming.SameValue.mono h hle)

theorem lockstep_passArguments {arguments arguments' : List Pending} {parameters : List Ty}
    (h : List.Forall₂ (naming.SamePending names w) arguments arguments') :
    Lockstep naming names w (fun w' => List.Forall₂ (naming.SameValue w'))
      (passArguments arguments parameters) (passArguments arguments' parameters) := by
  induction arguments generalizing arguments' parameters w with
  | nil =>
    cases h
    exact lockstep_pure fun _ _ => .nil
  | cons argument rest ih =>
    cases h with
    | cons hargument hrest =>
    have hrest' {w₁ : World} (hle : w ≤ w₁) := hrest.imp fun _ _ h => h.mono hle
    cases parameters with
    | nil =>
      refine (hargument.lower none).bind fun w₁ hle₁ value value' hvalue => ?_
      refine (ih (hrest' hle₁)).bind fun w₂ hle₂ values values' hvalues => ?_
      exact lockstep_values (Renaming.SameValue.mono hvalue hle₂) hvalues
    | cons parameter parameters =>
      refine (hargument.lower (some parameter)).bind fun w₁ hle₁ value value' hvalue => ?_
      refine (lockstep_expectType _ rfl hvalue.ty).bind fun w₂ hle₂ _ _ _ => ?_
      refine (ih (hrest' (hle₁.trans hle₂))).bind fun w₃ hle₃ values values' hvalues => ?_
      exact lockstep_values (Renaming.SameValue.mono hvalue (hle₂.trans hle₃)) hvalues

theorem lockstep_promote {value value' : Value} (h : naming.SameValue w value value') :
    Lockstep naming names w naming.SameValue (promote value) (promote value') := by
  rw [promote, promote, ← h.ty]
  cases value.ty.promotion? with
  | none => exact lockstep_pure fun _ hle => Renaming.SameValue.mono h hle
  | some extension =>
    refine (lockstep_temporary rfl).bind fun w₁ hle₁ target target' htarget => ?_
    refine (lockstep_emit (.extend extension htarget.register (Renaming.SameValue.mono h hle₁)
      _)).bind fun w₂ hle₂ _ _ _ => ?_
    exact lockstep_pure fun _ hle => ⟨(htarget.mono (hle₂.trans hle)).operand, rfl⟩

theorem lockstep_passVariadic {arguments arguments' : List Pending}
    (h : List.Forall₂ (naming.SamePending names w) arguments arguments') :
    Lockstep naming names w (fun w' => List.Forall₂ (naming.SameValue w')) (passVariadic arguments)
      (passVariadic arguments') := by
  induction arguments generalizing arguments' w with
  | nil =>
    cases h
    exact lockstep_pure fun _ _ => .nil
  | cons argument rest ih =>
    cases h with
    | cons hargument hrest =>
    refine (hargument.lower none).bind fun w₁ hle₁ value value' hvalue => ?_
    refine (lockstep_promote hvalue).bind fun w₂ hle₂ value value' hvalue => ?_
    refine (ih (hrest.imp fun _ _ h => h.mono (hle₁.trans hle₂))).bind
      fun w₃ hle₃ values values' hvalues => ?_
    exact lockstep_values (Renaming.SameValue.mono hvalue hle₃) hvalues

-- ════════════════════════
-- Calls
-- ════════════════════════

/-- The place that the result of a call goes to, if it is used. -/
abbrev SameTarget (w : World) : Option Var → Option Var → Prop := Option.Rel w.SameVar

theorem SameTarget.mono {target target' : Option Var} (h : SameTarget w target target')
    (hle : w ≤ w') : SameTarget w' target target' :=
  optionRel_imp (fun _ _ hsame => hsame.mono hle) h

theorem SameTarget.register {target target' : Option Var} (h : SameTarget w target target') :
    Option.Rel w.Pairs (target.map Var.register) (target'.map Var.register) := by
  cases h with
  | some h => exact .some h.register
  | none => exact .none

variable {target target' : Option Var}

theorem lockstep_callSupport (function : Support) {target target' : Option String}
    {arguments arguments' : List Value} (htarget : Option.Rel w.Pairs target target')
    (harguments : List.Forall₂ (naming.SameValue w) arguments arguments') :
    Lockstep naming names w (fun _ _ _ => True) (callSupport function target arguments)
      (callSupport function target' arguments') :=
  lockstep_emit (.call htarget (Or.inl (naming.support function)) _ harguments)

theorem lockstep_printFormat {format format' : Pending} {values values' : List Pending}
    (htarget : SameTarget w target target') (hformat : naming.SamePending names w format format')
    (hvalues : List.Forall₂ (naming.SamePending names w) values values') :
    Lockstep naming names w (fun _ _ _ => True) (printFormat format values target)
      (printFormat format' values' target') := by
  refine (hformat.lower _).bind fun w₁ hle₁ format format' hformat => ?_
  refine (lockstep_require (by rw [hformat.ty])).bind fun w₂ hle₂ _ _ _ => ?_
  have hle : w ≤ w₂ := hle₁.trans hle₂
  refine (lockstep_passVariadic (hvalues.imp fun _ _ h => h.mono hle)).bind
    fun w₃ hle₃ values values' hvalues => ?_
  exact lockstep_callSupport .printf (htarget.mono (hle.trans hle₃)).register
    (.cons (Renaming.SameValue.mono hformat (hle₂.trans hle₃)) hvalues)

theorem lockstep_wrap (constructor : Support) {argument argument' : Pending}
    (htarget : SameTarget w target target')
    (hargument : naming.SamePending names w argument argument') :
    Lockstep naming names w (fun _ _ _ => True) (wrap constructor argument target)
      (wrap constructor argument' target') := by
  refine (hargument.lower none).bind fun w₁ hle₁ value value' hvalue => ?_
  rw [← hvalue.ty]
  refine (lockstep_ofExcept (.refl value.ty.size)).bind ?_
  rintro w₂ hle₂ size _ ⟨rfl, -⟩
  refine (lockstep_temporary rfl).bind fun w₃ hle₃ payload payload' hpayload => ?_
  refine (lockstep_callSupport .malloc (.some hpayload.register)
    (.cons ⟨.immediate _, rfl⟩ .nil)).bind fun w₄ hle₄ _ _ _ => ?_
  refine (lockstep_emit (.store
    (Renaming.SameValue.mono hvalue (hle₂.trans (hle₃.trans hle₄)))
    (hpayload.mono hle₄).operand)).bind fun w₅ hle₅ _ _ _ => ?_
  have hle : w₁ ≤ w₅ := hle₂.trans (hle₃.trans (hle₄.trans hle₅))
  exact lockstep_callSupport constructor (htarget.mono (hle₁.trans hle)).register
    (.cons (hpayload.mono (hle₄.trans hle₅)).value .nil)

theorem payloadTy_eq (h : SameTarget w target target') : payloadTy target = payloadTy target' := by
  cases h with
  | none => rfl
  | @some var var' h => simp [payloadTy, Option.filter, h.ty, h.dynamic]

theorem signature?_payloadTy (target : Option Var) : (payloadTy target).signature? = none := by
  unfold payloadTy
  cases hfilter : target.filter fun var => !var.dynamic && var.ty.isStorable with
  | none => rfl
  | some var =>
    have hstorable := (Option.filter_eq_some_iff.mp hfilter).2
    rw [Bool.and_eq_true] at hstorable
    exact Ty.signature?_of_isStorable hstorable.2

/-- The payload of a success or error value is read at the type of the place it goes to. -/
theorem lockstep_unwrap {argument argument' : Pending} (htarget : SameTarget w target target')
    (hargument : naming.SamePending names w argument argument') :
    Lockstep naming names w (fun _ => Eq) (unwrap argument target) (unwrap argument' target') := by
  have hty := payloadTy_eq htarget
  unfold payloadTy at hty
  simp only [unwrap, ← hty]
  refine (hargument.lower (some .result)).bind fun w₁ hle₁ value value' hvalue => ?_
  refine (lockstep_require (by rw [hvalue.ty])).bind fun w₂ hle₂ _ _ _ => ?_
  refine (lockstep_temporary rfl).bind fun w₃ hle₃ payload payload' hpayload => ?_
  refine (lockstep_emit (.extractMember hpayload.register
    (Renaming.SameValue.mono hvalue (hle₂.trans hle₃)) 1)).bind fun w₄ hle₄ _ _ _ => ?_
  have hload {w₅ : World} (hle : w₃ ≤ w₅) {written written' : Var}
      (hwritten : w₅.SameVar written written') : Lockstep naming names w₅ (fun _ => Eq)
      (do
        emit (.load written.register (payloadTy target) payload.operand)
        return payloadTy target)
      (do
        emit (.load written'.register (payloadTy target) payload'.operand)
        return payloadTy target) :=
    (lockstep_emit (.load hwritten.register _ (hpayload.mono hle).operand)).bind fun _ _ _ _ _ =>
      lockstep_pure fun _ _ => rfl
  cases htarget with
  | none =>
    exact (lockstep_temporary (signature?_payloadTy none)).bind fun w₅ hle₅ _ _ hwritten =>
      hload (hle₄.trans hle₅) hwritten
  | some hvar =>
    exact hload hle₄ (hvar.mono (hle₁.trans (hle₂.trans (hle₃.trans hle₄))))

theorem lockstep_allocate {size size' : Pending} (htarget : SameTarget w target target')
    (hsize : naming.SamePending names w size size') :
    Lockstep naming names w (fun _ _ _ => True) (allocate size target) (allocate size' target') := by
  unfold allocate
  rw [hsize.expression, sizeArgument_rename]
  refine (lockstep_ofExcept (.refl _)).bind ?_
  rintro w₁ hle₁ value _ ⟨rfl, hvalue⟩
  refine lockstep_callSupport .malloc (htarget.mono hle₁).register (.cons ⟨?_, rfl⟩ .nil)
  exact operand_sizeArgument hvalue

theorem lockstep_reallocate {pointer pointer' size size' : Pending}
    (htarget : SameTarget w target target')
    (hpointer : naming.SamePending names w pointer pointer')
    (hsize : naming.SamePending names w size size') :
    Lockstep naming names w (fun _ _ _ => True) (reallocate pointer size target)
      (reallocate pointer' size' target') := by
  unfold reallocate
  rw [hsize.expression, sizeArgument_rename]
  refine (hpointer.lower _).bind fun w₁ hle₁ pointer pointer' hpointer => ?_
  refine (lockstep_require (by rw [hpointer.ty])).bind fun w₂ hle₂ _ _ _ => ?_
  refine (lockstep_ofExcept (.refl _)).bind ?_
  rintro w₃ hle₃ value _ ⟨rfl, hvalue⟩
  refine lockstep_callSupport .realloc (htarget.mono (hle₁.trans (hle₂.trans hle₃))).register
    (.cons (Renaming.SameValue.mono hpointer (hle₂.trans hle₃)) (.cons ⟨?_, rfl⟩ .nil))
  exact operand_sizeArgument hvalue

theorem Lockstep.andReturn {pass pass' : Lowering Unit}
    (h : Lockstep naming names w (fun _ _ _ => True) pass pass') (ty : Ty) :
    Lockstep naming names w (fun _ => Eq) (do pass; return ty) (do pass'; return ty) :=
  h.bind fun _ _ _ _ _ => lockstep_pure fun _ _ => rfl

/-- A built-in is called with as many arguments in both runs. -/
theorem lockstep_callBuiltin (builtin : Builtin) {arguments arguments' : List Pending}
    (htarget : SameTarget w target target')
    (harguments : List.Forall₂ (naming.SamePending names w) arguments arguments') :
    Lockstep naming names w (fun _ => Eq) (callBuiltin builtin arguments target)
      (callBuiltin builtin arguments' target') := by
  cases harguments with
  | nil => cases builtin <;> exact lockstep_fail _ _
  | cons hfirst hrest =>
    cases builtin with
    | printf => exact (lockstep_printFormat htarget hfirst hrest).andReturn _
    | ok =>
      cases hrest with
      | nil => exact (lockstep_wrap .makeOk htarget hfirst).andReturn _
      | cons => exact lockstep_fail _ _
    | err =>
      cases hrest with
      | nil => exact (lockstep_wrap .makeErr htarget hfirst).andReturn _
      | cons => exact lockstep_fail _ _
    | unwrap =>
      cases hrest with
      | nil => exact lockstep_unwrap htarget hfirst
      | cons => exact lockstep_fail _ _
    | alloc =>
      cases hrest with
      | nil => exact (lockstep_allocate htarget hfirst).andReturn _
      | cons => exact lockstep_fail _ _
    | realloc =>
      cases hrest with
      | nil => exact lockstep_fail _ _
      | cons hsecond hrest =>
        cases hrest with
        | cons => exact lockstep_fail _ _
        | nil => exact (lockstep_reallocate htarget hfirst hsecond).andReturn _

/-- A called name stands for the same function in both runs, or for none. -/
theorem lockstep_callFunction {callee : String} {arguments arguments' : List Pending}
    (hcallee : callee ∈ naming.callees) (htarget : SameTarget w target target')
    (harguments : List.Forall₂ (naming.SamePending names w) arguments arguments') :
    Lockstep naming names w (fun _ => Eq) (callFunction callee arguments target)
      (callFunction callee arguments' target') := by
  have hsome : target.isNone = target'.isNone := by cases htarget <;> rfl
  intro w₁ hle₁ body other hmatches
  refine lockstepAt_get ((lockstepAt_ofExcept hmatches (hmatches.functions callee hcallee)).bind ?_)
  rintro w₂ hle₂ ⟨function, signature⟩ ⟨function', signature'⟩ middle middle' - hmatches' ⟨hlink, rfl⟩
  have hle : w ≤ w₂ := hle₁.trans hle₂
  refine ((lockstep_require (by rw [harguments.length_eq])).bind fun w₃ hle₃ _ _ _ => ?_) le_rfl
    hmatches'
  refine (lockstep_require (by rw [hsome])).bind fun w₄ hle₄ _ _ _ => ?_
  have hle' : w ≤ w₄ := hle.trans (hle₃.trans hle₄)
  refine (lockstep_passArguments (harguments.imp fun _ _ h => h.mono hle')).bind
    fun w₅ hle₅ values values' hvalues => ?_
  exact (lockstep_emit (.call (htarget.mono (hle'.trans hle₅)).register (Or.inl hlink) _
    hvalues)).bind fun _ _ _ _ _ => lockstep_pure fun _ _ => rfl

theorem lockstep_call {callee : String} {arguments arguments' : List Pending}
    (hcallee : callee ∈ naming.callees) (htarget : SameTarget w target target')
    (harguments : List.Forall₂ (naming.SamePending names w) arguments arguments') :
    Lockstep naming names w (fun _ => Eq) (call callee arguments target)
      (call callee arguments' target') := by
  unfold call
  cases Builtin.ofName? callee with
  | none => exact lockstep_callFunction hcallee htarget harguments
  | some builtin =>
    refine (lockstep_report _ _).bind fun w₁ hle₁ _ _ _ => ?_
    exact (lockstep_callBuiltin builtin (htarget.mono hle₁)
      (harguments.imp fun _ _ h => h.mono hle₁)).map fun _ _ _ _ hsame _ _ => congrArg some hsame

theorem lockstep_callForValue {callee : String} {arguments arguments' : List Pending}
    {target target' : Var} (hcallee : callee ∈ naming.callees) (htarget : w.SameVar target target')
    (harguments : List.Forall₂ (naming.SamePending names w) arguments arguments') :
    Lockstep naming names w (fun _ => Eq) (callForValue callee arguments target)
      (callForValue callee arguments' target') := by
  refine (lockstep_call hcallee (.some htarget) harguments).bind ?_
  rintro w₁ hle₁ returned _ rfl
  cases returned with
  | none => exact lockstep_fail _ _
  | some ty => exact lockstep_pure fun _ _ => rfl

-- ════════════════════════
-- Compound expressions
-- ════════════════════════

theorem lockstep_compute (expected : Option Ty) {computation computation' : Var → Lowering Ty}
    (h : ∀ w', w ≤ w' → ∀ target target', w'.SameVar target target' →
      Lockstep naming names w' (fun _ => Eq) (computation target) (computation' target')) :
    Lockstep naming names w naming.SameValue (compute expected computation)
      (compute expected computation') := by
  have hty : ((expected.filter Ty.isStorable).getD .dynamic).signature? = none := by
    cases hfilter : expected.filter Ty.isStorable with
    | none => rfl
    | some ty => exact Ty.signature?_of_isStorable (Option.filter_eq_some_iff.mp hfilter).2
  rw [compute_eq, compute_eq]
  refine (lockstep_temporary hty).bind fun w₁ hle₁ target target' htarget => ?_
  refine (h w₁ hle₁ target target' htarget).bind ?_
  rintro w₂ hle₂ ty _ rfl
  exact lockstep_pure fun _ hle => ⟨(htarget.mono (hle₂.trans hle)).operand, rfl⟩

theorem lockstep_addressConstant (constant : Constant) {target target' : Var}
    (htarget : w.SameVar target target') :
    Lockstep naming names w (fun _ _ _ => True) (addressConstant constant target)
      (addressConstant constant target') :=
  (lockstep_intern constant).bind fun _ hle _ _ hsymbol =>
    lockstep_emit (.elementAddress (htarget.mono hle).register _ (.global hsymbol)
      (.cons ⟨.immediate _, rfl⟩ (.cons ⟨.immediate _, rfl⟩ .nil)) true)

theorem sameInstr_instruction (operator : Operator) {target target' : String} (ty : Ty)
    {lhs lhs' rhs rhs' : Operand} (htarget : w.Pairs target target')
    (hlhs : naming.SameOperand w lhs lhs') (hrhs : naming.SameOperand w rhs rhs') :
    naming.SameInstr w (operator.instruction target ty lhs rhs)
      (operator.instruction target' ty lhs' rhs') := by
  cases operator with
  | equal | notEqual | less | lessEqual | greater | greaterEqual =>
    exact .compare _ htarget ty hlhs hrhs
  | _ => exact .arithmetic _ htarget ty hlhs hrhs

/-- Both runs lower the operands of a binary operator at the same type. -/
theorem lockstep_applyOperator {frame frame' : Frame} (hframe : frame.table = frame'.table)
    (operator : Operator) {lhs lhs' rhs rhs' : Pending} {target target' : Var}
    (hlhs : naming.SamePending names w lhs lhs') (hrhs : naming.SamePending names w rhs rhs')
    (hmentions : lhs.expression.mentions ++ rhs.expression.mentions ⊆ names)
    (hcalled : lhs.expression.called ++ rhs.expression.called ⊆ naming.callees)
    (htarget : w.SameVar target target') :
    Lockstep naming names w (fun _ => Eq) (applyOperator frame operator lhs rhs target)
      (applyOperator frame' operator lhs' rhs' target') := by
  intro w₁ hle₁ body other hmatches
  unfold applyOperator
  rw [← hframe, ← htarget.dynamic, ← htarget.ty, hlhs.expression, hrhs.expression]
  refine lockstepAt_get ((lockstepAt_ofExcept hmatches
    (hmatches.agree_commonType frame.table _ hmentions hcalled)).bind ?_)
  rintro w₂ hle₂ ty _ middle middle' - hmatches' rfl
  refine ((lockstep_require rfl).bind fun w₃ hle₃ _ _ _ => ?_) le_rfl hmatches'
  have hle : w ≤ w₃ := hle₁.trans (hle₂.trans hle₃)
  refine ((hlhs.lower (some ty)).mono hle).bind fun w₄ hle₄ left left' hleft => ?_
  refine ((hrhs.lower (some ty)).mono (hle.trans hle₄)).bind fun w₅ hle₅ right right' hright => ?_
  refine (lockstep_expectType _ rfl hleft.ty).bind fun w₆ hle₆ _ _ _ => ?_
  refine (lockstep_expectType _ rfl hright.ty).bind fun w₇ hle₇ _ _ _ => ?_
  refine (lockstep_require (by rw [hleft.ty, hright.ty])).bind fun w₈ hle₈ _ _ _ => ?_
  have hle' : w₅ ≤ w₈ := hle₆.trans (hle₇.trans hle₈)
  refine Lockstep.andReturn (lockstep_emit (sameInstr_instruction operator ty ?_ ?_ ?_)) _
  · exact (htarget.mono (hle.trans (hle₄.trans (hle₅.trans hle')))).register
  · exact Renaming.SameOperand.mono hleft.operand (hle₅.trans hle')
  · exact Renaming.SameOperand.mono hright.operand hle'

/-- Two members whose lowering is in lock-step. -/
structure SameField (naming : Renaming) (names : List String) (w : World)
    (entry entry' : PendingField) : Prop where
  field : entry.field = entry'.field
  lower : ∀ expected,
    Lockstep naming names w naming.SameValue (entry.lower expected) (entry'.lower expected)

theorem SameField.mono {entry entry' : PendingField} (h : SameField naming names w entry entry')
    (hle : w ≤ w') : SameField naming names w' entry entry' :=
  ⟨h.field, fun expected => (h.lower expected).mono hle⟩

theorem lockstep_storeFields (definition : StructTy) {address address' : Operand}
    {fields fields' : List PendingField} (haddress : naming.SameOperand w address address')
    (hfields : List.Forall₂ (SameField naming names w) fields fields') :
    Lockstep naming names w (fun _ _ _ => True) (storeFields definition address fields)
      (storeFields definition address' fields') := by
  induction fields generalizing fields' w with
  | nil =>
    cases hfields
    exact lockstep_nothing
  | cons field rest ih =>
    cases hfields with
    | cons hfield hrest =>
    unfold storeFields
    rw [← hfield.field]
    refine (lockstep_ofExcept (.refl (definition.memberNamed field.field))).bind ?_
    rintro w₁ hle₁ ⟨position, member⟩ _ ⟨rfl, -⟩
    refine ((hfield.lower (some member.ty)).mono hle₁).bind fun w₂ hle₂ value value' hvalue => ?_
    refine (lockstep_expectType _ rfl hvalue.ty).bind fun w₃ hle₃ _ _ _ => ?_
    have hle : w ≤ w₃ := hle₁.trans (hle₂.trans hle₃)
    refine (lockstep_memberPlace definition (Renaming.SameOperand.mono haddress hle) position
      member).bind fun w₄ hle₄ place place' hplace => ?_
    refine (lockstep_emit (.store (Renaming.SameValue.mono hvalue (hle₃.trans hle₄))
      hplace.address)).bind fun w₅ hle₅ _ _ _ => ?_
    have hle' : w ≤ w₅ := hle.trans (hle₄.trans hle₅)
    exact ih (Renaming.SameOperand.mono haddress hle') (hrest.imp fun _ _ h => h.mono hle')

theorem lockstep_buildStruct {frame frame' : Frame} (hframe : frame.table = frame'.table)
    (struct : String) {fields fields' : List PendingField} {target target' : Var}
    (htarget : w.SameVar target target')
    (hfields : List.Forall₂ (SameField naming names w) fields fields') :
    Lockstep naming names w (fun _ => Eq) (buildStruct frame struct fields target)
      (buildStruct frame' struct fields' target') := by
  unfold buildStruct
  rw [← hframe]
  refine (lockstep_ofExcept (.refl (frame.table.get struct))).bind ?_
  rintro w₁ hle₁ definition _ ⟨rfl, -⟩
  refine (lockstep_temporary rfl).bind fun w₂ hle₂ slot slot' hslot => ?_
  refine (lockstep_reserve hslot).bind fun w₃ hle₃ _ _ _ => ?_
  have hle : w ≤ w₃ := hle₁.trans (hle₂.trans hle₃)
  refine (lockstep_storeFields definition (hslot.mono hle₃).operand
    (hfields.imp fun _ _ h => h.mono hle)).bind fun w₄ hle₄ _ _ _ => ?_
  exact lockstep_loadInto (htarget.mono (hle.trans hle₄)).register
    (hslot.mono (hle₃.trans hle₄)).place

theorem lockstep_constantArray (elements : List Expr) {target target' : Var}
    (htarget : w.SameVar target target') :
    Lockstep naming names w (fun _ => Eq) (constantArray elements target)
      (constantArray (Expr.renameAll naming.change elements) target') := by
  simp only [constantArray_eq, ← htarget.ty, constantElements_rename]
  refine (lockstep_ofExcept (.refl _)).bind ?_
  rintro w₁ hle₁ values _ ⟨rfl, -⟩
  exact (lockstep_addressConstant _ (htarget.mono hle₁)).andReturn _

-- ════════════════════════
-- Expressions
-- ════════════════════════

mutual

/-- An expression and its renamed copy are lowered in lock-step. -/
theorem lockstep_lowerExpr {frame frame' : Frame} (hframe : frame.table = frame'.table) :
    ∀ expression : Expr, expression.mentions ⊆ names → expression.called ⊆ naming.callees →
      ∀ (w : World) (expected : Option Ty), Lockstep naming names w naming.SameValue
        (lowerExpr frame expression expected)
        (lowerExpr frame' (expression.rename naming.change) expected)
  | .integer value, _, _, _, expected => by
    rw [Expr.rename, lowerExpr_integer, lowerExpr_integer]
    exact lockstep_pure fun _ _ => ⟨.immediate _, rfl⟩
  | .boolean value, _, _, _, _ => by
    rw [Expr.rename, lowerExpr_boolean, lowerExpr_boolean]
    exact lockstep_pure fun _ _ => ⟨.boolean _, rfl⟩
  | .address name, hmentions, _, w, _ => by
    rw [Expr.rename, lowerExpr_address, lowerExpr_address]
    refine (lockstep_variableNamed (hmentions (by simp [Expr.mentions]))).bind
      fun w₁ _ var var' hvar => ?_
    exact lockstep_pure fun _ hle => ⟨(hvar.mono hle).operand, congrArg Ty.ref hvar.ty⟩
  | .text value, _, _, _, expected => by
    rw [Expr.rename, lowerExpr_text, lowerExpr_text]
    exact lockstep_compute expected fun _ _ _ _ htarget =>
      (lockstep_addressConstant _ htarget).andReturn _
  | .variableRef name, hmentions, _, _, expected => by
    rw [Expr.rename, lowerExpr_variableRef, lowerExpr_variableRef]
    exact lockstep_compute expected fun _ _ _ _ htarget =>
      (lockstep_variablePlace (hmentions (by simp [Expr.mentions]))).bind fun _ hle _ _ hplace =>
        lockstep_loadInto (htarget.mono hle).register hplace
  | .binary operator lhs rhs, hmentions, hcalled, _, expected => by
    rw [Expr.rename, lowerExpr_binary, lowerExpr_binary]
    rw [Expr.mentions] at hmentions
    rw [Expr.called] at hcalled
    have hmentions' := List.append_subset.mp hmentions
    have hcalled' := List.append_subset.mp hcalled
    exact lockstep_compute expected fun _ _ _ _ htarget => lockstep_applyOperator hframe operator
      ⟨rfl, lockstep_lowerExpr hframe lhs hmentions'.1 hcalled'.1 _⟩
      ⟨rfl, lockstep_lowerExpr hframe rhs hmentions'.2 hcalled'.2 _⟩ hmentions hcalled htarget
  | .call callee arguments, hmentions, hcalled, _, expected => by
    rw [Expr.rename, lowerExpr_call, lowerExpr_call]
    rw [Expr.mentions] at hmentions
    rw [Expr.called, List.cons_subset] at hcalled
    exact lockstep_compute expected fun _ _ _ _ htarget => lockstep_callForValue hcalled.1 htarget
      (same_pending hframe arguments hmentions hcalled.2 _)
  | .deref name depth, hmentions, _, _, expected => by
    rw [Expr.rename, lowerExpr_deref, lowerExpr_deref]
    exact lockstep_compute expected fun _ _ _ _ htarget =>
      (lockstep_derefPlace (hmentions (by simp [Expr.mentions])) depth).bind
        fun _ hle _ _ hplace => lockstep_loadInto (htarget.mono hle).register hplace
  | .field base field, hmentions, _, _, expected => by
    rw [Expr.rename, lowerExpr_field, lowerExpr_field]
    exact lockstep_compute expected fun _ _ _ _ htarget =>
      (lockstep_fieldPlace (hmentions (by simp [Expr.mentions])) field).bind
        fun _ hle _ _ hplace => lockstep_loadInto (htarget.mono hle).register hplace
  | .element array index, hmentions, hcalled, _, expected => by
    rw [Expr.rename, lowerExpr_element, lowerExpr_element]
    rw [Expr.mentions, List.cons_subset] at hmentions
    rw [Expr.called] at hcalled
    exact lockstep_compute expected fun _ _ _ _ htarget =>
      (lockstep_elementPlace hmentions.1
        (lockstep_lowerExpr hframe index hmentions.2 hcalled _ none)).bind
        fun _ hle _ _ hplace => lockstep_loadInto (htarget.mono hle).register hplace
  | .build struct fields, hmentions, hcalled, _, expected => by
    rw [Expr.rename, lowerExpr_build, lowerExpr_build]
    rw [Expr.mentions] at hmentions
    rw [Expr.called] at hcalled
    exact lockstep_compute expected fun _ _ _ _ htarget =>
      lockstep_buildStruct hframe struct htarget (same_fields hframe fields hmentions hcalled _)
  | .array elements, _, _, _, expected => by
    rw [Expr.rename, lowerExpr_array, lowerExpr_array]
    exact lockstep_compute expected fun _ _ _ _ htarget => lockstep_constantArray elements htarget

theorem same_pending {frame frame' : Frame} (hframe : frame.table = frame'.table) :
    ∀ expressions : List Expr, Expr.mentionsAll expressions ⊆ names →
      Expr.calledAll expressions ⊆ naming.callees → ∀ w : World,
        List.Forall₂ (naming.SamePending names w) (pending frame expressions)
          (pending frame' (Expr.renameAll naming.change expressions))
  | [], _, _, _ => by
    rw [Expr.renameAll, pending, pending]
    exact .nil
  | expression :: rest, hmentions, hcalled, w => by
    rw [Expr.mentionsAll, List.append_subset] at hmentions
    rw [Expr.calledAll, List.append_subset] at hcalled
    rw [Expr.renameAll, pending, pending]
    exact .cons ⟨rfl, lockstep_lowerExpr hframe expression hmentions.1 hcalled.1 w⟩
      (same_pending hframe rest hmentions.2 hcalled.2 w)

theorem same_fields {frame frame' : Frame} (hframe : frame.table = frame'.table) :
    ∀ fields : List FieldValue, FieldValue.mentionsAll fields ⊆ names →
      FieldValue.calledAll fields ⊆ naming.callees → ∀ w : World,
        List.Forall₂ (SameField naming names w) (pendingFields frame fields)
          (pendingFields frame' (FieldValue.renameAll naming.change fields))
  | [], _, _, _ => by
    rw [FieldValue.renameAll, pendingFields, pendingFields]
    exact .nil
  | ⟨field, value⟩ :: rest, hmentions, hcalled, w => by
    rw [FieldValue.mentionsAll, List.append_subset] at hmentions
    rw [FieldValue.calledAll, List.append_subset] at hcalled
    rw [FieldValue.renameAll, pendingFields, pendingFields]
    exact .cons ⟨rfl, lockstep_lowerExpr hframe value hmentions.1 hcalled.1 w⟩
      (same_fields hframe rest hmentions.2 hcalled.2 w)

end

/-- The target of an assignment and its renamed copy are lowered in lock-step. -/
theorem lockstep_lowerTarget {frame frame' : Frame} (hframe : frame.table = frame'.table)
    {target : Expr} (hmentions : target.mentions ⊆ names) (hcalled : target.called ⊆ naming.callees) :
    Lockstep naming names w naming.SamePlace (lowerTarget frame target)
      (lowerTarget frame' (target.rename naming.change)) := by
  cases target with
  | variableRef name =>
    rw [Expr.rename]
    exact lockstep_variablePlace (hmentions (by simp [Expr.mentions]))
  | deref name depth =>
    rw [Expr.rename]
    exact lockstep_derefPlace (hmentions (by simp [Expr.mentions])) depth
  | field base field =>
    rw [Expr.rename]
    exact lockstep_fieldPlace (hmentions (by simp [Expr.mentions])) field
  | element array index =>
    rw [Expr.mentions, List.cons_subset] at hmentions
    rw [Expr.called] at hcalled
    rw [Expr.rename]
    exact lockstep_elementPlace hmentions.1
      (lockstep_lowerExpr hframe index hmentions.2 hcalled w none)
  | _ =>
    rw [Expr.rename]
    exact lockstep_fail _ _

end Lowering

end ThreeAddress
