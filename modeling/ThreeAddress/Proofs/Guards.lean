import ThreeAddress.Lower.Value
import ThreeAddress.Proofs.Pass.Inversion

/-!
# Checks that never fail

Lowering checks some of its own invariants. Where a check comes right behind what it relies on, it cannot
fail, and the pass is equal to one without it.

## Main statements

* `Lowering.compute_eq`: the type of a register is filled in only while it is open.
* `Lowering.lowerExpr_text` and its like: only what is no operand by itself is computed into a register.
* `Lowering.constantArray_eq`: the members of constant arrays are integers.
* `Ty.exists_walk`: a type has as many references as are counted.
* `Lowering.eval_derefPlace`: the loads arrive at the type that was found before them.
-/

namespace ThreeAddress

namespace Ty

/-- The width of an array literal's members where the given type is asked for. -/
def elementWidth : Ty → Width
  | .array (.int width) _ => width
  | _ => .i32

theorem elementTy_eq (ty : Ty) : ty.elementTy = .int ty.elementWidth := by
  cases ty with
  | array member extent => cases member <;> rfl
  | _ => rfl

/-- As many references as are counted can be taken off a type. -/
theorem exists_walk {depth : Nat} {ty : Ty} (h : depth ≤ ty.refDepth) :
    ∃ final, ty.walk depth = .ok final := by
  induction depth generalizing ty with
  | zero => exact ⟨ty, rfl⟩
  | succ depth ih =>
    cases ty with
    | ref target => exact ih (Nat.le_of_succ_le_succ h)
    | _ => cases h

variable {name : String} {ty : Ty} {depth : Nat}

theorem dereferenced_of_lt (name : String) (h : ty.refDepth < depth) :
    ty.dereferenced name depth = .error (.tooManyDereferences name depth ty.refDepth ty) :=
  if_pos h

theorem dereferenced_of_le (name : String) (h : depth ≤ ty.refDepth) :
    ty.dereferenced name depth = ty.walk depth :=
  if_neg (Nat.not_lt.mpr h)

theorem le_refDepth_of_dereferenced {final : Ty} (h : ty.dereferenced name depth = .ok final) :
    depth ≤ ty.refDepth := by
  refine Nat.not_lt.mp fun hlt => ?_
  rw [dereferenced_of_lt name hlt] at h
  cases h

theorem walk_of_dereferenced {final : Ty} (h : ty.dereferenced name depth = .ok final) :
    ty.walk depth = .ok final := by
  rw [← h, dereferenced_of_le name (le_refDepth_of_dereferenced h)]

end Ty

namespace Lowering

variable (frame : Frame) (expected : Option Ty)

theorem exists_settle_eq (target : Var) (ty : Ty) :
    ∃ settled : Var, settle target ty = pure settled ∧ settled.operand = target.operand := by
  cases hdynamic : target.dynamic with
  | false => exact ⟨target, by simp [settle, hdynamic], rfl⟩
  | true =>
    refine ⟨⟨target.register, ty, false⟩, ?_, rfl⟩
    simp only [settle, hdynamic, if_true, Var.giveType]
    rfl

/-- Only a type that is still open is filled in. -/
theorem compute_eq (computation : Var → Lowering Ty) :
    compute expected computation = (do
      let target ← temporary ((expected.filter Ty.isStorable).getD .dynamic)
      let ty ← computation target
      return ⟨target.operand, ty⟩) := by
  unfold compute
  refine congrArg _ (funext fun target => congrArg _ (funext fun ty => ?_))
  obtain ⟨settled, hsettle, hoperand⟩ := exists_settle_eq target ty
  rw [hsettle, pure_bind, hoperand]

/-- The members of a constant array are integers, whatever is asked for. -/
theorem constantArray_eq (elements : List Expr) (target : Var) :
    constantArray elements target = (do
      let values ← Pass.ofExcept (constantElements target.ty.elementWidth elements)
      addressConstant (.array target.ty.elementWidth values) target
      return (Constant.array target.ty.elementWidth values).ty) := by
  rw [constantArray, Ty.elementTy_eq]
  rfl

/-- Where pointers were followed, there were references. -/
theorem eval_followAll_succ {place found : Place} {depth : Nat} {body last : Body}
    (h : (followAll place (depth + 1)).eval body = .ok (found, last)) :
    ∃ target address middle, place.ty = .ref target ∧
      (follow place.ty place.address).eval body = .ok (address, middle) ∧
      (followAll ⟨address, target⟩ depth).eval middle = .ok (found, last) := by
  obtain ⟨address, ty⟩ := place
  obtain ⟨pointer, middle, hfollow, hrest⟩ := Pass.eval_bind_eq_ok_iff.mp h
  cases ty with
  | ref target => exact ⟨target, pointer, middle, rfl, hfollow, hrest⟩
  | _ => cases hrest

/-- The loads take as many references off the type as there are loads. -/
theorem walk_of_followAll {place found : Place} {depth : Nat} {body last : Body}
    (h : (followAll place depth).eval body = .ok (found, last)) :
    place.ty.walk depth = .ok found.ty := by
  induction depth generalizing place body with
  | zero =>
    obtain ⟨rfl, -⟩ := Pass.eval_pure_eq_ok_iff.mp h
    rfl
  | succ depth ih =>
    obtain ⟨target, address, middle, hty, -, hrest⟩ := eval_followAll_succ h
    rw [hty]
    exact ih hrest

/-- The loads arrive at the type that was found before them. -/
theorem eval_derefPlace {name : String} {depth : Nat} {place : Place} {body last : Body}
    (h : (derefPlace name depth).eval body = .ok (place, last)) :
    ∃ var middle, (variableNamed name).eval body = .ok (var, middle) ∧
      var.ty.dereferenced name depth = .ok place.ty ∧
      (followAll var.place depth).eval middle = .ok (place, last) := by
  simp only [derefPlace, Pass.eval_bind_eq_ok_iff, Pass.eval_ofExcept_eq_ok_iff] at h
  obtain ⟨var, middle, hvar, final, _, ⟨hpath, rfl⟩, hfollow⟩ := h
  refine ⟨var, middle, hvar, ?_, hfollow⟩
  have hwalk := (Ty.walk_of_dereferenced hpath).symm.trans (walk_of_followAll hfollow)
  rw [hpath, Except.ok.inj hwalk]

theorem lowerExpr_integer (value : Int) :
    lowerExpr frame (.integer value) expected = pure (.immediate value (.ofLiteral expected)) := rfl

theorem lowerExpr_boolean (value : Bool) :
    lowerExpr frame (.boolean value) expected = pure ⟨.boolean value, .bool⟩ := rfl

theorem lowerExpr_address (name : String) :
    lowerExpr frame (.address name) expected = (do
      let var ← variableNamed name
      return ⟨var.operand, .ref var.ty⟩) := rfl

theorem lowerExpr_text (value : String) :
    lowerExpr frame (.text value) expected = compute expected fun target => (do
      addressConstant (.text value) target
      return .bytes) := rfl

theorem lowerExpr_variableRef (name : String) :
    lowerExpr frame (.variableRef name) expected = compute expected fun target => (do
      let place ← variablePlace name
      loadInto target.register place) := rfl

theorem lowerExpr_binary (operator : Operator) (lhs rhs : Expr) :
    lowerExpr frame (.binary operator lhs rhs) expected = compute expected fun target =>
      applyOperator frame operator ⟨lhs, lowerExpr frame lhs⟩ ⟨rhs, lowerExpr frame rhs⟩ target := rfl

theorem lowerExpr_call (callee : String) (arguments : List Expr) :
    lowerExpr frame (.call callee arguments) expected = compute expected fun target =>
      callForValue callee (pending frame arguments) target := rfl

theorem lowerExpr_deref (name : String) (depth : Nat) :
    lowerExpr frame (.deref name depth) expected = compute expected fun target => (do
      let place ← derefPlace name depth
      loadInto target.register place) := rfl

theorem lowerExpr_field (base field : String) :
    lowerExpr frame (.field base field) expected = compute expected fun target => (do
      let place ← fieldPlace base field
      loadInto target.register place) := rfl

theorem lowerExpr_element (array : String) (index : Expr) :
    lowerExpr frame (.element array index) expected = compute expected fun target => (do
      let place ← elementPlace array (lowerExpr frame index none)
      loadInto target.register place) := rfl

theorem lowerExpr_build (struct : String) (fields : List FieldValue) :
    lowerExpr frame (.build struct fields) expected = compute expected fun target =>
      buildStruct frame struct (pendingFields frame fields) target := rfl

theorem lowerExpr_array (elements : List Expr) :
    lowerExpr frame (.array elements) expected = compute expected fun target =>
      constantArray elements target := rfl

theorem pending_cons (expression : Expr) (rest : List Expr) :
    pending frame (expression :: rest) =
      ⟨expression, lowerExpr frame expression⟩ :: pending frame rest := rfl

theorem pendingFields_cons (field : String) (value : Expr) (rest : List FieldValue) :
    pendingFields frame (⟨field, value⟩ :: rest) =
      ⟨field, lowerExpr frame value⟩ :: pendingFields frame rest := rfl

end Lowering

end ThreeAddress
