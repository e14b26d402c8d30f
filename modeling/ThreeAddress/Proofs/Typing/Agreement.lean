import ThreeAddress.Proofs.Emission.Session
import ThreeAddress.Proofs.Typing.Prediction

/-!
# Predicted types

The type of an expression is predicted before it is lowered, so that both operands of a binary operator
can be lowered at one type. In every state of lowering a function the prediction is right: an expression
that is lowered without a wish, or at the type that was predicted, comes out at that type.

## Main statements

* `ty_eq_of_reaches`: predicted types are those of the lowered values, and the operands of a binary
  operator have the type of its instruction.
-/

namespace ThreeAddress

/-- Whether there is a result of some kind can be evaluated. -/
theorem exists_ok_of_any {ε α : Type} {source : Except ε α} {P : α → Bool}
    (h : source.toOption.any P) : ∃ value, source = .ok value ∧ P value := by
  cases source with
  | error diagnostic => cases h
  | ok value => exact ⟨value, rfl, h⟩

/-- The instruction of an operator is written at the type of its operands. -/
theorem Operator.exists_text_instruction (operator : Operator) :
    ∃ word, ∀ target ty lhs rhs, (operator.instruction target ty lhs rhs).text =
      assignText target (word ++ " " ++ ty.spelling ++ " " ++ commaSeparated [lhs.text, rhs.text]) := by
  cases operator <;> exact ⟨_, fun _ _ _ _ => rfl⟩

open Lowering in
/-- In every state of lowering a function, an expression whose type is predicted is lowered to a value of
that type, be it asked for or not. If a binary operator is lowered, both its operands are lowered at one
type, come out at that type, and the instruction of the operator is written with the spelling of that
type. -/
theorem ty_eq_of_reaches {prelude : Scope} {module : Module} (session : Session prelude module)
    (hprelude : prelude.Keyed) {body : Body} (hbody : session.Reaches body) :
    (∀ expression ty expected value last,
      expression.typeIn session.table body.scope = .ok ty → expected = none ∨ expected = some ty →
      (lowerExpr session.frame expression expected).eval body = .ok (value, last) → value.ty = ty) ∧
    ∀ operator lhs rhs target found last,
      (applyOperator session.frame operator ⟨lhs, lowerExpr session.frame lhs⟩
        ⟨rhs, lowerExpr session.frame rhs⟩ target).eval body = .ok (found, last) →
      ∃ ty left middle right before,
        (lowerExpr session.frame lhs (some ty)).eval body = .ok (left, middle) ∧
        (lowerExpr session.frame rhs (some ty)).eval middle = .ok (right, before) ∧
        last.EndsWith (operator.instruction target.register ty left.operand right.operand) ∧
        (∃ word, (operator.instruction target.register ty left.operand right.operand).text =
          assignText target.register (word ++ " " ++ ty.spelling ++ " " ++
            commaSeparated [left.operand.text, right.operand.text])) ∧
        left.ty = ty ∧ right.ty = ty := by
  have hkeyed : body.scope.Keyed := hbody.keyed hprelude
  refine ⟨fun expression ty expected value last hty hexpected hrun =>
    ty_lowerExpr hrun hkeyed hty hexpected, ?_⟩
  intro operator lhs rhs target found last hrun
  obtain ⟨ty, left, middle, right, before, hcommon, hsupports, hleft, hright, -, -, hsame, hemit, -⟩ :=
    eval_applyOperator hrun
  obtain ⟨word, htext⟩ := operator.exists_text_instruction
  exact ⟨ty, left, middle, right, before, hleft, hright, endsWith_of_eval_emit hemit,
    ⟨word, htext _ _ _ _⟩, ty_operands hcommon hsupports hleft hright hkeyed hsame⟩

/-- One more than a parameter times a payload. The payload comes out at the type of the parameter. -/
def scaled : Expr :=
  .binary .add (.integer 1)
    (.binary .multiply (.variableRef "count") (.call "Unwrap" [.variableRef "boxed"]))

/-- A function that puts its parameter into memory and computes with what it reads from there. -/
def scaling : FunctionDef where
  name := "scaling"
  parameters := [⟨"count", "i8"⟩]
  returns := none
  body := [.bind "boxed" none (.call "Ok" [.variableRef "count"]), .bind "total" none scaled]

/-- The moment at which that function is about to be lowered. -/
def scalingSession : Session {} ⟨[.function scaling]⟩ where
  table := {}
  codes := []
  draft := { globals := {
    root := (Globals.start.root.bind "scaling" (.function ⟨none, [.i8], false⟩)).2 } }
  function := ⟨scaling, .make "scaling" (.function ⟨none, [.i8], false⟩)⟩
  reached := by
    have hsignature : ({} : TypeTable).denoteSignature scaling = .ok ⟨none, [.i8], false⟩ := by
      decide +kernel
    refine ⟨_, _, [], [], _, eval_declareSupport_all, rfl, ?_, rfl⟩
    show (bindFunctions {} [] [scaling]).eval .start = _
    rw [bindFunctions]
    simp only [Pass.eval_bind, Pass.eval_require, Pass.eval_ofExcept, hsignature]
    rfl

open Lowering in
theorem ty_eq_scaling : ∃ body, scalingSession.Reaches body ∧
    scaled.typeIn scalingSession.table body.scope = .ok .i8 ∧
    ∃ value last, (lowerExpr scalingSession.frame scaled none).eval body = .ok (value, last) ∧
      value.ty = .i8 := by
  obtain ⟨⟨_, body⟩, hrun, hbody⟩ : ∃ result,
      (lowerStmts scalingSession.frame (scaling.body.take 1)).eval scalingSession.start = .ok result ∧
      ((scaled.typeIn scalingSession.table result.2.scope).toOption.any (· = .i8) &&
        ((lowerExpr scalingSession.frame scaled none).eval result.2).toOption.any fun _ => true) :=
    exists_ok_of_any (by decide +kernel)
  rw [Bool.and_eq_true] at hbody
  obtain ⟨ty, hty, hi8⟩ := exists_ok_of_any hbody.1
  obtain rfl := of_decide_eq_true hi8
  obtain ⟨⟨value, last⟩, hvalue, -⟩ := exists_ok_of_any hbody.2
  have hstart : scalingSession.Reaches scalingSession.start := .refl
  have hreaches : scalingSession.Reaches body :=
    hstart.of_responds (responds_lowerStmts rfl _) hrun
  obtain ⟨hagrees, -⟩ := ty_eq_of_reaches scalingSession Scope.Keyed.empty hreaches
  exact ⟨body, hreaches, hty, value, last, hvalue, hagrees _ _ _ _ _ hty (Or.inl rfl) hvalue⟩

end ThreeAddress
