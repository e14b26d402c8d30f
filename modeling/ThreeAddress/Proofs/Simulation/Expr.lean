import ThreeAddress.Proofs.Simulation.Image

/-!
# Expressions compute their values

A machine in front of the code of an expression reaches the end of that code, and the value that the
expression was lowered to is then the word that the evaluator finds.

## Main statements

* `Image.computing_lowerExpr`: this holds for every expression that has a value.
-/

namespace ThreeAddress

/-- An operand has the same value in two machines that agree on its register. -/
theorem Machine.value?_congr {machine next : Machine} {value : Value}
    (h : ∀ register, value.operand.register? = some register →
      next.registers register = machine.registers register) :
    next.value? value = machine.value? value := by
  obtain ⟨operand, ty⟩ := value
  cases operand with
  | register name =>
    have hname : next.registers name = machine.registers name := h name rfl
    simp only [value?, word?, hname]
  | global | immediate | boolean => rfl

theorem Machine.value?_assign (machine : Machine) (target : String) (word : Word) :
    (machine.assign target (.word word)).value? ⟨.register target, .int word.width⟩ = some word := by
  simp [value?, word?, assign]

/-- The instruction behind an operator writes the result. -/
theorem Machine.perform_operator {machine : Machine} {operator : Operator} {ty : Ty}
    {lhs rhs : Operand} {left right word : Word} (code : List Instr) (target : String)
    (hlhs : machine.value? ⟨lhs, ty⟩ = some left) (hrhs : machine.value? ⟨rhs, ty⟩ = some right)
    (hword : operator.apply left right = some word) :
    machine.perform code (operator.instruction target ty lhs rhs) =
      some (.running (machine.assign target (.word word))) := by
  have hoperate : machine.perform code (operator.instruction target ty lhs rhs) =
      machine.operate (operator.instruction target ty lhs rhs) target ty lhs rhs := by
    cases operator <;> rfl
  simp [hoperate, operate, hlhs, hrhs, apply_instruction target ty lhs rhs hword]

theorem Ty.width_eq_of_agrees {width width' : Width} (h : (Ty.int width).agrees (.int width')) :
    width' = width := by
  simpa [agrees, eq_comm] using h

namespace Image

open Lowering

/-- From one machine to the next, a value was computed. Registers that were in use before are left
alone. -/
structure Computes (image : Image) (store : Store) (body last : Body) (machine next : Machine)
    (value : Value) (word : Word) : Prop where
  reaches : Machine.Reaches image.instructions machine next
  behind : image.At last store next
  untouched : ∀ register, body.scope.inUse register →
    next.registers register = machine.registers register
  ty_eq : value.ty = .int word.width
  value_eq : next.value? value = some word
  inUse : ∀ register, value.operand.register? = some register → last.scope.inUse register

/-- Wherever an expression is lowered, a machine computes the given word. -/
def Computing (image : Image) (frame : Frame) (env : Env) (vars : List Var) (store : Store)
    (expression : Expr) (expected : Option Ty) (word : Word) : Prop :=
  ∀ ⦃body last value machine⦄, (lowerExpr frame expression expected).eval body = .ok (value, last) →
    Linked env vars body → image.Holds last → image.At body store machine →
    ∃ next, image.Computes store body last machine next value word

variable {image : Image} {frame : Frame} {env : Env} {vars : List Var} {store : Store}
  {body last : Body} {machine : Machine}

/-- A register that is made for a value is written at last. -/
theorem computes_target {base : String} {ty : Ty} {middle : Body} {before : Machine}
    {instruction : Instr} {result : Unit} {word : Word}
    (hgrows : (body.mint base ty).Grows middle)
    (hreaches : Machine.Reaches image.instructions machine before)
    (huntouched : ∀ register, (body.mint base ty).scope.inUse register →
      before.registers register = machine.registers register)
    (hat : image.At middle store before)
    (hemit : (emit instruction).eval middle = .ok (result, last)) (hplain : instruction.isPlain)
    (hholds : image.Holds last)
    (htarget : instruction.target? = some (body.scope.newRegister base))
    (hperform : before.perform image.instructions instruction =
      some (.running (before.assign (body.scope.newRegister base) (.word word)))) :
    ∃ next, image.Computes store body last machine next
      ⟨.register (body.scope.newRegister base), .int word.width⟩ word := by
  obtain ⟨hassign, hbehind⟩ := hat.assign hemit hplain hholds htarget hperform
  refine ⟨_, hreaches.trans hassign, hbehind, fun register hused => ?_, rfl,
    before.value?_assign _ word, ?_⟩
  · have hne : register ≠ body.scope.newRegister base := by
      rintro rfl
      exact body.scope.not_inUse_newRegister base hused
    simpa [Machine.assign, hne] using huntouched register (Body.inUse_mint.mpr (Or.inr hused))
  · rintro register ⟨⟩
    obtain rfl := eq_append_of_eval_emit hemit hat.isOpen (Instr.startsBlock_of_isPlain hplain)
    exact hgrows.inUse (Body.inUse_mint.mpr (Or.inl rfl))

theorem computing_variable {name : String} {expected : Option Ty} {cell : Nat} {width : Width}
    {word : Word} (hvars : vars <+: image.cells)
    (hname : env.resolve name = some (cell, .integer width)) (hword : store cell = some word) :
    image.Computing frame env vars store (.variableRef name) expected word := by
  intro body last value machine hlower hlinked hholds hat
  rw [lowerExpr_variableRef] at hlower
  obtain ⟨base, target, ty, htarget, hload, rfl⟩ := eval_compute hlower
  obtain ⟨var, hfound, rfl, hemit⟩ := eval_loadVariable hload
  have hkeeps : body.Keeps (body.mint base target.ty) := Body.keeps_mint base target.ty
  obtain ⟨var', hcell, hfound', hshape⟩ := (hlinked.keeps hkeeps).cell hvars hname
  rw [hfound] at hfound'
  cases hfound'
  have hty : var.ty = .int word.width := by
    rw [hat.mirrors.typed cell var width word hcell hshape hword]
    exact hshape
  have hslot := image.cells_reserved var (List.mem_of_getElem? hcell)
  have hminted : image.At (body.mint base target.ty) store machine := hat.of_code_eq rfl
  rw [hty] at hemit ⊢
  subst htarget
  refine computes_target (.refl _) (.refl machine) (fun _ _ => rfl) hminted hemit rfl hholds rfl ?_
  simp [Machine.perform, hat.mirrors.address? hslot, hat.mirrors.memory cell var hcell, hword,
    Var.make]

/-- The operands of an operator are computed in order, and then the result. -/
theorem computing_operator {operator : Operator} {lhs rhs : Expr} {expected : Option Ty}
    {width : Width} {left right word : Word}
    (hwidth : (operandShape lhs rhs (lhs.shape env none) (rhs.shape env none)
      (if operator.isComparison then none else expected.bind Ty.width?)).width? = some width)
    (hlhs : image.Computing frame env vars store lhs (some (.int width)) left)
    (hrhs : image.Computing frame env vars store rhs (some (.int width)) right)
    (hword : operator.apply left right = some word) :
    image.Computing frame env vars store (.binary operator lhs rhs) expected word := by
  intro body last value machine hlower hlinked hholds hat
  rw [lowerExpr_binary] at hlower
  obtain ⟨base, target, found, htarget, happly, rfl⟩ := eval_compute hlower
  obtain ⟨ty, leftValue, middle, rightValue, before, hcommon, -, hleft, hright, hagrees, hagrees', -,
    hemit, rfl⟩ := eval_applyOperator happly
  have hlinked := hlinked.keeps (Body.keeps_mint base target.ty)
  obtain rfl : ty = .int width := by
    have hdescribes := hlinked.describes_commonType hcommon
    rw [Linked.width?_expected expected _ _ htarget] at hdescribes
    exact hdescribes.eq_int hwidth
  have hkeeps := hlinked.keeps_lowerExpr hleft
  have hkeeps' := (hlinked.keeps hkeeps).keeps_lowerExpr hright
  have hholds' := hholds.of_grows (grows_emit hemit)
  have hminted : image.At (body.mint base target.ty) store machine := hat.of_code_eq rfl
  obtain ⟨next, hnext⟩ := hlhs hleft hlinked (hholds'.of_grows hkeeps'.toGrows) hminted
  obtain ⟨next', hnext'⟩ := hrhs hright (hlinked.keeps hkeeps) hholds' hnext.behind
  -- The left operand is still there, since its register was in use when the right one was lowered.
  have hleftValue : next'.value? leftValue = some left := by
    rw [← hnext.value_eq]
    exact Machine.value?_congr fun register hregister =>
      hnext'.untouched register (hnext.inUse register hregister)
  have hwidthLeft : left.width = width := Ty.width_eq_of_agrees (hnext.ty_eq ▸ hagrees)
  have hwidthRight : right.width = width := Ty.width_eq_of_agrees (hnext'.ty_eq ▸ hagrees')
  have hresult : (if operator.isComparison then Ty.bool else .int width) = .int word.width := by
    rw [(Operator.width_of_apply hword).2, hwidthLeft]
    split_ifs <;> rfl
  rw [hresult]
  subst htarget
  refine computes_target (hkeeps.toGrows.trans hkeeps'.toGrows) (hnext.reaches.trans hnext'.reaches)
    (fun register hused => ?_) hnext'.behind hemit (isPlain_operatorInstruction _ _ _ _ _) hholds
    (target?_operatorInstruction _ _ _ _ _) ?_
  · rw [hnext'.untouched register (hkeeps.inUse hused), hnext.untouched register hused]
  · have hleftTy : leftValue.ty = .int width := by rw [hnext.ty_eq, hwidthLeft]
    have hrightTy : rightValue.ty = .int width := by rw [hnext'.ty_eq, hwidthRight]
    exact Machine.perform_operator _ _ (hleftTy ▸ hleftValue) (hrightTy ▸ hnext'.value_eq) hword

/-- A machine in front of an expression computes its value. -/
theorem computing_lowerExpr (hvars : vars <+: image.cells) :
    ∀ (expression : Expr) (expected : Option Ty) {word : Word},
      expression.evaluate env store (expected.bind Ty.width?) = some word →
      image.Computing frame env vars store expression expected word
  | .integer number, expected, word, hword => by
    intro body last value machine hlower _ _ hat
    rw [lowerExpr_integer] at hlower
    obtain ⟨rfl, rfl⟩ := Pass.eval_pure_eq_ok_iff.mp hlower
    cases hword
    have hty : Ty.ofLiteral expected = .int ((expected.bind Ty.width?).getD .i32) := by
      rcases expected with _ | ty
      · rfl
      · cases ty <;> rfl
    refine ⟨machine, .refl machine, hat, fun _ _ => rfl, hty, ?_, by rintro _ ⟨⟩⟩
    simp [Machine.value?, Value.immediate, hty, Machine.word?]
  | .boolean truth, expected, word, hword => by
    intro body last value machine hlower _ _ hat
    rw [lowerExpr_boolean] at hlower
    obtain ⟨rfl, rfl⟩ := Pass.eval_pure_eq_ok_iff.mp hlower
    cases hword
    exact ⟨machine, .refl machine, hat, fun _ _ => rfl, rfl, rfl, by rintro _ ⟨⟩⟩
  | .variableRef name, expected, word, hword => by
    rw [Expr.evaluate] at hword
    split at hword
    · next cell width hname => exact computing_variable hvars hname hword
    · simp at hword
  | .binary operator lhs rhs, expected, word, hword => by
    simp only [Expr.evaluate, Option.bind_eq_bind, Option.bind_eq_some_iff] at hword
    obtain ⟨width, hwidth, left, hleft, right, hright, hword⟩ := hword
    exact computing_operator hwidth (computing_lowerExpr hvars lhs (some (.int width)) hleft)
      (computing_lowerExpr hvars rhs (some (.int width)) hright) hword
  | .text _, _, _, hword | .call _ _, _, _, hword | .address _, _, _, hword
  | .deref _ _, _, _, hword | .field _ _, _, _, hword | .build _ _, _, _, hword
  | .array _, _, _, hword | .element _ _, _, _, hword => by simp [Expr.evaluate] at hword

end Image

end ThreeAddress
