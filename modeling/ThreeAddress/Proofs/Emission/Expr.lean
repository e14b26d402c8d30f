import ThreeAddress.Proofs.Emission.Extends
import ThreeAddress.Proofs.Scoping

/-!
# Expressions are lowered to code without control flow

Every pass that lowers an expression, or a part of one, consists of steps with the permit
`Permit.straight`, and the operand that it yields may be read behind it.

## Main definitions

* `Lowering.Yields`: a pass of this kind that yields a value.
* `Lowering.Fills`: a pass of this kind that writes a given register.

## Main statements

* `Lowering.fills_call`: lowering a call.
* `Lowering.yields_lowerExpr`: lowering an expression.
* `Lowering.extends_lowerTarget`: lowering the target of an assignment.
-/

namespace ThreeAddress

namespace Lowering

variable {unchecked : Prop} {names : List String} {body middle last : Body}

-- ════════════════════════
-- Registers and instructions
-- ════════════════════════

theorem Ready.andThen {spent : List String} (hready : body.Ready unchecked names)
    (h : body.Extends (.straight unchecked) spent middle) :
    middle.Ready unchecked names :=
  h.steps.ready (fun hbinds => hbinds) hready

/-- A temporary is owed, and whoever made it may introduce it. -/
theorem extends_temporary {ty : Ty} {var : Var}
    (h : (temporary ty).eval body = .ok (var, middle))
    (hready : body.Ready unchecked names) :
    body.Extends (.straight unchecked) [] middle ∧ middle.Owes var.register ∧
      ∀ spent last, middle.Extends (.straight unchecked) (var.register :: spent) last →
        body.Extends (.straight unchecked) spent last := by
  obtain ⟨base, rfl, rfl⟩ := eval_temporary h
  exact ⟨Body.extends_mint base ty, Body.owes_newRegister hready.inUse_of_defined base ty,
    fun _ _ h => h.of_mint⟩

/-- An instruction that writes no register. -/
theorem extends_emit_effect {instruction : Instr} {result : Unit}
    (h : (emit instruction).eval body = .ok (result, last))
    (hready : body.Ready unchecked names) (hplain : instruction.isPlain)
    (htarget : instruction.target? = none)
    (hoperands : ∀ operand ∈ instruction.operands,
      body.Readable unchecked operand) :
    body.Extends (.straight unchecked) [] last := by
  have hdefined : instruction.defined? = none := by
    rw [Instr.defined?_of_not_startsBlock (Instr.startsBlock_of_isPlain hplain), htarget]
  have hextends : body.Extends (.straight unchecked) instruction.defined?.toList last := by
    refine extends_emit h hready.inUse_of_defined hplain ?_ ?_ (Body.reads_of_readable hoperands)
    · rintro name rfl
      simp [Instr.isPlain, Instr.startsBlock] at hplain
    · simp [hdefined]
  rwa [hdefined] at hextends

/-- An instruction that writes an owed register makes it available. -/
theorem extends_emit_target {instruction : Instr} {result : Unit} {target : String}
    (h : (emit instruction).eval body = .ok (result, last))
    (hready : body.Ready unchecked names) (hplain : instruction.isPlain)
    (htarget : instruction.target? = some target) (howes : body.Owes target)
    (hoperands : ∀ operand ∈ instruction.operands,
      body.Readable unchecked operand) :
    body.Extends (.straight unchecked) [target] last ∧ last.Available target := by
  have hdefined : instruction.defined? = some target := by
    rw [Instr.defined?_of_not_startsBlock (Instr.startsBlock_of_isPlain hplain), htarget]
  have hextends : body.Extends (.straight unchecked) instruction.defined?.toList last := by
    refine extends_emit h hready.inUse_of_defined hplain ?_ ?_ (Body.reads_of_readable hoperands)
    · rintro name rfl
      simp [Instr.isPlain, Instr.startsBlock] at hplain
    · intro name hname
      rw [hdefined] at hname
      cases hname
      exact howes
  rw [hdefined] at hextends
  refine ⟨hextends, Or.inr ?_⟩
  rcases eval_emit_cases h with ⟨_, rfl⟩ | ⟨name, rfl, _, _⟩ | ⟨_, _, rfl⟩
  · rw [Body.code_append, openBlock_append_of_isPlain _ hplain]
    simp [htarget]
  · simp [Instr.isPlain, Instr.startsBlock] at hplain
  · rw [Body.code_append, openBlock_append_of_isPlain _ hplain]
    simp [htarget]

theorem readable_of_available {register : String} (h : body.Available register) :
    body.Readable unchecked (.register register) := by
  rintro _ ⟨⟩
  exact Or.inl h

theorem readable_immediate (value : Int) :
    body.Readable unchecked (.immediate value) := by
  rintro _ ⟨⟩

theorem readable_boolean (value : Bool) :
    body.Readable unchecked (.boolean value) := by
  rintro _ ⟨⟩

theorem readable_global (symbol : String) :
    body.Readable unchecked (.global symbol) := by
  rintro _ ⟨⟩

-- ════════════════════════
-- Places
-- ════════════════════════

theorem readable_variable {name : String} {var : Var}
    (h : (variableNamed name).eval body = .ok (var, last))
    (hready : body.Ready unchecked names) (hname : name ∈ names) :
    body = last ∧ body.Readable unchecked var.operand := by
  obtain ⟨hfound, -, rfl⟩ := eval_variableNamed_eq_ok_iff.mp h
  refine ⟨rfl, ?_⟩
  rintro _ ⟨⟩
  exact hready.reads hname hfound

theorem eval_variablePlace {name : String} {place : Place}
    (h : (variablePlace name).eval body = .ok (place, last)) :
    ∃ var, body.scope.find? name = some var ∧ place = var.place ∧ body = last := by
  rw [variablePlace, Pass.eval_map_eq_ok_iff] at h
  obtain ⟨var, hvar, rfl⟩ := h
  obtain ⟨hfound, -, rfl⟩ := eval_variableNamed_eq_ok_iff.mp hvar
  exact ⟨var, hfound, rfl, rfl⟩

theorem extends_loadInto {target : String} {place : Place} {ty : Ty}
    (h : (loadInto target place).eval body = .ok (ty, last))
    (hready : body.Ready unchecked names) (howes : body.Owes target)
    (hplace : body.Readable unchecked place.address) :
    body.Extends (.straight unchecked) [target] last ∧ last.Available target := by
  simp only [loadInto, Pass.eval_bind_eq_ok_iff, Pass.eval_pure_eq_ok_iff] at h
  obtain ⟨_, _, hload, -, rfl⟩ := h
  exact extends_emit_target hload hready rfl rfl howes (by simpa [Instr.operands] using hplace)

theorem extends_follow {ty : Ty} {address result : Operand}
    (h : (follow ty address).eval body = .ok (result, last)) (hready : body.Ready unchecked names)
    (haddress : body.Readable unchecked address) :
    body.Extends (.straight unchecked) [] last ∧
      last.Readable unchecked result := by
  simp only [follow, Pass.eval_bind_eq_ok_iff, Pass.eval_pure_eq_ok_iff] at h
  obtain ⟨pointer, made, hmade, _, loaded, hload, rfl, rfl⟩ := h
  obtain ⟨hgrown, howes, hspend⟩ := extends_temporary hmade hready
  obtain ⟨hloaded, havailable⟩ := extends_emit_target hload (Ready.andThen hready hgrown) rfl rfl howes
    (by simpa [Instr.operands] using hgrown.steps.readable haddress)
  exact ⟨hspend _ _ hloaded, readable_of_available havailable⟩

theorem extends_followAll {depth : Nat} {place found : Place}
    (h : (followAll place depth).eval body = .ok (found, last)) (hready : body.Ready unchecked names)
    (haddress : body.Readable unchecked place.address) :
    body.Extends (.straight unchecked) [] last ∧
      last.Readable unchecked found.address := by
  induction depth generalizing place body with
  | zero =>
    obtain ⟨rfl, rfl⟩ := Pass.eval_pure_eq_ok_iff.mp h
    exact ⟨.refl _ _ _, haddress⟩
  | succ depth ih =>
    obtain ⟨target, address, middle, -, hfollow, hrest⟩ := eval_followAll_succ h
    obtain ⟨hfollowed, haddress⟩ := extends_follow hfollow hready haddress
    obtain ⟨hothers, hfound⟩ := ih hrest (Ready.andThen hready hfollowed) haddress
    exact ⟨hfollowed.andThen hothers, hfound⟩

theorem extends_structAddress {var : Var} {result : Operand}
    (h : (structAddress var).eval body = .ok (result, last)) (hready : body.Ready unchecked names)
    (haddress : body.Readable unchecked var.operand) :
    body.Extends (.straight unchecked) [] last ∧
      last.Readable unchecked result := by
  unfold structAddress at h
  split at h
  · exact extends_follow h hready haddress
  · obtain ⟨rfl, rfl⟩ := Pass.eval_pure_eq_ok_iff.mp h
    exact ⟨.refl _ _ _, haddress⟩

theorem extends_variablePlace {name : String} {place : Place}
    (h : (variablePlace name).eval body = .ok (place, last))
    (hready : body.Ready unchecked names) (hname : name ∈ names) :
    body.Extends (.straight unchecked) [] last ∧
      last.Readable unchecked place.address := by
  obtain ⟨var, hvar, rfl⟩ := Pass.eval_map_eq_ok_iff.mp h
  obtain ⟨rfl, hreadable⟩ := readable_variable hvar hready hname
  exact ⟨.refl _ _ _, hreadable⟩

theorem extends_derefPlace {name : String} {depth : Nat} {place : Place}
    (h : (derefPlace name depth).eval body = .ok (place, last))
    (hready : body.Ready unchecked names) (hname : name ∈ names) :
    body.Extends (.straight unchecked) [] last ∧
      last.Readable unchecked place.address := by
  obtain ⟨var, _, hvar, -, hfollow⟩ := eval_derefPlace h
  obtain ⟨rfl, hreadable⟩ := readable_variable hvar hready hname
  exact extends_followAll hfollow hready hreadable

theorem extends_memberPlace {definition : StructTy} {address : Operand} {position : Nat}
    {member : Member} {place : Place}
    (h : (memberPlace definition address position member).eval body = .ok (place, last))
    (hready : body.Ready unchecked names)
    (haddress : body.Readable unchecked address) :
    body.Extends (.straight unchecked) [] last ∧
      last.Readable unchecked place.address := by
  simp only [memberPlace, Pass.eval_bind_eq_ok_iff, Pass.eval_pure_eq_ok_iff] at h
  obtain ⟨target, made, hmade, _, _, hemit, rfl, rfl⟩ := h
  obtain ⟨hgrown, howes, hspend⟩ := extends_temporary hmade hready
  obtain ⟨hemitted, havailable⟩ := extends_emit_target hemit (Ready.andThen hready hgrown) rfl rfl
    howes (by simpa [Instr.operands, Value.index, Value.immediate, readable_immediate] using
      hgrown.steps.readable haddress)
  exact ⟨hspend _ _ hemitted, readable_of_available havailable⟩

theorem extends_fieldPlace {base field : String} {place : Place}
    (h : (fieldPlace base field).eval body = .ok (place, last))
    (hready : body.Ready unchecked names) (hname : base ∈ names) :
    body.Extends (.straight unchecked) [] last ∧
      last.Readable unchecked place.address := by
  simp only [fieldPlace, Pass.eval_bind_eq_ok_iff, Pass.eval_ofExcept_eq_ok_iff] at h
  obtain ⟨var, _, hvar, _, _, ⟨-, rfl⟩, _, _, hfollow, _, _, ⟨-, rfl⟩, hmember⟩ := h
  obtain ⟨rfl, hreadable⟩ := readable_variable hvar hready hname
  obtain ⟨hfollowed, haddress⟩ := extends_structAddress hfollow hready hreadable
  obtain ⟨hplaced, hplace⟩ := extends_memberPlace hmember (Ready.andThen hready hfollowed) haddress
  exact ⟨hfollowed.andThen hplaced, hplace⟩

/-- A pass that yields a value and introduces only names of its own. -/
def Yields (unchecked : Prop) (names : List String) (pass : Lowering Value) : Prop :=
  ∀ ⦃body value last⦄, pass.eval body = .ok (value, last) →
    body.Ready unchecked names →
      body.Extends (.straight unchecked) [] last ∧
        last.Readable unchecked value.operand

theorem extends_elementPlace {array : String} {index : Lowering Value} {place : Place}
    (h : (elementPlace array index).eval body = .ok (place, last))
    (hready : body.Ready unchecked names) (hname : array ∈ names)
    (hindex : Yields unchecked names index) :
    body.Extends (.straight unchecked) [] last ∧
      last.Readable unchecked place.address := by
  simp only [elementPlace, Pass.eval_bind_eq_ok_iff, Pass.eval_ofExcept_eq_ok_iff,
    Pass.eval_require_eq_ok_iff, Pass.eval_pure_eq_ok_iff] at h
  obtain ⟨var, _, hvar, _, _, ⟨-, rfl⟩, address, _, hfollow, position, _, hlower, _, _, ⟨-, rfl⟩,
    target, made, hmade, _, _, hemit, rfl, rfl⟩ := h
  obtain ⟨rfl, hreadable⟩ := readable_variable hvar hready hname
  obtain ⟨hfollowed, haddress⟩ := extends_follow hfollow hready hreadable
  have hready := Ready.andThen hready hfollowed
  obtain ⟨hlowered, hposition⟩ := hindex hlower hready
  have hready := Ready.andThen hready hlowered
  obtain ⟨hgrown, howes, hspend⟩ := extends_temporary hmade hready
  have haddress := hgrown.steps.readable (hlowered.steps.readable haddress)
  have hposition := hgrown.steps.readable hposition
  obtain ⟨hemitted, havailable⟩ := extends_emit_target hemit (Ready.andThen hready hgrown) rfl rfl
    howes (by simp [Instr.operands, haddress, hposition])
  exact ⟨hfollowed.andThen (hlowered.andThen (hspend _ _ hemitted)),
    readable_of_available havailable⟩

-- ════════════════════════
-- Calls
-- ════════════════════════

theorem extends_emit_call {target : Option String} {callee : String} {signature : Signature}
    {arguments : List Value} {result : Unit}
    (h : (emit (.call target callee signature arguments)).eval body = .ok (result, last))
    (hready : body.Ready unchecked names) (howes : ∀ name ∈ target, body.Owes name)
    (harguments : ∀ value ∈ arguments, body.Readable unchecked value.operand) :
    body.Extends (.straight unchecked) target.toList last ∧
      ∀ name ∈ target, last.Available name := by
  have hoperands : ∀ operand ∈ (Instr.call target callee signature arguments).operands,
      body.Readable unchecked operand := by
    simpa [Instr.operands] using harguments
  cases target with
  | none => exact ⟨extends_emit_effect h hready rfl rfl hoperands, by simp⟩
  | some name =>
    obtain ⟨hemitted, havailable⟩ := extends_emit_target h hready rfl rfl (howes name rfl) hoperands
    exact ⟨hemitted, by simpa using havailable⟩

/-- The registers that a call may be asked to write. -/
def targets (target : Option Var) : List String := target.toList.map Var.register

theorem toList_map_register (target : Option Var) :
    (target.map Var.register).toList = targets target := by
  cases target <;> rfl

theorem mem_map_register {target : Option Var} {name : String} :
    name ∈ target.map Var.register ↔ name ∈ targets target := by
  cases target <;> simp [targets, eq_comm]

/-- A call of a support function into the register at hand. -/
theorem extends_callSupport {function : Support} {target : Option Var} {arguments : List Value}
    {result : Unit}
    (h : (callSupport function (target.map Var.register) arguments).eval body = .ok (result, last))
    (hready : body.Ready unchecked names)
    (howes : ∀ name ∈ targets target, body.Owes name)
    (harguments : ∀ value ∈ arguments, body.Readable unchecked value.operand) :
    body.Extends (.straight unchecked) (targets target) last ∧
      ∀ name ∈ targets target, last.Available name := by
  have hcall := extends_emit_call h hready (fun name hmem => howes name (mem_map_register.mp hmem))
    harguments
  rw [toList_map_register] at hcall
  exact ⟨hcall.1, fun name hmem => hcall.2 name (mem_map_register.mpr hmem)⟩

/-- With or without a parameter for it, the first argument is lowered and then the others. -/
theorem eval_passArguments_cons {argument : Pending} {rest : List Pending} {parameters : List Ty}
    {values : List Value}
    (h : (passArguments (argument :: rest) parameters).eval body = .ok (values, last)) :
    ∃ value lowered others,
      (argument.lower parameters.head?).eval body = .ok (value, lowered) ∧
      (passArguments rest parameters.tail).eval lowered = .ok (others, last) ∧
      values = value :: others := by
  cases parameters with
  | nil =>
    simp only [passArguments, Pass.eval_bind_eq_ok_iff, Pass.eval_pure_eq_ok_iff] at h
    obtain ⟨value, lowered, hlower, others, _, hothers, rfl, rfl⟩ := h
    exact ⟨value, lowered, others, hlower, hothers, rfl⟩
  | cons parameter parameters =>
    simp only [passArguments, Pass.eval_bind_eq_ok_iff, eval_expectType_eq_ok_iff,
      Pass.eval_pure_eq_ok_iff] at h
    obtain ⟨value, lowered, hlower, _, _, ⟨-, rfl⟩, others, _, hothers, rfl, rfl⟩ := h
    exact ⟨value, lowered, others, hlower, hothers, rfl⟩

theorem extends_passArguments {arguments : List Pending} {parameters : List Ty}
    {values : List Value}
    (h : (passArguments arguments parameters).eval body = .ok (values, last))
    (hready : body.Ready unchecked names)
    (harguments : ∀ argument ∈ arguments, ∀ expected,
      Yields unchecked names (argument.lower expected)) :
    body.Extends (.straight unchecked) [] last ∧
      ∀ value ∈ values, last.Readable unchecked value.operand := by
  induction arguments generalizing parameters body values with
  | nil =>
    obtain ⟨rfl, rfl⟩ := Pass.eval_pure_eq_ok_iff.mp h
    exact ⟨.refl _ _ _, by simp⟩
  | cons argument rest ih =>
    obtain ⟨value, lowered, others, hlower, hothers, rfl⟩ := eval_passArguments_cons h
    obtain ⟨hlowered, hvalue⟩ := harguments argument (by simp) _ hlower hready
    obtain ⟨hpassed, hothers⟩ := ih hothers (Ready.andThen hready hlowered)
      fun argument hmem => harguments argument (List.mem_cons_of_mem _ hmem)
    refine ⟨hlowered.andThen hpassed, ?_⟩
    intro operand hmem
    rcases List.mem_cons.mp hmem with rfl | hmem
    · exact hpassed.steps.readable hvalue
    · exact hothers operand hmem

theorem extends_promote {value promoted : Value}
    (h : (promote value).eval body = .ok (promoted, last))
    (hready : body.Ready unchecked names)
    (hvalue : body.Readable unchecked value.operand) :
    body.Extends (.straight unchecked) [] last ∧
      last.Readable unchecked promoted.operand := by
  unfold promote at h
  split at h
  · simp only [Pass.eval_bind_eq_ok_iff, Pass.eval_pure_eq_ok_iff] at h
    obtain ⟨target, made, hmade, _, _, hemit, rfl, rfl⟩ := h
    obtain ⟨hgrown, howes, hspend⟩ := extends_temporary hmade hready
    obtain ⟨hemitted, havailable⟩ := extends_emit_target hemit (Ready.andThen hready hgrown) rfl rfl
      howes (by simpa [Instr.operands] using hgrown.steps.readable hvalue)
    exact ⟨hspend _ _ hemitted, readable_of_available havailable⟩
  · obtain ⟨rfl, rfl⟩ := Pass.eval_pure_eq_ok_iff.mp h
    exact ⟨.refl _ _ _, hvalue⟩

theorem extends_passVariadic {arguments : List Pending} {values : List Value}
    (h : (passVariadic arguments).eval body = .ok (values, last))
    (hready : body.Ready unchecked names)
    (harguments : ∀ argument ∈ arguments, ∀ expected,
      Yields unchecked names (argument.lower expected)) :
    body.Extends (.straight unchecked) [] last ∧
      ∀ value ∈ values, last.Readable unchecked value.operand := by
  induction arguments generalizing body values with
  | nil =>
    obtain ⟨rfl, rfl⟩ := Pass.eval_pure_eq_ok_iff.mp h
    exact ⟨.refl _ _ _, by simp⟩
  | cons argument rest ih =>
    simp only [passVariadic, Pass.eval_bind_eq_ok_iff, Pass.eval_pure_eq_ok_iff] at h
    obtain ⟨value, _, hlower, promoted, _, hpromote, others, _, hothers, rfl, rfl⟩ := h
    obtain ⟨hlowered, hvalue⟩ := harguments argument (by simp) none hlower hready
    have hready := Ready.andThen hready hlowered
    obtain ⟨hpromoted, hvalue⟩ := extends_promote hpromote hready hvalue
    obtain ⟨hpassed, hothers⟩ := ih hothers (Ready.andThen hready hpromoted)
      fun argument hmem => harguments argument (List.mem_cons_of_mem _ hmem)
    refine ⟨hlowered.andThen (hpromoted.andThen hpassed), ?_⟩
    intro operand hmem
    rcases List.mem_cons.mp hmem with rfl | hmem
    · exact hpassed.steps.readable hvalue
    · exact hothers operand hmem

theorem readable_sizeArgument {builtin : Builtin} {expression : Expr}
    {value : Value} (h : sizeArgument builtin expression = .ok value) :
    body.Readable unchecked value.operand := by
  cases expression with
  | integer size =>
    simp only [sizeArgument] at h
    split at h
    · cases h
      exact readable_immediate size
    · cases h
  | _ => cases h

/-- A pass that writes the register at hand, if there is one, and introduces besides it only names
of its own. -/
def Fills (unchecked : Prop) (names : List String) (target : Option Var) {α : Type}
    (pass : Lowering α) : Prop :=
  ∀ ⦃body result last⦄, pass.eval body = .ok (result, last) →
    body.Ready unchecked names → (∀ name ∈ targets target, body.Owes name) →
      body.Extends (.straight unchecked) (targets target) last ∧
        ∀ name ∈ targets target, last.Available name

theorem fills_printFormat {format : Pending} {values : List Pending} {target : Option Var}
    (hformat : ∀ expected, Yields unchecked names (format.lower expected))
    (hvalues : ∀ argument ∈ values, ∀ expected, Yields unchecked names (argument.lower expected)) :
    Fills unchecked names target (printFormat format values target) := by
  intro body result last h hready howes
  simp only [printFormat, Pass.eval_bind_eq_ok_iff, Pass.eval_require_eq_ok_iff] at h
  obtain ⟨value, _, hlower, _, _, ⟨-, rfl⟩, others, _, hpass, hcall⟩ := h
  obtain ⟨hlowered, hvalue⟩ := hformat _ hlower hready
  have hready := Ready.andThen hready hlowered
  obtain ⟨hpassed, hothers⟩ := extends_passVariadic hpass hready hvalues
  have hbefore := hlowered.andThen hpassed
  obtain ⟨hcalled, havailable⟩ := extends_callSupport hcall (Ready.andThen hready hpassed)
    (fun name hmem => hbefore.owes name (by simp) (howes name hmem))
    (by simpa [hpassed.steps.readable hvalue] using hothers)
  exact ⟨hbefore.andThen hcalled, havailable⟩

theorem fills_wrap {constructor : Support} {argument : Pending} {target : Option Var}
    (hargument : ∀ expected, Yields unchecked names (argument.lower expected)) :
    Fills unchecked names target (wrap constructor argument target) := by
  intro body result last h hready howes
  simp only [wrap, Pass.eval_bind_eq_ok_iff, Pass.eval_ofExcept_eq_ok_iff] at h
  obtain ⟨value, _, hlower, _, _, ⟨-, rfl⟩, payload, made, hmade, _, allocated, hmalloc, _, stored,
    hstore, hcall⟩ := h
  obtain ⟨hlowered, hvalue⟩ := hargument _ hlower hready
  have hready := Ready.andThen hready hlowered
  obtain ⟨hgrown, hpayload, hspend⟩ := extends_temporary hmade hready
  have hready := Ready.andThen hready hgrown
  obtain ⟨hallocated, havailable⟩ := extends_emit_call hmalloc hready
    (by simpa using hpayload) (by simp [Value.immediate, readable_immediate])
  have hpointer : allocated.Readable unchecked payload.operand :=
    readable_of_available (havailable _ rfl)
  have hvalue := hallocated.steps.readable (hgrown.steps.readable hvalue)
  have hready := Ready.andThen hready hallocated
  have hstored := extends_emit_effect hstore hready rfl rfl
    (by simp [Instr.operands, hpointer, hvalue])
  have hbefore := hlowered.andThen ((hspend _ _ hallocated).andThen hstored)
  obtain ⟨hcalled, havailable⟩ := extends_callSupport hcall (Ready.andThen hready hstored)
    (fun name hmem => hbefore.owes name (by simp) (howes name hmem))
    (by simpa [Var.value] using hstored.steps.readable hpointer)
  exact ⟨hbefore.andThen hcalled, havailable⟩

theorem fills_allocate {size : Pending} {target : Option Var} :
    Fills unchecked names target (allocate size target) := by
  intro body result last h hready howes
  simp only [allocate, Pass.eval_bind_eq_ok_iff, Pass.eval_ofExcept_eq_ok_iff] at h
  obtain ⟨value, _, ⟨hsize, rfl⟩, hcall⟩ := h
  exact extends_callSupport hcall hready howes
    (by simpa using readable_sizeArgument hsize)

theorem fills_reallocate {pointer size : Pending} {target : Option Var}
    (hpointer : ∀ expected, Yields unchecked names (pointer.lower expected)) :
    Fills unchecked names target (reallocate pointer size target) := by
  intro body result last h hready howes
  simp only [reallocate, Pass.eval_bind_eq_ok_iff, Pass.eval_ofExcept_eq_ok_iff,
    Pass.eval_require_eq_ok_iff] at h
  obtain ⟨value, _, hlower, _, _, ⟨-, rfl⟩, bytes, _, ⟨hsize, rfl⟩, hcall⟩ := h
  obtain ⟨hlowered, hvalue⟩ := hpointer _ hlower hready
  obtain ⟨hcalled, havailable⟩ := extends_callSupport hcall (Ready.andThen hready hlowered)
    (fun name hmem => hlowered.owes name (by simp) (howes name hmem))
    (by simpa [hvalue] using readable_sizeArgument hsize)
  exact ⟨hlowered.andThen hcalled, havailable⟩

theorem fills_unwrap {argument : Pending} {target : Option Var}
    (hargument : ∀ expected, Yields unchecked names (argument.lower expected)) :
    Fills unchecked names target (unwrap argument target) := by
  intro body ty last h hready howes
  simp only [unwrap, Pass.eval_bind_eq_ok_iff, Pass.eval_require_eq_ok_iff] at h
  obtain ⟨value, _, hlower, _, _, ⟨-, rfl⟩, payload, made, hmade, _, extracted, hextract, hload⟩ := h
  obtain ⟨hlowered, hvalue⟩ := hargument _ hlower hready
  have hready := Ready.andThen hready hlowered
  obtain ⟨hgrown, hpayload, hspend⟩ := extends_temporary hmade hready
  have hready := Ready.andThen hready hgrown
  obtain ⟨hextracted, havailable⟩ := extends_emit_target hextract hready rfl rfl hpayload
    (by simpa [Instr.operands] using hgrown.steps.readable hvalue)
  have hpointer : extracted.Readable unchecked payload.operand :=
    readable_of_available havailable
  have hready := Ready.andThen hready hextracted
  have hbefore := hlowered.andThen (hspend _ _ hextracted)
  cases target with
  | some var =>
    simp only [Pass.eval_bind_eq_ok_iff, Pass.eval_pure_eq_ok_iff] at hload
    obtain ⟨_, _, ⟨rfl, rfl⟩, _, _, hload, -, rfl⟩ := hload
    obtain ⟨hloaded, havailable⟩ := extends_emit_target hload hready rfl rfl
      (hbefore.owes _ (by simp) (howes _ (by simp [targets])))
      (by simpa [Instr.operands] using hpointer)
    exact ⟨hbefore.andThen hloaded, by simpa [targets] using havailable⟩
  | none =>
    simp only [Pass.eval_bind_eq_ok_iff, Pass.eval_pure_eq_ok_iff] at hload
    obtain ⟨scratch, _, hmade, _, _, hload, -, rfl⟩ := hload
    obtain ⟨hgrown, howes, hspend⟩ := extends_temporary hmade hready
    obtain ⟨hloaded, -⟩ := extends_emit_target hload (Ready.andThen hready hgrown) rfl rfl howes
      (by simpa [Instr.operands] using hgrown.steps.readable hpointer)
    exact ⟨hbefore.andThen (hspend _ _ hloaded), by simp [targets]⟩

/-- What a pass fills in does not depend on what it yields. -/
theorem Fills.andReturn {target : Option Var} {α β : Type} {pass : Lowering α} {value : β}
    (h : Fills unchecked names target pass) :
    Fills unchecked names target (do let _ ← pass; return value) := by
  intro body result last hrun hready howes
  simp only [Pass.eval_bind_eq_ok_iff, Pass.eval_pure_eq_ok_iff] at hrun
  obtain ⟨_, _, hrun, -, rfl⟩ := hrun
  exact h hrun hready howes

theorem fills_fail {target : Option Var} {α : Type} (diagnostic : Diagnostic) :
    Fills unchecked names target (Pass.fail diagnostic : Lowering α) := by
  rintro body result last ⟨⟩

theorem fills_callBuiltin {builtin : Builtin} {arguments : List Pending} {target : Option Var}
    (harguments : ∀ argument ∈ arguments, ∀ expected,
      Yields unchecked names (argument.lower expected)) :
    Fills unchecked names target (callBuiltin builtin arguments target) := by
  unfold callBuiltin
  split
  · exact fills_fail _
  · exact (fills_printFormat (harguments _ (by simp)) fun argument hmem =>
      harguments argument (List.mem_cons_of_mem _ hmem)).andReturn
  · exact (fills_wrap (harguments _ (by simp))).andReturn
  · exact (fills_wrap (harguments _ (by simp))).andReturn
  · exact fills_unwrap (harguments _ (by simp))
  · exact fills_allocate.andReturn
  · exact (fills_reallocate (harguments _ (by simp))).andReturn
  · exact fills_fail _

theorem fills_callFunction {callee : String} {arguments : List Pending} {target : Option Var}
    (harguments : ∀ argument ∈ arguments, ∀ expected,
      Yields unchecked names (argument.lower expected)) :
    Fills unchecked names target (callFunction callee arguments target) := by
  intro body result last h hready howes
  simp only [callFunction, Pass.eval_bind_eq_ok_iff, Pass.eval_get_eq_ok_iff,
    Pass.eval_ofExcept_eq_ok_iff, Pass.eval_require_eq_ok_iff, Pass.eval_pure_eq_ok_iff] at h
  obtain ⟨_, _, ⟨rfl, rfl⟩, _, _, ⟨-, rfl⟩, _, _, ⟨-, rfl⟩, _, _, ⟨-, rfl⟩, values, _, hpass, _, _,
    hcall, -, rfl⟩ := h
  obtain ⟨hpassed, hvalues⟩ := extends_passArguments hpass hready harguments
  have hcalled := extends_emit_call hcall (Ready.andThen hready hpassed)
    (fun name hmem => hpassed.owes name (by simp) (howes name (mem_map_register.mp hmem))) hvalues
  rw [toList_map_register] at hcalled
  exact ⟨hpassed.andThen hcalled.1, fun name hmem => hcalled.2 name (mem_map_register.mpr hmem)⟩

/-- Lowering a call. -/
theorem fills_call {callee : String} {arguments : List Pending} {target : Option Var}
    (harguments : ∀ argument ∈ arguments, ∀ expected,
      Yields unchecked names (argument.lower expected)) :
    Fills unchecked names target (call callee arguments target) := by
  unfold call
  split
  · intro body result last h hready howes
    simp only [Pass.eval_bind_eq_ok_iff, Pass.eval_report_eq_ok_iff, Pass.eval_map_eq_ok_iff] at h
    obtain ⟨_, _, rfl, _, hcall, -⟩ := h
    exact fills_callBuiltin harguments hcall hready howes
  · exact fills_callFunction harguments

-- ════════════════════════
-- Compound expressions
-- ════════════════════════

/-- What is computed goes to a new register. -/
theorem eval_compute {expected : Option Ty} {computation : Var → Lowering Ty} {value : Value}
    (h : (compute expected computation).eval body = .ok (value, last)) :
    ∃ base target ty,
      target = Var.make (body.scope.newRegister base) ((expected.filter Ty.isStorable).getD .dynamic) ∧
      (computation target).eval (body.mint base target.ty) = .ok (ty, last) ∧
      value = ⟨target.operand, ty⟩ := by
  simp only [compute_eq, Pass.eval_bind_eq_ok_iff, Pass.eval_pure_eq_ok_iff] at h
  obtain ⟨target, _, htarget, ty, _, hty, rfl, rfl⟩ := h
  obtain ⟨base, rfl, rfl⟩ := eval_temporary htarget
  exact ⟨base, _, ty, rfl, hty, rfl⟩

/-- A value computed into a new register. -/
theorem yields_compute {expected : Option Ty} {computation : Var → Lowering Ty}
    (h : ∀ target, Fills unchecked names (some target) (computation target)) :
    Yields unchecked names (compute expected computation) := by
  intro body value last hrun hready
  simp only [compute_eq, Pass.eval_bind_eq_ok_iff, Pass.eval_pure_eq_ok_iff] at hrun
  obtain ⟨target, made, hmade, ty, _, hcompute, rfl, rfl⟩ := hrun
  obtain ⟨hgrown, howes, hspend⟩ := extends_temporary hmade hready
  obtain ⟨hcomputed, havailable⟩ := h target hcompute (Ready.andThen hready hgrown)
    (by simpa [targets] using howes)
  exact ⟨hspend _ _ hcomputed, readable_of_available (havailable _ (by simp [targets]))⟩

/-- A place that is loaded into the register at hand. -/
theorem fills_loadPlace {pass : Lowering Place} {target : Var}
    (h : ∀ ⦃body place last⦄, pass.eval body = .ok (place, last) →
      body.Ready unchecked names → body.Extends (.straight unchecked) [] last ∧
        last.Readable unchecked place.address) :
    Fills unchecked names (some target) (do
      let place ← pass
      loadInto target.register place) := by
  intro body ty last hrun hready howes
  simp only [Pass.eval_bind_eq_ok_iff] at hrun
  obtain ⟨place, _, hplace, hload⟩ := hrun
  obtain ⟨hplaced, haddress⟩ := h hplace hready
  obtain ⟨hloaded, havailable⟩ := extends_loadInto hload (Ready.andThen hready hplaced)
    (hplaced.owes _ (by simp) (howes _ (by simp [targets]))) haddress
  exact ⟨hplaced.andThen hloaded, by simpa [targets] using havailable⟩

theorem extends_intern {constant : Constant} {symbol : String}
    (h : (intern constant).eval body = .ok (symbol, last)) :
    body.Extends (.straight unchecked) [] last := by
  rcases eval_intern h with rfl | rfl
  · exact .refl _ _ _
  · exact ⟨.single (.addConstant body constant), fun _ _ howes => howes⟩

theorem fills_addressConstant {constant : Constant} {target : Var} :
    Fills unchecked names (some target) (addressConstant constant target) := by
  intro body result last h hready howes
  simp only [addressConstant, Pass.eval_bind_eq_ok_iff] at h
  obtain ⟨symbol, _, hintern, hemit⟩ := h
  have hinterned : body.Extends (.straight unchecked) [] _ := extends_intern hintern
  obtain ⟨hemitted, havailable⟩ := extends_emit_target hemit (Ready.andThen hready hinterned)
    rfl rfl (hinterned.owes _ (by simp) (howes _ (by simp [targets])))
    (by simp [Instr.operands, readable_global, Value.index, Value.immediate, readable_immediate])
  exact ⟨hinterned.andThen hemitted, by simpa [targets] using havailable⟩

theorem isPlain_operatorInstruction (operator : Operator) (target : String) (ty : Ty)
    (lhs rhs : Operand) : (operator.instruction target ty lhs rhs).isPlain := by
  cases operator <;> rfl

theorem target?_operatorInstruction (operator : Operator) (target : String) (ty : Ty)
    (lhs rhs : Operand) : (operator.instruction target ty lhs rhs).target? = some target := by
  cases operator <;> rfl

theorem operands_operatorInstruction (operator : Operator) (target : String) (ty : Ty)
    (lhs rhs : Operand) : (operator.instruction target ty lhs rhs).operands = [lhs, rhs] := by
  cases operator <;> rfl

/-- The stages of a binary operator. -/
theorem eval_applyOperator {frame : Frame} {operator : Operator} {lhs rhs : Pending} {target : Var}
    {found : Ty} (h : (applyOperator frame operator lhs rhs target).eval body = .ok (found, last)) :
    ∃ ty left middle right before,
      commonType frame.table body.scope lhs.expression rhs.expression
        (if target.dynamic || operator.isComparison then none else some target.ty) = .ok ty ∧
      ty.supports operator ∧
      (lhs.lower (some ty)).eval body = .ok (left, middle) ∧
      (rhs.lower (some ty)).eval middle = .ok (right, before) ∧
      ty.agrees left.ty ∧ ty.agrees right.ty ∧ left.ty = right.ty ∧
      (emit (operator.instruction target.register ty left.operand right.operand)).eval before =
        .ok ((), last) ∧
      found = if operator.isComparison then .bool else ty := by
  simp only [applyOperator, Pass.eval_bind_eq_ok_iff, Pass.eval_get_eq_ok_iff,
    Pass.eval_ofExcept_eq_ok_iff, Pass.eval_require_eq_ok_iff, eval_expectType_eq_ok_iff,
    Pass.eval_pure_eq_ok_iff] at h
  obtain ⟨_, _, ⟨rfl, rfl⟩, ty, _, ⟨hty, rfl⟩, _, _, ⟨hsupports, rfl⟩, left, middle, hleft, right,
    before, hright, _, _, ⟨hagrees, rfl⟩, _, _, ⟨hagrees', rfl⟩, _, _, ⟨hsame, rfl⟩, _, _, hemit,
    rfl, rfl⟩ := h
  exact ⟨ty, left, middle, right, before, hty, hsupports, hleft, hright, hagrees, hagrees',
    of_decide_eq_true hsame, hemit, rfl⟩

theorem fills_applyOperator {frame : Frame} {operator : Operator} {lhs rhs : Pending} {target : Var}
    (hlhs : ∀ expected, Yields unchecked names (lhs.lower expected))
    (hrhs : ∀ expected, Yields unchecked names (rhs.lower expected)) :
    Fills unchecked names (some target) (applyOperator frame operator lhs rhs target) := by
  intro body ty last h hready howes
  obtain ⟨_, left, _, right, _, -, -, hlower, hlower', -, -, -, hemit, -⟩ := eval_applyOperator h
  obtain ⟨hleft, hleftValue⟩ := hlhs _ hlower hready
  have hready := Ready.andThen hready hleft
  obtain ⟨hright, hrightValue⟩ := hrhs _ hlower' hready
  have hleftValue := hright.steps.readable hleftValue
  have hbefore := hleft.andThen hright
  obtain ⟨hemitted, havailable⟩ := extends_emit_target hemit (Ready.andThen hready hright)
    (isPlain_operatorInstruction _ _ _ _ _) (target?_operatorInstruction _ _ _ _ _)
    (hbefore.owes _ (by simp) (howes _ (by simp [targets])))
    (by simp [operands_operatorInstruction, hleftValue, hrightValue])
  exact ⟨hbefore.andThen hemitted, by simpa [targets] using havailable⟩

theorem extends_storeFields {definition : StructTy} {address : Operand} {fields : List PendingField}
    {result : Unit} (h : (storeFields definition address fields).eval body = .ok (result, last))
    (hready : body.Ready unchecked names)
    (haddress : body.Readable unchecked address)
    (hfields : ∀ field ∈ fields, ∀ expected, Yields unchecked names (field.lower expected)) :
    body.Extends (.straight unchecked) [] last := by
  induction fields generalizing body with
  | nil =>
    obtain ⟨-, rfl⟩ := Pass.eval_pure_eq_ok_iff.mp h
    exact .refl _ _ _
  | cons field rest ih =>
    simp only [storeFields, Pass.eval_bind_eq_ok_iff, Pass.eval_ofExcept_eq_ok_iff,
      eval_expectType_eq_ok_iff] at h
    obtain ⟨_, _, ⟨-, rfl⟩, value, _, hlower, _, _, ⟨-, rfl⟩, place, _, hmember, _, _, hstore,
      hrest⟩ := h
    obtain ⟨hlowered, hvalue⟩ := hfields field (by simp) _ hlower hready
    have hready := Ready.andThen hready hlowered
    have haddress := hlowered.steps.readable haddress
    obtain ⟨hplaced, hplace⟩ := extends_memberPlace hmember hready haddress
    have hready := Ready.andThen hready hplaced
    have hvalue := hplaced.steps.readable hvalue
    have hstored := extends_emit_effect hstore hready rfl rfl
      (by simp [Instr.operands, hvalue, hplace])
    have hothers := ih hrest (Ready.andThen hready hstored)
      (hstored.steps.readable (hplaced.steps.readable haddress))
      fun field hmem => hfields field (List.mem_cons_of_mem _ hmem)
    exact hlowered.andThen (hplaced.andThen (hstored.andThen hothers))

theorem fills_buildStruct {frame : Frame} {struct : String} {fields : List PendingField}
    {target : Var}
    (hfields : ∀ field ∈ fields, ∀ expected, Yields unchecked names (field.lower expected)) :
    Fills unchecked names (some target) (buildStruct frame struct fields target) := by
  intro body ty last h hready howes
  simp only [buildStruct, Pass.eval_bind_eq_ok_iff, Pass.eval_ofExcept_eq_ok_iff,
    eval_reserve_eq_ok_iff] at h
  obtain ⟨definition, _, ⟨-, rfl⟩, slot, made, hmade, _, _, ⟨-, rfl⟩, _, stored, hstore, hload⟩ := h
  obtain ⟨hgrown, hslot, hspend⟩ := extends_temporary hmade hready
  have hready := Ready.andThen hready hgrown
  have hreserved : made.Extends (.straight unchecked) [slot.register] (made.reserve slot) :=
    Body.extends_reserve _ hslot
  have hready := Ready.andThen hready hreserved
  have hslot : (made.reserve slot).Readable unchecked slot.operand := by
    refine readable_of_available (Or.inl ?_)
    simp
  have hstored := extends_storeFields hstore hready hslot hfields
  have hbefore := (hspend _ _ hreserved).andThen hstored
  obtain ⟨hloaded, havailable⟩ := extends_loadInto hload (Ready.andThen hready hstored)
    (hbefore.owes _ (by simp) (howes _ (by simp [targets]))) (hstored.steps.readable hslot)
  exact ⟨hbefore.andThen hloaded, by simpa [targets] using havailable⟩

theorem fills_constantArray {elements : List Expr} {target : Var} :
    Fills unchecked names (some target) (constantArray elements target) := by
  intro body ty last h hready howes
  simp only [constantArray_eq, Pass.eval_bind_eq_ok_iff, Pass.eval_ofExcept_eq_ok_iff,
    Pass.eval_pure_eq_ok_iff] at h
  obtain ⟨_, _, ⟨-, rfl⟩, _, _, haddress, -, rfl⟩ := h
  exact fills_addressConstant haddress hready howes

theorem fills_callForValue {callee : String} {arguments : List Pending} {target : Var}
    (harguments : ∀ argument ∈ arguments, ∀ expected,
      Yields unchecked names (argument.lower expected)) :
    Fills unchecked names (some target) (callForValue callee arguments target) := by
  intro body ty last h hready howes
  simp only [callForValue, Pass.eval_bind_eq_ok_iff] at h
  obtain ⟨returned, _, hcall, hreturn⟩ := h
  cases returned with
  | none => cases hreturn
  | some _ =>
    obtain ⟨-, rfl⟩ := Pass.eval_pure_eq_ok_iff.mp hreturn
    exact fills_call harguments hcall hready howes

-- ════════════════════════
-- Expressions
-- ════════════════════════

theorem yields_pure {value : Value} (h : ∀ body : Body, body.Readable unchecked value.operand) :
    Yields unchecked names (pure value) := by
  intro body result last hrun _
  obtain ⟨rfl, rfl⟩ := Pass.eval_pure_eq_ok_iff.mp hrun
  exact ⟨.refl _ _ _, h body⟩

mutual

/-- Lowering an expression whose variables are among the given names. -/
theorem yields_lowerExpr (frame : Frame) : ∀ (expression : Expr) (expected : Option Ty),
    expression.mentions ⊆ names → Yields unchecked names (lowerExpr frame expression expected)
  | .integer value, _, _ => by
    rw [lowerExpr_integer]
    exact yields_pure fun _ => readable_immediate value
  | .boolean value, _, _ => by
    rw [lowerExpr_boolean]
    exact yields_pure fun _ => readable_boolean value
  | .address name, _, hnames => by
    rw [lowerExpr_address]
    intro body value last hrun hready
    simp only [Pass.eval_bind_eq_ok_iff, Pass.eval_pure_eq_ok_iff] at hrun
    obtain ⟨var, _, hvar, rfl, rfl⟩ := hrun
    obtain ⟨rfl, hreadable⟩ := readable_variable hvar hready (hnames (by simp [Expr.mentions]))
    exact ⟨.refl _ _ _, hreadable⟩
  | .text value, _, _ => by
    rw [lowerExpr_text]
    exact yields_compute fun _ => fills_addressConstant.andReturn
  | .variableRef name, _, hnames => by
    rw [lowerExpr_variableRef]
    exact yields_compute fun _ => fills_loadPlace fun _ _ _ hplace hready =>
      extends_variablePlace hplace hready (hnames (by simp [Expr.mentions]))
  | .binary operator lhs rhs, _, hnames => by
    rw [lowerExpr_binary]
    simp only [Expr.mentions, List.append_subset] at hnames
    exact yields_compute fun _ => fills_applyOperator
      (fun expected => yields_lowerExpr frame lhs expected hnames.1)
      (fun expected => yields_lowerExpr frame rhs expected hnames.2)
  | .call callee arguments, _, hnames => by
    rw [lowerExpr_call]
    exact yields_compute fun _ => fills_callForValue
      (yields_pending frame arguments (by simpa only [Expr.mentions] using hnames))
  | .deref name depth, _, hnames => by
    rw [lowerExpr_deref]
    exact yields_compute fun _ => fills_loadPlace fun _ _ _ hplace hready =>
      extends_derefPlace hplace hready (hnames (by simp [Expr.mentions]))
  | .field base field, _, hnames => by
    rw [lowerExpr_field]
    exact yields_compute fun _ => fills_loadPlace fun _ _ _ hplace hready =>
      extends_fieldPlace hplace hready (hnames (by simp [Expr.mentions]))
  | .element array index, _, hnames => by
    rw [lowerExpr_element]
    simp only [Expr.mentions, List.cons_subset] at hnames
    exact yields_compute fun _ => fills_loadPlace fun _ _ _ hplace hready =>
      extends_elementPlace hplace hready hnames.1 (yields_lowerExpr frame index none hnames.2)
  | .build struct fields, _, hnames => by
    rw [lowerExpr_build]
    exact yields_compute fun _ => fills_buildStruct
      (yields_pendingFields frame fields (by simpa only [Expr.mentions] using hnames))
  | .array elements, _, _ => by
    rw [lowerExpr_array]
    exact yields_compute fun _ => fills_constantArray

theorem yields_pending (frame : Frame) : ∀ expressions : List Expr,
    Expr.mentionsAll expressions ⊆ names → ∀ argument ∈ pending frame expressions, ∀ expected,
      Yields unchecked names (argument.lower expected)
  | [], _ => by simp [pending]
  | expression :: rest, hnames => by
    simp only [Expr.mentionsAll, List.append_subset] at hnames
    intro argument hmem expected
    rw [pending] at hmem
    rcases List.mem_cons.mp hmem with rfl | hmem
    · exact yields_lowerExpr frame expression expected hnames.1
    · exact yields_pending frame rest hnames.2 argument hmem expected

theorem yields_pendingFields (frame : Frame) : ∀ fields : List FieldValue,
    FieldValue.mentionsAll fields ⊆ names → ∀ field ∈ pendingFields frame fields, ∀ expected,
      Yields unchecked names (field.lower expected)
  | [], _ => by simp [pendingFields]
  | ⟨name, value⟩ :: rest, hnames => by
    simp only [FieldValue.mentionsAll, List.append_subset] at hnames
    intro field hmem expected
    rw [pendingFields] at hmem
    rcases List.mem_cons.mp hmem with rfl | hmem
    · exact yields_lowerExpr frame value expected hnames.1
    · exact yields_pendingFields frame rest hnames.2 field hmem expected

end

/-- Lowering the target of an assignment. -/
theorem extends_lowerTarget {frame : Frame} {target : Expr} {place : Place}
    (h : (lowerTarget frame target).eval body = .ok (place, last))
    (hready : body.Ready unchecked names) (hnames : target.mentions ⊆ names) :
    body.Extends (.straight unchecked) [] last ∧
      last.Readable unchecked place.address := by
  cases target with
  | variableRef name => exact extends_variablePlace h hready (hnames (by simp [Expr.mentions]))
  | deref name depth => exact extends_derefPlace h hready (hnames (by simp [Expr.mentions]))
  | field base field => exact extends_fieldPlace h hready (hnames (by simp [Expr.mentions]))
  | element array index =>
    simp only [Expr.mentions, List.cons_subset] at hnames
    exact extends_elementPlace h hready hnames.1 (yields_lowerExpr frame index none hnames.2)
  | _ => cases h

end Lowering

end ThreeAddress
