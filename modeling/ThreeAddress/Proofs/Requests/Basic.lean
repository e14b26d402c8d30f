import ThreeAddress.Proofs.Contract.Occurrences
import ThreeAddress.Proofs.Emission.Evolution
import ThreeAddress.Proofs.Tally.Basic

/-!
# What programs ask for

A program asks for stack slots and for calls. Every variable gets a stack slot when its value is there,
every struct value gets one before its members are evaluated, and every call is made when its arguments
are there. Lowering answers these requests one after the other, and it reserves no stack slot and emits no
call that nobody asked for.

## Main definitions

* `Request`: something that a program asks for.
* `Expr.requests`, `Stmt.requests`, `Block.requests`: all requests of a program, in order.
* `Request.Reserved`, `Request.Called`: the stack slot and the calls that requests are for.
* `Request.Answered`: the stack slots and the calls that answer requests one after the other.
* `Body.Serves`: changes to a body that answer some requests and do nothing else of that kind.
* `Lowering.Responds`: a pass that serves some requests.

## Main statements

* `Lowering.Responds.append`: a sequence serves what its parts serve.
* `Lowering.responds_emit`: instructions other than calls serve nothing.
-/

namespace ThreeAddress

-- ════════════════════════
-- Requests
-- ════════════════════════

/-- Something that a program asks for. -/
inductive Request where
  /-- The stack slot of a variable. -/
  | bind (name : String) (text? : Option String)
  /-- The stack slot in which a struct value is put together. -/
  | build (struct : String)
  | call (callee : String) (arguments : List Expr)

/-- Whether a request is for a stack slot. -/
def Request.isSlot : Request → Bool
  | call _ _ => false
  | bind _ _ | build _ => true

mutual

/-- What an expression asks for. A struct value has its stack slot before its members are evaluated,
and a call is made when its arguments are there. -/
def Expr.requests : Expr → List Request
  | .binary _ lhs rhs => lhs.requests ++ rhs.requests
  | .call callee arguments => Expr.requestsAll arguments ++ [.call callee arguments]
  | .build struct fields => .build struct :: FieldValue.requestsAll fields
  | .array elements => Expr.requestsAll elements
  | .element _ index => index.requests
  | .integer _ | .boolean _ | .text _ | .variableRef _ | .address _ | .deref _ _ | .field _ _ => []

/-- What some expressions ask for. -/
def Expr.requestsAll : List Expr → List Request
  | [] => []
  | expression :: rest => expression.requests ++ Expr.requestsAll rest

/-- What the members of a struct value ask for. -/
def FieldValue.requestsAll : List FieldValue → List Request
  | [] => []
  | ⟨_, value⟩ :: rest => value.requests ++ FieldValue.requestsAll rest

end

mutual

/-- What a statement asks for. A variable gets its stack slot when its value is there. -/
def Stmt.requests : Stmt → List Request
  | .bind name text? value => value.requests ++ [.bind name text?]
  | .assign target value => target.requests ++ value.requests
  | .eval expression => expression.requests
  | .ret value => value.toList.flatMap Expr.requests
  | .ite condition positive negative =>
    condition.requests ++ (Block.requests positive ++ Block.requests negative)
  | .loop condition body => condition.requests ++ Block.requests body
  | .directive _ => []

/-- What some statements ask for. -/
def Block.requests : List Stmt → List Request
  | [] => []
  | statement :: rest => statement.requests ++ Block.requests rest

end

-- ════════════════════════
-- Answers
-- ════════════════════════

/-- A register that is called like a name, or like that with a number behind it. -/
def NamedAfter (name register : String) : Prop :=
  register = name ∨ ∃ number : Nat, register = name ++ toString number

theorem Scope.namedAfter_newRegister (scope : Scope) (name : String) :
    NamedAfter name (scope.newRegister name) :=
  scope.newRegister_eq name

/-- A call of a support function. The arguments behind its parameters need no promotion. -/
def Support.IsCalled (function : Support) (instruction : Instr) : Prop :=
  ∃ target arguments, instruction = .call target function.name function.signature arguments ∧
    ∀ argument ∈ arguments.drop function.signature.parameters.length, argument.ty.promotion? = none

namespace Request

/-- The stack slot that a request is for. -/
inductive Reserved (table : TypeTable) : Request → Var → Prop
  /-- A variable has the type that it is declared with. -/
  | bind {name : String} {text? : Option String} {slot : Var}
      (named : NamedAfter name slot.register)
      (typed : ∀ text ∈ text?, table.denote text = .ok slot.ty) :
      Reserved table (.bind name text?) slot
  | build {struct register : String} {definition : StructTy}
      (found : table.get struct = .ok definition) :
      Reserved table (.build struct) (.make register (.struct definition))

/-- The calls that a request is for, in the course of changes to a body. -/
inductive Called (body : Body) : Request → List Instr → Prop
  /-- A built-in calls its support functions. -/
  | builtin {callee : String} {builtin : Builtin} {arguments : List Expr} {calls : List Instr}
      (found : Builtin.ofName? callee = some builtin)
      (called : List.Forall₂ Support.IsCalled builtin.support calls) :
      Called body (.call callee arguments) calls
  /-- Any other name stands for a function when its arguments are about to be evaluated. -/
  | function {callee : String} {arguments : List Expr} {before : Body} {function : Var}
      {signature : Signature} {target : Option String} {values : List Value}
      (missing : Builtin.ofName? callee = none) (reached : body.Evolves before)
      (found : before.scope.find? callee = some function) (typed : function.ty = .function signature)
      (passed : values.length = arguments.length) :
      Called body (.call callee arguments) [.call target function.register signature values]

theorem Reserved.isSlot {table : TypeTable} {request : Request} {slot : Var}
    (h : request.Reserved table slot) : request.isSlot := by
  cases h <;> rfl

theorem Called.isSlot {body : Body} {request : Request} {calls : List Instr}
    (h : request.Called body calls) : request.isSlot = false := by
  cases h <;> rfl

/-- What is called from later on is called from now on. -/
theorem Called.of_evolves {body last : Body} {request : Request} {calls : List Instr}
    (h : request.Called last calls) (hevolves : body.Evolves last) : request.Called body calls := by
  cases h with
  | builtin found called => exact .builtin found called
  | function missing reached found typed passed =>
    exact .function missing (hevolves.trans reached) found typed passed

/-- The stack slots and the calls that answer requests one after the other. -/
inductive Answered (table : TypeTable) (body : Body) : List Request → List Var → List Instr → Prop
  | nil : Answered table body [] [] []
  | slot {request : Request} {rest : List Request} {slot : Var} {slots : List Var} {calls : List Instr}
      (head : request.Reserved table slot) (tail : Answered table body rest slots calls) :
      Answered table body (request :: rest) (slot :: slots) calls
  | call {request : Request} {rest : List Request} {slots : List Var} {called calls : List Instr}
      (head : request.Called body called) (tail : Answered table body rest slots calls) :
      Answered table body (request :: rest) slots (called ++ calls)

namespace Answered

variable {table : TypeTable} {body last : Body} {requests others : List Request} {slots more : List Var}
  {calls calls' : List Instr}

theorem of_reserved {request : Request} {slot : Var} (h : request.Reserved table slot) :
    Answered table body [request] [slot] [] :=
  .slot h .nil

theorem of_called {request : Request} (h : request.Called body calls) :
    Answered table body [request] [] calls := by
  rw [← List.append_nil calls]
  exact .call h .nil

theorem of_evolves (h : Answered table last requests slots calls) (hevolves : body.Evolves last) :
    Answered table body requests slots calls := by
  induction h with
  | nil => exact .nil
  | slot head _ ih => exact .slot head ih
  | call head _ ih => exact .call (head.of_evolves hevolves) ih

theorem append (h : Answered table body requests slots calls)
    (h' : Answered table body others more calls') :
    Answered table body (requests ++ others) (slots ++ more) (calls ++ calls') := by
  induction h with
  | nil => exact h'
  | slot head _ ih => exact .slot head ih
  | call head _ ih =>
    rw [List.append_assoc]
    exact .call head ih

/-- The stack slots are those that were asked for. -/
theorem forall₂_reserved (h : Answered table body requests slots calls) :
    List.Forall₂ (Reserved table) (requests.filter isSlot) slots := by
  induction h with
  | nil => exact .nil
  | slot head _ ih =>
    rw [List.filter_cons_of_pos head.isSlot]
    exact .cons head ih
  | call head _ ih =>
    rw [List.filter_cons_of_neg (by simp [head.isSlot])]
    exact ih

/-- The calls are those that were asked for. -/
theorem exists_forall₂_called (h : Answered table body requests slots calls) :
    ∃ groups : List (List Instr), calls = groups.flatten ∧
      List.Forall₂ (Called body) (requests.filter fun request => !request.isSlot) groups := by
  induction h with
  | nil => exact ⟨[], rfl, .nil⟩
  | slot head _ ih =>
    rw [List.filter_cons_of_neg (by simp [head.isSlot])]
    exact ih
  | @call _ _ _ called _ head _ ih =>
    obtain ⟨groups, rfl, hgroups⟩ := ih
    rw [List.filter_cons_of_pos (by simp [head.isSlot])]
    exact ⟨called :: groups, rfl, .cons head hgroups⟩

end Answered

end Request

/-- Changes to a body that answer some requests, reserve no other stack slots and emit no other calls. -/
def Body.Serves (table : TypeTable) (requests : List Request) (body last : Body) : Prop :=
  ∃ slots calls, Request.Answered table body requests slots calls ∧ body.Emits slots calls last

namespace Body.Serves

variable {table : TypeTable} {requests others : List Request} {body middle last : Body}

theorem evolves (h : body.Serves table requests last) : body.Evolves last := by
  obtain ⟨_, _, -, hemits⟩ := h
  exact hemits.evolves

theorem trans (h : body.Serves table requests middle) (h' : middle.Serves table others last) :
    body.Serves table (requests ++ others) last := by
  obtain ⟨slots, calls, hanswered, hemits⟩ := h
  obtain ⟨more, calls', hanswered', hemits'⟩ := h'
  exact ⟨slots ++ more, calls ++ calls', hanswered.append (hanswered'.of_evolves hemits.evolves),
    hemits.trans hemits'⟩

/-- Changes that reserve no stack slots and emit no calls serve nothing. -/
theorem of_emits (h : body.Emits [] [] last) : body.Serves table [] last :=
  ⟨[], [], .nil, h⟩

theorem emits (h : body.Serves table [] last) : body.Emits [] [] last := by
  obtain ⟨_, _, ⟨⟩, hemits⟩ := h
  exact hemits

end Body.Serves

-- ════════════════════════
-- Passes
-- ════════════════════════

namespace Lowering

variable {α β : Type} {table : TypeTable} {requests others : List Request}

/-- A pass that serves the given requests if it succeeds. -/
def Responds (table : TypeTable) (requests : List Request) (pass : Lowering α) : Prop :=
  ∀ ⦃body value last⦄, pass.eval body = .ok (value, last) → body.Serves table requests last

/-- A sequence serves what its parts serve. -/
theorem Responds.append {first : Lowering α} {next : α → Lowering β} (h : Responds table requests first)
    (h' : ∀ value, MayReturn first value → Responds table others (next value)) :
    Responds table (requests ++ others) (first >>= next) := by
  intro body value last hrun
  obtain ⟨between, middle, hfirst, hnext⟩ := Pass.eval_bind_eq_ok_iff.mp hrun
  exact (h hfirst).trans (h' between ⟨body, middle, hfirst⟩ hnext)

/-- A sequence that serves nothing at first. -/
theorem Responds.bind {first : Lowering α} {next : α → Lowering β} (h : Responds table [] first)
    (h' : ∀ value, MayReturn first value → Responds table requests (next value)) :
    Responds table requests (first >>= next) :=
  h.append h'

/-- A sequence that serves nothing in the end. -/
theorem Responds.finish {first : Lowering α} {next : α → Lowering β} (h : Responds table requests first)
    (h' : ∀ value, MayReturn first value → Responds table [] (next value)) :
    Responds table requests (first >>= next) := by
  rw [← List.append_nil requests]
  exact h.append h'

/-- A pass that leaves the body as it is serves nothing. -/
theorem responds_of_eq {pass : Lowering α}
    (h : ∀ {body value last}, pass.eval body = .ok (value, last) → body = last) :
    Responds table [] pass := by
  intro body value last hrun
  obtain rfl := h hrun
  exact .of_emits (.refl body)

theorem responds_pure (value : α) : Responds table [] (pure value) :=
  responds_of_eq fun h => (Pass.eval_pure_eq_ok_iff.mp h).2

theorem responds_get : Responds table [] Pass.get :=
  responds_of_eq fun h => (Pass.eval_get_eq_ok_iff.mp h).2

theorem responds_ofExcept (source : Except Diagnostic α) : Responds table [] (Pass.ofExcept source) :=
  responds_of_eq fun h => (Pass.eval_ofExcept_eq_ok_iff.mp h).2

theorem responds_require (condition : Bool) (diagnostic : Diagnostic) :
    Responds table [] (Pass.require condition diagnostic) :=
  responds_of_eq fun h => (Pass.eval_require_eq_ok_iff.mp h).2

theorem responds_report (trace : Trace) : Responds table [] (Pass.report trace) :=
  responds_of_eq Pass.eval_report_eq_ok_iff.mp

/-- A pass that never succeeds serves whatever one likes. -/
theorem responds_fail (diagnostic : Diagnostic) :
    Responds table requests (Pass.fail diagnostic : Lowering α) := by
  intro body value last hrun
  cases hrun

theorem Responds.map {pass : Lowering α} (h : Responds table requests pass) (change : α → β) :
    Responds table requests (change <$> pass) := by
  rw [map_eq_pure_bind]
  exact h.finish fun _ _ => responds_pure _

theorem responds_mint (base : String) (ty : Ty) : Responds table [] (mint base ty) := by
  intro body var last hrun
  obtain ⟨-, rfl⟩ := eval_mint_eq_ok_iff.mp hrun
  exact .of_emits (.mint body base ty)

theorem responds_temporary (ty : Ty) : Responds table [] (temporary ty) :=
  fun _ _ _ hrun => .of_emits (emits_temporary hrun)

theorem responds_newLabel (base : String) : Responds table [] (newLabel base) :=
  (responds_mint base .label).map _

theorem responds_variableNamed (name : String) : Responds table [] (variableNamed name) :=
  responds_get.bind fun _ _ => responds_ofExcept _

theorem responds_expectType (site : Site) (expected actual : Ty) :
    Responds table [] (expectType site expected actual) :=
  responds_require _ _

/-- Instructions other than calls serve nothing. -/
theorem responds_emit {instruction : Instr} (hslot : instruction.slot? = none)
    (hcall : instruction.isCall = false) : Responds table [] (emit instruction) := by
  intro body result last hrun
  have hemits := emits_emit hrun hslot
  rw [List.filter_cons_of_neg (by simp [hcall]), List.filter_nil] at hemits
  exact .of_emits hemits

theorem responds_intern (constant : Constant) : Responds table [] (intern constant) := by
  intro body symbol last hrun
  rcases eval_intern hrun with rfl | rfl
  · exact .of_emits (.refl body)
  · exact .of_emits (.addConstant body constant)

end Lowering

end ThreeAddress
