import ThreeAddress.Proofs.Emission.Sheet
import ThreeAddress.Proofs.Emission.Symbols
import ThreeAddress.Proofs.Requests.Function
import ThreeAddress.Proofs.Typing.Grounded

/-!
# The states of lowering a function

A module is lowered function by function. A session is the moment at which one of its functions is about to
be lowered: the functions before it have their code, and all names of the module are bound. Behind its
header and its prologue, the body of the function grows by changes, whether or not the function is lowered
to its end.

## Main definitions

* `Session`: a function of a module that is about to be lowered.
* `Session.start`: the body behind the prologue of the function.
* `Session.Reaches`: the states that changes lead to from there.
* `Session.code`: the code that a state stands for.

## Main statements

* `Session.Reaches.of_responds`: passes lead from such states to such states.
* `Session.Reaches.keyed`: in all of them bound names are in use.
* `Session.Reaches.follows`: in all of them the lines of the functions before are where they were.
* `Session.exists_stages`: the stages of lowering a function in a session.
* `exists_session`: every function of a lowered program was lowered in a session.
-/

namespace ThreeAddress

/-- A function of a module that is about to be lowered. The structs are defined, all functions are bound,
and those before this one are lowered. -/
structure Session (prelude : Scope) (module : Module) where
  table : TypeTable
  /-- The code of the functions before this one. -/
  codes : List FunctionCode
  /-- The names of the module, and the lines of the functions before this one. -/
  draft : Draft
  function : BoundFunction
  reached : ∃ support declared before after named,
    (declareSupport Support.all).eval { root := prelude.nest } = .ok (support, declared) ∧
    (defineStructs {} module.items).eval declared = .ok (table, declared) ∧
    (bindFunctions table [] module.functions).eval declared =
      .ok (before ++ function :: after, named) ∧
    (lowerFunctions table before).eval { globals := named } = .ok (codes, draft)

namespace Session

variable {prelude : Scope} {module : Module} (session : Session prelude module)

/-- What the function starts with. -/
def prologue : Prologue :=
  session.draft.globals.root.prologue
    ((session.function.definition.parameters.map TypedName.name).zip
      session.function.signature.parameters) session.function.signature.returns

def frame : Frame :=
  ⟨session.table, session.function.definition.name, session.prologue.exit,
    session.prologue.returnSlot⟩

/-- The line that opens the function. -/
def header : Line :=
  .header session.function.symbol session.function.signature
    (session.prologue.parameters.map fun parameter => parameter.incoming.register)

/-- The body of the function behind its prologue. -/
def start : Body := session.draft.body.begin session.header session.prologue

/-- A state of lowering the function. -/
def Reaches (body : Body) : Prop := session.start.Evolves body

/-- The code of the function in a state. -/
def code (body : Body) : FunctionCode where
  symbol := session.function.symbol
  signature := session.function.signature
  parameters := session.prologue.parameters.map fun parameter => parameter.incoming.register
  entry := body.entry
  code := body.code

theorem keyed_root (h : prelude.Keyed) : session.draft.globals.root.Keyed := by
  obtain ⟨_, _, before, after, named, hsupport, -, hbind, hcodes⟩ := session.reached
  obtain ⟨-, hsignatures, hkeyed⟩ := eval_bindFunctions hbind
  have hnamed : named.root.Keyed := hkeyed (keyed_declareSupport hsupport h.nest)
  exact invariant_lowerFunctions (P := fun globals => globals.root.Keyed)
    (fun globals constant hroot => hroot.mint _ _) hcodes
    (fun function hmem => hsignatures function (List.mem_append_left _ hmem)) hnamed

theorem signature_eq :
    session.table.denoteSignature session.function.definition = .ok session.function.signature := by
  obtain ⟨_, _, before, after, named, -, -, hbind, -⟩ := session.reached
  exact (eval_bindFunctions hbind).2.1 _ (by simp)

theorem requireSignature_eq : session.function.requireSignature = .ok session.function.signature := by
  obtain ⟨_, _, before, after, named, -, -, hbind, -⟩ := session.reached
  exact requireSignature_of_bindFunctions hbind _ (by simp)

theorem definition_mem : session.function.definition ∈ module.functions := by
  obtain ⟨_, _, before, after, named, -, -, hbind, -⟩ := session.reached
  rw [← (eval_bindFunctions hbind).1]
  exact List.mem_map_of_mem (by simp)

theorem grounded_table : session.table.Grounded := by
  obtain ⟨_, _, _, _, _, -, hstructs, -⟩ := session.reached
  exact grounded_of_eval_defineStructs hstructs

/-- The functions before this one have only added constants to the module scope. -/
theorem binds_root (session : Session {} module) :
    (Setting.grounded session.grounded_table).Binds [] session.draft.globals.root := by
  obtain ⟨_, _, before, after, named, hsupport, -, hbind, hcodes⟩ := session.reached
  obtain ⟨-, hsignatures, -⟩ := eval_bindFunctions hbind
  exact invariant_lowerFunctions
    (P := fun globals => (Setting.grounded session.grounded_table).Binds [] globals.root)
    (fun globals constant hroot => hroot.addConstant constant trivial) hcodes
    (fun function hmem => hsignatures function (List.mem_append_left _ hmem))
    (Setting.grounded_binds_named hsupport hbind)

/-- The lines so far are those of the functions before this one. -/
theorem lines_draft : session.draft.lines = session.codes.flatMap FunctionCode.sheetLines := by
  obtain ⟨_, _, before, after, named, -, -, hbind, hcodes⟩ := session.reached
  refine lines_lowerFunctions (fun function hmem => ?_) hcodes
  exact (eval_bindFunctions hbind).2.1 function (List.mem_append_left _ hmem)

variable {session} {body last : Body}

/-- Passes lead from states of lowering a function to states of lowering it. -/
theorem Reaches.of_responds (h : session.Reaches body) {α : Type} {table : TypeTable}
    {requests : List Request} {pass : Lowering α} (hpass : Lowering.Responds table requests pass)
    {value : α} (hrun : pass.eval body = .ok (value, last)) : session.Reaches last :=
  Relation.ReflTransGen.trans h (hpass hrun).evolves

/-- In every state of lowering a function, bound names are in use. -/
theorem Reaches.keyed (h : session.Reaches body) (hprelude : prelude.Keyed) : body.scope.Keyed := by
  refine Body.Evolves.keyed h ?_
  rw [start, Body.scope_begin]
  exact (session.keyed_root hprelude).prologue _ _

/-- In every state of lowering a function, its instructions follow its header, and that follows the lines of
the functions before. -/
theorem Reaches.follows (h : session.Reaches body) :
    body.Follows (session.draft.lines ++ [session.header]) :=
  Body.Evolves.follows h (session.draft.body.follows_begin session.header session.prologue)

end Session

theorem eval_lowerFunctions_append {table : TypeTable} {draft final : Draft}
    {before rest : List BoundFunction} {codes : List FunctionCode}
    (h : (lowerFunctions table (before ++ rest)).eval draft = .ok (codes, final)) :
    ∃ first middle others, (lowerFunctions table before).eval draft = .ok (first, middle) ∧
      (lowerFunctions table rest).eval middle = .ok (others, final) ∧ codes = first ++ others := by
  induction before generalizing draft codes with
  | nil => exact ⟨[], draft, codes, rfl, h, rfl⟩
  | cons function before ih =>
    obtain ⟨code, middle, others, hfirst, hrest, rfl⟩ := eval_lowerFunctions_cons.mp h
    obtain ⟨first, between, others, hbefore, hothers, rfl⟩ := ih hrest
    exact ⟨code :: first, between, others,
      eval_lowerFunctions_cons.mpr ⟨code, middle, first, hfirst, hbefore, rfl⟩, hothers, rfl⟩

/-- A function that is lowered in a session is lowered to the code that one of its states stands for. -/
theorem Session.exists_reaches {prelude : Scope} {module : Module} (session : Session prelude module)
    {code : FunctionCode} {final : Draft}
    (h : (lowerFunction session.table session.function).eval session.draft = .ok (code, final)) :
    ∃ last, session.Reaches last ∧ code = session.code last ∧ final = last.close.draft := by
  obtain ⟨body, hrun, rfl⟩ := eval_lowerFunction h
  obtain ⟨finished, left, hstatements, hleave, rfl, rfl⟩ := Lowering.eval_lowerDefinition hrun rfl
  have hstart : session.Reaches session.start := .refl
  have hfinished : session.Reaches finished :=
    hstart.of_responds (Lowering.responds_lowerStmts rfl _) hstatements
  have hleft : session.Reaches left :=
    hfinished.of_responds (Lowering.responds_leave : Lowering.Responds session.table [] _) hleave
  exact ⟨left, hleft, rfl, rfl⟩

/-- The stages that a function goes through which is lowered in a session. -/
theorem Session.exists_stages {prelude : Scope} {module : Module} (session : Session prelude module)
    {code : FunctionCode} {final : Draft}
    (h : (lowerFunction session.table session.function).eval session.draft = .ok (code, final)) :
    ∃ stages : Stages True code, stages.Of session.draft.globals session.table
      session.function.definition session.function.signature ∧
      stages.prologue = session.prologue ∧ stages.frame = session.frame ∧
      stages.start = session.start := by
  obtain ⟨last, hrun, -⟩ := eval_lowerFunction h
  obtain ⟨stages, hstages, hstart, -⟩ := Lowering.exists_stages hrun
    (TypeTable.length_denoteSignature session.signature_eq) (Or.inl trivial)
  have hprologue : stages.prologue = session.prologue := hstages.prologue_eq.symm
  have hheader : code.header = session.header := by
    obtain ⟨_, -, rfl, -⟩ := session.exists_reaches h
    rfl
  refine ⟨stages, hstages, hprologue, ?_, ?_⟩
  · rw [hstages.frame_eq, hprologue]
    rfl
  · rw [hstart, hheader, hprologue]
    rfl

/-- Every function of a lowered program was lowered in a session, to the code that one of its states stands
for. -/
theorem exists_session {prelude : Scope} {module : Module} {program : Program}
    (h : (lowerWith prelude module).result = .ok program) {position : Nat} {definition : FunctionDef}
    (hdefinition : module.functions[position]? = some definition) :
    ∃ session : Session prelude module, session.table.structs = program.structs ∧
      session.function.definition = definition ∧ session.codes = program.functions.take position ∧
      ∃ code final, (lowerFunction session.table session.function).eval session.draft =
        .ok (code, final) ∧ program.functions[position]? = some code := by
  obtain ⟨support, declared, table, bound, named, last, hsupport, hstructs, hbind, hcodes, htable, -⟩ :=
    eval_lowerWith h
  rw [← (eval_bindFunctions hbind).1, List.getElem?_map, Option.map_eq_some_iff] at hdefinition
  obtain ⟨function, hfunction, rfl⟩ := hdefinition
  obtain ⟨hlt, hget⟩ := List.getElem?_eq_some_iff.mp hfunction
  have hsplit : bound = bound.take position ++ function :: bound.drop (position + 1) := by
    rw [← hget, ← List.drop_eq_getElem_cons hlt, List.take_append_drop]
  rw [hsplit] at hbind hcodes
  obtain ⟨first, middle, others, hfirst, hothers, hfunctions⟩ := eval_lowerFunctions_append hcodes
  obtain ⟨code, final, rest, hcode, -, rfl⟩ := eval_lowerFunctions_cons.mp hothers
  have hlength : first.length = position := by
    have hcount := congrArg List.length (map_symbol_lowerFunctions hfirst)
    simpa [Nat.min_eq_left hlt.le] using hcount
  let session : Session prelude module :=
    ⟨table, first, middle, function, support, declared, _, _, named, hsupport, hstructs, hbind, hfirst⟩
  refine ⟨session, htable.symm, rfl, ?_, code, final, hcode, ?_⟩
  · rw [hfunctions, ← hlength, List.take_left']
    rfl
  · rw [hfunctions, List.getElem?_append_right hlength.le, hlength, Nat.sub_self]
    rfl

end ThreeAddress
