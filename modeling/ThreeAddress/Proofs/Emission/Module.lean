import Mathlib.Data.List.Forall2
import ThreeAddress.Lower.Module
import ThreeAddress.Proofs.Emission.Function
import ThreeAddress.Proofs.Typing.Denotation

/-!
# Modules, function by function

A module is lowered function by function, in the order of the source. What holds of every lowered
function therefore holds of every function of a lowered program.

## Main definitions

* `LoweredIn`, `LoweredTo`: a function of a module and the code that it was lowered to.

## Main statements

* `eval_lowerWith`: the rounds in which a program was lowered.
* `forall₂_lowerWith`: the functions of a lowered program belong to those of the module, in order.
* `exists_stages_of_mem`: every function of a lowered program went through the stages of lowering.
-/

namespace ThreeAddress

/-- A function was lowered to the given code, in a module scope in which bound names are in use if
they were in the prelude. -/
def LoweredTo (keyed : Prop) (table : TypeTable) (definition : FunctionDef)
    (function : FunctionCode) : Prop :=
  ∃ (draft : Draft) (symbol : String) (signature : Signature) (last : Body),
    table.denoteSignature definition = .ok signature ∧
    (keyed → draft.globals.root.Keyed) ∧
    (Lowering.lowerDefinition table definition symbol signature).eval draft.body =
      .ok (function, last)

namespace BoundFunction

/-- The symbol of a function. -/
def symbol (function : BoundFunction) : String := function.var.register

/-- The signature that the name of a function was bound with. -/
def signature (function : BoundFunction) : Signature :=
  function.var.ty.signature?.getD ⟨none, [], false⟩

theorem signature?_eq {function : BoundFunction} {signature : Signature}
    (h : function.requireSignature = .ok signature) :
    function.var.ty.signature? = some signature := by
  rw [requireSignature] at h
  split at h
  · next hty =>
    cases h
    exact hty
  · cases h

theorem eq_signature {function : BoundFunction} {signature : Signature}
    (h : function.requireSignature = .ok signature) : function.signature = signature := by
  rw [BoundFunction.signature, signature?_eq h]
  rfl

end BoundFunction

/-- The types of a signature are what their texts denote. -/
theorem TypeTable.denotes_of_denoteSignature {table : TypeTable} {definition : FunctionDef}
    {signature : Signature} (h : table.denoteSignature definition = .ok signature) :
    List.Forall₂ (fun parameter ty => table.denote parameter.ty = .ok ty) definition.parameters
        signature.parameters ∧
      definition.returns.mapM table.denote = .ok signature.returns := by
  simp only [denoteSignature, bind, Except.bind, pure, Except.pure] at h
  split at h
  · simp at h
  · next hmembers =>
    split at h
    · simp at h
    · next hreturns =>
      cases h
      exact ⟨List.forall₂_map_right_iff.mpr (forall₂_denoteMembers hmembers), hreturns⟩

theorem TypeTable.length_denoteSignature {table : TypeTable} {definition : FunctionDef}
    {signature : Signature} (h : table.denoteSignature definition = .ok signature) :
    definition.parameters.length = signature.parameters.length :=
  (denotes_of_denoteSignature h).1.length_eq

/-- Every parameter has a type, so none is left out where the two are paired. -/
theorem TypeTable.map_fst_zip {table : TypeTable} {definition : FunctionDef} {signature : Signature}
    (h : table.denoteSignature definition = .ok signature) :
    ((definition.parameters.map TypedName.name).zip signature.parameters).map Prod.fst =
      definition.parameters.map TypedName.name :=
  List.map_fst_zip (by simp [length_denoteSignature h])

theorem TypeTable.isSome_returns {table : TypeTable} {definition : FunctionDef}
    {signature : Signature} (h : table.denoteSignature definition = .ok signature) :
    signature.returns.isSome = definition.returns.isSome := by
  have hreturns := (denotes_of_denoteSignature h).2
  generalize signature.returns = returns at hreturns ⊢
  generalize definition.returns = text? at hreturns ⊢
  cases text? with
  | none =>
    cases hreturns
    rfl
  | some text =>
    cases hdenote : table.denote text with
    | error diagnostic =>
      rw [Option.mapM_some, hdenote] at hreturns
      cases hreturns
    | ok ty =>
      rw [Option.mapM_some, hdenote] at hreturns
      cases hreturns
      rfl

-- ════════════════════════
-- Rounds
-- ════════════════════════

variable {table : TypeTable} {globals last : Globals}

theorem eval_bindGlobal {name : String} {ty : Ty} {var : Var}
    (h : (bindGlobal name ty).eval globals = .ok (var, last)) :
    var = Var.make (globals.root.newRegister name) ty ∧
      last.root = globals.root.insert name var := by
  have hrun : (bindGlobal name ty).eval globals = .ok ((globals.root.bind name ty).1,
    { globals with root := (globals.root.bind name ty).2 }) := rfl
  rw [hrun] at h
  cases h
  exact ⟨rfl, rfl⟩

theorem keyed_bindGlobal {name : String} {ty : Ty} {var : Var}
    (h : (bindGlobal name ty).eval globals = .ok (var, last)) (hkeyed : globals.root.Keyed) :
    last.root.Keyed := by
  obtain ⟨rfl, hroot⟩ := eval_bindGlobal h
  rw [hroot]
  exact hkeyed.bind name ty

theorem keyed_declareSupport {functions : List Support} {declared : List (String × Signature)}
    (h : (declareSupport functions).eval globals = .ok (declared, last))
    (hkeyed : globals.root.Keyed) : last.root.Keyed := by
  induction functions generalizing globals declared with
  | nil =>
    obtain ⟨-, rfl⟩ := Pass.eval_pure_eq_ok_iff.mp h
    exact hkeyed
  | cons function rest ih =>
    simp only [declareSupport, Pass.eval_bind_eq_ok_iff, Pass.eval_get_eq_ok_iff] at h
    obtain ⟨_, _, ⟨rfl, rfl⟩, h⟩ := h
    split at h
    · exact ih h hkeyed
    · simp only [Pass.eval_bind_eq_ok_iff, Pass.eval_pure_eq_ok_iff] at h
      obtain ⟨_, _, hbind, _, _, hrest, -, rfl⟩ := h
      exact ih hrest (keyed_bindGlobal hbind hkeyed)

theorem eq_of_eval_defineStructs {items : List Item} {table' : TypeTable}
    (h : (defineStructs table items).eval globals = .ok (table', last)) : globals = last := by
  induction items generalizing table with
  | nil => exact (Pass.eval_pure_eq_ok_iff.mp h).2
  | cons item rest ih =>
    cases item with
    | function definition => exact ih h
    | struct definition =>
      simp only [defineStructs, Pass.eval_bind_eq_ok_iff, Pass.eval_within_eq_ok_iff] at h
      obtain ⟨_, _, ⟨-, rfl⟩, h⟩ := h
      exact ih h
    | directive text =>
      simp only [defineStructs, Pass.eval_bind_eq_ok_iff, Pass.eval_report_eq_ok_iff] at h
      obtain ⟨_, _, rfl, h⟩ := h
      exact ih h

/-- The struct that an item defines. -/
def Item.struct? : Item → Option StructDef
  | struct definition => some definition
  | _ => none

/-- The structs of a module, in source order. -/
def Module.structs (module : Module) : List StructDef := module.items.filterMap Item.struct?

/-- Defines structs in order. -/
def TypeTable.defineAll (table : TypeTable) : List StructDef → Except Diagnostic TypeTable
  | [] => .ok table
  | definition :: rest =>
    ((define definition).eval table).bind fun (_, table) => table.defineAll rest

/-- Of the items of a module, only the structs matter for its types. -/
theorem eval_defineStructs (table : TypeTable) (items : List Item) (globals : Globals) :
    (defineStructs table items).eval globals =
      (table.defineAll (items.filterMap Item.struct?)).map fun table => (table, globals) := by
  induction items generalizing table with
  | nil => rfl
  | cons item rest ih =>
    cases item with
    | function definition => exact ih table
    | directive text =>
      rw [defineStructs, Pass.eval_bind]
      exact ih table
    | struct definition =>
      have hitems : (Item.struct definition :: rest).filterMap Item.struct? =
          definition :: rest.filterMap Item.struct? := rfl
      rw [hitems, defineStructs, TypeTable.defineAll, Pass.eval_bind, Pass.eval_within]
      cases (TypeTable.define definition).eval table with
      | error diagnostic => rfl
      | ok pair => exact ih pair.2

theorem eval_bindFunctions {seen : List String} {definitions : List FunctionDef}
    {functions : List BoundFunction}
    (h : (bindFunctions table seen definitions).eval globals = .ok (functions, last)) :
    functions.map BoundFunction.definition = definitions ∧
      (∀ function ∈ functions, table.denoteSignature function.definition = .ok function.signature) ∧
      (globals.root.Keyed → last.root.Keyed) := by
  induction definitions generalizing globals seen functions with
  | nil =>
    obtain ⟨rfl, rfl⟩ := Pass.eval_pure_eq_ok_iff.mp h
    simp
  | cons definition rest ih =>
    simp only [bindFunctions, Pass.eval_bind_eq_ok_iff, Pass.eval_require_eq_ok_iff,
      Pass.eval_ofExcept_eq_ok_iff, Pass.eval_pure_eq_ok_iff] at h
    obtain ⟨_, _, ⟨-, rfl⟩, signature, _, ⟨hsignature, rfl⟩, var, _, hbind, bound, _, hrest, rfl, rfl⟩ := h
    obtain ⟨hdefinitions, hsignatures, hkeyed⟩ := ih hrest
    refine ⟨by simp [hdefinitions], ?_, fun h => hkeyed (keyed_bindGlobal hbind h)⟩
    rintro function hmem
    rcases List.mem_cons.mp hmem with rfl | hmem
    · obtain ⟨rfl, -⟩ := eval_bindGlobal hbind
      exact hsignature
    · exact hsignatures function hmem

/-- The name of a function is bound with its signature. -/
theorem requireSignature_of_bindFunctions {seen : List String} {definitions : List FunctionDef}
    {functions : List BoundFunction}
    (h : (bindFunctions table seen definitions).eval globals = .ok (functions, last)) :
    ∀ function ∈ functions, function.requireSignature = .ok function.signature := by
  induction definitions generalizing globals seen functions with
  | nil =>
    obtain ⟨rfl, -⟩ := Pass.eval_pure_eq_ok_iff.mp h
    simp
  | cons definition rest ih =>
    simp only [bindFunctions, Pass.eval_bind_eq_ok_iff, Pass.eval_pure_eq_ok_iff] at h
    obtain ⟨_, _, -, signature, _, -, var, _, hbind, bound, _, hrest, rfl, rfl⟩ := h
    obtain ⟨rfl, -⟩ := eval_bindGlobal hbind
    exact List.forall_mem_cons.mpr ⟨rfl, ih hrest⟩

variable {draft final : Draft}

/-- Lowering a function asks for the signature that its name was bound with. -/
theorem eval_lowerFunction {function : BoundFunction} {code : FunctionCode}
    (h : (lowerFunction table function).eval draft = .ok (code, final)) :
    ∃ body, (Lowering.lowerDefinition table function.definition function.symbol
      function.signature).eval draft.body = .ok (code, body) ∧ final = body.draft := by
  simp only [lowerFunction, Pass.eval_bind_eq_ok_iff, Pass.eval_report_eq_ok_iff,
    Pass.eval_ofExcept_eq_ok_iff] at h
  obtain ⟨_, _, rfl, signature, _, ⟨hsignature, rfl⟩, h⟩ := h
  obtain rfl := BoundFunction.eq_signature hsignature
  rw [Pass.eval_focus] at h
  rw [BoundFunction.symbol]
  cases hrun : (Lowering.lowerDefinition table function.definition function.var.register
      function.signature).eval draft.body with
  | error diagnostic => simp [hrun, Except.map] at h
  | ok pair =>
    simp only [hrun, Except.map, Except.ok.injEq, Prod.mk.injEq] at h
    obtain ⟨rfl, rfl⟩ := h
    exact ⟨_, rfl, rfl⟩

theorem eval_lowerFunctions_cons {function : BoundFunction} {rest : List BoundFunction}
    {codes : List FunctionCode} :
    (lowerFunctions table (function :: rest)).eval draft = .ok (codes, final) ↔
      ∃ code middle others, (lowerFunction table function).eval draft = .ok (code, middle) ∧
        (lowerFunctions table rest).eval middle = .ok (others, final) ∧ codes = code :: others := by
  simp only [lowerFunctions, Pass.eval_bind_eq_ok_iff, Pass.eval_pure_eq_ok_iff]
  constructor
  · rintro ⟨code, middle, hfirst, others, _, hrest, rfl, rfl⟩
    exact ⟨code, middle, others, hfirst, hrest, rfl⟩
  · rintro ⟨code, middle, others, hfirst, hrest, rfl⟩
    exact ⟨code, middle, hfirst, others, final, hrest, rfl, rfl⟩

/-- The lines of all functions are what lowering them leaves behind. -/
theorem eval_writeFunctions (table : TypeTable) (functions : List BoundFunction) (globals : Globals) :
    (writeFunctions table functions).eval globals =
      ((lowerFunctions table functions).eval { globals }).map fun (codes, final) =>
        ((codes, final.lines), final.globals) := by
  rw [writeFunctions, Pass.eval_focus, Pass.eval_bind]
  cases (lowerFunctions table functions).eval { globals } <;> rfl

theorem eval_writeFunctions_eq_ok_iff {functions : List BoundFunction} {codes : List FunctionCode}
    {lines : List Line} :
    (writeFunctions table functions).eval globals = .ok ((codes, lines), last) ↔
      (lowerFunctions table functions).eval { globals } = .ok (codes, ⟨last, lines⟩) := by
  rw [eval_writeFunctions]
  cases (lowerFunctions table functions).eval { globals } with
  | error diagnostic => simp [Except.map]
  | ok pair =>
    obtain ⟨found, globals, lines⟩ := pair
    simp only [Except.map, Except.ok.injEq, Prod.mk.injEq, Draft.mk.injEq]
    tauto

/-- The names of a module with one more constant, under a new symbol. -/
def Globals.add (globals : Globals) (constant : Constant) : Globals where
  root := (globals.root.mint constant.base constant.ty).2
  constants := globals.constants ++ [(constant, globals.root.newRegister constant.base)]

/-- Lowering a function only adds constants to the module, so it keeps what these keep. -/
theorem invariant_lowerFunction {P : Globals → Prop}
    (hadd : ∀ globals constant, P globals → P (globals.add constant)) {function : BoundFunction}
    {code : FunctionCode}
    (hsignature : table.denoteSignature function.definition = .ok function.signature)
    (h : (lowerFunction table function).eval draft = .ok (code, final))
    (hglobals : P draft.globals) : P final.globals := by
  obtain ⟨body, hrun, rfl⟩ := eval_lowerFunction h
  obtain ⟨stages, hstages, -, rfl⟩ := Lowering.exists_stages hrun
    (TypeTable.length_denoteSignature hsignature) (Or.inl trivial)
  refine stages.steps.invariant (P := fun body => P body.globals) ?_ ?_
  · intro body last hstep hbody
    cases hstep with
    | addConstant constant => exact hadd _ constant hbody
    | mint | rebind | reserve | append => exact hbody
  · rw [hstages.globals_start]
    exact hglobals

/-- A bound function was lowered to the given code, in a module scope of the given kind. -/
def LoweredIn (rooted : Scope → Prop) (table : TypeTable) (bound : BoundFunction)
    (function : FunctionCode) : Prop :=
  ∃ (draft : Draft) (last : Body), table.denoteSignature bound.definition = .ok bound.signature ∧
    rooted draft.globals.root ∧
    (Lowering.lowerDefinition table bound.definition bound.symbol bound.signature).eval draft.body =
      .ok (function, last)

theorem LoweredIn.exists_stages {rooted : Scope → Prop} {bound : BoundFunction}
    {function : FunctionCode} (h : LoweredIn rooted table bound function) :
    ∃ globals, ∃ stages : Stages True function,
      stages.Of globals table bound.definition bound.signature ∧ rooted globals.root := by
  obtain ⟨draft, last, hsignature, hroot, hrun⟩ := h
  obtain ⟨stages, hstages, -⟩ := Lowering.exists_stages hrun
    (TypeTable.length_denoteSignature hsignature) (Or.inl trivial)
  exact ⟨draft.globals, stages, hstages, hroot⟩

theorem LoweredIn.signature_eq {rooted : Scope → Prop} {bound : BoundFunction}
    {function : FunctionCode} (h : LoweredIn rooted table bound function) :
    table.denoteSignature bound.definition = .ok bound.signature := by
  obtain ⟨draft, last, hsignature, -⟩ := h
  exact hsignature

theorem exists_mem_of_forall₂ {α β : Type} {R : α → β → Prop} {first : List α} {second : List β}
    (h : List.Forall₂ R first second) {b : β} (hmem : b ∈ second) : ∃ a ∈ first, R a b := by
  obtain ⟨position, hlt, rfl⟩ := List.mem_iff_getElem.mp hmem
  have hlt' : position < first.length := h.length_eq ▸ hlt
  exact ⟨first[position], List.getElem_mem hlt', h.get hlt' hlt⟩

/-- Between two functions the module scope only grows by constants, so what constants keep holds for
every function. -/
theorem forall₂_loweredIn (rooted : Scope → Prop)
    (hconstant : ∀ root (constant : Constant), rooted root →
      rooted (root.mint constant.base constant.ty).2)
    {functions : List BoundFunction} {codes : List FunctionCode}
    (h : (lowerFunctions table functions).eval draft = .ok (codes, final))
    (hsignatures : ∀ function ∈ functions,
      table.denoteSignature function.definition = .ok function.signature)
    (hroot : rooted draft.globals.root) : List.Forall₂ (LoweredIn rooted table) functions codes := by
  induction functions generalizing draft codes with
  | nil =>
    obtain ⟨rfl, -⟩ := Pass.eval_pure_eq_ok_iff.mp h
    exact .nil
  | cons function rest ih =>
    obtain ⟨code, middle, codes, hfirst, hrest, rfl⟩ := eval_lowerFunctions_cons.mp h
    rw [List.forall_mem_cons] at hsignatures
    have hmiddle : rooted middle.globals.root :=
      invariant_lowerFunction (P := fun globals => rooted globals.root)
        (fun globals constant => hconstant globals.root constant) hsignatures.1 hfirst hroot
    obtain ⟨body, hrun, rfl⟩ := eval_lowerFunction hfirst
    exact .cons ⟨draft, body, hsignatures.1, hroot, hrun⟩ (ih hrest hsignatures.2 hmiddle)

theorem map_symbol_lowerFunctions {functions : List BoundFunction} {codes : List FunctionCode}
    {draft final : Draft} (h : (lowerFunctions table functions).eval draft = .ok (codes, final)) :
    codes.map (fun function => (function.symbol, function.signature)) =
      functions.map fun bound => (bound.symbol, bound.signature) := by
  induction functions generalizing draft codes with
  | nil =>
    obtain ⟨rfl, -⟩ := Pass.eval_pure_eq_ok_iff.mp h
    rfl
  | cons function rest ih =>
    obtain ⟨code, _, codes, hfirst, hrest, rfl⟩ := eval_lowerFunctions_cons.mp h
    obtain ⟨body, hrun, -⟩ := eval_lowerFunction hfirst
    obtain ⟨finished, left, -, -, -, rfl⟩ := Lowering.eval_lowerDefinition hrun rfl
    rw [List.map_cons, List.map_cons, ih hrest]

-- ════════════════════════
-- Preludes
-- ════════════════════════

namespace Scope

/-- What holds of all bindings holds of those that are found. -/
theorem of_find? {scope : Scope} {P : String → Var → Prop} [∀ name var, Decidable (P name var)]
    (h : scope.levels.all fun level => level.bindings.all fun binding => P binding.1 binding.2)
    {name : String} {var : Var} (hfound : scope.find? name = some var) : P name var := by
  obtain ⟨level, hlevel, hlookup⟩ := List.exists_of_findSome?_eq_some hfound
  obtain ⟨before, after, hbindings, -⟩ := List.lookup_eq_some_iff.mp hlookup
  have hmem : (name, var) ∈ level.bindings := by simp [hbindings]
  exact of_decide_eq_true (List.all_eq_true.mp (List.all_eq_true.mp h level hlevel) _ hmem)

theorem perm_insertSorted (entry : String × Signature) (entries : List (String × Signature)) :
    (insertSorted entry entries).Perm (entry :: entries) := by
  induction entries with
  | nil => exact .refl _
  | cons next rest ih =>
    rw [insertSorted]
    split
    · exact .refl _
    · exact (ih.cons next).trans (.swap entry next rest)

/-- Sorting functions neither adds nor loses any. -/
theorem perm_foldr_insertSorted (entries : List (String × Signature)) :
    (entries.foldr insertSorted []).Perm entries := by
  induction entries with
  | nil => exact .refl _
  | cons next rest ih => exact (perm_insertSorted next _).trans (ih.cons next)

end Scope

-- ════════════════════════
-- Programs
-- ════════════════════════

/-- The functions that a program defines or declares, with their signatures. -/
def Program.symbols (program : Program) : List (String × Signature) :=
  program.functions.map (fun function => (function.symbol, function.signature)) ++ program.externals

variable {prelude : Scope} {module : Module} {program : Program}

/-- The rounds in which a program was lowered. -/
theorem eval_lowerWith (h : (lowerWith prelude module).result = .ok program) :
    ∃ support declared table bound named last,
      (declareSupport Support.all).eval { root := prelude.nest } = .ok (support, declared) ∧
      (defineStructs {} module.items).eval declared = .ok (table, declared) ∧
      (bindFunctions table [] module.functions).eval declared = .ok (bound, named) ∧
      (lowerFunctions table bound).eval { globals := named } = .ok (program.functions, last) ∧
      program.structs = table.structs ∧ program.constants = last.globals.constants ∧
      program.externals = prelude.ownFunctions ++ support ∧ program.lines = last.lines := by
  have hresult : ((assemble prelude.ownFunctions module).eval { root := prelude.nest }).map Prod.fst =
    .ok program := (Pass.map_fst_eval _ _).trans h
  obtain ⟨last, hrun⟩ : ∃ last, (assemble prelude.ownFunctions module).eval { root := prelude.nest } =
      .ok (program, last) := by
    cases hrun : (assemble prelude.ownFunctions module).eval { root := prelude.nest } with
    | error diagnostic => simp [hrun, Except.map] at hresult
    | ok pair =>
      obtain rfl : pair.1 = program := by simpa [hrun, Except.map] using hresult
      exact ⟨pair.2, rfl⟩
  simp only [assemble, Pass.eval_bind_eq_ok_iff, Pass.eval_report_eq_ok_iff, Pass.eval_get_eq_ok_iff,
    Pass.eval_pure_eq_ok_iff] at hrun
  obtain ⟨support, declared, hsupport, _, _, rfl, table, _, hstructs, bound, named, hbind, ⟨codes, lines⟩,
    _, hwrite, _, _, ⟨rfl, rfl⟩, rfl, rfl⟩ := hrun
  obtain rfl := eq_of_eval_defineStructs hstructs
  have hcodes := eval_writeFunctions_eq_ok_iff.mp hwrite
  exact ⟨support, declared, table, bound, named, _, hsupport, hstructs, hbind, hcodes, rfl, rfl, rfl,
    rfl⟩

/-- The functions of a lowered program belong to those of the module, in order. -/
theorem forall₂_lowerWith (h : (lowerWith prelude module).result = .ok program) :
    ∃ table, List.Forall₂ (LoweredTo prelude.Keyed table) module.functions program.functions := by
  obtain ⟨support, declared, table, bound, named, last, hsupport, -, hbind, hcodes, -⟩ :=
    eval_lowerWith h
  obtain ⟨hdefinitions, hsignatures, hkeyed⟩ := eval_bindFunctions hbind
  have hall := forall₂_loweredIn (fun root => prelude.Keyed → root.Keyed)
    (fun _ _ hrooted h => (hrooted h).mint _ _) hcodes hsignatures
    fun h => hkeyed (keyed_declareSupport hsupport h.nest)
  refine ⟨table, ?_⟩
  rw [← hdefinitions, List.forall₂_map_left_iff]
  exact hall.imp fun _ _ ⟨draft, last, hsignature, hroot, hrun⟩ =>
    ⟨draft, _, _, last, hsignature, hroot, hrun⟩

/-- Every function of a lowered program belongs to one of the module. -/
theorem exists_loweredTo_of_mem (h : (lowerWith prelude module).result = .ok program)
    {function : FunctionCode} (hfunction : function ∈ program.functions) :
    ∃ table, ∃ definition ∈ module.functions, LoweredTo prelude.Keyed table definition function := by
  obtain ⟨table, hall⟩ := forall₂_lowerWith h
  obtain ⟨position, rfl⟩ := List.get_of_mem hfunction
  have hlt : position < module.functions.length := by
    rw [hall.length_eq]
    exact position.isLt
  exact ⟨table, _, List.get_mem _ ⟨position, hlt⟩, hall.get hlt position.isLt⟩

/-- Every function of a lowered program went through the stages of lowering. -/
theorem exists_stages_of_mem {unchecked : Prop} (h : (lowerWith prelude module).result = .ok program)
    (hscoped : unchecked ∨ prelude.Keyed ∧ module.isScoped) {function : FunctionCode}
    (hfunction : function ∈ program.functions) : Nonempty (Stages unchecked function) := by
  obtain ⟨table, definition, hmem, draft, symbol, signature, last, hsignature, hkeyed, hrun⟩ :=
    exists_loweredTo_of_mem h hfunction
  obtain ⟨stages, -⟩ := Lowering.exists_stages hrun (TypeTable.length_denoteSignature hsignature)
    (hscoped.imp_right fun hscoped =>
      ⟨hkeyed hscoped.1, List.all_eq_true.mp hscoped.2 definition hmem⟩)
  exact ⟨stages⟩

/-- Whether a module is lowered to a program of some kind can be evaluated. -/
theorem exists_program_of_any (prelude : Scope) (module : Module) {P : Program → Bool}
    (h : (lowerWith prelude module).result.toOption.any P) :
    ∃ program, (lowerWith prelude module).result = .ok program ∧ P program := by
  cases hresult : (lowerWith prelude module).result with
  | error diagnostic => simp [hresult, Except.toOption] at h
  | ok program => exact ⟨program, rfl, by simpa [hresult, Except.toOption] using h⟩

theorem exists_function_of_any (prelude : Scope) (module : Module) {P : FunctionCode → Bool}
    (h : (lowerWith prelude module).result.toOption.any fun program => program.functions.any P) :
    ∃ program function, (lowerWith prelude module).result = .ok program ∧
      function ∈ program.functions ∧ P function := by
  obtain ⟨program, hprogram, hany⟩ := exists_program_of_any prelude module h
  obtain ⟨function, hmem, hfunction⟩ := List.any_eq_true.mp hany
  exact ⟨program, function, hprogram, hmem, hfunction⟩

end ThreeAddress
