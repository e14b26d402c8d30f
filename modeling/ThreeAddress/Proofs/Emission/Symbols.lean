import ThreeAddress.Proofs.Emission.Module
import ThreeAddress.Proofs.Warnings

/-!
# The symbols of a module

The support functions that a module declares, its functions and the constants of their bodies get new
symbols, one after another, in a scope inside the prelude. So no two of all these share a symbol. A
module on its own starts from the support functions and nothing else.

## Main definitions

* `Globals.start`: the names of a module before its functions are bound.
* `symbolIn`: the symbol that a name stands for among bound functions.

## Main statements

* `result_lower`, `lower_eq_ok_iff`: the rounds in which a module on its own is lowered.
* `find?_bindFunctions`: what names stand for once the functions are bound.
* `issued_bindFunctions`, `issued_lowerFunctions`: functions and constants get new symbols.
* `issued_of_lowerWith`: so does a module as a whole.
* `nodup_symbols_of_lowerWith`: the symbols of a program differ from each other.
-/

namespace ThreeAddress

-- ════════════════════════
-- Support functions
-- ════════════════════════

/-- A support function as it is declared. -/
def Support.declaration (function : Support) : String × Signature :=
  (function.name, function.signature)

/-- What the name of a support function is bound to. -/
def Support.var (function : Support) : Var := Var.make function.name (.function function.signature)

/-- The names of a module before its functions are bound: those of the support functions. -/
def Globals.start : Globals where
  root := {
    inner := {
      bindings := Support.all.reverse.map fun function => (function.name, function.var)
      registers := Support.all.reverse.map Support.name }
    outer := [{}] }

theorem eval_declareSupport_all : (declareSupport Support.all).eval { root := Scope.nest {} } =
    .ok (Support.all.map Support.declaration, Globals.start) := by
  decide +kernel

namespace Globals

theorem exists_of_find?_start {name : String} {var : Var}
    (h : start.root.find? name = some var) :
    ∃ function : Support, name = function.name ∧ var = function.var := by
  obtain ⟨function, -, hfunction⟩ := Scope.of_find? (P := fun name var =>
    ∃ function ∈ Support.all, name = function.name ∧ var = function.var) (by decide +kernel) h
  exact ⟨function, hfunction⟩

theorem inUse_start_iff {register : String} :
    start.root.inUse register ↔ register ∈ Support.all.map Support.name := by
  simp [start, Scope.inUse, Scope.levels]

theorem keyed_start : start.root.Keyed := by
  intro name hbound
  obtain ⟨var, hfound⟩ := Option.isSome_iff_exists.mp hbound
  obtain ⟨function, rfl, -⟩ := exists_of_find?_start hfound
  rw [inUse_start_iff]
  exact List.mem_map_of_mem (by cases function <;> decide)

end Globals

/-- Support functions are declared under new symbols, and nothing else changes in the module. -/
theorem issued_declareSupport {functions : List Support} {declared : List (String × Signature)}
    {globals last : Globals} (h : (declareSupport functions).eval globals = .ok (declared, last)) :
    globals.root.Issued (declared.map Prod.fst) last.root ∧ last.constants = globals.constants := by
  induction functions generalizing globals declared with
  | nil =>
    obtain ⟨rfl, rfl⟩ := Pass.eval_pure_eq_ok_iff.mp h
    exact ⟨.refl _, rfl⟩
  | cons function rest ih =>
    simp only [declareSupport, Pass.eval_bind_eq_ok_iff, Pass.eval_get_eq_ok_iff] at h
    obtain ⟨_, _, ⟨rfl, rfl⟩, h⟩ := h
    split at h
    · exact ih h
    · simp only [Pass.eval_bind_eq_ok_iff, Pass.eval_pure_eq_ok_iff] at h
      obtain ⟨_, _, hbind, _, _, hrest, rfl, rfl⟩ := h
      cases hbind
      obtain ⟨hissued, hconstants⟩ := ih hrest
      exact ⟨(Scope.Issued.bind _ _ _).append hissued, hconstants⟩

-- ════════════════════════
-- Rounds
-- ════════════════════════

/-- The rounds in which a module on its own is lowered. Of its items, only the structs and the
functions matter. -/
theorem result_lower (module : Module) :
    (lower module).result =
      (TypeTable.defineAll {} module.structs).bind fun table =>
        ((bindFunctions table [] module.functions).eval .start).bind fun (bound, named) =>
          ((lowerFunctions table bound).eval { globals := named }).map fun (codes, last) =>
            ⟨table.structs, last.globals.constants, codes, last.lines,
              Support.all.map Support.declaration⟩ := by
  show (assemble (Scope.ownFunctions {}) module { root := Scope.nest {} }).result = _
  rw [← Pass.map_fst_eval]
  simp only [assemble, Pass.eval_bind, Pass.eval_report, Pass.eval_get, Pass.eval_pure,
    eval_declareSupport_all, eval_defineStructs, eval_writeFunctions, Except.bind, Module.structs]
  cases TypeTable.defineAll {} (module.items.filterMap Item.struct?) with
  | error diagnostic => rfl
  | ok table =>
    simp only [Except.map]
    cases (bindFunctions table [] module.functions).eval .start with
    | error diagnostic => rfl
    | ok named =>
      simp only
      cases (lowerFunctions table named.1).eval { globals := named.2 } with
      | error diagnostic => rfl
      | ok result => rfl

/-- A module on its own is accepted if all rounds succeed. -/
theorem lower_eq_ok_iff {module : Module} {program : Program} :
    (lower module).result = .ok program ↔ ∃ table bound named codes last,
      (defineStructs {} module.items).eval .start = .ok (table, .start) ∧
      (bindFunctions table [] module.functions).eval .start = .ok (bound, named) ∧
      (lowerFunctions table bound).eval { globals := named } = .ok (codes, last) ∧
      program = ⟨table.structs, last.globals.constants, codes, last.lines,
        Support.all.map Support.declaration⟩ := by
  constructor
  · intro h
    obtain ⟨support, declared, table, bound, named, last, hsupport, hstructs, hbind, hcodes,
      hprogram, hconstants, hexternals, hlines⟩ := eval_lowerWith h
    rw [eval_declareSupport_all] at hsupport
    cases hsupport
    refine ⟨table, bound, named, _, last, hstructs, hbind, hcodes, ?_⟩
    rw [← hprogram, ← hconstants, ← hlines, ← List.nil_append (Support.all.map _)]
    exact congrArg (Program.mk _ _ _ _) hexternals
  · rintro ⟨table, bound, named, codes, last, hstructs, hbind, hcodes, rfl⟩
    show (assemble (Scope.ownFunctions {}) module { root := Scope.nest {} }).result = _
    rw [← Pass.map_fst_eval]
    simp only [assemble, Pass.eval_bind, Pass.eval_report, Pass.eval_get, Pass.eval_pure,
      eval_declareSupport_all, hstructs, hbind, eval_writeFunctions, hcodes, Except.bind, Except.map]
    rfl

-- ════════════════════════
-- Functions
-- ════════════════════════

/-- The symbol that a name stands for where functions were bound to symbols. A name that is none of
theirs stands for itself. -/
def symbolIn (symbols : List (String × String)) (name : String) : String :=
  (symbols.lookup name).getD name

/-- The symbols that functions are bound to, with the names of the functions. -/
def symbolsOf (functions : List BoundFunction) : List (String × String) :=
  functions.map fun function => (function.definition.name, function.symbol)

variable {table : TypeTable} {globals last : Globals}

section Bind

variable {seen : List String} {definitions : List FunctionDef} {functions : List BoundFunction}

theorem bindFunctions_cons {definition : FunctionDef}
    (h : (bindFunctions table seen (definition :: definitions)).eval globals = .ok (functions, last)) :
    ∃ signature rest, table.denoteSignature definition = .ok signature ∧
      functions = ⟨definition, (globals.root.bind definition.name (.function signature)).1⟩ :: rest ∧
      (bindFunctions table (definition.name :: seen) definitions).eval
        { globals with root := (globals.root.bind definition.name (.function signature)).2 } =
          .ok (rest, last) := by
  simp only [bindFunctions, Pass.eval_bind_eq_ok_iff, Pass.eval_require_eq_ok_iff,
    Pass.eval_ofExcept_eq_ok_iff, Pass.eval_pure_eq_ok_iff] at h
  obtain ⟨_, _, ⟨-, rfl⟩, signature, _, ⟨hsignature, rfl⟩, var, _, hbind, rest, _, hrest, rfl, rfl⟩ := h
  cases hbind
  exact ⟨signature, rest, hsignature, rfl, hrest⟩

/-- A name stands for the function of that name, or for what it stood for before. -/
theorem find?_bindFunctions
    (h : (bindFunctions table seen definitions).eval globals = .ok (functions, last)) (name : String) :
    last.root.find? name =
      ((functions.map fun function => (function.definition.name, function.var)).lookup name).or
        (globals.root.find? name) := by
  induction definitions generalizing globals seen functions with
  | nil =>
    obtain ⟨rfl, rfl⟩ := Pass.eval_pure_eq_ok_iff.mp h
    rfl
  | cons definition definitions ih =>
    obtain ⟨signature, rest, -, rfl, hrest⟩ := bindFunctions_cons h
    rw [ih hrest, List.map_cons, List.lookup_cons]
    by_cases hname : name = definition.name
    · subst hname
      have hnone : (rest.map fun function => (function.definition.name, function.var)).lookup
          definition.name = none := by
        rw [List.lookup_eq_none_iff]
        intro entry hmem
        obtain ⟨function, hfunction, rfl⟩ := List.mem_map.mp hmem
        have hdefinition : function.definition ∈ definitions :=
          (eval_bindFunctions hrest).1 ▸ List.mem_map_of_mem hfunction
        have hunseen := (nodup_names_of_bindFunctions hrest).2 _ hdefinition
        simpa using fun heq : definition.name = function.definition.name =>
          hunseen (heq ▸ List.mem_cons_self)
      rw [hnone, beq_self_eq_true]
      exact Scope.find?_insert_self _ _ _
    · have hne : (name == definition.name) = false := by simpa using hname
      rw [hne]
      congr 1
      exact Scope.find?_insert_of_ne _ _ hname

/-- Functions are bound to new symbols, and nothing else changes in the module. -/
theorem issued_bindFunctions
    (h : (bindFunctions table seen definitions).eval globals = .ok (functions, last)) :
    globals.root.Issued (functions.map BoundFunction.symbol) last.root ∧
      last.constants = globals.constants := by
  induction definitions generalizing globals seen functions with
  | nil =>
    obtain ⟨rfl, rfl⟩ := Pass.eval_pure_eq_ok_iff.mp h
    exact ⟨.refl _, rfl⟩
  | cons definition definitions ih =>
    obtain ⟨signature, rest, -, rfl, hrest⟩ := bindFunctions_cons h
    obtain ⟨hissued, hconstants⟩ := ih hrest
    exact ⟨(Scope.Issued.bind _ _ _).append hissued, hconstants⟩

end Bind

theorem lookup_map_snd {α β γ : Type} [BEq α] (entries : List (α × β)) (change : β → γ) (key : α) :
    (entries.map fun entry => (entry.1, change entry.2)).lookup key =
      (entries.lookup key).map change := by
  induction entries with
  | nil => rfl
  | cons entry rest ih =>
    rw [List.map_cons, List.lookup_cons, List.lookup_cons, ih]
    cases key == entry.1 <;> rfl

/-- In a module scope, a function is bound to the symbol that its name stands for. -/
theorem register_eq_symbolIn {definitions : List FunctionDef} {functions : List BoundFunction}
    {named : Globals} (h : (bindFunctions table [] definitions).eval .start = .ok (functions, named))
    {name : String} {var : Var} (hfound : named.root.find? name = some var) :
    var.register = symbolIn (symbolsOf functions) name := by
  have hsymbol : (symbolsOf functions).lookup name = ((functions.map fun function =>
      (function.definition.name, function.var)).lookup name).map Var.register := by
    rw [← lookup_map_snd, List.map_map]
    rfl
  rw [find?_bindFunctions h] at hfound
  rw [symbolIn, hsymbol]
  rcases Option.or_eq_some_iff.mp hfound with hlookup | ⟨hlookup, hstart⟩
  · rw [hlookup]
    rfl
  · obtain ⟨function, rfl, rfl⟩ := Globals.exists_of_find?_start hstart
    rw [hlookup]
    rfl

-- ════════════════════════
-- Constants
-- ════════════════════════

variable {draft final : Draft}

/-- Lowering functions only adds constants to a module, so it keeps what these keep. -/
theorem invariant_lowerFunctions {P : Globals → Prop}
    (hadd : ∀ globals constant, P globals → P (globals.add constant))
    {functions : List BoundFunction} {codes : List FunctionCode}
    (h : (lowerFunctions table functions).eval draft = .ok (codes, final))
    (hsignatures : ∀ function ∈ functions,
      table.denoteSignature function.definition = .ok function.signature)
    (hglobals : P draft.globals) : P final.globals := by
  induction functions generalizing draft codes with
  | nil =>
    obtain ⟨-, rfl⟩ := Pass.eval_pure_eq_ok_iff.mp h
    exact hglobals
  | cons function rest ih =>
    rw [List.forall_mem_cons] at hsignatures
    obtain ⟨code, middle, codes, hfirst, hrest, rfl⟩ := eval_lowerFunctions_cons.mp h
    exact ih hrest hsignatures.2 (invariant_lowerFunction hadd hsignatures.1 hfirst hglobals)

/-- Constants are added under new symbols. -/
theorem issued_lowerFunctions {functions : List BoundFunction} {codes : List FunctionCode}
    (h : (lowerFunctions table functions).eval draft = .ok (codes, final))
    (hsignatures : ∀ function ∈ functions,
      table.denoteSignature function.definition = .ok function.signature) :
    ∃ added, final.globals.constants = draft.globals.constants ++ added ∧
      draft.globals.root.Issued (added.map Prod.snd) final.globals.root := by
  refine invariant_lowerFunctions (P := fun last => ∃ added,
    last.constants = draft.globals.constants ++ added ∧
      draft.globals.root.Issued (added.map Prod.snd) last.root) ?_ h hsignatures
    ⟨[], (List.append_nil _).symm, .refl _⟩
  rintro middle constant ⟨added, hconstants, hissued⟩
  refine ⟨added ++ [(constant, middle.root.newRegister constant.base)], ?_, ?_⟩
  · rw [← List.append_assoc, ← hconstants]
    rfl
  · rw [List.map_append]
    exact hissued.append (.mint _ _ _)

/-- The functions of a module, the support functions and the constants of its code all have symbols of
their own. -/
theorem nodup_symbols_of_rounds {definitions : List FunctionDef} {functions : List BoundFunction}
    {named : Globals} {codes : List FunctionCode}
    (hbind : (bindFunctions table [] definitions).eval .start = .ok (functions, named))
    (hcodes : (lowerFunctions table functions).eval { globals := named } = .ok (codes, final)) :
    (functions.map BoundFunction.symbol ++ Support.all.map Support.name ++
      final.globals.constants.map Prod.snd).Nodup := by
  obtain ⟨hfunctions, hnone⟩ := issued_bindFunctions hbind
  obtain ⟨added, hconstants, hadded⟩ :=
    issued_lowerFunctions hcodes (eval_bindFunctions hbind).2.1
  have hlast : final.globals.constants = added := by
    rw [hconstants, hnone]
    rfl
  have hnodup := (hfunctions.append hadded).nodup_append (Support.all.map Support.name) (by decide)
    fun _ hmem => Globals.inUse_start_iff.mpr hmem
  rw [← List.append_assoc] at hnodup
  rw [hlast]
  exact (List.perm_append_comm.append_right _).nodup_iff.mp hnodup

/-- Whatever the prelude, a module gives new symbols to the support functions that it declares, to its
functions and to its constants. -/
theorem issued_of_lowerWith {prelude : Scope} {module : Module} {program : Program}
    (h : (lowerWith prelude module).result = .ok program) :
    ∃ support last, program.externals = prelude.ownFunctions ++ support ∧
      prelude.nest.Issued (support.map Prod.fst ++ program.functions.map FunctionCode.symbol ++
        program.constants.map Prod.snd) last := by
  obtain ⟨support, declared, table, bound, named, last, hsupport, -, hbind, hcodes, -, hlast, hexternals, -⟩ :=
    eval_lowerWith h
  obtain ⟨hdeclared, hempty⟩ := issued_declareSupport hsupport
  obtain ⟨hbound, hsame⟩ := issued_bindFunctions hbind
  obtain ⟨added, hadded, hconstants⟩ := issued_lowerFunctions hcodes (eval_bindFunctions hbind).2.1
  have hsymbols : program.functions.map FunctionCode.symbol = bound.map BoundFunction.symbol := by
    simpa [Function.comp_def] using congrArg (List.map Prod.fst) (map_symbol_lowerFunctions hcodes)
  refine ⟨support, last.globals.root, hexternals, ?_⟩
  rw [hsymbols, hlast, hadded, hsame, hempty]
  exact (hdeclared.append hbound).append hconstants

/-- Whatever the prelude, the functions of a module are lowered in one round, in front of which there
are no constants. -/
theorem eval_lowerFunctions_of_lowerWith {prelude : Scope} {module : Module} {program : Program}
    (h : (lowerWith prelude module).result = .ok program) :
    ∃ table bound named last, bound.map BoundFunction.definition = module.functions ∧
      (∀ function ∈ bound, table.denoteSignature function.definition = .ok function.signature) ∧
      (lowerFunctions table bound).eval { globals := named } = .ok (program.functions, last) ∧
      named.constants = [] ∧ program.constants = last.globals.constants := by
  obtain ⟨support, declared, table, bound, named, last, hsupport, -, hbind, hcodes, -, hlast, -⟩ :=
    eval_lowerWith h
  obtain ⟨hdefinitions, hsignatures, -⟩ := eval_bindFunctions hbind
  refine ⟨table, bound, named, last, hdefinitions, hsignatures, hcodes, ?_, hlast⟩
  rw [(issued_bindFunctions hbind).2, (issued_declareSupport hsupport).2]

/-- If the functions of a prelude have symbols of their own, then so have all functions that a program
defines or declares, and its constants. -/
theorem nodup_symbols_of_lowerWith {prelude : Scope} {module : Module} {program : Program}
    (hnodup : (prelude.ownFunctions.map Prod.fst).Nodup)
    (hused : ∀ symbol ∈ prelude.ownFunctions.map Prod.fst, prelude.inUse symbol)
    (h : (lowerWith prelude module).result = .ok program) :
    (program.symbols.map Prod.fst ++ program.constants.map Prod.snd).Nodup := by
  obtain ⟨support, last, hexternals, hissued⟩ := issued_of_lowerWith h
  have hall := hissued.nodup_append (prelude.ownFunctions.map Prod.fst) hnodup fun symbol hmem => by
    rw [Scope.inUse_nest]
    exact hused symbol hmem
  have hsymbols : program.symbols.map Prod.fst = program.functions.map FunctionCode.symbol ++
      (prelude.ownFunctions.map Prod.fst ++ support.map Prod.fst) := by
    rw [Program.symbols, List.map_append, List.map_map, hexternals, List.map_append]
    rfl
  rw [← List.append_assoc, ← List.append_assoc] at hall
  rw [hsymbols]
  exact (List.perm_append_comm.append_right _).nodup_iff.mp hall

/-- The functions that a program defines or declares and its constants all have symbols of their
own. -/
theorem nodup_symbols_of_lower {module : Module} {program : Program}
    (h : (lower module).result = .ok program) :
    (program.symbols.map Prod.fst ++ program.constants.map Prod.snd).Nodup := by
  rw [lower] at h
  refine nodup_symbols_of_lowerWith ?_ ?_ h <;> simp [Scope.ownFunctions]

end ThreeAddress
