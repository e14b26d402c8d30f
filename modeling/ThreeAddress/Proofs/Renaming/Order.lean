import Mathlib.Data.List.Perm.Basic
import ThreeAddress.Proofs.Contract.Module
import ThreeAddress.Proofs.Emission.Sheet
import ThreeAddress.Proofs.Renaming.Function

/-!
# The order of functions

The functions of a module may come in any order. They are bound to symbols before any of them is
lowered, so each of them sees the same functions. What one function leaves behind for the next are
constants, and these have influence on symbols only.

## Main definitions

* `Enrolled`: the functions of a module, bound to symbols.
* `SameSymbol`: the symbols of one function in two modules.

## Main statements

* `Enrolled.agree_lower`: a function is lowered to the same code up to names, in either module and
  whatever constants are known.
* `agree_lower_perm`: in another order, a module is accepted if and only if it was before, and its
  code changes in names only.
-/

namespace ThreeAddress

-- ════════════════════════
-- Lists
-- ════════════════════════

/-- Lists that agree up to their order in some respect agree element by element once one of them is
reordered. -/
theorem exists_perm_forall₂ {α β γ : Type} {view : α → γ} {view' : β → γ} {elements : List α}
    {others : List β} (h : (elements.map view).Perm (others.map view')) :
    ∃ reordered, List.Forall₂ (fun element other => view element = view' other) elements reordered ∧
      reordered.Perm others := by
  have hself : List.Forall₂ (fun found other => found = view' other) (others.map view') others := by
    rw [List.forall₂_map_left_iff]
    exact List.forall₂_same.mpr fun _ _ => rfl
  obtain ⟨reordered, hforall, hperm⟩ := List.perm_comp_forall₂ h hself
  exact ⟨reordered, List.forall₂_map_left_iff.mp hforall, hperm⟩

theorem exists_mem_zip_of_forall₂ {α β : Type} {R : α → β → Prop} {elements : List α}
    {others : List β} (h : List.Forall₂ R elements others) {element : α} (hmem : element ∈ elements) :
    ∃ other, (element, other) ∈ elements.zip others ∧ R element other := by
  induction h with
  | nil => cases hmem
  | @cons first second _ _ hhead _ ih =>
    rw [List.zip_cons_cons]
    rcases List.mem_cons.mp hmem with rfl | hmem
    · exact ⟨second, List.mem_cons_self, hhead⟩
    · obtain ⟨other, hother, hrelated⟩ := ih hmem
      exact ⟨other, List.mem_cons_of_mem _ hother, hrelated⟩

namespace Agree

variable {α β : Type} {R : α → β → Prop} {first : Except Diagnostic α}
  {second : Except Diagnostic β}

theorem exists_ok_iff (h : Agree R first second) :
    (∃ value, first = .ok value) ↔ ∃ value, second = .ok value := by
  cases h with
  | ok => simp
  | error => simp

theorem of_ok {value : α} {other : β} (h : Agree R (.ok value) (.ok other)) : R value other := by
  cases h with
  | ok h => exact h

/-- Results that both succeed or both fail agree in that they are the results. -/
theorem of_exists_ok_iff (h : (∃ value, first = .ok value) ↔ ∃ value, second = .ok value) :
    Agree (fun value other => first = .ok value ∧ second = .ok other) first second := by
  cases first with
  | ok value =>
    obtain ⟨other, hother⟩ := h.mp ⟨value, rfl⟩
    rw [hother]
    exact .ok ⟨rfl, rfl⟩
  | error diagnostic =>
    cases second with
    | ok other => cases (h.mpr ⟨other, rfl⟩).choose_spec
    | error other => exact .error _ _

end Agree

-- ════════════════════════
-- Functions in their module
-- ════════════════════════

/-- The functions of a module, bound to symbols in the module scope. -/
structure Enrolled (table : TypeTable) (definitions : List FunctionDef)
    (functions : List BoundFunction) (named : Globals) : Prop where
  grounded : table.Grounded
  isScoped : ∀ definition ∈ definitions, definition.isScoped
  bind : (bindFunctions table [] definitions).eval .start = .ok (functions, named)

/-- The symbols of one function in two modules. Support functions keep their names. -/
inductive SameSymbol (functions functions' : List BoundFunction) : String → String → Prop
  | support (function : Support) : SameSymbol functions functions' function.name function.name
  | function {function function' : BoundFunction} (hmem : function ∈ functions)
    (hmem' : function' ∈ functions') (h : function.definition = function'.definition) :
    SameSymbol functions functions' function.symbol function'.symbol

/-- No names change for a function in another module, apart from symbols. -/
def SameSymbol.naming (functions functions' : List BoundFunction) (definition : FunctionDef) :
    Renaming where
  change := id
  locals := definition.locals
  callees := Block.called definition.body
  links := SameSymbol functions functions'
  injOn _ _ _ _ heq := heq
  apart _ _ _ _ := Iff.rfl
  support := .support

namespace Enrolled

variable {table : TypeTable} {definitions definitions' : List FunctionDef}
  {functions functions' : List BoundFunction} {named named' : Globals}
  {function function' : BoundFunction}

section Scope

variable (h : Enrolled table definitions functions named)
include h

theorem map_definition : functions.map BoundFunction.definition = definitions :=
  (eval_bindFunctions h.bind).1

theorem mem_definitions (hmem : function ∈ functions) : function.definition ∈ definitions :=
  h.map_definition ▸ List.mem_map_of_mem hmem

theorem signature (hmem : function ∈ functions) :
    table.denoteSignature function.definition = .ok function.signature :=
  (eval_bindFunctions h.bind).2.1 function hmem

theorem requireSignature (hmem : function ∈ functions) :
    function.requireSignature = .ok function.signature :=
  requireSignature_of_bindFunctions h.bind function hmem

theorem nodup_names : (functions.map fun function => function.definition.name).Nodup := by
  have hnodup := (nodup_names_of_bindFunctions h.bind).1
  rwa [← h.map_definition, List.map_map] at hnodup

theorem known_eq_nil : named.known = [] := by
  have hconstants : named.constants = [] := (issued_bindFunctions h.bind).2
  rw [Globals.known, hconstants, List.map_nil]

theorem find?_of_mem (hmem : function ∈ functions) :
    named.root.find? function.definition.name = some function.var := by
  have hnodup := h.nodup_names
  have hlookup : (functions.map fun function => (function.definition.name, function.var)).lookup
      function.definition.name = some function.var := by
    rw [lookup_eq_some_iff_mem (by simpa [Function.comp_def] using hnodup)]
    exact List.mem_map_of_mem hmem
  rw [find?_bindFunctions h.bind, hlookup, Option.some_or]

theorem find?_of_forall_ne {name : String}
    (hname : ∀ function ∈ functions, function.definition.name ≠ name) :
    named.root.find? name = Globals.start.root.find? name := by
  have hlookup : (functions.map fun function => (function.definition.name, function.var)).lookup
      name = none := by
    rw [List.lookup_eq_none_iff]
    intro entry hmem
    obtain ⟨function, hfunction, rfl⟩ := List.mem_map.mp hmem
    simpa using (hname function hfunction).symm
  rw [find?_bindFunctions h.bind, hlookup, Option.none_or]

theorem upholds (constants : List Constant) : (named.internAll constants).root.Upholds
    (Contract.calling h.grounded (symbolIn (symbolsOf functions))) :=
  Globals.internAll_induction (P := fun globals => globals.root.Upholds
    (Contract.calling h.grounded (symbolIn (symbolsOf functions))))
    (fun _ constant _ hupholds => hupholds.addConstant constant)
    (Scope.upholds_named h.bind rfl) constants

/-- Constants do not hide functions, and are none. -/
theorem agree_functionNamed_internAll (constants : List Constant) (callee : String) :
    Agree Eq (named.root.functionNamed callee)
      ((named.internAll constants).root.functionNamed callee) := by
  have hkeyed : named.root.Keyed := (h.upholds []).keyed
  refine (Globals.internAll_induction (P := fun globals => globals.root.Keyed ∧
    Agree Eq (named.root.functionNamed callee) (globals.root.functionNamed callee)) ?_
    ⟨hkeyed, .refl _⟩ constants).2
  rintro globals constant - ⟨hkeyed, hagree⟩
  refine ⟨hkeyed.mint _ _, hagree.congr (.refl _) ?_⟩
  exact hkeyed.agree_functionNamed_mint constant.base (by cases constant <;> rfl) callee

end Scope

-- ════════════════════════
-- A function in two modules
-- ════════════════════════

section Single

variable (h : Enrolled table definitions functions named)
  (h' : Enrolled table definitions' functions' named')
include h h'

theorem signature_eq (hmem : function ∈ functions) (hmem' : function' ∈ functions')
    (hdefinition : function.definition = function'.definition) :
    function.signature = function'.signature := by
  have hsignature := h.signature hmem
  rw [hdefinition, h'.signature hmem'] at hsignature
  exact (Except.ok.inj hsignature).symm

variable (hperm : definitions.Perm definitions')
include hperm

theorem exists_counterpart (hmem : function ∈ functions) :
    ∃ function' ∈ functions', function.definition = function'.definition := by
  have hdefinition := hperm.mem_iff.mp (h.mem_definitions hmem)
  rw [← h'.map_definition] at hdefinition
  obtain ⟨function', hmem', heq⟩ := List.mem_map.mp hdefinition
  exact ⟨function', hmem', heq.symm⟩

/-- A name stands for the same function in both modules, or for none. -/
theorem agree_functionNamed (callee : String) :
    Agree (fun found found' => SameSymbol functions functions' found.1.register found'.1.register ∧
        found.2 = found'.2)
      (named.root.functionNamed callee) (named'.root.functionNamed callee) := by
  by_cases hcallee : ∃ function ∈ functions, function.definition.name = callee
  · obtain ⟨function, hmem, rfl⟩ := hcallee
    obtain ⟨function', hmem', hdefinition⟩ := h.exists_counterpart h' hperm hmem
    have hfound' := h'.find?_of_mem hmem'
    rw [← hdefinition] at hfound'
    have hsignature := h.signature_eq h' hmem hmem' hdefinition
    rw [Scope.functionNamed, Scope.functionNamed, h.find?_of_mem hmem, hfound']
    simp only [BoundFunction.signature?_eq (h.requireSignature hmem),
      BoundFunction.signature?_eq (h'.requireSignature hmem')]
    exact .ok ⟨.function hmem hmem' hdefinition, hsignature⟩
  · have hne : ∀ function ∈ functions, function.definition.name ≠ callee := fun function hmem heq =>
      hcallee ⟨function, hmem, heq⟩
    have hne' : ∀ function' ∈ functions', function'.definition.name ≠ callee := by
      intro function' hmem' heq
      obtain ⟨function, hmem, hdefinition⟩ := h'.exists_counterpart h hperm.symm hmem'
      exact hne function hmem (hdefinition ▸ heq)
    rw [Scope.functionNamed, Scope.functionNamed, h.find?_of_forall_ne hne,
      h'.find?_of_forall_ne hne']
    cases hfound : Globals.start.root.find? callee with
    | none => exact .error _ _
    | some var =>
      obtain ⟨support, -, rfl⟩ := Globals.exists_of_find?_start hfound
      exact .ok ⟨.support support, rfl⟩

/-- A function is lowered to the same code up to names, in either module and whatever constants are
known. -/
theorem agree_lower (hmem : function ∈ functions) (hmem' : function' ∈ functions')
    (hdefinition : function.definition = function'.definition) (before before' : List Constant) :
    Agree ((SameSymbol.naming functions functions' function.definition).Reproduces
        (named.internAll before) (named'.internAll before'))
      ((function.lower table).eval (named.internAll before))
      ((function'.lower table).eval (named'.internAll before')) := by
  let naming := SameSymbol.naming functions functions' function.definition
  have hfunctions : ∀ callee ∈ naming.callees, Agree
      (fun found found' => naming.links found.1.register found'.1.register ∧ found.2 = found'.2)
      ((named.internAll before).root.functionNamed callee)
      ((named'.internAll before').root.functionNamed callee) := fun callee _ =>
    (h.agree_functionNamed h' hperm callee).congr (h.agree_functionNamed_internAll before callee)
      (h'.agree_functionNamed_internAll before' callee)
  have hbound' : function'.requireSignature = .ok function.signature := by
    rw [h.signature_eq h' hmem hmem' hdefinition]
    exact h'.requireSignature hmem'
  have hrename : function'.definition = function.definition.rename id := by
    rw [FunctionDef.rename_id, hdefinition]
  exact ThreeAddress.agree_lower (h.isScoped _ (h.mem_definitions hmem)) (List.Subset.refl _)
    (List.Subset.refl _) hrename (h.signature hmem) (h.requireSignature hmem) hbound'
    (SameSymbol.function hmem hmem' hdefinition) (h.upholds before) (h'.upholds before').keyed hfunctions

end Single

-- ════════════════════════
-- All functions of a module
-- ════════════════════════

/-- How a function was lowered in the course of its module: with some constants from the functions
before it, and with others to come. -/
def LoweredAmid (table : TypeTable) (named last : Globals) (function : BoundFunction)
    (code : FunctionCode) : Prop :=
  ∃ before constants later, last = (named.internAll (before ++ constants)).internAll later ∧
    (function.lower table).eval (named.internAll before) =
      .ok (code, named.internAll (before ++ constants))

variable {codes codes' : List FunctionCode} {last last' : Globals}

section All

variable (h : Enrolled table definitions functions named)
include h

/-- Alone in its module, a function is accepted as well, and needs the same constants. -/
theorem exists_alone (hmem : function ∈ functions) {before : List Constant} {code : FunctionCode}
    {after : Globals}
    (hrun : (function.lower table).eval (named.internAll before) = .ok (code, after)) :
    ∃ alone constants, (function.lower table).eval named = .ok (alone, named.internAll constants) ∧
      after = named.internAll (before ++ constants) := by
  have hagree := h.agree_lower h (.refl _) hmem hmem rfl before []
  obtain ⟨⟨alone, last⟩, halone⟩ := hagree.exists_ok_iff.mp ⟨_, hrun⟩
  rw [hrun, halone] at hagree
  obtain ⟨constants, hafter, hlast⟩ := hagree.of_ok.constants
  refine ⟨alone, constants, ?_, hafter.trans (Globals.internAll_append _ _ _).symm⟩
  rw [Globals.internAll_nil] at halone hlast
  rw [halone, show last = _ from hlast]

/-- Functions are accepted one after the other if and only if each of them is accepted alone. -/
theorem exists_lowerFunctions_iff {lowered : List BoundFunction} (hsubset : lowered ⊆ functions)
    (before : List Constant) :
    (∃ result, (lowerCodes table lowered).eval (named.internAll before) = .ok result) ↔
      ∀ function ∈ lowered, ∃ result, (function.lower table).eval named = .ok result := by
  induction lowered generalizing before with
  | nil => exact ⟨fun _ => by simp, fun _ => ⟨_, rfl⟩⟩
  | cons function rest ih =>
    rw [List.cons_subset] at hsubset
    rw [List.forall_mem_cons]
    constructor
    · rintro ⟨⟨codes, last⟩, hrun⟩
      obtain ⟨code, middle, codes, hfirst, hrest, -⟩ := eval_lowerCodes_cons.mp hrun
      obtain ⟨alone, constants, halone, rfl⟩ := h.exists_alone hsubset.1 hfirst
      exact ⟨⟨_, halone⟩, (ih hsubset.2 _).mp ⟨_, hrest⟩⟩
    · rintro ⟨halone, hrest⟩
      have hagree := h.agree_lower h (.refl _) hsubset.1 hsubset.1 rfl [] before
      obtain ⟨⟨code, middle⟩, hfirst⟩ := hagree.exists_ok_iff.mp halone
      obtain ⟨_, constants, -, rfl⟩ := h.exists_alone hsubset.1 hfirst
      obtain ⟨⟨codes, last⟩, hcodes⟩ := (ih hsubset.2 (before ++ constants)).mpr hrest
      exact ⟨(code :: codes, last),
        eval_lowerCodes_cons.mpr ⟨code, _, codes, hfirst, hcodes, rfl⟩⟩

theorem forall₂_loweredAmid {lowered : List BoundFunction} (hsubset : lowered ⊆ functions)
    (before : List Constant)
    (hrun : (lowerCodes table lowered).eval (named.internAll before) = .ok (codes, last)) :
    (∃ constants, last = (named.internAll before).internAll constants) ∧
      List.Forall₂ (LoweredAmid table named last) lowered codes := by
  induction lowered generalizing before codes with
  | nil =>
    obtain ⟨rfl, rfl⟩ := Pass.eval_pure_eq_ok_iff.mp hrun
    exact ⟨⟨[], rfl⟩, .nil⟩
  | cons function rest ih =>
    rw [List.cons_subset] at hsubset
    obtain ⟨code, middle, codes, hfirst, hrest, rfl⟩ := eval_lowerCodes_cons.mp hrun
    obtain ⟨_, constants, -, rfl⟩ := h.exists_alone hsubset.1 hfirst
    obtain ⟨⟨later, hlast⟩, hforall⟩ := ih hsubset.2 _ hrest
    refine ⟨⟨constants ++ later, ?_⟩, .cons ⟨before, constants, later, hlast, hfirst⟩ hforall⟩
    rw [Globals.internAll_append, ← Globals.internAll_append named]
    exact hlast

/-- The constants of a module are those that its functions need alone. -/
theorem exists_of_mem_known {lowered : List BoundFunction} (hsubset : lowered ⊆ functions)
    (before : List Constant)
    (hrun : (lowerCodes table lowered).eval (named.internAll before) = .ok (codes, last))
    {constant : Constant} (hknown : constant ∈ last.known) :
    constant ∈ before ∨ ∃ function ∈ lowered, ∃ alone constants, constant ∈ constants ∧
      (function.lower table).eval named = .ok (alone, named.internAll constants) := by
  induction lowered generalizing before codes with
  | nil =>
    obtain ⟨-, rfl⟩ := Pass.eval_pure_eq_ok_iff.mp hrun
    rw [Globals.mem_known_internAll, h.known_eq_nil] at hknown
    exact Or.inl (hknown.resolve_left List.not_mem_nil)
  | cons function rest ih =>
    rw [List.cons_subset] at hsubset
    obtain ⟨code, middle, codes, hfirst, hrest, rfl⟩ := eval_lowerCodes_cons.mp hrun
    obtain ⟨alone, constants, halone, rfl⟩ := h.exists_alone hsubset.1 hfirst
    rcases ih hsubset.2 _ hrest with hmem | ⟨other, hother, hneeds⟩
    · refine (List.mem_append.mp hmem).imp_right fun hmem => ?_
      exact ⟨function, List.mem_cons_self, alone, constants, hmem, halone⟩
    · exact Or.inr ⟨other, List.mem_cons_of_mem _ hother, hneeds⟩

theorem nodup_known (hrun : (lowerCodes table functions).eval named = .ok (codes, last)) :
    last.known.Nodup := by
  obtain ⟨⟨constants, rfl⟩, -⟩ := h.forall₂_loweredAmid (List.Subset.refl _) [] hrun
  exact Globals.nodup_known_internAll (by simp [Globals.internAll_nil, h.known_eq_nil]) constants

theorem nodup_symbols (hrun : (lowerCodes table functions).eval named = .ok (codes, last)) :
    (functions.map BoundFunction.symbol ++ Support.all.map Support.name ++
      last.constants.map Prod.snd).Nodup := by
  obtain ⟨final, hcodes, rfl⟩ := eval_lowerCodes_eq_ok_iff.mp hrun
  exact nodup_symbols_of_rounds h.bind hcodes

end All

-- ════════════════════════
-- All functions in two orders
-- ════════════════════════

/-- Symbols of functions and constants that stand for each other in two orders of a module. -/
structure Translates (functions functions' : List BoundFunction) (last last' : Globals)
    (symbols : String → String) : Prop where
  functions : ∀ symbol other, SameSymbol functions functions' symbol other →
    symbols symbol = other
  constants : (last.constants.map (Prod.map id symbols)).Perm last'.constants

section Orders

variable (h : Enrolled table definitions functions named)
  (h' : Enrolled table definitions' functions' named')
  (hperm : definitions.Perm definitions')
include h h' hperm

/-- The functions of a module are accepted in one order if and only if they are in another. -/
theorem agree_lowerFunctions :
    Agree (fun result result' => (lowerCodes table functions).eval named = .ok result ∧
        (lowerCodes table functions').eval named' = .ok result')
      ((lowerCodes table functions).eval named)
      ((lowerCodes table functions').eval named') := by
  refine Agree.of_exists_ok_iff ?_
  have hleft := h.exists_lowerFunctions_iff (List.Subset.refl _) []
  have hright := h'.exists_lowerFunctions_iff (List.Subset.refl _) []
  refine hleft.trans (Iff.trans ⟨fun hall => ?_, fun hall => ?_⟩ hright.symm)
  · intro function' hmem'
    obtain ⟨function, hmem, hdefinition⟩ := h'.exists_counterpart h hperm.symm hmem'
    exact (h.agree_lower h' hperm hmem hmem' hdefinition.symm [] []).exists_ok_iff.mp
      (hall function hmem)
  · intro function hmem
    obtain ⟨function', hmem', hdefinition⟩ := h.exists_counterpart h' hperm hmem
    exact (h.agree_lower h' hperm hmem hmem' hdefinition [] []).exists_ok_iff.mpr
      (hall function' hmem')

/-- A constant of a module is one in another order as well. -/
theorem mem_known (hrun : (lowerCodes table functions).eval named = .ok (codes, last))
    (hrun' : (lowerCodes table functions').eval named' = .ok (codes', last'))
    {constant : Constant} (hknown : constant ∈ last.known) : constant ∈ last'.known := by
  obtain ⟨function, hmem, alone, constants, hconstant, halone⟩ :=
    (h.exists_of_mem_known (List.Subset.refl _) [] hrun hknown).resolve_left List.not_mem_nil
  obtain ⟨function', hmem', hdefinition⟩ := h.exists_counterpart h' hperm hmem
  obtain ⟨-, hforall⟩ := h'.forall₂_loweredAmid (List.Subset.refl _) [] hrun'
  obtain ⟨_, -, before, added, later, rfl, hamid⟩ := exists_mem_zip_of_forall₂ hforall hmem'
  have hagree := h.agree_lower h' hperm hmem hmem' hdefinition [] before
  rw [Globals.internAll_nil, halone, hamid] at hagree
  obtain ⟨needed, hneeded, hadded⟩ := hagree.of_ok.constants
  have hmem : constant ∈ needed := by
    have hknown : constant ∈ (named.internAll needed).known :=
      hneeded ▸ Globals.mem_known_internAll.mpr (Or.inr hconstant)
    rw [Globals.mem_known_internAll, h.known_eq_nil] at hknown
    exact hknown.resolve_left List.not_mem_nil
  rw [Globals.mem_known_internAll, show named'.internAll (before ++ added) = _ from hadded,
    Globals.mem_known_internAll]
  exact Or.inl (Or.inr hmem)

/-- A permutation takes the symbols of a module to those in another order. -/
theorem exists_translates (hrun : (lowerCodes table functions).eval named = .ok (codes, last))
    (hrun' : (lowerCodes table functions').eval named' = .ok (codes', last')) :
    ∃ symbols : Equiv.Perm String, Translates functions functions' last last' symbols := by
  -- functions and constants are put in one order, so that the pairs of symbols can be read off
  obtain ⟨reordered, hdefinitions, hreordered⟩ : ∃ reordered, List.Forall₂
      (fun function other => function.definition = other.definition) functions reordered ∧
        reordered.Perm functions' := by
    refine exists_perm_forall₂ ?_
    rwa [h.map_definition, h'.map_definition]
  obtain ⟨entries, hconstants, hentries⟩ : ∃ entries, List.Forall₂
      (fun entry other => entry.1 = other.1) last.constants entries ∧
        entries.Perm last'.constants := by
    refine exists_perm_forall₂ ?_
    exact (List.perm_ext_iff_of_nodup (h.nodup_known hrun) (h'.nodup_known hrun')).mpr fun _ =>
      ⟨h.mem_known h' hperm hrun hrun', h'.mem_known h hperm.symm hrun' hrun⟩
  obtain ⟨symbols, hsymbols⟩ : ∃ symbols : Equiv.Perm String,
      (functions.map BoundFunction.symbol ++ Support.all.map Support.name ++
        last.constants.map Prod.snd).map symbols =
      reordered.map BoundFunction.symbol ++ Support.all.map Support.name ++
        entries.map Prod.snd := by
    refine exists_perm_map_eq ?_ (h.nodup_symbols hrun) ?_
    · simp [hdefinitions.length_eq, hconstants.length_eq]
    · refine List.Perm.nodup ?_ (h'.nodup_symbols hrun')
      exact (((hreordered.map _).append_right _).append (hentries.map _)).symm
  rw [List.map_append, List.map_append] at hsymbols
  obtain ⟨hsymbols, hsecond⟩ := List.append_inj hsymbols (by simp [hdefinitions.length_eq])
  obtain ⟨hfirst, hsupport⟩ := List.append_inj hsymbols (by simp [hdefinitions.length_eq])
  rw [List.map_map, ← List.forall₂_eq_eq_eq, List.forall₂_map_left_iff,
    List.forall₂_map_right_iff] at hfirst hsecond
  refine ⟨symbols, ?_, ?_⟩
  · rintro symbol other (support | @⟨function, function', hmem, hmem', hdefinition⟩)
    · rw [List.map_map] at hsupport
      exact List.map_inj_left.mp hsupport support (by cases support <;> decide)
    · obtain ⟨found, hzip, hfound⟩ := exists_mem_zip_of_forall₂ hdefinitions hmem
      have hmem : found ∈ functions' := hreordered.mem_iff.mp (List.of_mem_zip hzip).2
      have heq : found = function' := List.inj_on_of_nodup_map h'.nodup_names hmem hmem'
        (congrArg FunctionDef.name (hfound.symm.trans hdefinition))
      exact heq ▸ (List.forall₂_iff_zip.mp hfirst).2 hzip
  · have heq : last.constants.map (Prod.map id symbols) = entries := by
      have hboth : List.Forall₂ (fun entry other => entry.1 = other.1 ∧ symbols entry.2 = other.2)
          last.constants entries :=
        List.forall₂_iff_zip.mpr ⟨hconstants.length_eq, fun hzip =>
          ⟨(List.forall₂_iff_zip.mp hconstants).2 hzip, (List.forall₂_iff_zip.mp hsecond).2 hzip⟩⟩
      exact map_eq_of_forall₂ hboth fun _ _ hsame => Prod.ext hsame.1 hsame.2
    rw [heq]
    exact hentries

/-- Every function has its code up to names in the other order. -/
theorem forall₂_rename (hrun : (lowerCodes table functions).eval named = .ok (codes, last))
    (hrun' : (lowerCodes table functions').eval named' = .ok (codes', last'))
    {symbols : String → String} (hsymbols : Translates functions functions' last last' symbols) :
    List.Forall₂ (fun definition code => ∃ registers : Equiv.Perm String,
      (definition, code.rename registers symbols) ∈ definitions'.zip codes') definitions codes := by
  obtain ⟨-, hamid⟩ := h.forall₂_loweredAmid (List.Subset.refl _) [] hrun
  obtain ⟨-, hamid'⟩ := h'.forall₂_loweredAmid (List.Subset.refl _) [] hrun'
  have hconstants {constant : Constant} {symbol other : String}
      (hfound : last.constants.lookup constant = some symbol)
      (hfound' : last'.constants.lookup constant = some other) : symbols symbol = other := by
    rw [lookup_eq_some_iff_mem (h.nodup_known hrun)] at hfound
    have hmem := hsymbols.constants.mem_iff.mp (List.mem_map_of_mem hfound)
    have hlookup := (lookup_eq_some_iff_mem (h'.nodup_known hrun')).mpr hmem
    exact Option.some.inj (hlookup.symm.trans hfound')
  rw [← h.map_definition, List.forall₂_map_left_iff, List.forall₂_iff_zip]
  refine ⟨hamid.length_eq, fun {function code} hzip => ?_⟩
  have hmem := (List.of_mem_zip hzip).1
  obtain ⟨before, constants, later, rfl, hlower⟩ := (List.forall₂_iff_zip.mp hamid).2 hzip
  obtain ⟨function', hmem', hdefinition⟩ := h.exists_counterpart h' hperm hmem
  obtain ⟨code', hzip', before', constants', later', rfl, hlower'⟩ :=
    exists_mem_zip_of_forall₂ hamid' hmem'
  have hagree := h.agree_lower h' hperm hmem hmem' hdefinition before before'
  rw [hlower, hlower'] at hagree
  obtain ⟨registers, hrename⟩ := hagree.of_ok.code symbols hsymbols.functions
    fun constant symbol other hfound hfound' => hconstants
      (Globals.lookup_internAll hfound later) (Globals.lookup_internAll hfound' later')
  refine ⟨registers, ?_⟩
  rw [hrename, hdefinition, ← h'.map_definition, List.zip_map_left]
  exact List.mem_map_of_mem hzip'

end Orders

end Enrolled

-- ════════════════════════
-- Modules
-- ════════════════════════

/-- Functions can be bound if no two have one name and all have signatures. -/
theorem exists_bindFunctions {table : TypeTable} {definitions : List FunctionDef}
    (hnodup : (definitions.map FunctionDef.name).Nodup)
    (hsignatures : ∀ definition ∈ definitions, ∃ signature,
      table.denoteSignature definition = .ok signature)
    {seen : List String} (hseen : ∀ definition ∈ definitions, definition.name ∉ seen)
    (globals : Globals) :
    ∃ result, (bindFunctions table seen definitions).eval globals = .ok result := by
  induction definitions generalizing seen globals with
  | nil => exact ⟨_, rfl⟩
  | cons definition rest ih =>
    rw [List.map_cons, List.nodup_cons] at hnodup
    rw [List.forall_mem_cons] at hsignatures hseen
    obtain ⟨signature, hsignature⟩ := hsignatures.1
    have hrest : ∀ other ∈ rest, other.name ∉ definition.name :: seen := by
      intro other hmem
      rw [List.mem_cons, not_or]
      exact ⟨fun heq => hnodup.1 (heq ▸ List.mem_map_of_mem hmem), hseen.2 other hmem⟩
    obtain ⟨⟨functions, last⟩, hrun⟩ := ih hnodup.2 hsignatures.2 hrest
      { globals with root := (globals.root.bind definition.name (.function signature)).2 }
    refine ⟨(⟨definition, .make (globals.root.newRegister definition.name) (.function signature)⟩ ::
      functions, last), ?_⟩
    simp only [bindFunctions, Pass.eval_bind_eq_ok_iff, Pass.eval_require_eq_ok_iff,
      Pass.eval_ofExcept_eq_ok_iff]
    exact ⟨(), globals, ⟨by simpa using hseen.1, rfl⟩, signature, globals, ⟨hsignature, rfl⟩, _, _,
      rfl, functions, last, hrun, rfl⟩

/-- Functions can be bound in one order if and only if they can be in another. -/
theorem agree_bindFunctions_perm (table : TypeTable) {definitions definitions' : List FunctionDef}
    (hperm : definitions.Perm definitions') :
    Agree (fun result result' => (bindFunctions table [] definitions).eval .start = .ok result ∧
        (bindFunctions table [] definitions').eval .start = .ok result')
      ((bindFunctions table [] definitions).eval .start)
      ((bindFunctions table [] definitions').eval .start) := by
  have hone {definitions definitions' : List FunctionDef} (hperm : definitions.Perm definitions')
      (h : ∃ result, (bindFunctions table [] definitions).eval .start = .ok result) :
      ∃ result, (bindFunctions table [] definitions').eval .start = .ok result := by
    obtain ⟨⟨functions, named⟩, hrun⟩ := h
    obtain ⟨hdefinitions, hsignatures, -⟩ := eval_bindFunctions hrun
    refine exists_bindFunctions ?_ ?_ (by simp) _
    · exact ((hperm.map _).nodup_iff).mp (nodup_names_of_bindFunctions hrun).1
    · intro definition hmem
      rw [← hperm.mem_iff, ← hdefinitions] at hmem
      obtain ⟨function, hfunction, rfl⟩ := List.mem_map.mp hmem
      exact ⟨_, hsignatures function hfunction⟩
  exact Agree.of_exists_ok_iff ⟨hone hperm, hone hperm.symm⟩

/-- Two programs for functions in two orders that are the same up to names. The symbols of support
functions stay, and those of constants are changed to the symbols of the same constants. -/
structure Program.Reorders (definitions definitions' : List FunctionDef)
    (symbols : Equiv.Perm String) (program program' : Program) : Prop where
  structs : program.structs = program'.structs
  externals : program.externals = program'.externals
  support : ∀ function : Support, symbols function.name = function.name
  constants : (program.constants.map (Prod.map id symbols)).Perm program'.constants
  /-- The lines of both programs are those of their functions. -/
  lines : program.lines = program.functions.flatMap FunctionCode.sheetLines ∧
    program'.lines = program'.functions.flatMap FunctionCode.sheetLines
  /-- A permutation of its registers and labels takes the code of each function to its code in the
  other program. -/
  functions : List.Forall₂ (fun definition code => ∃ registers : Equiv.Perm String,
    (definition, code.rename registers symbols) ∈ definitions'.zip program'.functions)
    definitions program.functions

/-- The functions of a module may come in any order. A module is accepted in one order if and only if
it is accepted in another, and then the programs are the same up to names. -/
theorem agree_lower_perm {module other : Module} (hscoped : module.isScoped)
    (hstructs : module.structs = other.structs) (hperm : module.functions.Perm other.functions) :
    Agree (fun program program' => ∃ symbols : Equiv.Perm String,
        Program.Reorders module.functions other.functions symbols program program')
      (lower module).result (lower other).result := by
  rw [result_lowerCodes, result_lowerCodes, ← hstructs]
  refine (Agree.refl _).bind ?_
  rintro table _ htable rfl
  refine (agree_bindFunctions_perm table hperm).bind ?_
  rintro ⟨bound, named⟩ ⟨bound', named'⟩ - ⟨hbind, hbind'⟩
  have hgrounded : table.Grounded := TypeTable.grounded_empty.defineAll htable
  have hall : ∀ definition ∈ module.functions, definition.isScoped := List.all_eq_true.mp hscoped
  have h : Enrolled table module.functions bound named := ⟨hgrounded, hall, hbind⟩
  have h' : Enrolled table other.functions bound' named' :=
    ⟨hgrounded, fun definition hmem => hall definition (hperm.mem_iff.mpr hmem), hbind'⟩
  refine (h.agree_lowerFunctions h' hperm).map ?_
  rintro ⟨codes, last⟩ ⟨codes', last'⟩ ⟨hrun, hrun'⟩
  obtain ⟨symbols, hsymbols⟩ := h.exists_translates h' hperm hrun hrun'
  exact ⟨symbols, {
    structs := rfl
    externals := rfl
    support := fun function => hsymbols.functions _ _ (.support function)
    constants := hsymbols.constants
    lines := ⟨rfl, rfl⟩
    functions := h.forall₂_rename h' hperm hrun hrun' hsymbols }⟩

/-- A module whose functions print texts and call each other. One of them is named like a support
function. -/
def relaying : Module where
  items := [
    .function {
      name := "main"
      parameters := []
      returns := none
      body := [
        .eval (.call "printf" [.text "ready"]),
        .eval (.call "malloc" [.integer 8])] },
    .struct { name := "Pair", fields := [⟨"first", "i32"⟩, ⟨"second", "i32"⟩] },
    .function {
      name := "malloc"
      parameters := [⟨"size", "i32"⟩]
      returns := none
      body := [
        .eval (.call "printf" [.text "size"]),
        .eval (.call "main" [])] }]

/-- The items of `relaying` from the last to the first. -/
def relayingBackwards : Module where
  items := relaying.items.reverse

theorem agree_lower_perm_relaying :
    (lower relaying).result.isOk ∧
    Agree (fun program program' => ∃ symbols : Equiv.Perm String,
        Program.Reorders relaying.functions relayingBackwards.functions symbols program program')
      (lower relaying).result (lower relayingBackwards).result := by
  have hscoped : relaying.isScoped := by decide +kernel
  have hstructs : relaying.structs = relayingBackwards.structs := rfl
  have hperm : relaying.functions.Perm relayingBackwards.functions := .swap _ _ []
  have hlower : (lower relaying).result.isOk := by decide +kernel
  exact ⟨hlower, agree_lower_perm hscoped hstructs hperm⟩

end ThreeAddress
