import ThreeAddress.Proofs.Emission.Symbols
import ThreeAddress.Proofs.Requests.Function
import ThreeAddress.Proofs.Typing.Supply

/-!
# Linkage

A call in a lowered program is linked if it names a function that the program defines or declares, at the
signature of that definition or declaration. There are three kinds of calls. A call of a support function
goes by its name, a call of a name that stands for something in the module scope goes by the register of
that name, and any other call goes by the register of a variable that was made later on. Those of the first
two kinds are linked unless the prelude has the symbol and omits the function, those of the third never are.

## Main definitions

* `Scope.Omits`: a function of a prelude that is called but not declared.
* `Setting.linking`: the setting in which calls go by registers of the module scope, or to functions that
  stand inside the types of the prelude.

## Main statements

* `Stages.Of.call_cases`: the kinds of calls.
* `mem_symbols_or_omits`: what a call names is linked, or it is omitted, or held by a variable.
* `exists_unlinked_call_calling`: a function of an outer scope is called but not declared.
-/

namespace ThreeAddress

/-- A function that is called by a symbol of the prelude, and that is not declared by that symbol. -/
inductive Scope.Omits (prelude : Scope) : String → Signature → Prop where
  /-- Calls reach the functions of all scopes, but only those of the innermost one are declared. -/
  | visible {name : String} {var : Var} {signature : Signature}
      (found : prelude.find? name = some var) (typed : var.ty = .function signature)
      (missing : (var.register, signature) ∉ prelude.ownFunctions) :
      Omits prelude var.register signature
  /-- A support function is called by its name, also where that is the register of something else. -/
  | support (function : Support) (taken : prelude.inUse function.name)
      (missing : (function.name, function.signature) ∉ prelude.ownFunctions) :
      Omits prelude function.name function.signature

namespace Scope.Omits

variable {prelude : Scope} {callee : String} {signature : Signature}

theorem inUse (h : prelude.Omits callee signature) (hapart : prelude.Apart) : prelude.inUse callee := by
  cases h with
  | visible found => exact hapart.inUse found
  | support function taken => exact taken

theorem not_mem_ownFunctions (h : prelude.Omits callee signature) :
    (callee, signature) ∉ prelude.ownFunctions := by
  cases h with
  | visible _ _ missing => exact missing
  | support _ _ missing => exact missing

/-- What is omitted is not linked, since all symbols of a module are new after those of the prelude. -/
theorem not_mem_symbols (h : prelude.Omits callee signature) (hapart : prelude.Apart) {module : Module}
    {program : Program} (hprogram : (lowerWith prelude module).result = .ok program) :
    (callee, signature) ∉ program.symbols := by
  obtain ⟨support, last, hexternals, hissued⟩ := issued_of_lowerWith hprogram
  have hfresh {symbol : String}
      (hmem : symbol ∈ support.map Prod.fst ++ program.functions.map FunctionCode.symbol) :
      callee ≠ symbol := by
    rintro rfl
    apply hissued.fresh callee (List.mem_append_left _ hmem)
    rw [Scope.inUse_nest]
    exact h.inUse hapart
  intro hmem
  rcases List.mem_append.mp hmem with hmem | hmem
  · obtain ⟨function, hfunction, heq⟩ := List.mem_map.mp hmem
    exact hfresh (List.mem_append_right _ (List.mem_map_of_mem hfunction)) (congrArg Prod.fst heq).symm
  · rw [hexternals] at hmem
    rcases List.mem_append.mp hmem with hmem | hmem
    · exact h.not_mem_ownFunctions hmem
    · exact hfresh (List.mem_append_left _ (List.mem_map_of_mem hmem)) rfl

end Scope.Omits

-- ════════════════════════
-- Support functions
-- ════════════════════════

theorem Support.name_injective : Function.Injective Support.name := by
  intro first second
  cases first <;> cases second <;> decide

section Support

variable {globals last : Globals} {declared : List (String × Signature)}

/-- A support function whose name is not in use is declared by its name. No other one takes the name,
since new registers are called after the names that they are for. -/
theorem mem_declareSupport {functions : List Support}
    (h : (declareSupport functions).eval globals = .ok (declared, last)) (hkeyed : globals.root.Keyed)
    {function : Support} (hmem : function ∈ functions) (hfree : ¬globals.root.inUse function.name) :
    (function.name, function.signature) ∈ declared := by
  induction functions generalizing globals declared with
  | nil => cases hmem
  | cons first rest ih =>
    have hnone : globals.root.find? function.name = none := by
      rw [← Option.not_isSome_iff_eq_none]
      exact fun hbound => hfree (hkeyed _ hbound)
    simp only [declareSupport, Pass.eval_bind_eq_ok_iff, Pass.eval_get_eq_ok_iff] at h
    obtain ⟨_, _, ⟨rfl, rfl⟩, h⟩ := h
    by_cases hfirst : function = first
    · subst hfirst
      rw [if_neg (by simp [Scope.hasFunction, hnone])] at h
      simp only [Pass.eval_bind_eq_ok_iff, Pass.eval_pure_eq_ok_iff] at h
      obtain ⟨var, middle, hbind, others, _, -, rfl, rfl⟩ := h
      obtain ⟨rfl, -⟩ := eval_bindGlobal hbind
      have hregister : globals.root.newRegister function.name = function.name := by
        rw [Scope.newRegister, if_neg hfree]
      exact List.mem_cons.mpr (Or.inl (Prod.ext hregister.symm rfl))
    · have hrest := (List.mem_cons.mp hmem).resolve_left hfirst
      split at h
      · exact ih h hkeyed hrest hfree
      · simp only [Pass.eval_bind_eq_ok_iff, Pass.eval_pure_eq_ok_iff] at h
        obtain ⟨var, middle, hbind, others, _, hothers, rfl, rfl⟩ := h
        obtain ⟨rfl, hroot⟩ := eval_bindGlobal hbind
        refine List.mem_cons_of_mem _ (ih hothers (hroot ▸ hkeyed.bind _ _) hrest ?_)
        rw [hroot, Scope.inUse_insert]
        refine not_or.mpr ⟨fun heq => hfirst ?_, hfree⟩
        have hnamed : NamedAfter first.name function.name :=
          heq ▸ globals.root.namedAfter_newRegister first.name
        exact Support.name_injective hnamed.eq_support.symm

theorem inUse_declareSupport (h : (declareSupport Support.all).eval globals = .ok (declared, last))
    (hkeyed : globals.root.Keyed) (function : Support) : last.root.inUse function.name := by
  rw [(issued_declareSupport h).1.inUse_iff]
  by_cases hused : globals.root.inUse function.name
  · exact Or.inr hused
  · have hmem : function ∈ Support.all := by cases function <;> decide
    exact Or.inl (List.mem_map_of_mem (mem_declareSupport h hkeyed hmem hused))

end Support

-- ════════════════════════
-- Kinds of calls
-- ════════════════════════

/-- A call is that of a support function, or of what a name of the given scope stands for, or it goes by a
register that is not in use there. -/
theorem Stages.Of.call_cases {unchecked : Prop} {table : TypeTable} {code : FunctionCode}
    {stages : Stages unchecked code} {globals : Globals} {definition : FunctionDef}
    {declared : Signature} (h : stages.Of globals table definition declared) {root : Scope}
    (hwithin : root.Within globals.root) {target : Option String} {callee : String}
    {signature : Signature} {arguments : List Value}
    (hcall : .call target callee signature arguments ∈ code.instructions) :
    (∃ function : Support, callee = function.name ∧ signature = function.signature) ∨
    (∃ name var, root.find? name = some var ∧ var.ty = .function signature ∧ callee = var.register) ∨
    ¬root.inUse callee := by
  obtain ⟨request, -, calls, hcalled, hmem⟩ := h.exists_request hcall rfl
  cases hcalled with
  | builtin found called =>
    obtain ⟨function, -, _, _, heq, -⟩ := exists_mem_of_forall₂ called hmem
    cases heq
    exact Or.inl ⟨function, rfl, rfl⟩
  | function missing reached found typed passed =>
    cases List.mem_singleton.mp hmem
    have hinherited := root.inherited_within
    have hstart : root.Within stages.start.scope := by
      rw [h.scope_start, ← h.prologue_eq]
      exact hinherited.prologue _ _ hwithin
    rcases (hinherited.evolves reached hstart).found found with hfound | hnew
    · exact Or.inr (Or.inl ⟨_, _, hfound, typed, rfl⟩)
    · exact Or.inr (Or.inr hnew)

-- ════════════════════════
-- The module scope
-- ════════════════════════

/-- The setting in which calls go by registers of the given scope, or to functions that stand inside the
types of the prelude. -/
def Setting.linking {table : TypeTable} (htable : table.Grounded) (prelude root : Scope)
    (hsupport : ∀ function : Support, root.inUse function.name) : Setting table :=
  .supplied htable prelude.Stores
    (fun register signature => root.inUse register ∨ prelude.Stores signature)
    (fun _ hstores _ => Or.inr hstores) fun function => Or.inl (hsupport function)

section Rounds

variable {prelude : Scope} {support : List (String × Signature)} {declared named : Globals}
  {table : TypeTable} {definitions : List FunctionDef} {bound : List BoundFunction}
  (hsupport : (declareSupport Support.all).eval { root := prelude.nest } = .ok (support, declared))
  (hbind : (bindFunctions table [] definitions).eval declared = .ok (bound, named))

include hsupport

/-- A support function is declared by its name, or the prelude binds that name to it, or it is omitted. -/
theorem mem_externals_or_omits (hkeyed : prelude.Keyed) (function : Support) :
    (function.name, function.signature) ∈ prelude.ownFunctions ++ support ∨
      prelude.Omits function.name function.signature := by
  by_cases hused : prelude.inUse function.name
  · by_cases hown : (function.name, function.signature) ∈ prelude.ownFunctions
    · exact Or.inl (List.mem_append_left _ hown)
    · exact Or.inr (.support function hused hown)
  · have hmem : function ∈ Support.all := by cases function <;> decide
    rw [← Scope.inUse_nest] at hused
    exact Or.inl (List.mem_append_right _ (mem_declareSupport hsupport hkeyed.nest hmem hused))

include hbind

/-- A function of the module scope is defined or declared, or the prelude omits it. -/
theorem mem_bound_or_omits {name : String} {var : Var} {signature : Signature}
    (hfound : named.root.find? name = some var) (hty : var.ty = .function signature) :
    (var.register, signature) ∈ bound.map (fun function => (function.symbol, function.signature)) ++
        (prelude.ownFunctions ++ support) ∨
      prelude.Omits var.register signature := by
  rw [find?_bindFunctions hbind] at hfound
  rcases Option.or_eq_some_iff.mp hfound with hlookup | ⟨-, hdeclared⟩
  · obtain ⟨before, after, hsplit, -⟩ := List.lookup_eq_some_iff.mp hlookup
    have hmem : (name, var) ∈ bound.map fun function => (function.definition.name, function.var) := by
      simp [hsplit]
    obtain ⟨function, hfunction, heq⟩ := List.mem_map.mp hmem
    cases heq
    refine Or.inl (List.mem_append_left _ (List.mem_map.mpr ⟨function, hfunction, ?_⟩))
    simp [BoundFunction.symbol, BoundFunction.signature, hty, Ty.signature?]
  rcases find?_declareSupport hsupport hdeclared with hprelude | ⟨function, -, hty', hmem⟩
  · rw [Scope.find?_nest] at hprelude
    by_cases hown : (var.register, signature) ∈ prelude.ownFunctions
    · exact Or.inl (List.mem_append_right _ (List.mem_append_left _ hown))
    · exact Or.inr (.visible hprelude hty hown)
  · obtain rfl : function.signature = signature := Ty.function.inj (hty'.symm.trans hty)
    exact Or.inl (List.mem_append_right _ (List.mem_append_right _ hmem))

/-- All that is defined or declared has a register of the module scope. -/
theorem inUse_of_mem_bound {history : History} (hrecorded : prelude.Recorded history)
    {entry : String × Signature}
    (hmem : entry ∈ bound.map (fun function => (function.symbol, function.signature)) ++
      (prelude.ownFunctions ++ support)) : named.root.inUse entry.1 := by
  rw [(issued_bindFunctions hbind).1.inUse_iff, (issued_declareSupport hsupport).1.inUse_iff,
    Scope.inUse_nest]
  rcases List.mem_append.mp hmem with hmem | hmem
  · obtain ⟨function, hfunction, rfl⟩ := List.mem_map.mp hmem
    exact Or.inl (List.mem_map_of_mem hfunction)
  rcases List.mem_append.mp hmem with hmem | hmem
  · exact Or.inr (Or.inr (hrecorded.inUse_of_mem_ownFunctions (List.mem_map_of_mem hmem)))
  · exact Or.inr (Or.inl (List.mem_map_of_mem hmem))

theorem inUse_support (hkeyed : prelude.Keyed) (function : Support) :
    named.root.inUse function.name :=
  ((issued_bindFunctions hbind).1.inUse_iff _).mpr
    (Or.inr (inUse_declareSupport hsupport hkeyed.nest function))

/-- The module scope keeps to the setting. -/
theorem Setting.linking_binds (hapart : prelude.Apart) (hkeyed : prelude.Keyed)
    (htable : table.Grounded) : (Setting.linking htable prelude named.root
      (inUse_support hsupport hbind hkeyed)).Binds [] named.root := by
  obtain ⟨-, hsignatures, -⟩ := eval_bindFunctions hbind
  have hdeclared : (Setting.linking htable prelude named.root
      (inUse_support hsupport hbind hkeyed)).Binds [] declared.root := by
    refine Setting.supplied_binds hsupport htable (fun _ => id) fun hfound _ => Or.inl ?_
    rw [(issued_bindFunctions hbind).1.inUse_iff]
    exact Or.inr ((Scope.inherited_apart.declareSupport hsupport hapart.nest).inUse hfound)
  refine hdeclared.bindFunctions hbind fun function hmem => ⟨?_, Or.inl ?_⟩
  · exact (htable.denoteSignature (hsignatures function hmem)).supplied _
  · rw [(issued_bindFunctions hbind).1.inUse_iff]
    exact Or.inl (List.mem_map_of_mem hmem)

end Rounds

-- ════════════════════════
-- Lowered programs
-- ════════════════════════

/-- A call in a lowered program names a function that the program defines or declares, at the signature of
that definition or declaration, with two exceptions. The prelude omits the function, and then it is indeed
not linked. Or the call goes by a symbol that nothing in the program has, and the function is one that a
variable can hold because it stands inside the type of a name of the prelude. -/
theorem mem_symbols_or_omits {actions : List Scope.Action} {module : Module} {program : Program}
    (h : (lowerWith (Scope.performAll {} actions) module).result = .ok program)
    {function : FunctionCode} (hfunction : function ∈ program.functions) {target : Option String}
    {callee : String} {signature : Signature} {arguments : List Value}
    (hcall : .call target callee signature arguments ∈ function.instructions) :
    ((callee, signature) ∈ program.symbols ∨
      (Scope.performAll {} actions).Omits callee signature ∨
      (Scope.performAll {} actions).Stores signature ∧ ∀ entry ∈ program.symbols, entry.1 ≠ callee) ∧
    ((Scope.performAll {} actions).Omits callee signature → (callee, signature) ∉ program.symbols) := by
  have hrecorded := Scope.Recorded.empty.performAll actions
  have hapart := Scope.apart_performAll actions
  refine ⟨?_, fun homits => homits.not_mem_symbols hapart h⟩
  obtain ⟨support, declared, table, bound, named, last, hsupport, hstructs, hbind, hcodes, -, -,
    hexternals, -⟩ := eval_lowerWith h
  obtain ⟨-, hsignatures, hkeyed⟩ := eval_bindFunctions hbind
  have hsymbols : program.symbols =
      bound.map (fun function => (function.symbol, function.signature)) ++
        ((Scope.performAll {} actions).ownFunctions ++ support) := by
    rw [Program.symbols, map_symbol_lowerFunctions hcodes, hexternals]
  have htable := grounded_of_eval_defineStructs hstructs
  let setting := Setting.linking htable (Scope.performAll {} actions) named.root
    (inUse_support hsupport hbind hrecorded.keyed)
  let rooted (root : Scope) : Prop :=
    root.Keyed ∧ setting.Binds [] root ∧ named.root.Within root
  have hnamed : rooted named.root :=
    ⟨hkeyed (keyed_declareSupport hsupport hrecorded.keyed.nest),
      Setting.linking_binds hsupport hbind hapart hrecorded.keyed htable, .refl _⟩
  have hconstant (root : Scope) (constant : Constant) (hroot : rooted root) :
      rooted (root.mint constant.base constant.ty).2 := by
    obtain ⟨hkeyed, hbinds, hwithin⟩ := hroot
    exact ⟨hkeyed.mint _ _, hbinds.addConstant constant trivial,
      named.root.inherited_within.mint _ _ hwithin⟩
  have hall := forall₂_loweredIn rooted hconstant hcodes hsignatures hnamed
  obtain ⟨defined, hdefined, hlowered⟩ := exists_mem_of_forall₂ hall hfunction
  obtain ⟨globals, stages, hstages, hroot, hbinds, hwithin⟩ := hlowered.exists_stages
  rw [hsymbols]
  rcases hstages.call_cases hwithin hcall with ⟨function, rfl, rfl⟩ | ⟨name, var, hfound, hty, rfl⟩ | hnew
  · rcases mem_externals_or_omits hsupport hrecorded.keyed function with hmem | homits
    · exact Or.inl (List.mem_append_right _ hmem)
    · exact Or.inr (Or.inl homits)
  · exact (mem_bound_or_omits hsupport hbind hfound hty).imp_right Or.inl
  · have hadmits : setting.Admits globals.root stages.prologue :=
      ⟨hroot, hbinds, fun _ _ => trivial, fun _ _ => trivial, trivial, rfl, List.forall_mem_nil _⟩
    have hsound := hstages.sound_code (hsignatures _ hdefined) hadmits False.elim _
      (stages.mem_code_of_isCall hcall rfl)
    have hstores := (hsound.calls rfl).1.2.resolve_left hnew
    refine Or.inr (Or.inr ⟨hstores, fun entry hentry heq => hnew ?_⟩)
    exact heq ▸ inUse_of_mem_bound hsupport hbind hrecorded hentry

/-- The type of a function that neither takes nor returns anything. -/
def notifyTy : Ty := .function ⟨none, [], false⟩

/-- A prelude of two scopes, whose inner one has a function and a variable that refers to one. -/
def notifying : List Scope.Action := [
  .declare "log" ⟨none, [.bytes], true⟩,
  .nest,
  .declare "notify" ⟨none, [], false⟩,
  .bind "hook" (.ref notifyTy)]

/-- A module that calls what the variable of its prelude refers to. -/
def hooking : Module where
  items := [.function {
    name := "main"
    parameters := []
    returns := none
    body := [
      .eval (.call "notify" []),
      .bind "f" none (.deref "hook" 1),
      .eval (.call "f" [])] }]

theorem stores_hooking : ∃ program function,
    (lowerWith (Scope.performAll {} notifying) hooking).result = .ok program ∧
    function ∈ program.functions ∧
    .call none "f" ⟨none, [], false⟩ [] ∈ function.instructions ∧
    (Scope.performAll {} notifying).Stores ⟨none, [], false⟩ ∧
    ∀ entry ∈ program.symbols, entry.1 ≠ "f" := by
  obtain ⟨program, function, h, hfunction, hcall⟩ :=
    exists_function_of_any (Scope.performAll {} notifying) hooking
      (P := fun function => .call none "f" ⟨none, [], false⟩ [] ∈ function.instructions)
      (by decide +kernel)
  obtain ⟨_, h', hprogram⟩ := exists_program_of_any (Scope.performAll {} notifying) hooking
    (P := fun program => decide (("f", ⟨none, [], false⟩) ∉ program.symbols)) (by decide +kernel)
  obtain rfl := Except.ok.inj (h.symm.trans h')
  have hunused : ¬(Scope.performAll {} notifying).inUse "f" := by decide +kernel
  have hapart := Scope.apart_performAll notifying
  rcases (mem_symbols_or_omits h hfunction (of_decide_eq_true hcall)).1 with hmem | homits | hstores
  · exact absurd hmem (of_decide_eq_true hprogram)
  · exact absurd (homits.inUse hapart) hunused
  · exact ⟨program, function, h, hfunction, of_decide_eq_true hcall, hstores⟩

/-- A module that calls a function of its prelude, once for its effect and once through a built-in
that needs memory. -/
def calling : Module where
  items := [.function {
    name := "main"
    parameters := []
    returns := none
    body := [.eval (.call "notify" []), .eval (.call "alloc" [.integer 8])] }]

/-- A function of an outer scope of the prelude is called but neither defined nor declared. -/
theorem exists_unlinked_call_calling : ∃ program,
    (lowerWith (Scope.ofPrelude [[("notify", notifyTy)], []]).1 calling).result = .ok program ∧
    (∃ function ∈ program.functions,
      .call none "notify" ⟨none, [], false⟩ [] ∈ function.instructions) ∧
    ∀ entry ∈ program.symbols, entry.1 ≠ "notify" := by
  obtain ⟨program, h, hprogram⟩ := exists_program_of_any
    (Scope.ofPrelude [[("notify", notifyTy)], []]).1 calling
    (P := fun program => decide ((∃ function ∈ program.functions,
      .call none "notify" ⟨none, [], false⟩ [] ∈ function.instructions) ∧
      ∀ entry ∈ program.symbols, entry.1 ≠ "notify")) (by decide +kernel)
  exact ⟨program, h, of_decide_eq_true hprogram⟩

end ThreeAddress
