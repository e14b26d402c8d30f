import ThreeAddress.Proofs.Emission.Session
import ThreeAddress.Proofs.Scope.Ownership
import ThreeAddress.Proofs.Typing.Supply

/-!
# Undeclared variables

A function that mentions a variable without declaring it before is not lowered, unless the variable
happens to be called like a register for a value that lowering has made by then: a constant of a function
before, an argument, the stack slot of the returned value, or a temporary. Labels and functions are no
variables, so their names are out of reach.

## Main definitions

* `Session.Makes`: the names of registers for values while a function is lowered.

## Main statements

* `error_or_makes_of_mem_strays`: an undeclared variable is an error if its name is not of that kind.
* `lowered_straying`: where its name is of that kind, it may be no error.
-/

namespace ThreeAddress

namespace Scope

/-- No name is bound twice in a scope itself. -/
def Distinct (scope : Scope) : Prop := (scope.inner.bindings.map Prod.fst).Nodup

theorem Distinct.insert {scope : Scope} (h : scope.Distinct) (name : String) (var : Var) :
    (scope.insert name var).Distinct := by
  refine List.nodup_cons.mpr ⟨?_, h.sublist (List.filter_sublist.map _)⟩
  simp

theorem inherited_distinct : Inherited Distinct :=
  fun _ _ _ _ _ h => h.insert _ _

theorem Distinct.size_le_insert {scope : Scope} (h : scope.Distinct) (name : String) (var : Var) :
    scope.size ≤ (scope.insert name var).size := by
  have hcount : scope.inner.bindings.countP (fun binding => binding.1 = name) ≤ 1 := by
    have hle := List.nodup_iff_count_le_one.mp h name
    rwa [List.count, List.countP_map] at hle
  have hlength := List.length_eq_countP_add_countP (fun binding => decide (binding.1 = name))
    (l := scope.inner.bindings)
  simp only [size, Scope.insert, Level.insert, List.length_cons, ← List.countP_eq_length_filter, ne_eq]
  simp only [decide_eq_true_eq] at hlength
  omega

theorem exists_namedAfter_of_mem_enter {scope : Scope} {parameters : List (String × Ty)}
    {parameter : Parameter} (h : parameter ∈ (scope.enter parameters).1) :
    ∃ entry ∈ parameters, NamedAfter (entry.1 ++ ".val") parameter.incoming.register := by
  induction parameters generalizing scope with
  | nil => cases h
  | cons entry rest ih =>
    rcases List.mem_cons.mp h with rfl | h
    · exact ⟨entry, List.mem_cons_self, namedAfter_newRegister _ _⟩
    · obtain ⟨other, hmem, hnamed⟩ := ih h
      exact ⟨other, List.mem_cons_of_mem _ hmem, hnamed⟩

theorem namedAfter_of_mem_returnSlot {scope : Scope} {parameters : List (String × Ty)}
    {returns : Option Ty} {slot : Var} (h : slot ∈ (scope.prologue parameters returns).returnSlot) :
    NamedAfter "retptr" slot.register := by
  cases returns with
  | none => cases h
  | some ty =>
    cases h
    exact namedAfter_newRegister _ _

end Scope

/-- The name of a register for a value, while a function is lowered. -/
inductive Session.Makes {prelude : Scope} {module : Module} (session : Session prelude module) :
    String → Prop
  /-- The constants of the functions before are bound in the module scope. -/
  | constant {constant : Constant} {symbol : String}
      (made : (constant, symbol) ∈ session.draft.globals.constants)
      (named : NamedAfter constant.base symbol) : session.Makes symbol
  | argument {parameter : Parameter} {declared : TypedName}
      (made : parameter ∈ session.prologue.parameters)
      (mem : declared ∈ session.function.definition.parameters)
      (named : NamedAfter (declared.name ++ ".val") parameter.incoming.register) :
      session.Makes parameter.incoming.register
  | returned {slot : Var} (made : slot ∈ session.prologue.returnSlot)
      (named : NamedAfter "retptr" slot.register) : session.Makes slot.register
  /-- Temporaries are numbered by the names in scope. -/
  | temporary {number : Nat} {register : String} (later : session.prologue.scope.size ≤ number)
      (named : NamedAfter ("sym" ++ toString number) register)
      (new : ¬session.prologue.scope.inUse register) : session.Makes register

namespace Session

variable {module : Module}

/-- The setting in which the variables that are not declared have the names of registers for values. -/
def making {prelude : Scope} (session : Session prelude module) : Setting session.table where
  checked := False
  value _ := True
  known := session.Makes
  callable _ _ := True
  kept := []
  stage scope := scope.Distinct ∧ session.prologue.scope.size ≤ scope.size ∧
    ∀ register, session.prologue.scope.inUse register → scope.inUse register
  int _ := trivial
  result := trivial
  ref _ := trivial
  array _ _ _ := trivial
  struct _ := trivial
  target _ := trivial
  element _ := trivial
  member _ _ _ := trivial
  function _ _ := trivial
  returns _ _ _ := trivial
  parameters _ _ _ := trivial
  support _ := trivial
  grow hnew h := by
    obtain ⟨hdistinct, hsize, hused⟩ := h
    refine ⟨hdistinct.insert _ _, hsize.trans (hdistinct.size_le_insert _ _), fun register hstart => ?_⟩
    rw [Scope.inUse_insert]
    exact Or.inr (hused register hstart)
  temporary h := by
    obtain ⟨-, hsize, hused⟩ := h
    refine .temporary hsize (Scope.namedAfter_newRegister _ _) fun hstart => ?_
    exact Scope.not_inUse_newRegister _ _ (hused _ hstart)

variable (session : Session {} module)

/-- No name is bound twice in the module scope. -/
theorem distinct_root : session.draft.globals.root.Distinct := by
  obtain ⟨_, _, before, after, named, hsupport, -, hbind, hcodes⟩ := session.reached
  obtain ⟨-, hsignatures, -⟩ := eval_bindFunctions hbind
  have hinherited := Scope.inherited_distinct
  have hnamed : named.root.Distinct :=
    hinherited.bindFunctions hbind (hinherited.declareSupport hsupport List.nodup_nil)
  exact invariant_lowerFunctions (P := fun globals => globals.root.Distinct)
    (fun globals constant hroot => hinherited.mint _ _ hroot) hcodes
    (fun function hmem => hsignatures function (List.mem_append_left _ hmem)) hnamed

/-- The variables of the module scope are the constants of the functions before. -/
theorem exists_constant_of_find? {name : String} {var : Var}
    (hfound : session.draft.globals.root.find? name = some var) (hstorable : var.ty.isStorable) :
    ∃ constant, (constant, name) ∈ session.draft.globals.constants ∧ NamedAfter constant.base name := by
  obtain ⟨_, _, before, after, named, hsupport, -, hbind, hcodes⟩ := session.reached
  obtain ⟨-, hsignatures, -⟩ := eval_bindFunctions hbind
  refine invariant_lowerFunctions (P := fun globals => ∀ name var, globals.root.find? name = some var →
    var.ty.isStorable → ∃ constant, (constant, name) ∈ globals.constants ∧
      NamedAfter constant.base name) ?_ hcodes
    (fun function hmem => hsignatures function (List.mem_append_left _ hmem)) ?_ name var hfound hstorable
  · intro globals constant hglobals name var hfound hstorable
    rcases Scope.find?_insert_cases hfound with ⟨rfl, -⟩ | hfound
    · exact ⟨constant, List.mem_append_right _ (List.mem_singleton.mpr rfl),
        Scope.namedAfter_newRegister _ _⟩
    · obtain ⟨made, hmem, hnamed⟩ := hglobals name var hfound hstorable
      exact ⟨made, List.mem_append_left _ hmem, hnamed⟩
  · -- Before any function is lowered, all names stand for functions.
    intro name var hfound hstorable
    have hnone : var.ty.signature? = none := by
      cases hty : var.ty <;> simp_all [Ty.isStorable, Ty.signature?]
    rw [find?_bindFunctions hbind] at hfound
    rcases Option.or_eq_some_iff.mp hfound with hlookup | ⟨-, hdeclared⟩
    · obtain ⟨first, rest, hsplit, -⟩ := List.lookup_eq_some_iff.mp hlookup
      have hmem : (name, var) ∈ (before ++ session.function :: after).map fun function =>
          (function.definition.name, function.var) := by
        simp [hsplit]
      obtain ⟨function, hfunction, heq⟩ := List.mem_map.mp hmem
      cases heq
      have hsignature := requireSignature_of_bindFunctions hbind function hfunction
      rw [BoundFunction.requireSignature, hnone] at hsignature
      cases hsignature
    · rcases find?_declareSupport hsupport hdeclared with hprelude | ⟨function, -, hty, -⟩
      · cases hprelude
      · rw [hty] at hnone
        cases hnone

/-- Undeclared variables of a function that is lowered have the names of registers for values. -/
theorem makes_of_mem_strays {code : FunctionCode} {final : Draft}
    (h : (lowerFunction session.table session.function).eval session.draft = .ok (code, final))
    {name : String} (hname : name ∈ session.function.definition.strays) : session.Makes name := by
  obtain ⟨stages, hstages, hprologue, -⟩ := session.exists_stages h
  have hadmits : session.making.Admits session.draft.globals.root stages.prologue := by
    rw [hprologue]
    refine ⟨session.keyed_root Scope.Keyed.empty, ?_, ?_, ?_, ?_, rfl, List.forall_mem_nil _⟩
    · refine ⟨fun hfound hstorable => ⟨trivial, Or.inr ?_⟩, fun _ _ => trivial⟩
      obtain ⟨constant, hmem, hnamed⟩ := session.exists_constant_of_find? hfound hstorable
      exact .constant hmem hnamed
    · intro parameter hmem
      obtain ⟨entry, hentry, hnamed⟩ := Scope.exists_namedAfter_of_mem_enter
        (Scope.parameters_prologue .. ▸ hmem)
      obtain ⟨declared, hdeclared, hname⟩ := List.mem_map.mp (List.of_mem_zip hentry).1
      exact .argument hmem hdeclared (hname ▸ hnamed)
    · intro slot hmem
      exact .returned hmem (Scope.namedAfter_of_mem_returnSlot hmem)
    · exact ⟨Scope.inherited_distinct.prologue _ _ session.distinct_root, le_rfl, fun _ => id⟩
  exact (hstages.proceeds session.signature_eq hadmits False.elim).2 name hname

end Session

/-- A function that mentions a variable without declaring it before is not lowered, unless the variable
has the name of a register for a value: of a constant of a function before, of an argument, of the stack
slot of the returned value, or of a temporary. -/
theorem error_or_makes_of_mem_strays {module : Module} {definition : FunctionDef}
    (hdefinition : definition ∈ module.functions) {name : String}
    (hname : name ∈ definition.strays) :
    (∃ diagnostic, (lower module).result = .error diagnostic) ∨
      ∃ session : Session {} module, session.function.definition = definition ∧
        session.Makes name := by
  cases hresult : (lower module).result with
  | error diagnostic => exact Or.inl ⟨diagnostic, rfl⟩
  | ok program =>
    obtain ⟨position, hlt, rfl⟩ := List.mem_iff_getElem.mp hdefinition
    obtain ⟨session, -, hsession, -, code, final, hlowered, -⟩ :=
      exists_session hresult (List.getElem?_eq_getElem hlt)
    exact Or.inr ⟨session, hsession, session.makes_of_mem_strays hlowered (hsession ▸ hname)⟩

theorem NamedAfter.isPrefix {name register : String} (h : NamedAfter name register) :
    name.toList <+: register.toList := by
  rcases h with rfl | ⟨number, rfl⟩
  · exact List.prefix_rfl
  · rw [String.toList_append]
    exact List.prefix_append _ _

/-- A function without texts, which mentions an undeclared variable behind its return. The variable is
called like the constants of texts. -/
def trailing : FunctionDef where
  name := "trailing"
  parameters := [⟨"n", "i32"⟩]
  returns := some "i32"
  body := [.ret (some (.variableRef "n")), .assign (.variableRef "str") (.integer 1)]

theorem error_trailing : "str" ∈ trailing.strays ∧
    ∃ diagnostic, (lower ⟨[.function trailing]⟩).result = .error diagnostic := by
  have hname : "str" ∈ trailing.strays := by decide +kernel
  refine ⟨hname, (error_or_makes_of_mem_strays (by simp [Module.functions, Item.function?])
    hname).resolve_right ?_⟩
  rintro ⟨session, hdefinition, hmakes⟩
  have hspelled {stem : String} (h : NamedAfter stem "str") (hstem : ¬stem.toList <+: ['s', 't', 'r']) :
      False := hstem h.isPrefix
  generalize htext : "str" = text at hmakes
  cases hmakes with
  | constant made =>
    -- No function comes before, so there are no constants yet.
    obtain ⟨_, _, before, after, named, hsupport, -, hbind, hcodes⟩ := session.reached
    have hbefore : before = [] := by
      have hlength := congrArg List.length (eval_bindFunctions hbind).1
      simp only [List.length_map, List.length_append, List.length_cons, Module.functions,
        List.filterMap_cons, Item.function?, List.filterMap_nil, List.length_nil] at hlength
      exact List.eq_nil_of_length_eq_zero (by omega)
    subst hbefore
    obtain ⟨-, hdraft⟩ := Pass.eval_pure_eq_ok_iff.mp hcodes
    rw [← hdraft, (issued_bindFunctions hbind).2, (issued_declareSupport hsupport).2] at made
    cases made
  | @argument parameter declared made mem named =>
    rw [hdefinition] at mem
    cases List.mem_singleton.mp mem
    exact hspelled (htext ▸ named) (by decide)
  | returned made named => exact hspelled (htext ▸ named) (by decide)
  | temporary later named => exact hspelled (htext ▸ named) (by simp)

/-- A function that returns a variable which it does not declare. -/
def straying : FunctionDef where
  name := "straying"
  parameters := []
  returns := some "i32"
  body := [.ret (some (.variableRef "retptr"))]

/-- A variable that is not declared is read from the stack slot of the returned value. -/
theorem lowered_straying : "retptr" ∈ straying.strays ∧
    ∃ program, (lower ⟨[.function straying]⟩).result = .ok program := by
  refine ⟨by decide +kernel, ?_⟩
  obtain ⟨program, -, h, -⟩ :=
    exists_function_of_any {} ⟨[.function straying]⟩ (P := fun _ => true) (by decide +kernel)
  exact ⟨program, h⟩

end ThreeAddress
