import ThreeAddress.Proofs.Emission.Module
import ThreeAddress.Proofs.Requests.Basic
import ThreeAddress.Proofs.Scope.History

/-!
# Registers and the names they are bound under

A new binding takes a register that is not in use, and the register is called after the name. What such
bindings keep holds in all scopes that lowering makes, since it makes them by nothing else: in particular
that a register is bound under one name only, and that the registers of built-ins stay with them.

## Main definitions

* `Scope.Inherited`: a property of scopes that new bindings keep.
* `Scope.Apart`: no two names have the same register.
* `Scope.Guards`: a register that only built-ins may have.

## Main statements

* `Scope.performAll_ofPrelude`: a prelude that is given name by name is one that operations lead to.
* `Scope.Recorded.nodup_ownFunctions`: the functions bound in a scope have registers of their own.
* `Scope.inherited_apart`, `Scope.inherited_guards`: new bindings keep both.
* `Scope.apart_performAll`: no two names have the same register, whatever was done to a scope.
* `NamedAfter.eq_support`: the name of a support function is called after no other name.
-/

namespace ThreeAddress

namespace Scope

-- ════════════════════════
-- Preludes
-- ════════════════════════

/-- The operations that bind names. -/
def Action.ofBindings (bindings : List (String × Ty)) : List Action :=
  bindings.map fun binding => .bind binding.1 binding.2

/-- The operations that make a prelude. -/
def Action.ofPrelude : List (List (String × Ty)) → List Action
  | [] => []
  | bindings :: rest => ofBindings bindings ++ rest.flatMap fun inner => .nest :: ofBindings inner

theorem fst_bindAll (scope : Scope) (bindings : List (String × Ty)) :
    (scope.bindAll bindings).1 = scope.performAll (Action.ofBindings bindings) := by
  induction bindings generalizing scope with
  | nil => rfl
  | cons binding rest ih => exact ih (scope.bind binding.1 binding.2).2

theorem performAll_append (scope : Scope) (first second : List Action) :
    scope.performAll (first ++ second) = (scope.performAll first).performAll second :=
  List.foldl_append

theorem fst_nestAll (scope : Scope) (levels : List (List (String × Ty))) :
    (scope.nestAll levels).1 =
      scope.performAll (levels.flatMap fun inner => .nest :: Action.ofBindings inner) := by
  induction levels generalizing scope with
  | nil => rfl
  | cons bindings rest ih =>
    rw [List.flatMap_cons, performAll_append]
    exact (ih _).trans (congrArg (performAll · _) (fst_bindAll scope.nest bindings))

/-- A prelude that is given name by name is one that operations lead to. -/
theorem performAll_ofPrelude (levels : List (List (String × Ty))) :
    performAll {} (Action.ofPrelude levels) = (ofPrelude levels).1 := by
  cases levels with
  | nil => rfl
  | cons bindings rest =>
    rw [Action.ofPrelude, performAll_append, ← fst_bindAll, ← fst_nestAll]
    rfl

namespace Recorded

variable {scope : Scope} {history : History}

/-- The functions bound in a scope are among what was made in it. -/
theorem subperm_ownFunctions (h : scope.Recorded history) :
    (scope.ownFunctions.map Prod.fst).Subperm history.registers := by
  have hbindings (bindings : List (String × Var)) :
      ((bindings.filterMap fun binding => binding.2.ty.signature?.map fun signature =>
        (binding.2.register, signature)).map Prod.fst).Sublist
        ((bindings.map Prod.snd).map Var.register) := by
    induction bindings with
    | nil => exact .slnil
    | cons binding rest ih =>
      cases hsignature : binding.2.ty.signature? with
      | none => simpa [hsignature] using ih.cons binding.2.register
      | some signature => simpa [hsignature] using ih
  have hinner : ((history.inner.map Entry.var).map Var.register).Sublist history.registers := by
    rw [History.registers, History.entries, History.levels, List.flatten_cons, List.map_append,
      List.map_map]
    exact List.sublist_append_left _ _
  refine ((perm_foldr_insertSorted _).map Prod.fst).subperm.trans (List.Sublist.subperm ?_)
  exact (hbindings _).trans ((h.bindings.map _).trans hinner)

theorem nodup_ownFunctions (h : scope.Recorded history) :
    (scope.ownFunctions.map Prod.fst).Nodup := by
  obtain ⟨registers, hperm, hsublist⟩ := h.subperm_ownFunctions
  exact hperm.nodup_iff.mp (hsublist.nodup h.nodup)

theorem inUse_of_mem_ownFunctions (h : scope.Recorded history) {symbol : String}
    (hmem : symbol ∈ scope.ownFunctions.map Prod.fst) : scope.inUse symbol :=
  h.inUse symbol (h.subperm_ownFunctions.subset hmem)

end Recorded

-- ════════════════════════
-- New bindings
-- ════════════════════════

/-- A property of scopes that new bindings keep. A new binding takes a register that is not in use, and
the register is called after the name. -/
def Inherited (P : Scope → Prop) : Prop :=
  ∀ (scope : Scope) (name : String) (var : Var), ¬scope.inUse var.register →
    NamedAfter name var.register → P scope → P (scope.insert name var)

namespace Inherited

variable {P : Scope → Prop} (h : Inherited P) {scope : Scope}
include h

theorem bind (name : String) (ty : Ty) (hscope : P scope) : P (scope.bind name ty).2 :=
  h scope name _ (scope.not_inUse_newRegister name) (scope.namedAfter_newRegister name) hscope

theorem mint (base : String) (ty : Ty) (hscope : P scope) : P (scope.mint base ty).2 :=
  h scope _ _ (scope.not_inUse_newRegister base) (Or.inl rfl) hscope

theorem enter (parameters : List (String × Ty)) (hscope : P scope) : P (scope.enter parameters).2 := by
  induction parameters generalizing scope with
  | nil => exact hscope
  | cons parameter rest ih => exact ih (h.bind _ _ (h.mint _ _ hscope))

theorem prologue (parameters : List (String × Ty)) (returns : Option Ty) (hscope : P scope) :
    P (scope.prologue parameters returns).scope := by
  have hlabelled := h.mint "cr" .label (h.enter parameters hscope)
  cases returns with
  | none => exact hlabelled
  | some ty => exact h.mint _ _ hlabelled

theorem performAll (hnest : ∀ scope, P scope → P scope.nest) (actions : List Action) (hscope : P scope) :
    P (scope.performAll actions) := by
  induction actions generalizing scope with
  | nil => exact hscope
  | cons action rest ih =>
    apply ih
    cases action with
    | bind | declare => exact h.bind _ _ hscope
    | mint | temporary => exact h.mint _ _ hscope
    | nest => exact hnest _ hscope
    | enter parameters => exact h.enter parameters hscope

theorem evolves {body last : Body} (hevolves : body.Evolves last) (hscope : P body.scope) :
    P last.scope := by
  refine hevolves.invariant (P := fun body => P body.scope) ?_ hscope
  intro body last hchange hbody
  cases hchange with
  | mint base ty => exact h.mint base ty hbody
  | rebind name ty => exact h.bind name ty hbody
  | addConstant | reserve | append => exact hbody

variable {table : TypeTable} {globals last : Globals}

theorem bindGlobal {name : String} {ty : Ty} {var : Var}
    (hrun : (ThreeAddress.bindGlobal name ty).eval globals = .ok (var, last)) (hroot : P globals.root) :
    P last.root := by
  obtain ⟨rfl, hlast⟩ := eval_bindGlobal hrun
  rw [hlast]
  exact h.bind name ty hroot

theorem declareSupport {functions : List Support} {declared : List (String × Signature)}
    (hrun : (ThreeAddress.declareSupport functions).eval globals = .ok (declared, last))
    (hroot : P globals.root) : P last.root := by
  induction functions generalizing globals declared with
  | nil =>
    obtain ⟨-, rfl⟩ := Pass.eval_pure_eq_ok_iff.mp hrun
    exact hroot
  | cons function rest ih =>
    simp only [ThreeAddress.declareSupport, Pass.eval_bind_eq_ok_iff, Pass.eval_get_eq_ok_iff] at hrun
    obtain ⟨_, _, ⟨rfl, rfl⟩, hrun⟩ := hrun
    split at hrun
    · exact ih hrun hroot
    · simp only [Pass.eval_bind_eq_ok_iff, Pass.eval_pure_eq_ok_iff] at hrun
      obtain ⟨var, middle, hbind, others, _, hrest, -, rfl⟩ := hrun
      exact ih hrest (h.bindGlobal hbind hroot)

theorem bindFunctions {seen : List String} {definitions : List FunctionDef}
    {functions : List BoundFunction}
    (hrun : (ThreeAddress.bindFunctions table seen definitions).eval globals = .ok (functions, last))
    (hroot : P globals.root) : P last.root := by
  induction definitions generalizing globals seen functions with
  | nil =>
    obtain ⟨-, rfl⟩ := Pass.eval_pure_eq_ok_iff.mp hrun
    exact hroot
  | cons definition rest ih =>
    simp only [ThreeAddress.bindFunctions, Pass.eval_bind_eq_ok_iff, Pass.eval_require_eq_ok_iff,
      Pass.eval_ofExcept_eq_ok_iff, Pass.eval_pure_eq_ok_iff] at hrun
    obtain ⟨_, _, ⟨-, rfl⟩, signature, _, ⟨-, rfl⟩, var, _, hbind, bound, _, hrest, -, rfl⟩ := hrun
    exact ih hrest (h.bindGlobal hbind hroot)

end Inherited

/-- What a name stands for behind a new binding. -/
theorem find?_insert_cases {scope : Scope} {name other : String} {var found : Var}
    (h : (scope.insert name var).find? other = some found) :
    other = name ∧ found = var ∨ scope.find? other = some found := by
  by_cases hname : other = name
  · subst hname
    rw [find?_insert_self, Option.some.injEq] at h
    exact Or.inl ⟨rfl, h.symm⟩
  · rw [find?_insert_of_ne _ _ hname] at h
    exact Or.inr h

-- ════════════════════════
-- One name for a register
-- ════════════════════════

/-- The registers of names are in use, they are called after the names, and no two names have the same
register. -/
structure Apart (scope : Scope) : Prop where
  inUse : ∀ {name var}, scope.find? name = some var → scope.inUse var.register
  named : ∀ {name var}, scope.find? name = some var → NamedAfter name var.register
  unique : ∀ {name other var another}, scope.find? name = some var →
    scope.find? other = some another → var.register = another.register → name = other

theorem inherited_apart : Inherited Apart := by
  intro scope name var hnew hnamed h
  have hold {other : String} {found : Var} (hfound : scope.find? other = some found) :
      found.register ≠ var.register := by
    intro heq
    exact hnew (heq ▸ h.inUse hfound)
  constructor
  · intro other found hfound
    rw [inUse_insert]
    rcases find?_insert_cases hfound with ⟨-, rfl⟩ | hfound
    · exact Or.inl rfl
    · exact Or.inr (h.inUse hfound)
  · intro other found hfound
    rcases find?_insert_cases hfound with ⟨rfl, rfl⟩ | hfound
    · exact hnamed
    · exact h.named hfound
  · intro first second found another hfirst hsecond heq
    rcases find?_insert_cases hfirst with ⟨rfl, rfl⟩ | hfirst' <;>
    rcases find?_insert_cases hsecond with ⟨rfl, rfl⟩ | hsecond'
    · rfl
    · exact absurd heq.symm (hold hsecond')
    · exact absurd heq (hold hfirst')
    · exact h.unique hfirst' hsecond' heq

theorem Apart.nest {scope : Scope} (h : scope.Apart) : scope.nest.Apart where
  inUse hfound := by
    rw [inUse_nest]
    exact h.inUse (find?_nest scope _ ▸ hfound)
  named hfound := h.named (find?_nest scope _ ▸ hfound)
  unique hfound hother := h.unique (find?_nest scope _ ▸ hfound) (find?_nest scope _ ▸ hother)

/-- Whatever was done to a scope, no two names have the same register. -/
theorem apart_performAll (actions : List Action) : (performAll {} actions).Apart := by
  refine inherited_apart.performAll (fun _ => Apart.nest) actions ?_
  constructor <;> simp [find?, levels]

end Scope

/-- The name of a support function is called after no other name, since it does not end with a number. -/
theorem NamedAfter.eq_support {name : String} {function : Support}
    (h : NamedAfter name function.name) : name = function.name := by
  rcases h with heq | ⟨number, heq⟩
  · exact heq.symm
  · exfalso
    have htext := congrArg String.toList heq
    rw [String.toList_append, Nat.toString_eq_repr, Nat.toList_repr] at htext
    have hlast := congrArg List.getLast? htext
    rw [List.getLast?_append_of_ne_nil _ Nat.toDigits_ne_nil,
      List.getLast?_eq_some_getLast Nat.toDigits_ne_nil] at hlast
    have hdigit := Nat.isDigit_of_mem_toDigits (by decide) (by decide)
      (List.getLast_mem (Nat.toDigits_ne_nil (b := 10) (n := number)))
    have hplain : ∀ c, function.name.toList.getLast? = some c → c.isDigit = false := by
      intro c hc
      cases function <;> cases hc <;> decide
    rw [hplain _ hlast] at hdigit
    cases hdigit

-- ════════════════════════
-- Registers of built-ins
-- ════════════════════════

namespace Scope

/-- A register that no name but that of a built-in has. Nor will another name get it: it is in use, or
called after a built-in. -/
structure Guards (scope : Scope) (register : String) : Prop where
  taken : scope.inUse register ∨ register = Support.printf.name
  isBuiltin : ∀ {name var}, scope.find? name = some var → var.register = register →
    (Builtin.ofName? name).isSome

theorem isSome_of_namedAfter_printf {name : String} (h : NamedAfter name Support.printf.name) :
    (Builtin.ofName? name).isSome := by
  rw [h.eq_support]
  decide

theorem inherited_guards (register : String) : Inherited (Guards · register) := by
  intro scope name var hnew hnamed h
  constructor
  · rw [inUse_insert]
    exact h.taken.imp_left Or.inr
  · intro other found hfound hregister
    rcases find?_insert_cases hfound with ⟨rfl, rfl⟩ | hfound
    · subst hregister
      rcases h.taken with hused | hprintf
      · exact absurd hused hnew
      · exact isSome_of_namedAfter_printf (hprintf ▸ hnamed)
    · exact h.isBuiltin hfound hregister

namespace Apart

variable {scope : Scope} (h : scope.Apart)
include h

/-- The register of a name that is that of a built-in is guarded. -/
theorem guards {name : String} {var : Var} (hfound : scope.find? name = some var)
    (hname : (Builtin.ofName? name).isSome) : scope.Guards var.register where
  taken := Or.inl (h.inUse hfound)
  isBuiltin hother heq := h.unique hother hfound heq ▸ hname

theorem guards_printf : scope.Guards Support.printf.name where
  taken := Or.inr rfl
  isBuiltin hfound heq := isSome_of_namedAfter_printf (heq ▸ h.named hfound)

end Apart

end Scope

end ThreeAddress
