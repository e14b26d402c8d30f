import Mathlib.Order.Defs.PartialOrder
import ThreeAddress.Proofs.Constants.Interning
import ThreeAddress.Proofs.Emission.Symbols
import ThreeAddress.Proofs.Renaming.Code
import ThreeAddress.Proofs.Renaming.Syntax

/-!
# Two runs in lock-step

A function and its renamed copy are lowered side by side. Whenever one run makes a register, so does
the other, and the two are paired. The names of the two runs may have nothing else in common: which
numbers are put behind a name depends on everything that is in scope. What the runs do depends only on
what names stand for, and that is the same up to pairing, since a new register never hides a bound
name.

## Main definitions

* `Agree`: two results that both succeed or both fail.
* `World`: the registers that are paired so far, and the constants of both modules.
* `Renaming`: new names for locals, and the symbols that stand for each other.
* `Body.Matches`: two bodies that are the same up to names.
* `Lowering.Lockstep`: two passes that keep them so.

## Main statements

* `Body.Matches.mint`, `Body.Matches.rebind`: new registers are paired.
* `Lowering.Lockstep.bind`: two sequences are in lock-step if their parts are.
* `Lowering.lockstep_emit`, `Lowering.lockstep_intern`: the primitive steps.
-/

namespace ThreeAddress

-- ════════════════════════
-- Results
-- ════════════════════════

section Agree

variable {α β α' β' : Type} {R : α → β → Prop}

/-- Two results that both succeed, with related values, or both fail. -/
inductive Agree (R : α → β → Prop) : Except Diagnostic α → Except Diagnostic β → Prop
  | ok {value : α} {other : β} (h : R value other) : Agree R (.ok value) (.ok other)
  | error (diagnostic other : Diagnostic) : Agree R (.error diagnostic) (.error other)

namespace Agree

theorem refl (result : Except Diagnostic α) : Agree Eq result result := by
  cases result with
  | ok value => exact .ok rfl
  | error diagnostic => exact .error _ _

theorem imp {R' : α → β → Prop} {first : Except Diagnostic α} {second : Except Diagnostic β}
    (h : Agree R first second) (himp : ∀ value other, R value other → R' value other) :
    Agree R' first second := by
  cases h with
  | ok h => exact .ok (himp _ _ h)
  | error diagnostic other => exact .error _ _

theorem bind {R' : α' → β' → Prop} {first : Except Diagnostic α} {second : Except Diagnostic β}
    {next : α → Except Diagnostic α'} {next' : β → Except Diagnostic β'} (h : Agree R first second)
    (hnext : ∀ value other, first = .ok value → R value other → Agree R' (next value) (next' other)) :
    Agree R' (first.bind next) (second.bind next') := by
  cases h with
  | ok h => exact hnext _ _ rfl h
  | error diagnostic other => exact .error _ _

theorem map {R' : α' → β' → Prop} {first : Except Diagnostic α} {second : Except Diagnostic β}
    {change : α → α'} {change' : β → β'} (h : Agree R first second)
    (hchange : ∀ value other, R value other → R' (change value) (change' other)) :
    Agree R' (first.map change) (second.map change') := by
  cases h with
  | ok h => exact .ok (hchange _ _ h)
  | error diagnostic other => exact .error _ _

/-- Two sequences agree if their parts do. -/
theorem eval_bind {σ σ' : Type} {R : α × σ → β × σ' → Prop} {R' : α' × σ → β' × σ' → Prop}
    {first : Pass σ α} {first' : Pass σ' β} {next : α → Pass σ α'} {next' : β → Pass σ' β'}
    {state : σ} {state' : σ'} (h : Agree R (first.eval state) (first'.eval state'))
    (hnext : ∀ value middle value' middle', first.eval state = .ok (value, middle) →
      R (value, middle) (value', middle') →
        Agree R' ((next value).eval middle) ((next' value').eval middle')) :
    Agree R' ((first >>= next).eval state) ((first' >>= next').eval state') := by
  rw [Pass.eval_bind, Pass.eval_bind]
  exact h.bind fun (value, middle) (value', middle') => hnext value middle value' middle'

theorem eval_bind_same {σ : Type} {R : α' × σ → β' × σ → Prop} {first : Pass σ α}
    {next : α → Pass σ α'} {next' : α → Pass σ β'} {state : σ}
    (hnext : ∀ value middle, first.eval state = .ok (value, middle) →
      Agree R ((next value).eval middle) ((next' value).eval middle)) :
    Agree R ((first >>= next).eval state) ((first >>= next').eval state) :=
  (refl _).eval_bind fun value middle _ _ hrun heq => by
    cases heq
    exact hnext value middle hrun

/-- Results may be replaced by such that agree with them. -/
theorem congr {first first' : Except Diagnostic α} {second second' : Except Diagnostic β}
    (h : Agree R first second) (hfirst : Agree Eq first first') (hsecond : Agree Eq second second') :
    Agree R first' second' := by
  cases h with
  | ok h =>
    cases hfirst with
    | ok heq =>
      cases hsecond with
      | ok heq' => exact .ok (heq ▸ heq' ▸ h)
  | error diagnostic other =>
    cases hfirst with
    | error =>
      cases hsecond with
      | error => exact .error _ _

end Agree

end Agree

-- ════════════════════════
-- Worlds
-- ════════════════════════

/-- What two runs have made so far: the registers of both, paired, and the names of both modules. -/
structure World where
  registers : List (String × String)
  left : Globals
  right : Globals

/-- A world grows by pairs of registers and by constants that both modules take in. -/
instance : Preorder World where
  le w w' := w.registers ⊆ w'.registers ∧ ∃ constants,
    w'.left = w.left.internAll constants ∧ w'.right = w.right.internAll constants
  le_refl w := ⟨List.Subset.refl _, [], rfl, rfl⟩
  le_trans w w' w'' h h' := by
    obtain ⟨hregisters, constants, hleft, hright⟩ := h
    obtain ⟨hregisters', constants', hleft', hright'⟩ := h'
    refine ⟨List.Subset.trans hregisters hregisters', constants ++ constants', ?_, ?_⟩
    · rw [hleft', hleft, Globals.internAll_append]
    · rw [hright', hright, Globals.internAll_append]

/-- New names for the locals of a function, for two modules in which functions may have different
symbols. -/
structure Renaming where
  /-- The new name of a local. -/
  change : String → String
  locals : List String
  /-- The names that the function calls. -/
  callees : List String
  /-- The symbols of functions that stand for each other in the two modules. -/
  links : String → String → Prop
  injOn : ∀ name ∈ locals, ∀ other ∈ locals, change name = change other → name = other
  /-- A called name is hidden by a local before the renaming if and only if it is afterwards. -/
  apart : ∀ callee ∈ callees, ∀ name ∈ locals, callee = name ↔ callee = change name
  support : ∀ function : Support, links function.name function.name

namespace World

variable {w w' : World}

/-- Two registers or labels that are paired. -/
def Pairs (w : World) (register other : String) : Prop := (register, other) ∈ w.registers

/-- Two variables whose registers are paired and that agree in everything else. -/
structure SameVar (w : World) (var other : Var) : Prop where
  register : w.Pairs var.register other.register
  ty : var.ty = other.ty
  dynamic : var.dynamic = other.dynamic

/-- The world with one more pair of registers. -/
def pair (w : World) (register other : String) : World :=
  { w with registers := (register, other) :: w.registers }

theorem le_pair (w : World) (register other : String) : w ≤ w.pair register other :=
  ⟨List.subset_cons_self _ _, [], rfl, rfl⟩

/-- The world in which both modules have a constant. -/
def intern (w : World) (constant : Constant) : World :=
  { w with left := w.left.intern constant, right := w.right.intern constant }

theorem le_intern (w : World) (constant : Constant) : w ≤ w.intern constant :=
  ⟨List.Subset.refl _, [constant], rfl, rfl⟩

theorem Pairs.mono {register other : String} (h : w.Pairs register other) (hle : w ≤ w') :
    w'.Pairs register other :=
  hle.1 h

theorem SameVar.mono {var other : Var} (h : w.SameVar var other) (hle : w ≤ w') :
    w'.SameVar var other :=
  ⟨h.register.mono hle, h.ty, h.dynamic⟩

end World

namespace Renaming

variable {naming : Renaming} {w w' : World}

/-- Two symbols that stand for each other: of functions, or of one constant. -/
def Symbols (naming : Renaming) (w : World) (symbol other : String) : Prop :=
  naming.links symbol other ∨ ∃ constant,
    w.left.constants.lookup constant = some symbol ∧ w.right.constants.lookup constant = some other

theorem Symbols.mono {symbol other : String} (h : naming.Symbols w symbol other) (hle : w ≤ w') :
    naming.Symbols w' symbol other := by
  obtain ⟨-, constants, hleft, hright⟩ := hle
  refine h.imp_right fun ⟨constant, hsymbol, hother⟩ => ⟨constant, ?_, ?_⟩
  · exact hleft ▸ Globals.lookup_internAll hsymbol constants
  · exact hright ▸ Globals.lookup_internAll hother constants

abbrev SameOperand (naming : Renaming) (w : World) : Operand → Operand → Prop :=
  Operand.Matches w.Pairs (naming.Symbols w)

abbrev SameValue (naming : Renaming) (w : World) : Value → Value → Prop :=
  Value.Matches w.Pairs (naming.Symbols w)

abbrev SameInstr (naming : Renaming) (w : World) : Instr → Instr → Prop :=
  Instr.Matches w.Pairs (naming.Symbols w)

theorem SameOperand.mono {operand other : Operand} (h : naming.SameOperand w operand other)
    (hle : w ≤ w') : naming.SameOperand w' operand other :=
  Operand.Matches.mono (fun _ _ h => h.mono hle) (fun _ _ h => h.mono hle) h

theorem SameValue.mono {value other : Value} (h : naming.SameValue w value other) (hle : w ≤ w') :
    naming.SameValue w' value other :=
  Value.Matches.mono (fun _ _ h => h.mono hle) (fun _ _ h => h.mono hle) h

theorem SameInstr.mono {instruction other : Instr} (h : naming.SameInstr w instruction other)
    (hle : w ≤ w') : naming.SameInstr w' instruction other :=
  Instr.Matches.mono (fun _ _ h => h.mono hle) (fun _ _ h => h.mono hle) h

end Renaming

theorem World.SameVar.operand {naming : Renaming} {w : World} {var other : Var}
    (h : w.SameVar var other) : naming.SameOperand w var.operand other.operand :=
  .register h.register

theorem World.SameVar.value {naming : Renaming} {w : World} {var other : Var}
    (h : w.SameVar var other) : naming.SameValue w var.value other.value :=
  ⟨h.operand, h.ty⟩

-- ════════════════════════
-- Bodies
-- ════════════════════════

/-- Two bodies that are the same up to names. `names` are the locals that both have declared. -/
structure Body.Matches (naming : Renaming) (w : World) (names : List String) (body other : Body) :
    Prop where
  keyed : body.scope.Keyed
  keyed' : other.scope.Keyed
  left : body.globals = w.left
  right : other.globals = w.right
  inUse : ∀ pair ∈ w.registers, body.scope.inUse pair.1 ∧ other.scope.inUse pair.2
  nodup : (w.registers.map Prod.fst).Nodup
  nodup' : (w.registers.map Prod.snd).Nodup
  subset : names ⊆ naming.locals
  /-- A local stands for the same variable under its new name. -/
  vars : ∀ name ∈ names, ∃ var var', body.scope.find? name = some var ∧
    other.scope.find? (naming.change name) = some var' ∧ w.SameVar var var'
  /-- A called name stands for the same function, or for none. -/
  functions : ∀ callee ∈ naming.callees, Agree
    (fun found found' => naming.links found.1.register found'.1.register ∧ found.2 = found'.2)
    (body.scope.functionNamed callee) (other.scope.functionNamed callee)
  entry : List.Forall₂ (naming.SameInstr w) body.entry other.entry
  code : List.Forall₂ (naming.SameInstr w) body.code other.code

namespace Scope

/-- A new register that is no function stands for none under its own name. -/
theorem Keyed.agree_functionNamed_mint {scope : Scope} (h : scope.Keyed) (base : String) {ty : Ty}
    (hty : ty.signature? = none) (name : String) :
    Agree Eq (scope.functionNamed name) ((scope.mint base ty).2.functionNamed name) := by
  by_cases hname : name = scope.newRegister base
  · have hnone : scope.find? name = none := by
      rw [← Option.not_isSome_iff_eq_none]
      intro hbound
      exact scope.not_inUse_newRegister base (hname ▸ h name hbound)
    have hnew : (scope.mint base ty).2.find? name =
        some (Var.make (scope.newRegister base) ty) := by
      rw [hname]
      exact find?_insert_self _ _ _
    rw [functionNamed, hnone, functionNamed, hnew]
    simp only [Var.make, hty]
    exact .error _ _
  · have hsame : (scope.mint base ty).2.find? name = scope.find? name :=
      find?_insert_of_ne _ _ hname
    rw [functionNamed, functionNamed, hsame]
    exact .refl _

/-- A local that is no function hides the function of its name, and no other. -/
theorem functionNamed_bind (scope : Scope) (name : String) {ty : Ty} (hty : ty.signature? = none)
    (callee : String) :
    (scope.bind name ty).2.functionNamed callee =
      if callee = name then .error (.notAFunction callee) else scope.functionNamed callee := by
  by_cases hname : callee = name
  · have hnew : (scope.bind name ty).2.find? callee =
        some (Var.make (scope.newRegister name) ty) :=
      hname ▸ find?_insert_self _ _ _
    rw [if_pos hname, functionNamed, hnew]
    simp only [Var.make, hty]
  · have hsame : (scope.bind name ty).2.find? callee = scope.find? callee :=
      find?_insert_of_ne _ _ hname
    rw [if_neg hname, functionNamed, hsame, functionNamed]

end Scope

namespace Body.Matches

variable {naming : Renaming} {w w' : World} {names : List String} {body other : Body}

/-- What is in use stays in use, and new registers are paired. -/
theorem nodup_pair (h : body.Matches naming w names other) {register register' : String}
    (hnew : ¬body.scope.inUse register) (hnew' : ¬other.scope.inUse register') :
    ((w.pair register register').registers.map Prod.fst).Nodup ∧
      ((w.pair register register').registers.map Prod.snd).Nodup := by
  constructor
  · refine List.nodup_cons.mpr ⟨fun hmem => ?_, h.nodup⟩
    obtain ⟨pair, hpair, rfl⟩ := List.mem_map.mp hmem
    exact hnew (h.inUse pair hpair).1
  · refine List.nodup_cons.mpr ⟨fun hmem => ?_, h.nodup'⟩
    obtain ⟨pair, hpair, rfl⟩ := List.mem_map.mp hmem
    exact hnew' (h.inUse pair hpair).2

/-- Both runs make a register, be it for different reasons. -/
theorem mint (h : body.Matches naming w names other) (base base' : String) {ty : Ty}
    (hty : ty.signature? = none) :
    (body.mint base ty).Matches naming
      (w.pair (body.scope.newRegister base) (other.scope.newRegister base')) names
      (other.mint base' ty) := by
  have hle := w.le_pair (body.scope.newRegister base) (other.scope.newRegister base')
  obtain ⟨hnodup, hnodup'⟩ := h.nodup_pair (body.scope.not_inUse_newRegister base)
    (other.scope.not_inUse_newRegister base')
  exact {
    keyed := h.keyed.mint base ty
    keyed' := h.keyed'.mint base' ty
    left := h.left
    right := h.right
    inUse := List.forall_mem_cons.mpr
      ⟨⟨(Scope.inUse_mint _ _ _ _).mpr (Or.inl rfl), (Scope.inUse_mint _ _ _ _).mpr (Or.inl rfl)⟩,
        fun pair hmem => ⟨(Scope.inUse_mint _ _ _ _).mpr (Or.inr (h.inUse pair hmem).1),
          (Scope.inUse_mint _ _ _ _).mpr (Or.inr (h.inUse pair hmem).2)⟩⟩
    nodup := hnodup
    nodup' := hnodup'
    subset := h.subset
    vars := by
      intro name hname
      obtain ⟨var, var', hvar, hvar', hsame⟩ := h.vars name hname
      exact ⟨var, var', h.keyed.find?_mint base ty hvar, h.keyed'.find?_mint base' ty hvar',
        hsame.mono hle⟩
    functions := fun callee hcallee => (h.functions callee hcallee).congr
      (h.keyed.agree_functionNamed_mint base hty callee)
      (h.keyed'.agree_functionNamed_mint base' hty callee)
    entry := h.entry.imp fun _ _ hsame => hsame.mono hle
    code := h.code.imp fun _ _ hsame => hsame.mono hle }

/-- Both runs bind a local, one of them under its new name. -/
theorem rebind (h : body.Matches naming w names other) {name : String}
    (hname : name ∈ naming.locals) {ty : Ty} (hty : ty.signature? = none) :
    (body.rebind name ty).Matches naming
      (w.pair (body.scope.newRegister name) (other.scope.newRegister (naming.change name)))
      (names ++ [name]) (other.rebind (naming.change name) ty) := by
  let renamed := naming.change name
  have hle := w.le_pair (body.scope.newRegister name) (other.scope.newRegister renamed)
  obtain ⟨hnodup, hnodup'⟩ := h.nodup_pair (body.scope.not_inUse_newRegister name)
    (other.scope.not_inUse_newRegister renamed)
  exact {
    keyed := h.keyed.bind name ty
    keyed' := h.keyed'.bind renamed ty
    left := h.left
    right := h.right
    inUse := List.forall_mem_cons.mpr
      ⟨⟨(Scope.inUse_bind _ _ _ _).mpr (Or.inl rfl), (Scope.inUse_bind _ _ _ _).mpr (Or.inl rfl)⟩,
        fun pair hmem => ⟨(Scope.inUse_bind _ _ _ _).mpr (Or.inr (h.inUse pair hmem).1),
          (Scope.inUse_bind _ _ _ _).mpr (Or.inr (h.inUse pair hmem).2)⟩⟩
    nodup := hnodup
    nodup' := hnodup'
    subset := List.append_subset.mpr ⟨h.subset, by simpa using hname⟩
    vars := by
      intro found hfound
      by_cases heq : found = name
      · subst heq
        exact ⟨_, _, Scope.find?_insert_self _ _ _, Scope.find?_insert_self _ _ _,
          List.mem_cons_self, rfl, rfl⟩
      · have hmem : found ∈ names := by simpa [heq] using hfound
        have hne : naming.change found ≠ renamed := fun hsame =>
          heq (naming.injOn found (h.subset hmem) name hname hsame)
        obtain ⟨var, var', hvar, hvar', hsame⟩ := h.vars found hmem
        exact ⟨var, var', (Scope.find?_insert_of_ne _ _ heq).trans hvar,
          (Scope.find?_insert_of_ne _ _ hne).trans hvar', hsame.mono hle⟩
    functions := by
      intro callee hcallee
      show Agree _ ((body.scope.bind name ty).2.functionNamed callee)
        ((other.scope.bind renamed ty).2.functionNamed callee)
      rw [Scope.functionNamed_bind _ _ hty, Scope.functionNamed_bind _ _ hty]
      by_cases heq : callee = name
      · rw [if_pos heq, if_pos ((naming.apart callee hcallee name hname).mp heq)]
        exact .error _ _
      · rw [if_neg heq, if_neg (mt (naming.apart callee hcallee name hname).mpr heq)]
        exact h.functions callee hcallee
    entry := h.entry.imp fun _ _ hsame => hsame.mono hle
    code := h.code.imp fun _ _ hsame => hsame.mono hle }

/-- Both runs look up a constant or take it in. -/
theorem intern (h : body.Matches naming w names other) (constant : Constant) :
    Body.Matches naming (w.intern constant) names
      { body with globals := body.globals.intern constant }
      { other with globals := other.globals.intern constant } where
  keyed := h.keyed
  keyed' := h.keyed'
  left := congrArg (Globals.intern · constant) h.left
  right := congrArg (Globals.intern · constant) h.right
  inUse := h.inUse
  nodup := h.nodup
  nodup' := h.nodup'
  subset := h.subset
  vars name hname := by
    obtain ⟨var, var', hvar, hvar', hsame⟩ := h.vars name hname
    exact ⟨var, var', hvar, hvar', hsame.mono (w.le_intern constant)⟩
  functions := h.functions
  entry := h.entry.imp fun _ _ hsame => hsame.mono (w.le_intern constant)
  code := h.code.imp fun _ _ hsame => hsame.mono (w.le_intern constant)

theorem append (h : body.Matches naming w names other) {instruction instruction' : Instr}
    (hsame : naming.SameInstr w instruction instruction') :
    (body.append instruction).Matches naming w names (other.append instruction') :=
  { h with
    entry := by
      rw [entry_append, entry_append]
      exact h.entry
    code := by
      rw [code_append, code_append]
      exact List.rel_append h.code (.cons hsame .nil) }

theorem reserve (h : body.Matches naming w names other) {slot slot' : Var}
    (hsame : w.SameVar slot slot') :
    (body.reserve slot).Matches naming w names (other.reserve slot') :=
  { h with
    entry := by
      rw [entry_reserve, entry_reserve, hsame.ty]
      exact List.rel_append h.entry (.cons (.alloca hsame.register _) .nil)
    code := by
      rw [code_reserve, code_reserve]
      exact h.code }

theorem close (h : body.Matches naming w names other) :
    body.close.Matches naming w names other.close :=
  { h with
    entry := by
      rw [entry_close, entry_close]
      exact h.entry
    code := by
      rw [code_close, code_close]
      exact h.code }

/-- Both runs are at the end of a block, or none is. -/
theorem isClosed_eq (h : body.Matches naming w names other) : body.isClosed = other.isClosed := by
  have hcode : List.Forall₂ (naming.SameInstr w) body.code.reverse
      other.code.reverse :=
    List.forall₂_reverse_iff.mpr h.code
  rw [isClosed, isClosed, ← List.head?_reverse, ← List.head?_reverse]
  generalize body.code.reverse = code at hcode ⊢
  generalize other.code.reverse = code' at hcode ⊢
  cases hcode with
  | nil => rfl
  | cons hhead _ => exact hhead.endsBlock_eq

/-- A local stands for the same variable in both bodies, or it may not be used in both. -/
theorem agree_variableNamed (h : body.Matches naming w names other) {name : String}
    (hname : name ∈ names) :
    Agree w.SameVar (body.scope.variableNamed name)
      (other.scope.variableNamed (naming.change name)) := by
  obtain ⟨var, var', hvar, hvar', hsame⟩ := h.vars name hname
  rw [Scope.variableNamed, Scope.variableNamed, hvar, hvar']
  simp only [← hsame.ty]
  by_cases hstorable : var.ty.isStorable
  · rw [if_pos hstorable, if_pos hstorable]
    exact .ok hsame
  · rw [if_neg hstorable, if_neg hstorable]
    exact .error _ _

end Body.Matches

-- ════════════════════════
-- Passes
-- ════════════════════════

namespace Lowering

variable {naming : Renaming} {w : World} {names names' : List String} {body other : Body}
  {α α' β β' : Type} {R : World → α → β → Prop} {R' : World → α' → β' → Prop}

/-- From two bodies on, two passes both succeed or both fail. If they succeed, the bodies they leave
are the same up to names, with the given locals declared, and so are their results. -/
def LockstepAt (naming : Renaming) (names : List String) (w : World) (R : World → α → β → Prop)
    (pass : Lowering α) (pass' : Lowering β) (body other : Body) : Prop :=
  Agree (fun result result' => ∃ w', w ≤ w' ∧ result.2.Matches naming w' names result'.2 ∧
    R w' result.1 result'.1) (pass.eval body) (pass'.eval other)

/-- Two passes that keep bodies the same up to names, in a world and whatever it grows to. -/
def Lockstep (naming : Renaming) (names : List String) (w : World) (R : World → α → β → Prop)
    (pass : Lowering α) (pass' : Lowering β) : Prop :=
  ∀ ⦃w'⦄, w ≤ w' → ∀ ⦃body other⦄, body.Matches naming w' names other →
    LockstepAt naming names w' R pass pass' body other

theorem LockstepAt.bind {first : Lowering α} {first' : Lowering β} {next : α → Lowering α'}
    {next' : β → Lowering β'} (h : LockstepAt naming names w R first first' body other)
    (hnext : ∀ w', w ≤ w' → ∀ value value' middle middle',
      first.eval body = .ok (value, middle) → middle.Matches naming w' names middle' →
      R w' value value' →
        LockstepAt naming names' w' R' (next value) (next' value') middle middle') :
    LockstepAt naming names' w R' (first >>= next) (first' >>= next') body other := by
  refine Agree.eval_bind h ?_
  rintro value middle value' middle' hrun ⟨w', hle, hmatches, hrelated⟩
  refine (hnext w' hle value value' middle middle' hrun hmatches hrelated).imp ?_
  rintro _ _ ⟨w'', hle', hresult⟩
  exact ⟨w'', hle.trans hle', hresult⟩

/-- Two sequences are in lock-step if their parts are. -/
theorem Lockstep.bind {first : Lowering α} {first' : Lowering β} {next : α → Lowering α'}
    {next' : β → Lowering β'} (h : Lockstep naming names w R first first')
    (hnext : ∀ w', w ≤ w' → ∀ value value', R w' value value' →
      Lockstep naming names w' R' (next value) (next' value')) :
    Lockstep naming names w R' (first >>= next) (first' >>= next') :=
  fun _ hle _ _ hmatches => (h hle hmatches).bind fun _ hle' value value' _ _ _ hmatches' hrelated =>
    hnext _ (hle.trans hle') value value' hrelated le_rfl hmatches'

theorem Lockstep.mono {pass : Lowering α} {pass' : Lowering β} {w' : World}
    (h : Lockstep naming names w R pass pass') (hle : w ≤ w') :
    Lockstep naming names w' R pass pass' :=
  fun _ hle' => h (hle.trans hle')

/-- Two passes that always succeed. -/
theorem lockstep_of_eval {pass : Lowering α} {pass' : Lowering β} {result : Body → α}
    {result' : Body → β} {change change' : Body → Body}
    (hrun : ∀ body, pass.eval body = .ok (result body, change body))
    (hrun' : ∀ body, pass'.eval body = .ok (result' body, change' body))
    (h : ∀ w', w ≤ w' → ∀ body other, body.Matches naming w' names other → ∃ w'', w' ≤ w'' ∧
      (change body).Matches naming w'' names (change' other) ∧ R w'' (result body) (result' other)) :
    Lockstep naming names w R pass pass' := by
  intro w' hle body other hmatches
  rw [LockstepAt, hrun, hrun']
  exact .ok (h w' hle body other hmatches)

theorem lockstep_pure {value : α} {value' : β} (h : ∀ w', w ≤ w' → R w' value value') :
    Lockstep naming names w R (pure value) (pure value') :=
  lockstep_of_eval (fun _ => rfl) (fun _ => rfl) fun w' hle _ _ hmatches =>
    ⟨w', le_rfl, hmatches, h w' hle⟩

theorem lockstep_nothing :
    Lockstep naming names w (fun _ _ _ => True) (pure ()) (pure ()) :=
  lockstep_pure fun _ _ => trivial

theorem Lockstep.map {pass : Lowering α} {pass' : Lowering β}
    (h : Lockstep naming names w R pass pass') {change : α → α'} {change' : β → β'}
    (hchange : ∀ w', w ≤ w' → ∀ value value', R w' value value' →
      ∀ w'', w' ≤ w'' → R' w'' (change value) (change' value')) :
    Lockstep naming names w R' (change <$> pass) (change' <$> pass') := by
  rw [map_eq_pure_bind, map_eq_pure_bind]
  exact h.bind fun w' hle value value' hvalue => lockstep_pure (hchange w' hle value value' hvalue)

theorem lockstep_fail (diagnostic diagnostic' : Diagnostic) :
    Lockstep naming names w R (Pass.fail diagnostic) (Pass.fail diagnostic') :=
  fun _ _ _ _ _ => .error _ _

theorem lockstepAt_ofExcept {R : α → β → Prop} {source : Except Diagnostic α}
    {source' : Except Diagnostic β} (hmatches : body.Matches naming w names other)
    (h : Agree R source source') :
    LockstepAt naming names w (fun _ => R) (Pass.ofExcept source) (Pass.ofExcept source') body
      other := by
  rw [LockstepAt, Pass.eval_ofExcept, Pass.eval_ofExcept]
  exact h.map fun _ _ hrelated => ⟨w, le_rfl, hmatches, hrelated⟩

theorem lockstep_ofExcept {source source' : Except Diagnostic α} (h : Agree Eq source source') :
    Lockstep naming names w (fun _ value value' => value = value' ∧ source = .ok value)
      (Pass.ofExcept source) (Pass.ofExcept source') := by
  intro w' _ body other hmatches
  refine lockstepAt_ofExcept hmatches ?_
  cases h with
  | ok heq => exact .ok ⟨heq, rfl⟩
  | error diagnostic other => exact .error _ _

theorem lockstep_require {condition condition' : Bool} {diagnostic diagnostic' : Diagnostic}
    (h : condition = condition') : Lockstep naming names w (fun _ _ _ => True)
      (Pass.require condition diagnostic) (Pass.require condition' diagnostic') := by
  subst h
  cases condition with
  | true => exact lockstep_nothing
  | false => exact lockstep_fail _ _

theorem lockstep_report (events events' : Trace) : Lockstep naming names w (fun _ _ _ => True)
    (Pass.report events) (Pass.report events') :=
  lockstep_of_eval (fun _ => rfl) (fun _ => rfl) fun w' _ _ _ hmatches =>
    ⟨w', le_rfl, hmatches, trivial⟩

/-- Two passes that begin with a look at the body. -/
theorem lockstepAt_get {next : Body → Lowering α} {next' : Body → Lowering β}
    (h : LockstepAt naming names w R (next body) (next' other) body other) :
    LockstepAt naming names w R (Pass.get >>= next) (Pass.get >>= next') body other := by
  rw [LockstepAt, Pass.eval_bind, Pass.eval_bind]
  exact h

theorem lockstep_expectType (site : Site) {expected expected' actual actual' : Ty}
    (hexpected : expected = expected') (hactual : actual = actual') :
    Lockstep naming names w (fun _ _ _ => True) (expectType site expected actual)
      (expectType site expected' actual') :=
  lockstep_require (by rw [hexpected, hactual])

-- ════════════════════════
-- Registers and instructions
-- ════════════════════════

theorem lockstep_mint (base base' : String) {ty : Ty} (hty : ty.signature? = none) :
    Lockstep naming names w (fun w' => w'.SameVar) (mint base ty) (mint base' ty) :=
  lockstep_of_eval (fun _ => eval_mint base ty) (fun _ => eval_mint base' ty)
    fun w' _ _ _ hmatches => ⟨_, w'.le_pair _ _, hmatches.mint base base' hty,
      List.mem_cons_self, rfl, rfl⟩

theorem lockstep_temporary {ty : Ty} (hty : ty.signature? = none) :
    Lockstep naming names w (fun w' => w'.SameVar) (temporary ty) (temporary ty) :=
  lockstep_of_eval (fun _ => rfl) (fun _ => rfl)
    fun w' _ _ _ hmatches => ⟨_, w'.le_pair _ _, hmatches.mint _ _ hty,
      List.mem_cons_self, rfl, rfl⟩

theorem lockstep_newLabel (base : String) :
    Lockstep naming names w (fun w' => w'.Pairs) (newLabel base) (newLabel base) :=
  (lockstep_mint base base rfl).map fun _ _ _ _ hsame _ hle => hsame.register.mono hle

theorem lockstep_append {instruction instruction' : Instr}
    (h : naming.SameInstr w instruction instruction') :
    Lockstep naming names w (fun _ _ _ => True) (append instruction) (append instruction') :=
  lockstep_of_eval (fun _ => rfl) (fun _ => rfl) fun w' hle _ _ hmatches =>
    ⟨w', le_rfl, hmatches.append (h.mono hle), trivial⟩

theorem lockstep_checkConcrete {instruction instruction' : Instr}
    (h : naming.SameInstr w instruction instruction') :
    Lockstep naming names w (fun _ _ _ => True) (checkConcrete instruction)
      (checkConcrete instruction') := by
  have hplaceholder : instruction.placeholder? = instruction'.placeholder? := by
    rw [Instr.placeholder?, Instr.placeholder?, h.mentions_eq]
  unfold checkConcrete
  rw [hplaceholder]
  cases instruction'.placeholder? with
  | some ty => exact lockstep_fail _ _
  | none => exact lockstep_nothing

/-- A block that nothing leads to gets a label in both runs. -/
theorem lockstep_separate {instruction instruction' : Instr}
    (h : naming.SameInstr w instruction instruction') :
    Lockstep naming names w (fun _ _ _ => True) (separate instruction) (separate instruction') := by
  have hdead : Lockstep naming names w (fun _ _ _ => True)
      (do
        let dead ← newLabel "dead"
        append (.label dead))
      (do
        let dead ← newLabel "dead"
        append (.label dead)) :=
    (lockstep_newLabel _).bind fun _ _ _ _ hpair => lockstep_append (.label hpair)
  intro w' hle body other hmatches
  refine lockstepAt_get ?_
  rw [hmatches.isClosed_eq]
  cases h with
  | label hpair =>
    cases other.isClosed with
    | true => exact lockstep_nothing hle hmatches
    | false => exact lockstep_append (.branch hpair) hle hmatches
  | _ =>
    cases other.isClosed with
    | true => exact hdead hle hmatches
    | false => exact lockstep_nothing hle hmatches

theorem lockstep_emit {instruction instruction' : Instr}
    (h : naming.SameInstr w instruction instruction') :
    Lockstep naming names w (fun _ _ _ => True) (emit instruction) (emit instruction') := by
  refine (lockstep_checkConcrete h).bind fun _ hle _ _ _ => ?_
  refine (lockstep_separate (h.mono hle)).bind fun _ hle' _ _ _ => ?_
  exact lockstep_append (h.mono (hle.trans hle'))

theorem lockstep_reserve {slot slot' : Var} (h : w.SameVar slot slot') :
    Lockstep naming names w (fun _ _ _ => True) (reserve slot) (reserve slot') := by
  have hsame : naming.SameInstr w (.alloca slot.register slot.ty) (.alloca slot'.register slot'.ty) :=
    h.ty ▸ .alloca h.register _
  refine (lockstep_checkConcrete hsame).bind fun _ hle _ _ _ => ?_
  exact lockstep_of_eval (fun _ => rfl) (fun _ => rfl) fun w' hle' _ _ hmatches =>
    ⟨w', le_rfl, hmatches.reserve (h.mono (hle.trans hle')), trivial⟩

theorem lockstep_intern (constant : Constant) :
    Lockstep naming names w naming.Symbols (intern constant) (intern constant) := by
  intro w' hle body other hmatches
  obtain ⟨symbol, hrun, hlookup⟩ := eval_intern_intern constant body
  obtain ⟨symbol', hrun', hlookup'⟩ := eval_intern_intern constant other
  rw [LockstepAt, hrun, hrun']
  refine .ok ⟨_, w'.le_intern constant, hmatches.intern constant, Or.inr ⟨constant, ?_, ?_⟩⟩
  · exact hmatches.left ▸ hlookup
  · exact hmatches.right ▸ hlookup'

/-- A local stands for the same variable in both runs. -/
theorem lockstep_variableNamed {name : String} (hname : name ∈ names) :
    Lockstep naming names w (fun w' => w'.SameVar) (variableNamed name)
      (variableNamed (naming.change name)) := by
  intro w' _ body other hmatches
  refine lockstepAt_get ?_
  rw [LockstepAt, Pass.eval_ofExcept, Pass.eval_ofExcept]
  exact (hmatches.agree_variableNamed hname).map fun _ _ hsame => ⟨w', le_rfl, hmatches, hsame⟩

end Lowering

end ThreeAddress
