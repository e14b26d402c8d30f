import Mathlib.Data.List.Nodup
import ThreeAddress.Proofs.Emission.Module

/-!
# Interned constants

A constant gets a symbol when it is first used and keeps it from then on. So the constants of a module
are those that its code uses, each of them once.

## Main definitions

* `Globals.intern`, `Globals.internAll`: constants that have got their symbols.
* `Globals.known`: the constants that have symbols.

## Main statements

* `Globals.lookup_internAll`: a constant keeps its symbol.
* `Globals.mem_known_internAll`, `Globals.nodup_known_internAll`: which constants have symbols.
* `Lowering.eval_intern_intern`: asking for the symbol of a constant interns it.
-/

namespace ThreeAddress

theorem lookup_eq_some_iff_mem {α β : Type} [BEq α] [LawfulBEq α] {entries : List (α × β)}
    (h : (entries.map Prod.fst).Nodup) {key : α} {value : β} :
    entries.lookup key = some value ↔ (key, value) ∈ entries := by
  induction entries with
  | nil => simp
  | cons entry rest ih =>
    obtain ⟨found, content⟩ := entry
    rw [List.map_cons, List.nodup_cons] at h
    by_cases hkey : key = found
    · subst hkey
      have hnot : (key, value) ∉ rest := fun hmem =>
        h.1 (List.mem_map.mpr ⟨_, hmem, rfl⟩)
      simp [hnot, eq_comm]
    · have hne : (key == found) = false := by simpa using hkey
      simp [List.lookup_cons, hne, ih h.2, hkey]

namespace Globals

/-- The names of a module in which a constant has its symbol. -/
def intern (globals : Globals) (constant : Constant) : Globals :=
  match globals.constants.lookup constant with
  | some _ => globals
  | none => globals.add constant

/-- The names of a module in which constants have their symbols, given in order. -/
def internAll (globals : Globals) (constants : List Constant) : Globals :=
  constants.foldl intern globals

theorem internAll_nil (globals : Globals) : globals.internAll [] = globals := rfl

theorem internAll_append (globals : Globals) (constants more : List Constant) :
    globals.internAll (constants ++ more) = (globals.internAll constants).internAll more :=
  List.foldl_append

theorem lookup_add_self {globals : Globals} {constant : Constant}
    (h : globals.constants.lookup constant = none) :
    (globals.add constant).constants.lookup constant =
      some (globals.root.newRegister constant.base) := by
  rw [add, List.lookup_append, h]
  simp

/-- A constant keeps its symbol. -/
theorem lookup_intern {globals : Globals} {constant : Constant} {symbol : String}
    (h : globals.constants.lookup constant = some symbol) (other : Constant) :
    (globals.intern other).constants.lookup constant = some symbol := by
  rw [intern]
  cases globals.constants.lookup other with
  | some _ => exact h
  | none => rw [add, List.lookup_append, h, Option.some_or]

theorem lookup_internAll {globals : Globals} {constant : Constant} {symbol : String}
    (h : globals.constants.lookup constant = some symbol) (constants : List Constant) :
    (globals.internAll constants).constants.lookup constant = some symbol := by
  induction constants generalizing globals with
  | nil => exact h
  | cons other rest ih => exact ih (lookup_intern h other)

variable {globals : Globals}

/-- What one more constant keeps, however many constants keep it. -/
theorem internAll_induction {P : Globals → Prop}
    (hadd : ∀ globals constant, globals.constants.lookup constant = none → P globals →
      P (globals.add constant))
    (h : P globals) (constants : List Constant) : P (globals.internAll constants) := by
  induction constants generalizing globals with
  | nil => exact h
  | cons constant rest ih =>
    refine ih ?_
    rw [intern]
    cases hlookup : globals.constants.lookup constant with
    | some symbol => exact h
    | none => exact hadd globals constant hlookup h

/-- The constants that have symbols. -/
def known (globals : Globals) : List Constant := globals.constants.map Prod.fst

theorem lookup_eq_none_iff_known {constant : Constant} :
    globals.constants.lookup constant = none ↔ constant ∉ globals.known := by
  simp only [List.lookup_eq_none_iff, known, List.mem_map, bne_iff_ne, not_exists, not_and]
  exact forall₂_congr fun _ _ => ⟨Ne.symm, Ne.symm⟩

theorem known_add (globals : Globals) (constant : Constant) :
    (globals.add constant).known = globals.known ++ [constant] := by
  simp [known, add]

theorem mem_known_internAll {constants : List Constant} {constant : Constant} :
    constant ∈ (globals.internAll constants).known ↔
      constant ∈ globals.known ∨ constant ∈ constants := by
  induction constants generalizing globals with
  | nil => simp [internAll]
  | cons other rest ih =>
    have hother : constant ∈ (globals.intern other).known ↔
        constant ∈ globals.known ∨ constant = other := by
      rw [intern]
      cases hlookup : globals.constants.lookup other with
      | none => simp [known_add]
      | some symbol =>
        have hknown : other ∈ globals.known := by
          by_contra hnot
          rw [lookup_eq_none_iff_known.mpr hnot] at hlookup
          cases hlookup
        exact ⟨Or.inl, fun h => h.elim id fun heq => heq ▸ hknown⟩
    rw [internAll, List.foldl_cons, ← internAll, ih, hother, List.mem_cons, or_assoc]

theorem nodup_known_internAll (h : globals.known.Nodup) (constants : List Constant) :
    (globals.internAll constants).known.Nodup := by
  refine internAll_induction (P := fun globals => globals.known.Nodup) ?_ h constants
  intro globals constant hlookup hnodup
  rw [known_add, List.nodup_append]
  refine ⟨hnodup, List.nodup_singleton _, ?_⟩
  rintro other hmem _ hconstant rfl
  exact lookup_eq_none_iff_known.mp hlookup (List.mem_singleton.mp hconstant ▸ hmem)

end Globals

namespace Lowering

/-- Asking for the symbol of a constant interns it. -/
theorem eval_intern_intern (constant : Constant) (body : Body) : ∃ symbol,
    (intern constant).eval body =
      .ok (symbol, { body with globals := body.globals.intern constant }) ∧
    (body.globals.intern constant).constants.lookup constant = some symbol := by
  rw [eval_intern_eq, Globals.intern]
  cases hlookup : body.globals.constants.lookup constant with
  | some symbol => exact ⟨symbol, rfl, hlookup⟩
  | none => exact ⟨_, rfl, Globals.lookup_add_self hlookup⟩

end Lowering

end ThreeAddress
