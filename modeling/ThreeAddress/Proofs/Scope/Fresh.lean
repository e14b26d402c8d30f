import Mathlib.Data.Finset.Card
import Mathlib.Data.List.Nodup
import ThreeAddress.Scope

/-!
# New registers

A register that a scope makes is in use neither in that scope nor in a scope around it.

## Main definitions

* `Scope.taken`: the registers in use, as a finite set.
* `Scope.Finds`: the search among the numbered candidates for a base, without a limit.

## Main statements

* `Scope.exists_free_candidate`: among the numbered candidates for a base there is one that is not
  in use, and it is found within the fuel of the search.
* `Scope.finds_firstFree`: a search with enough fuel ends where the search without a limit does.
* `Scope.not_inUse_newRegister`: a new register was not in use.
* `Scope.Issued`: registers that were given out one after another, hence differ from each other.
* `Scope.Keyed`: every bound name is also in use as a register. `bind` and `mint` keep that, and
  because of it `mint` never hides a name that is bound.
* `Scope.nodup_registers_enter`: the registers of parameters differ from each other.
-/

namespace ThreeAddress

namespace Scope

-- ════════════════════════
-- The search for a free candidate
-- ════════════════════════

/-- The candidates for one base differ from each other. -/
theorem candidate_injective (base : String) :
    Function.Injective fun suffix : Nat => base ++ toString suffix := by
  intro a b h
  have hrepr : a.repr = b.repr := String.append_right_inj base |>.mp h
  have hread (n : Nat) : Nat.ofDigitChars 10 n.repr.toList 0 = n := by
    rw [Nat.toList_repr, Nat.ofDigitChars_ten_toDigits]
  rw [← hread a, hrepr, hread b]

theorem inUse_iff_mem_registers (scope : Scope) (register : String) :
    scope.inUse register ↔ register ∈ scope.registers := by
  simp [inUse, registers]

/-- The registers in use, here and around. -/
def taken (scope : Scope) : Finset String := scope.registers.toFinset

variable {scope : Scope} {base register : String}

theorem mem_taken : register ∈ scope.taken ↔ scope.inUse register := by
  rw [taken, List.mem_toFinset, inUse_iff_mem_registers]

/-- The first candidates for a base, as many as a number says. -/
def candidates (base : String) (number : Nat) : Finset String :=
  (Finset.range number).image fun suffix => base ++ toString suffix

theorem card_candidates (base : String) (number : Nat) : (candidates base number).card = number := by
  rw [candidates, Finset.card_image_of_injective _ (candidate_injective base), Finset.card_range]

theorem candidates_subset_taken {number : Nat}
    (h : ∀ smaller < number, scope.inUse (base ++ toString smaller)) :
    candidates base number ⊆ scope.taken := by
  intro candidate hmem
  obtain ⟨suffix, hlt, rfl⟩ := Finset.mem_image.mp hmem
  exact mem_taken.mpr (h suffix (Finset.mem_range.mp hlt))

/-- There are more candidates than registers, so one of them is free. -/
theorem exists_free_candidate (scope : Scope) (base : String) :
    ∃ suffix, suffix ≤ scope.registers.length ∧ ¬scope.inUse (base ++ toString suffix) := by
  by_contra hnone
  push Not at hnone
  have hsubset : candidates base (scope.registers.length + 1) ⊆ scope.taken :=
    candidates_subset_taken fun smaller hlt => hnone smaller (by omega)
  have hle := Finset.card_le_card hsubset
  have htaken : scope.taken.card ≤ scope.registers.length := List.toFinset_card_le _
  rw [card_candidates] at hle
  omega

/-- Looking at the numbered candidates for a base in order, from a suffix on, ends at a register that is
not in use. The candidates looked at are counted, the last one included. -/
inductive Finds (scope : Scope) (base : String) : (suffix looks : Nat) → (register : String) → Prop where
  | free {suffix : Nat} : ¬scope.inUse (base ++ toString suffix) →
      Finds scope base suffix 1 (base ++ toString suffix)
  | taken {suffix looks : Nat} {register : String} : scope.inUse (base ++ toString suffix) →
      Finds scope base (suffix + 1) looks register → Finds scope base suffix (looks + 1) register

/-- The search ends at the first candidate that is not in use. -/
theorem Finds.exists_number {suffix looks : Nat} (h : scope.Finds base suffix looks register) :
    ∃ number, number + 1 = suffix + looks ∧ register = base ++ toString number ∧
      ¬scope.inUse register ∧
      ∀ smaller, suffix ≤ smaller → smaller < number → scope.inUse (base ++ toString smaller) := by
  induction h with
  | @free suffix hfree => exact ⟨suffix, rfl, rfl, hfree, fun smaller hle hlt => by omega⟩
  | @taken suffix looks register hused _ ih =>
    obtain ⟨number, hlooks, hregister, hfree, hbelow⟩ := ih
    refine ⟨number, by omega, hregister, hfree, fun smaller hle hlt => ?_⟩
    rcases Nat.eq_or_lt_of_le hle with rfl | hgt
    · exact hused
    · exact hbelow smaller hgt hlt

/-- A search with enough fuel ends where the search without a limit does. -/
theorem finds_firstFree (fuel suffix : Nat)
    (h : ∃ free, suffix ≤ free ∧ free ≤ suffix + fuel ∧ ¬scope.inUse (base ++ toString free)) :
    ∃ looks, scope.Finds base suffix looks (scope.firstFree base fuel suffix) := by
  obtain ⟨free, hle, hge, hfree⟩ := h
  -- The suffix moves up to the free candidate as the fuel runs out, so the last one needs no look.
  induction fuel generalizing suffix with
  | zero =>
    obtain rfl : free = suffix := by omega
    exact ⟨1, .free hfree⟩
  | succ fuel ih =>
    rw [firstFree]
    split
    · next hused =>
      have hne : free ≠ suffix := by
        rintro rfl
        exact hfree hused
      obtain ⟨looks, hfinds⟩ := ih (suffix + 1) (by omega) (by omega)
      exact ⟨looks + 1, .taken hused hfinds⟩
    · next hunused => exact ⟨1, .free hunused⟩

/-- The search for a register has fuel enough. -/
theorem exists_finds_firstFree (scope : Scope) (base : String) :
    ∃ looks, scope.Finds base 0 looks (scope.firstFree base scope.registers.length 0) := by
  obtain ⟨free, hle, hfree⟩ := scope.exists_free_candidate base
  exact finds_firstFree _ 0 ⟨free, Nat.zero_le free, by omega, hfree⟩

/-- A new register was not in use. -/
theorem not_inUse_newRegister (scope : Scope) (base : String) :
    ¬scope.inUse (scope.newRegister base) := by
  rw [newRegister]
  split
  · obtain ⟨looks, hfinds⟩ := scope.exists_finds_firstFree base
    obtain ⟨number, -, -, hunused, -⟩ := hfinds.exists_number
    exact hunused
  · next hunused => exact hunused

/-- A new register is called like what it is made for, or like that with a number behind it. -/
theorem newRegister_eq (scope : Scope) (base : String) :
    scope.newRegister base = base ∨
      ∃ number : Nat, scope.newRegister base = base ++ toString number := by
  rw [newRegister]
  split
  · obtain ⟨looks, hfinds⟩ := scope.exists_finds_firstFree base
    obtain ⟨number, -, hregister, -, -⟩ := hfinds.exists_number
    exact Or.inr ⟨number, hregister⟩
  · exact Or.inl rfl

theorem exists_newRegister_eq (scope : Scope) (base : String) :
    ∃ suffix, scope.newRegister base = base ++ suffix := by
  rcases scope.newRegister_eq base with h | ⟨number, h⟩
  · exact ⟨"", h.trans (String.append_empty).symm⟩
  · exact ⟨_, h⟩

theorem inUse_mint (scope : Scope) (base : String) (ty : Ty) (register : String) :
    (scope.mint base ty).2.inUse register ↔
      register = scope.newRegister base ∨ scope.inUse register :=
  scope.inUse_insert _ _ _

theorem inUse_bind (scope : Scope) (name : String) (ty : Ty) (register : String) :
    (scope.bind name ty).2.inUse register ↔
      register = scope.newRegister name ∨ scope.inUse register :=
  scope.inUse_insert _ _ _

/-- Registers that were given out one after another. None was in use before, and nothing else came into
use. -/
structure Issued (before : Scope) (registers : List String) (after : Scope) : Prop where
  nodup : registers.Nodup
  fresh : ∀ register ∈ registers, ¬before.inUse register
  inUse_iff : ∀ register, after.inUse register ↔ register ∈ registers ∨ before.inUse register

namespace Issued

variable {before middle after : Scope} {first second : List String}

theorem refl (scope : Scope) : scope.Issued [] scope := by
  constructor <;> simp

theorem insert (scope : Scope) (name : String) (var : Var) (hnew : ¬scope.inUse var.register) :
    scope.Issued [var.register] (scope.insert name var) where
  nodup := List.nodup_singleton _
  fresh register hmem := by
    rw [List.mem_singleton.mp hmem]
    exact hnew
  inUse_iff register := by rw [inUse_insert, List.mem_singleton]

theorem append (h : before.Issued first middle) (h' : middle.Issued second after) :
    before.Issued (first ++ second) after where
  nodup := by
    refine List.nodup_append.mpr ⟨h.nodup, h'.nodup, ?_⟩
    rintro register hfirst _ hsecond rfl
    exact h'.fresh register hsecond ((h.inUse_iff register).mpr (Or.inl hfirst))
  fresh register hmem := by
    rcases List.mem_append.mp hmem with hfirst | hsecond
    · exact h.fresh register hfirst
    · exact fun hused => h'.fresh register hsecond ((h.inUse_iff register).mpr (Or.inr hused))
  inUse_iff register := by
    rw [h'.inUse_iff, h.inUse_iff, List.mem_append, or_left_comm, or_assoc]

theorem bind (scope : Scope) (name : String) (ty : Ty) :
    scope.Issued [scope.newRegister name] (scope.bind name ty).2 :=
  .insert scope name (scope.bind name ty).1 (scope.not_inUse_newRegister name)

theorem mint (scope : Scope) (base : String) (ty : Ty) :
    scope.Issued [scope.newRegister base] (scope.mint base ty).2 :=
  .insert scope _ (scope.mint base ty).1 (scope.not_inUse_newRegister base)

/-- What was in use before differs from what was given out. -/
theorem nodup_append (h : before.Issued first after) (old : List String) (hold : old.Nodup)
    (hused : ∀ register ∈ old, before.inUse register) : (old ++ first).Nodup := by
  refine List.nodup_append.mpr ⟨hold, h.nodup, ?_⟩
  rintro register hmem _ hfirst rfl
  exact h.fresh register hfirst (hused register hmem)

end Issued

-- ════════════════════════
-- Bound names are in use
-- ════════════════════════

/-- Every bound name is in use as a register, be it of another variable. -/
def Keyed (scope : Scope) : Prop :=
  ∀ name, (scope.find? name).isSome → scope.inUse name

theorem Keyed.empty : Keyed {} := by
  intro name h
  simp [find?, levels] at h

@[simp] theorem find?_nest (scope : Scope) (name : String) :
    scope.nest.find? name = scope.find? name := by
  simp only [nest, find?, levels, List.findSome?_cons, List.lookup_nil]

@[simp] theorem inUse_nest (scope : Scope) (register : String) :
    scope.nest.inUse register = scope.inUse register := by
  simp [nest, inUse, levels]

theorem Keyed.nest {scope : Scope} (h : scope.Keyed) : scope.nest.Keyed := by
  intro name hbound
  rw [find?_nest] at hbound
  rw [inUse_nest]
  exact h name hbound

/-- Adding a binding keeps bound names in use if the new name is. -/
theorem Keyed.insert {scope : Scope} (h : scope.Keyed) {name : String} {var : Var}
    (hname : name = var.register ∨ scope.inUse name) : (scope.insert name var).Keyed := by
  intro other hbound
  rw [inUse_insert]
  by_cases hother : other = name
  · subst hother
    exact hname
  · rw [find?_insert_of_ne scope var hother] at hbound
    exact Or.inr (h other hbound)

/-- The name a register is made for is in use from then on. -/
theorem eq_newRegister_or_inUse (scope : Scope) (base : String) :
    base = scope.newRegister base ∨ scope.inUse base := by
  by_cases hused : scope.inUse base
  · exact Or.inr hused
  · exact Or.inl (by rw [newRegister, if_neg hused])

theorem Keyed.bind {scope : Scope} (h : scope.Keyed) (name : String) (ty : Ty) :
    (scope.bind name ty).2.Keyed :=
  h.insert (scope.eq_newRegister_or_inUse name)

theorem Keyed.mint {scope : Scope} (h : scope.Keyed) (base : String) (ty : Ty) :
    (scope.mint base ty).2.Keyed :=
  h.insert (Or.inl rfl)

/-- A register that is bound under its own name hides no bound name. -/
theorem Keyed.find?_mint {scope : Scope} (h : scope.Keyed) (base : String) (ty : Ty)
    {name : String} {var : Var} (hfound : scope.find? name = some var) :
    (scope.mint base ty).2.find? name = some var := by
  have hne : name ≠ scope.newRegister base := by
    rintro rfl
    exact scope.not_inUse_newRegister base (h _ (by simp [hfound]))
  rw [← hfound]
  exact scope.find?_insert_of_ne _ hne

theorem Keyed.enter {scope : Scope} (h : scope.Keyed) (parameters : List (String × Ty)) :
    (scope.enter parameters).2.Keyed := by
  induction parameters generalizing scope with
  | nil => exact h
  | cons parameter rest ih => exact ih ((h.mint _ _).bind _ _)

/-- Parameters hide only what has the name of one of them. -/
theorem Keyed.find?_enter_of_not_mem {scope : Scope} (h : scope.Keyed)
    (parameters : List (String × Ty)) {name : String} {var : Var}
    (hname : name ∉ parameters.map Prod.fst) (hfound : scope.find? name = some var) :
    (scope.enter parameters).2.find? name = some var := by
  induction parameters generalizing scope with
  | nil => exact hfound
  | cons parameter rest ih =>
    rw [List.map_cons, List.mem_cons, not_or] at hname
    refine ih ((h.mint _ _).bind _ _) hname.2 ?_
    exact (find?_insert_of_ne _ _ hname.1).trans (h.find?_mint _ _ hfound)

/-- The name of a parameter stands for the stack slot of a parameter. -/
theorem Keyed.exists_find?_enter {scope : Scope} (h : scope.Keyed)
    (parameters : List (String × Ty)) {name : String} (hname : name ∈ parameters.map Prod.fst) :
    ∃ parameter ∈ (scope.enter parameters).1,
      (scope.enter parameters).2.find? name = some parameter.slot := by
  induction parameters generalizing scope with
  | nil => simp at hname
  | cons parameter rest ih =>
    have hkeyed := (h.mint (parameter.1 ++ ".val") parameter.2).bind parameter.1 parameter.2
    by_cases hrest : name ∈ rest.map Prod.fst
    · obtain ⟨found, hmem, hfound⟩ := ih hkeyed hrest
      exact ⟨found, List.mem_cons_of_mem _ hmem, hfound⟩
    · obtain rfl : name = parameter.1 := by simpa [hrest] using hname
      exact ⟨_, List.mem_cons_self, hkeyed.find?_enter_of_not_mem rest hrest (find?_insert_self _ _ _)⟩

end Scope

-- ════════════════════════
-- Parameters
-- ════════════════════════

/-- The two registers of a parameter. -/
def Parameter.registers (parameter : Parameter) : List String :=
  [parameter.incoming.register, parameter.slot.register]

namespace Scope

/-- The registers of parameters are given out one after another. -/
theorem Issued.enter (scope : Scope) (parameters : List (String × Ty)) :
    scope.Issued ((scope.enter parameters).1.flatMap Parameter.registers)
      (scope.enter parameters).2 := by
  induction parameters generalizing scope with
  | nil => exact .refl scope
  | cons parameter rest ih =>
    obtain ⟨name, ty⟩ := parameter
    have hminted := Issued.mint scope (name ++ ".val") ty
    exact (hminted.append (.bind _ name ty)).append (ih _)

/-- The registers of parameters are in use afterwards and were not before. -/
theorem fresh_registers_enter (scope : Scope) (parameters : List (String × Ty)) {register : String}
    (h : register ∈ (scope.enter parameters).1.flatMap Parameter.registers) :
    ¬scope.inUse register ∧ (scope.enter parameters).2.inUse register :=
  have hissued := Issued.enter scope parameters
  ⟨hissued.fresh register h, (hissued.inUse_iff register).mpr (Or.inl h)⟩

/-- The registers of parameters differ from each other, even if the parameters share a name. -/
theorem nodup_registers_enter (scope : Scope) (parameters : List (String × Ty)) :
    ((scope.enter parameters).1.flatMap Parameter.registers).Nodup :=
  (Issued.enter scope parameters).nodup

end Scope

end ThreeAddress
