import Mathlib.Order.Bounds.Basic
import ThreeAddress.Proofs.Scope.History

/-!
# The search for a new register

A base that is in use gets the least number behind it that makes it new. The search looks at one numbered
candidate after another. It ends in time because the candidates differ from each other and from the base:
as long as all of them are in use, there are more registers in use than candidates.

## Main definitions

* `Scope.Takes`: one new register in a scope, and no other change to the registers in use.
* `Scope.givesAll`: the registers that operations give out, in order.

## Main statements

* `Scope.lt_card_taken`: there are more registers in use than candidates that had to be passed over.
* `Scope.exists_least_newRegister`: the least number is found, and how soon.
* `Scope.Issued.performAll`: operations give out registers that are new and differ from each other.
* `finds_newRegister`: which register is found, how soon, and what is in use afterwards.
-/

namespace ThreeAddress

namespace Scope

variable {scope : Scope} {base : String}

theorem not_mem_candidates (base : String) (number : Nat) : base ∉ candidates base number := by
  intro hmem
  obtain ⟨suffix, -, heq⟩ := Finset.mem_image.mp hmem
  have htext := congrArg String.toList heq.symm
  rw [String.toList_append, List.self_eq_append_right, Nat.toString_eq_repr, Nat.toList_repr] at htext
  exact Nat.toDigits_ne_nil htext

/-- If a base and its first candidates are in use, there are more registers in use than such
candidates. -/
theorem lt_card_taken {number : Nat} (hbase : scope.inUse base)
    (hbelow : ∀ smaller < number, scope.inUse (base ++ toString smaller)) :
    number < scope.taken.card := by
  have hsubset : (candidates base number).cons base (not_mem_candidates base number) ⊆ scope.taken :=
    Finset.cons_subset.mpr ⟨mem_taken.mpr hbase, candidates_subset_taken hbelow⟩
  have hle := Finset.card_le_card hsubset
  rw [Finset.card_cons, card_candidates] at hle
  exact hle

/-- Behind a base that is in use comes the least number that makes it new, and the search for it looks at
no more candidates than there are registers in use. -/
theorem exists_least_newRegister (hbase : scope.inUse base) :
    ∃ number, scope.newRegister base = base ++ toString number ∧
      IsLeast {free : Nat | ¬scope.inUse (base ++ toString free)} number ∧
      scope.Finds base 0 (number + 1) (scope.newRegister base) ∧
      number + 1 ≤ scope.taken.card := by
  rw [newRegister, if_pos hbase]
  obtain ⟨looks, hfinds⟩ := scope.exists_finds_firstFree base
  obtain ⟨number, hlooks, hregister, hunused, hbelow⟩ := hfinds.exists_number
  obtain rfl : number + 1 = looks := by omega
  refine ⟨number, hregister, ⟨?_, fun other hother => ?_⟩, hfinds, ?_⟩
  · show ¬scope.inUse (base ++ toString number)
    rw [← hregister]
    exact hunused
  · exact Nat.le_of_not_lt fun hlt => hother (hbelow other (Nat.zero_le other) hlt)
  · exact lt_card_taken hbase fun smaller hlt => hbelow smaller (Nat.zero_le smaller) hlt

/-- A variable with a new register, and the scope that it is made in afterwards. The register is the only
one that comes into use, and the scopes around stay as they are. -/
structure Takes (before : Scope) (register : String) (made : Var × Scope) : Prop where
  register_eq : made.1.register = register
  fresh : ¬before.inUse register
  inner : made.2.inner.registers = register :: before.inner.registers
  outer : made.2.outer = before.outer

theorem takes_bind (scope : Scope) (name : String) (ty : Ty) :
    scope.Takes (scope.newRegister name) (scope.bind name ty) :=
  ⟨rfl, scope.not_inUse_newRegister name, rfl, rfl⟩

theorem takes_mint (scope : Scope) (base : String) (ty : Ty) :
    scope.Takes (scope.newRegister base) (scope.mint base ty) :=
  ⟨rfl, scope.not_inUse_newRegister base, rfl, rfl⟩

/-- The registers that an operation gives out, in order. -/
def gives (scope : Scope) : Action → List String
  | .bind name ty => [(scope.bind name ty).1.register]
  | .declare name signature => [(scope.bind name (.function signature)).1.register]
  | .mint base ty => [(scope.mint base ty).1.register]
  | .temporary ty => [(scope.temporary ty).1.register]
  | .nest => []
  | .enter parameters => (scope.enter parameters).1.flatMap Parameter.registers

/-- The registers that some operations give out, in order. -/
def givesAll (scope : Scope) : List Action → List String
  | [] => []
  | action :: rest => scope.gives action ++ (scope.perform action).givesAll rest

namespace Issued

theorem nest (scope : Scope) : scope.Issued [] scope.nest where
  nodup := List.nodup_nil
  fresh := by simp
  inUse_iff register := by simp

theorem perform (scope : Scope) (action : Action) :
    scope.Issued (scope.gives action) (scope.perform action) := by
  cases action with
  | bind name ty => exact .bind scope name ty
  | declare name signature => exact .bind scope name _
  | mint base ty => exact .mint scope base ty
  | temporary ty => exact .mint scope _ ty
  | nest => exact .nest scope
  | enter parameters => exact .enter scope parameters

/-- Operations give out registers that are new and differ from each other. -/
theorem performAll (scope : Scope) (actions : List Action) :
    scope.Issued (scope.givesAll actions) (scope.performAll actions) := by
  induction actions generalizing scope with
  | nil => exact .refl scope
  | cons action rest ih => exact (perform scope action).append (ih _)

end Issued

end Scope

/-- In every scope, a base that is not in use is a new register itself. Otherwise the new register is the
base with the least number behind it that is not in use, and the search for it ends: it looks at no more
numbered candidates than there are registers in use, so with the base at one more at most. That register
is then in use in the scope itself and nothing else changes. Hence the registers that operations give out,
from this scope on into forks of it and scopes inside it, differ from each other and from all that were in
use here and around. -/
theorem finds_newRegister (scope : Scope) (base : String) :
    (¬scope.inUse base → scope.newRegister base = base) ∧
    (scope.inUse base → ∃ number,
      scope.newRegister base = base ++ toString number ∧
      IsLeast {free : Nat | ¬scope.inUse (base ++ toString free)} number ∧
      scope.Finds base 0 (number + 1) (scope.newRegister base) ∧
      number + 1 ≤ scope.taken.card) ∧
    (∀ ty, scope.Takes (scope.newRegister base) (scope.bind base ty) ∧
      scope.Takes (scope.newRegister base) (scope.mint base ty)) ∧
    ∀ actions, (scope.givesAll actions).Nodup ∧
      ∀ register ∈ scope.givesAll actions, ¬scope.inUse register := by
  refine ⟨fun hunused => ?_, Scope.exists_least_newRegister, fun ty => ?_, fun actions => ?_⟩
  · rw [Scope.newRegister, if_neg hunused]
  · exact ⟨scope.takes_bind base ty, scope.takes_mint base ty⟩
  · have hissued := Scope.Issued.performAll scope actions
    exact ⟨hissued.nodup, hissued.fresh⟩

/-- Operations after which candidates for one base are in use as registers made for another. -/
def numbered : List Scope.Action := [
  .bind "x0" .i32,
  .bind "x" .i32,
  .bind "x" .i32,
  .nest,
  .mint "x1" .bool]

theorem finds_newRegister_numbered :
    (Scope.performAll {} numbered).inUse "x1" ∧
    (Scope.performAll {} numbered).newRegister "x1" = "x11" ∧
    (Scope.performAll {} numbered).Finds "x1" 0 2 "x11" ∧
    2 ≤ (Scope.performAll {} numbered).taken.card ∧
    ((Scope.performAll {} numbered).givesAll numbered).Nodup ∧
    ¬(Scope.performAll {} numbered).inUse "x2" := by
  have hused : (Scope.performAll {} numbered).inUse "x1" := by decide +kernel
  have hregister : (Scope.performAll {} numbered).newRegister "x1" = "x11" := by decide +kernel
  have hgiven : "x2" ∈ (Scope.performAll {} numbered).givesAll numbered := by decide +kernel
  obtain ⟨-, hsearch, -, hgives⟩ := finds_newRegister (Scope.performAll {} numbered) "x1"
  obtain ⟨number, heq, -, hfinds, hle⟩ := hsearch hused
  obtain rfl : number = 1 := Scope.candidate_injective "x1" (heq.symm.trans hregister)
  rw [hregister] at hfinds
  obtain ⟨hnodup, hfresh⟩ := hgives numbered
  exact ⟨hused, hregister, hfinds, hle, hnodup, hfresh "x2" hgiven⟩

end ThreeAddress
