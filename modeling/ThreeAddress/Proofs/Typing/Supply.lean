import ThreeAddress.Proofs.Scope.Ownership
import ThreeAddress.Proofs.Typing.Grounded

/-!
# Where functions come from

A module has no way to write down the type of a function. So a variable holds a function only if it was had
from the prelude, where it stands inside the type of a name: a variable refers to it, or a function takes or
returns it. All other calls name what a name of the module scope stands for.

## Main definitions

* `Ty.Holds`: a type that stands somewhere in another.
* `Ty.Supplied`: the functions in a type have a known origin.
* `Setting.supplied`: the setting in which the functions that variables hold have one.
* `Scope.Stores`: a function that can be had from a prelude in this way.
* `Scope.Within`: a scope that was made inside another.

## Main statements

* `Setting.supplied_binds`: the module scope keeps to the setting.
* `Scope.inherited_within`: names stand for what they stood for outside, or they have new registers.
-/

namespace ThreeAddress

/-- A type stands somewhere in another: behind references, in an array or a struct, or in the
signature of a function. -/
inductive Ty.Holds : Ty → Ty → Prop where
  | here (ty : Ty) : Holds ty ty
  | ref {target part : Ty} : Holds target part → Holds (.ref target) part
  | array {member part : Ty} (extent : Extent) : Holds member part → Holds (.array member extent) part
  | struct {definition : StructTy} {member : Member} {part : Ty} : member ∈ definition.members →
      Holds member.ty part → Holds (.struct definition) part
  | returns {signature : Signature} {ty part : Ty} : ty ∈ signature.returns → Holds ty part →
      Holds (.function signature) part
  | parameter {signature : Signature} {ty part : Ty} : ty ∈ signature.parameters → Holds ty part →
      Holds (.function signature) part

/-- What stands in a type with a runtime representation has one itself. -/
theorem Ty.Grounded.holds {ty part : Ty} (h : ty.Grounded) (hholds : ty.Holds part) :
    part.Grounded := by
  induction hholds with
  | here => exact h
  | ref _ ih =>
    cases h with
    | ref h => exact ih h
  | array _ _ ih =>
    cases h with
    | array _ h => exact ih h
  | struct hmem _ ih =>
    cases h with
    | struct h => exact ih (h _ hmem)
  | returns | parameter => cases h

/-- What a function returns is smaller than the type of the function. -/
theorem Ty.sizeOf_lt_of_mem_returns {signature : Signature} {ty : Ty} (h : ty ∈ signature.returns) :
    sizeOf ty < sizeOf (Ty.function signature) := by
  obtain ⟨returns, parameters, variadic⟩ := signature
  cases h
  simp only [Ty.function.sizeOf_spec, Signature.mk.sizeOf_spec, Option.some.sizeOf_spec]
  omega

/-- What a function takes is smaller than the type of the function. -/
theorem Ty.sizeOf_lt_of_mem_parameters {signature : Signature} {ty : Ty}
    (h : ty ∈ signature.parameters) : sizeOf ty < sizeOf (Ty.function signature) := by
  obtain ⟨returns, parameters, variadic⟩ := signature
  have hlt := List.sizeOf_lt_of_mem h
  simp only [Ty.function.sizeOf_spec, Signature.mk.sizeOf_spec] at hlt ⊢
  omega

/-- What stands in a type is no larger than the type. -/
theorem Ty.Holds.sizeOf_le {ty part : Ty} (h : ty.Holds part) : sizeOf part ≤ sizeOf ty := by
  induction h with
  | here => exact le_rfl
  | ref _ ih =>
    rw [Ty.ref.sizeOf_spec]
    omega
  | array _ _ ih =>
    rw [Ty.array.sizeOf_spec]
    omega
  | @struct definition member _ hmem _ ih =>
    obtain ⟨name, members⟩ := definition
    obtain ⟨label, ty⟩ := member
    have hlt := List.sizeOf_lt_of_mem hmem
    simp only [Ty.struct.sizeOf_spec, StructTy.mk.sizeOf_spec, Member.mk.sizeOf_spec] at hlt ih ⊢
    omega
  | returns hmem _ ih => exact ih.trans (Ty.sizeOf_lt_of_mem_returns hmem).le
  | parameter hmem _ ih => exact ih.trans (Ty.sizeOf_lt_of_mem_parameters hmem).le

/-- The functions in a type have a known origin. -/
def Ty.Supplied (origin : Signature → Prop) (ty : Ty) : Prop :=
  ∀ ⦃signature⦄, ty.Holds (.function signature) → origin signature

/-- The functions that a function takes or returns have a known origin. -/
structure Signature.Supplied (origin : Signature → Prop) (signature : Signature) : Prop where
  returns : ∀ ty ∈ signature.returns, ty.Supplied origin
  parameters : ∀ ty ∈ signature.parameters, ty.Supplied origin

theorem Ty.Grounded.supplied {ty : Ty} (h : ty.Grounded) (origin : Signature → Prop) :
    ty.Supplied origin := by
  intro signature hholds
  cases h.holds hholds

theorem Signature.Grounded.supplied {signature : Signature} (h : signature.Grounded)
    (origin : Signature → Prop) : signature.Supplied origin :=
  ⟨fun ty hmem => (h.returns ty hmem).supplied origin,
    fun ty hmem => (h.parameters ty hmem).supplied origin⟩

variable {table : TypeTable}

/-- The setting in which the functions that variables hold have a known origin, and in which all functions
that are called are linked. -/
def Setting.supplied (htable : table.Grounded) (origin : Signature → Prop)
    (linked : String → Signature → Prop)
    (hheld : ∀ signature, origin signature → ∀ register, linked register signature)
    (hsupport : ∀ function : Support, linked function.name function.signature) : Setting table where
  checked := False
  value ty := ty.Supplied origin
  known _ := True
  callable register signature := signature.Supplied origin ∧ linked register signature
  kept := []
  stage _ := True
  int width := (Ty.Grounded.int width).supplied origin
  result := Ty.Grounded.result.supplied origin
  ref h := by
    intro signature hholds
    cases hholds with
    | ref hholds => exact h hholds
  array extent _ h := by
    intro signature hholds
    cases hholds with
    | array _ hholds => exact h hholds
  struct hmem := (htable _ hmem).supplied origin
  target h _ hholds := h (.ref hholds)
  element h _ hholds := h (.array _ hholds)
  member h _ hmem _ hholds := h (.struct hmem hholds)
  function h register := ⟨⟨fun _ hmem _ hholds => h (.returns hmem hholds),
    fun _ hmem _ hholds => h (.parameter hmem hholds)⟩, hheld _ (h (.here _)) register⟩
  returns h := h.1.returns
  parameters h := h.1.parameters
  support function := ⟨function.grounded.supplied origin, hsupport function⟩
  grow _ _ := trivial
  temporary _ := trivial

/-- A function that stands inside the type of a name of a prelude. -/
def Scope.Stores (prelude : Scope) (signature : Signature) : Prop :=
  ∃ name var, prelude.find? name = some var ∧ var.ty.Holds (.function signature) ∧
    var.ty ≠ .function signature

section Preludes

variable {prelude : Scope} {name : String} {var : Var}

/-- What a variable of the prelude holds stands inside its type. -/
theorem Ty.supplied_of_find? (hfound : prelude.find? name = some var) (hstorable : var.ty.isStorable) :
    var.ty.Supplied prelude.Stores := by
  intro signature hholds
  refine ⟨name, var, hfound, hholds, fun hty => ?_⟩
  rw [hty] at hstorable
  cases hstorable

/-- What a function of the prelude takes or returns stands inside its type. The function itself does not
stand in there. -/
theorem Signature.supplied_of_find? {signature : Signature} (hfound : prelude.find? name = some var)
    (hty : var.ty = .function signature) : signature.Supplied prelude.Stores := by
  have hinner {ty : Ty} (hlt : sizeOf ty < sizeOf (Ty.function signature))
      (hpart : ∀ {part}, ty.Holds part → (Ty.function signature).Holds part) :
      ty.Supplied prelude.Stores := by
    intro other hholds
    refine ⟨name, var, hfound, hty ▸ hpart hholds, fun hother => ?_⟩
    have hle := hholds.sizeOf_le
    rw [← hother, hty] at hle
    omega
  constructor
  · exact fun ty hmem => hinner (Ty.sizeOf_lt_of_mem_returns hmem) (.returns hmem)
  · exact fun ty hmem => hinner (Ty.sizeOf_lt_of_mem_parameters hmem) (.parameter hmem)

/-- A name of the module scope is that of the prelude, unless it is the name of a support function that was
declared. -/
theorem find?_declareSupport {functions : List Support} {declared : List (String × Signature)}
    {globals last : Globals} (h : (declareSupport functions).eval globals = .ok (declared, last))
    {name : String} {var : Var} (hfound : last.root.find? name = some var) :
    globals.root.find? name = some var ∨
      ∃ function : Support, name = function.name ∧ var.ty = .function function.signature ∧
        (var.register, function.signature) ∈ declared := by
  induction functions generalizing globals declared with
  | nil =>
    obtain ⟨-, rfl⟩ := Pass.eval_pure_eq_ok_iff.mp h
    exact Or.inl hfound
  | cons function rest ih =>
    simp only [declareSupport, Pass.eval_bind_eq_ok_iff, Pass.eval_get_eq_ok_iff] at h
    obtain ⟨_, _, ⟨rfl, rfl⟩, h⟩ := h
    split at h
    · exact ih h
    · simp only [Pass.eval_bind_eq_ok_iff, Pass.eval_pure_eq_ok_iff] at h
      obtain ⟨bound, middle, hbind, others, _, hrest, rfl, rfl⟩ := h
      obtain ⟨rfl, hroot⟩ := eval_bindGlobal hbind
      rcases ih hrest with hmiddle | ⟨other, hname, hty, hmem⟩
      · rw [hroot] at hmiddle
        rcases Scope.find?_insert_cases hmiddle with ⟨rfl, rfl⟩ | hglobals
        · exact Or.inr ⟨function, rfl, rfl, List.mem_cons_self⟩
        · exact Or.inl hglobals
      · exact Or.inr ⟨other, hname, hty, List.mem_cons_of_mem _ hmem⟩

/-- With the support functions declared, the module scope keeps to the setting if its functions are
linked. -/
theorem Setting.supplied_binds {support : List (String × Signature)} {declared : Globals}
    (hdeclare : (declareSupport Support.all).eval { root := prelude.nest } = .ok (support, declared))
    (htable : table.Grounded) {origin : Signature → Prop} {linked : String → Signature → Prop}
    {hheld : ∀ signature, origin signature → ∀ register, linked register signature}
    {hsupport : ∀ function : Support, linked function.name function.signature}
    (hstores : ∀ signature, prelude.Stores signature → origin signature)
    (hlinked : ∀ {name var signature}, declared.root.find? name = some var →
      var.ty = .function signature → linked var.register signature) :
    (Setting.supplied htable origin linked hheld hsupport).Binds [] declared.root := by
  constructor
  · intro name var hfound hstorable
    refine ⟨?_, Or.inr trivial⟩
    rcases find?_declareSupport hdeclare hfound with hprelude | ⟨function, -, hty, -⟩
    · rw [Scope.find?_nest] at hprelude
      intro signature hholds
      exact hstores _ (Ty.supplied_of_find? hprelude hstorable hholds)
    · rw [hty] at hstorable
      cases hstorable
  · intro name var signature hfound hty
    refine ⟨?_, hlinked hfound hty⟩
    rcases find?_declareSupport hdeclare hfound with hprelude | ⟨function, -, hty', -⟩
    · rw [Scope.find?_nest] at hprelude
      have hsupplied := Signature.supplied_of_find? hprelude hty
      exact ⟨fun ty hmem _ hholds => hstores _ (hsupplied.returns ty hmem hholds),
        fun ty hmem _ hholds => hstores _ (hsupplied.parameters ty hmem hholds)⟩
    · obtain rfl : function.signature = signature := Ty.function.inj (hty'.symm.trans hty)
      exact function.grounded.supplied _

end Preludes

/-- A scope that was made inside another. Registers stay in use. A name stands for what it stood for
outside, or its register is new. -/
structure Scope.Within (root scope : Scope) : Prop where
  inUse : ∀ {register}, root.inUse register → scope.inUse register
  found : ∀ {name var}, scope.find? name = some var →
    root.find? name = some var ∨ ¬root.inUse var.register

theorem Scope.Within.refl (root : Scope) : root.Within root :=
  ⟨id, Or.inl⟩

theorem Scope.inherited_within (root : Scope) : Inherited (Within root) := by
  intro scope name var hnew _ h
  constructor
  · intro register hused
    rw [inUse_insert]
    exact Or.inr (h.inUse hused)
  · intro other found hfound
    rcases find?_insert_cases hfound with ⟨-, rfl⟩ | hfound
    · exact Or.inr fun hused => hnew (h.inUse hused)
    · exact h.found hfound

end ThreeAddress
