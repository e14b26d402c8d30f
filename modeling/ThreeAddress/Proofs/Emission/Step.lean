import Mathlib.Logic.Relation
import ThreeAddress.Proofs.Emission.Body

/-!
# What lowering may do to a body

Every pass over a body is a sequence of few kinds of steps: a new register, a new binding, a new
constant, a stack slot, an instruction at the end. This module says once what such a step needs and
what it keeps. That a pass consists of such steps is shown function by function elsewhere, and what
holds of the emitted code follows from the steps alone.

## Main definitions

* `Permit`: which steps a kind of pass may take.
* `Body.Step`, `Body.Steps`: one step, and steps in a row.

## Design notes

An instruction is appended only where it keeps the basic blocks in order: a label exactly behind a
terminator. A name may be introduced only while it is owed, which is what makes it unique. Whether
an operand has to be defined is up to the permit, since that is only known for programs in which
every variable is declared.
-/

namespace ThreeAddress

/-- A label in front of code that nothing leads to. -/
def IsDeadLabel (name : String) : Prop := ∃ suffix, name = "dead" ++ suffix

/-- Which steps a pass may take. -/
structure Permit where
  /-- Operands need not be defined. -/
  unchecked : Prop
  /-- The instructions that may be appended. A label in front of dead code always may. -/
  emits : Instr → Prop
  /-- Source names may be bound. -/
  binds : Prop

namespace Permit

/-- The permit for code without control flow. -/
def straight (unchecked : Prop) : Permit where
  unchecked := unchecked
  emits instruction := instruction.isPlain
  binds := False

/-- The permit for everything in front of the end of a function. -/
def flow (unchecked : Prop) : Permit where
  unchecked := unchecked
  emits instruction := instruction.isReturn = false ∧ ∀ name ∈ instruction.leadsTo, ¬IsDeadLabel name
  binds := True

/-- Everything that the first permit allows is allowed by the second. -/
structure Le (permit larger : Permit) : Prop where
  unchecked : permit.unchecked → larger.unchecked
  emits : ∀ instruction, permit.emits instruction → larger.emits instruction
  binds : permit.binds → larger.binds

theorem straight_le_flow (unchecked : Prop) : Le (straight unchecked) (flow unchecked) where
  unchecked h := h
  emits instruction hplain := by
    have hends := Instr.endsBlock_of_isPlain hplain
    refine ⟨?_, ?_⟩
    · cases instruction <;> simp_all [Instr.isReturn, Instr.endsBlock]
    · simp [Instr.leadsTo_of_not_endsBlock hends]
  binds h := h.elim

end Permit

namespace Body

/-- A register that the next instruction may read. -/
def Reads (unchecked : Prop) (body : Body) (register : String) : Prop :=
  body.Available register ∨ unchecked

/-- One step of a pass with the given permit. -/
inductive Step (permit : Permit) : Body → Body → Prop
  | mint (body : Body) (base : String) (ty : Ty) : Step permit body (body.mint base ty)
  | rebind (body : Body) (name : String) (ty : Ty) (binds : permit.binds) :
      Step permit body (body.rebind name ty)
  | addConstant (body : Body) (constant : Constant) :
      Step permit body (body.addConstant constant)
  | reserve (body : Body) (slot : Var) (owed : body.Owes slot.register) :
      Step permit body (body.reserve slot)
  | append (body : Body) (instruction : Instr)
      (placed : instruction.startsBlock = body.isClosed)
      (emits : permit.emits instruction ∨
        ∃ name, instruction = .label name ∧ IsDeadLabel name)
      (owed : ∀ name, instruction.defined? = some name → body.Owes name)
      (reads : ∀ register ∈ instruction.uses, body.Reads permit.unchecked register) :
      Step permit body (body.append instruction)

/-- Steps in a row. -/
abbrev Steps (permit : Permit) : Body → Body → Prop :=
  Relation.ReflTransGen (Step permit)

theorem Step.mono {permit larger : Permit} (hle : permit.Le larger) {body last : Body}
    (h : Step permit body last) : Step larger body last := by
  cases h with
  | mint base ty => exact .mint body base ty
  | rebind name ty hbinds => exact .rebind body name ty (hle.binds hbinds)
  | addConstant constant => exact .addConstant body constant
  | reserve slot howed => exact .reserve body slot howed
  | append instruction hplaced hemits howed hreads =>
    exact .append body instruction hplaced (hemits.imp_left (hle.emits _)) howed
      fun register hmem => (hreads register hmem).imp_right hle.unchecked

theorem Steps.mono {permit larger : Permit} (hle : permit.Le larger) {body last : Body}
    (h : Steps permit body last) : Steps larger body last :=
  Relation.ReflTransGen.mono (fun _ _ => Step.mono hle) _ _ h

/-- What one step keeps, a row of steps keeps. -/
theorem Steps.invariant {permit : Permit} {P : Body → Prop}
    (hstep : ∀ body last, Step permit body last → P body → P last) {body last : Body}
    (h : Steps permit body last) (hbody : P body) : P last := by
  induction h with
  | refl => exact hbody
  | tail _ hlast ih => exact hstep _ _ hlast ih

/-- A preorder that contains every step contains every row of steps. -/
theorem Steps.relation {permit : Permit} {R : Body → Body → Prop} (hrefl : ∀ body, R body body)
    (htrans : ∀ body middle last, R body middle → R middle last → R body last)
    (hstep : ∀ body last, Step permit body last → R body last) {body last : Body}
    (h : Steps permit body last) : R body last := by
  induction h with
  | refl => exact hrefl _
  | tail _ hlast ih => exact htrans _ _ _ ih (hstep _ _ hlast)

variable {permit : Permit} {body last : Body}

/-- No instruction is ever taken back. -/
theorem Steps.code_isPrefix (h : Steps permit body last) :
    body.code <+: last.code := by
  refine h.relation (R := fun body last => body.code <+: last.code)
    (fun _ => List.prefix_rfl) (fun _ _ _ => List.IsPrefix.trans) ?_
  intro body last hstep
  cases hstep with
  | append | reserve => simp
  | mint | rebind | addConstant => exact List.prefix_rfl

/-- The entry only grows, and only by stack slots. -/
theorem Steps.entry_eq (h : Steps permit body last) :
    ∃ slots : List Var, last.entry =
      body.entry ++ slots.map fun slot => .alloca slot.register slot.ty := by
  refine h.relation (R := fun body last => ∃ slots : List Var, last.entry =
      body.entry ++ slots.map fun slot => .alloca slot.register slot.ty)
    (fun _ => ⟨[], by simp⟩) ?_ ?_
  · rintro body middle last ⟨before, hbefore⟩ ⟨after, hafter⟩
    exact ⟨before ++ after, by rw [hafter, hbefore]; simp⟩
  · intro body last hstep
    cases hstep with
    | reserve slot _ => exact ⟨[slot], body.entry_reserve slot⟩
    | mint | rebind | addConstant | append => exact ⟨[], by simp⟩

theorem Steps.slots_subset (h : Steps permit body last) : body.slots ⊆ last.slots := by
  obtain ⟨added, hadded⟩ := h.entry_eq
  intro register hmem
  simp only [slots, hadded, List.filterMap_append, List.mem_append]
  exact Or.inl hmem

theorem inUse_mint {base : String} {ty : Ty} {register : String} :
    (body.mint base ty).scope.inUse register ↔
      register = body.scope.newRegister base ∨ body.scope.inUse register :=
  Scope.inUse_mint _ _ _ _

theorem inUse_rebind {name : String} {ty : Ty} {register : String} :
    (body.rebind name ty).scope.inUse register ↔
      register = body.scope.newRegister name ∨ body.scope.inUse register :=
  Scope.inUse_bind _ _ _ _

/-- A register in use stays in use. -/
theorem Steps.inUse (h : Steps permit body last) {register : String}
    (hused : body.scope.inUse register) : last.scope.inUse register := by
  refine h.invariant (P := fun body => body.scope.inUse register) ?_ hused
  intro body last hstep hused
  cases hstep with
  | mint base ty => exact inUse_mint.mpr (Or.inr hused)
  | rebind name ty _ => exact inUse_rebind.mpr (Or.inr hused)
  | addConstant | reserve | append => exact hused

/-- The scope of the module only grows by constants. -/
theorem Step.keyed_root (h : Step permit body last) (hkeyed : body.globals.root.Keyed) :
    last.globals.root.Keyed := by
  cases h with
  | addConstant constant => exact hkeyed.mint _ _
  | mint | rebind | reserve | append => exact hkeyed

theorem Step.keyed (h : Step permit body last) (hkeyed : body.Keyed) : last.Keyed := by
  refine ⟨?_, h.keyed_root hkeyed.root⟩
  cases h with
  | mint base ty => exact hkeyed.scope.mint base ty
  | rebind name ty _ => exact hkeyed.scope.bind name ty
  | addConstant | reserve | append => exact hkeyed.scope

theorem Steps.keyed (h : Steps permit body last) (hkeyed : body.Keyed) : last.Keyed :=
  h.invariant (fun _ _ hstep => hstep.keyed) hkeyed

/-- Where no source name is bound, a bound name keeps its meaning. -/
theorem Steps.find? (h : Steps permit body last) (hbinds : ¬permit.binds) (hkeyed : body.Keyed)
    {name : String} {var : Var} (hfound : body.scope.find? name = some var) :
    last.scope.find? name = some var := by
  refine (h.invariant (P := fun body => body.Keyed ∧ body.scope.find? name = some var) ?_
    ⟨hkeyed, hfound⟩).2
  rintro body last hstep ⟨hkeyed, hfound⟩
  refine ⟨hstep.keyed hkeyed, ?_⟩
  cases hstep with
  | mint base ty => exact hkeyed.scope.find?_mint base ty hfound
  | rebind name ty h => exact absurd h hbinds
  | addConstant | reserve | append => exact hfound

/-- In code without control flow, what is available stays available. -/
theorem Steps.available {unchecked : Prop} (h : Steps (.straight unchecked) body last)
    {register : String} (havailable : body.Available register) : last.Available register := by
  refine h.invariant (P := fun body => body.Available register) ?_ havailable
  intro body last hstep havailable
  cases hstep with
  | mint | rebind | addConstant => exact havailable
  | reserve slot _ =>
    rw [Available, slots_reserve, code_reserve]
    exact havailable.imp_left (List.mem_append_left _)
  | append instruction hplaced hemits _ _ =>
    rw [Available, slots_append, code_append]
    refine havailable.imp_right fun hmem => ?_
    rcases hemits with hplain | ⟨name, rfl, _⟩
    · rw [openBlock_append_of_isPlain _ hplain, List.filterMap_append, List.mem_append]
      exact Or.inl hmem
    · -- A dead label is appended to a closed block only, and such a block has nothing to offer.
      rw [openBlock_of_isClosed (hplaced.symm)] at hmem
      simp at hmem

end Body

end ThreeAddress
