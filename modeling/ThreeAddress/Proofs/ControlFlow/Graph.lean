import ThreeAddress.Proofs.Emission.Names

/-!
# The control flow graph

Code is a graph whose nodes are the positions of its instructions. Control goes from an instruction
to the one behind it, or to a label that it leads to. A branch may go either way.

## Main definitions

* `Edge`, `Path`: one step of control, and the positions that control has been at.
* `Dominates`: a position that control has been at whenever it comes to another.
* `InEntryBlock`, `InSameBlock`: where positions lie in the basic blocks of the code.

## Main statements

* `dominates_of_inSameBlock`: an earlier position of a block dominates the later ones.
* `dominates_of_inEntryBlock`: a position of the entry block dominates all positions behind it.
-/

namespace ThreeAddress

/-- Control may go from one position to another. -/
inductive Edge (code : List Instr) : Nat → Nat → Prop
  | next {position : Nat} {instruction : Instr} (at_position : code[position]? = some instruction)
      (continues : instruction.endsBlock = false) : Edge code position (position + 1)
  | jump {position target : Nat} {instruction : Instr} {name : String}
      (at_position : code[position]? = some instruction) (leads : name ∈ instruction.leadsTo)
      (at_target : code[target]? = some (.label name)) : Edge code position target

/-- The positions that control has been at, the last one first. It starts at the first instruction. -/
inductive Path (code : List Instr) : List Nat → Nat → Prop
  | start : Path code [0] 0
  | step {visited : List Nat} {position target : Nat} (before : Path code visited position)
      (edge : Edge code position target) : Path code (target :: visited) target

/-- Control has been at the first position whenever it comes to the second. -/
def Dominates (code : List Instr) (dominator position : Nat) : Prop :=
  ∀ visited, Path code visited position → dominator ∈ visited

/-- A position in front of which no block ends. -/
def InEntryBlock (code : List Instr) (position : Nat) : Prop :=
  ∀ before < position, ∀ instruction, code[before]? = some instruction →
    instruction.endsBlock = false

/-- No block starts behind the first position and up to the second. -/
def InSameBlock (code : List Instr) (first second : Nat) : Prop :=
  ∀ position, first < position → position ≤ second → ∀ name,
    code[position]? ≠ some (.label name)

variable {code : List Instr} {dominator position : Nat}

/-- Control only gets between the two positions through the first one, since there is no label to
jump to. -/
theorem dominates_of_inSameBlock (hle : dominator ≤ position)
    (hblock : InSameBlock code dominator position) : Dominates code dominator position := by
  intro visited hpath
  have hmem : ∀ visited between, Path code visited between → dominator ≤ between →
      between ≤ position → dominator ∈ visited := by
    intro visited between hpath
    induction hpath with
    | start =>
      intro hle _
      simp [Nat.le_zero.mp hle]
    | @step visited previous target before edge ih =>
      intro hge hle'
      by_cases heq : dominator = target
      · simp [heq]
      · cases edge with
        | next _ _ => exact List.mem_cons_of_mem _ (ih (by omega) (by omega))
        | jump _ _ htarget => exact absurd htarget (hblock target (by omega) hle' _)
  exact hmem visited position hpath hle (Nat.le_refl _)

/-- In the entry block control goes from one position to the next and leaves none out. -/
theorem dominates_of_inEntryBlock (hle : dominator ≤ position)
    (hentry : InEntryBlock code dominator) : Dominates code dominator position := by
  intro visited hpath
  have hmem : ∀ visited reached, Path code visited reached →
      reached < dominator ∨ dominator ∈ visited := by
    intro visited reached hpath
    induction hpath with
    | start =>
      rcases Nat.eq_zero_or_pos dominator with heq | hpos
      · exact Or.inr (by simp [heq])
      · exact Or.inl hpos
    | @step visited previous target before edge ih =>
      rcases ih with hlt | hmem
      · cases edge with
        | next _ _ =>
          by_cases heq : dominator = previous + 1
          · exact Or.inr (by simp [heq])
          · exact Or.inl (by omega)
        | jump hat hleads _ =>
          rw [Instr.leadsTo_of_not_endsBlock (hentry previous hlt _ hat)] at hleads
          simp at hleads
      · exact Or.inr (List.mem_cons_of_mem _ hmem)
  rcases hmem visited position hpath with hlt | hmem
  · omega
  · exact hmem

end ThreeAddress
