import Mathlib.Logic.Relation
import ThreeAddress.Proofs.ControlFlow.Blocks
import ThreeAddress.Proofs.ControlFlow.Graph

/-!
# Structured code

Code with conditionals and loops that control enters at its first instruction, and leaves at its end
or through a return. Whether control can come to its end without a store to the stack slot of the
returned value shows in its shape alone, whatever else stands in the code around it.

## Main definitions

* `Bypasses`: control can come to a position without a store to a stack slot.
* `Structured`: the shapes of such code, together with whether each way through it returns.

## Main statements

* `Structured.passes`: control comes from the start to the end if some way does not return.
* `Structured.exists_confines`: otherwise the positions that control can be at do not reach the end.
* `Structured.bypasses_iff`: control bypasses the stores exactly if some way does not return.

## Design notes

Behind a return there may be anything, also branches back to labels that control does come to. That
is harmless since nothing leads there: the labels of a program differ from each other.
-/

namespace ThreeAddress

-- ════════════════════════
-- Paths without a store
-- ════════════════════════

/-- Control comes to a position and has been at no store to the slot. -/
def Bypasses (slot : String) (code : List Instr) (position : Nat) : Prop :=
  ∃ visited, Path code visited position ∧
    ∀ before ∈ visited, ∀ value, code[before]? ≠ some (.store value (.register slot))

theorem not_bypasses_iff {slot : String} {code : List Instr} {position : Nat} :
    ¬Bypasses slot code position ↔ ∀ visited, Path code visited position →
      ∃ before ∈ visited, ∃ value, code[before]? = some (.store value (.register slot)) := by
  simp [Bypasses]

/-- Control may go from one position, which is no store to the slot, to another. -/
structure Skips (slot : String) (code : List Instr) (position target : Nat) : Prop where
  edge : Edge code position target
  stores : ∀ value, code[position]? ≠ some (.store value (.register slot))

/-- Control may go from one position to another without a store to the slot. -/
abbrev Passes (slot : String) (code : List Instr) : Nat → Nat → Prop :=
  Relation.ReflTransGen (Skips slot code)

variable {slot exit : String} {code part more : List Instr} {must must' : Bool}
  {position target : Nat}

theorem Skips.next {instruction : Instr} (hat : code[position]? = some instruction)
    (hends : instruction.endsBlock = false)
    (hstores : ∀ value, instruction ≠ .store value (.register slot)) :
    Skips slot code position (position + 1) :=
  ⟨.next hat hends, fun value heq => hstores value (Option.some.inj (hat ▸ heq))⟩

theorem Skips.jump {instruction : Instr} {name : String}
    (hat : code[position]? = some instruction) (hleads : name ∈ instruction.leadsTo)
    (htarget : code[target]? = some (.label name)) : Skips slot code position target := by
  refine ⟨.jump hat hleads htarget, fun value heq => ?_⟩
  rw [hat] at heq
  cases heq
  simp [Instr.leadsTo] at hleads

/-- Control goes on behind an instruction that is no terminator. -/
theorem Skips.eq_succ {instruction : Instr} (h : Skips slot code position target)
    (hat : code[position]? = some instruction) (hends : instruction.endsBlock = false) :
    target = position + 1 := by
  cases h.edge with
  | next _ _ => rfl
  | jump hat' hleads _ =>
    rw [hat] at hat'
    cases hat'
    simp [Instr.leadsTo_of_not_endsBlock hends] at hleads

/-- Control goes from a terminator to a label. -/
theorem Skips.exists_label {instruction : Instr} (h : Skips slot code position target)
    (hat : code[position]? = some instruction) (hends : instruction.endsBlock) :
    ∃ name ∈ instruction.leadsTo, code[target]? = some (.label name) := by
  cases h.edge with
  | next hat' hcontinues =>
    rw [hat] at hat'
    cases hat'
    simp [hends] at hcontinues
  | jump hat' hleads htarget =>
    rw [hat] at hat'
    cases hat'
    exact ⟨_, hleads, htarget⟩

theorem bypasses_of_passes (h : Passes slot code 0 position)
    (hstores : ∀ value, code[position]? ≠ some (.store value (.register slot))) :
    Bypasses slot code position := by
  induction h with
  | refl => exact ⟨[0], .start, by simpa using hstores⟩
  | tail _ hlast ih =>
    obtain ⟨visited, hpath, hvisited⟩ := ih hlast.stores
    exact ⟨_, .step hpath hlast.edge, List.forall_mem_cons.mpr ⟨hstores, hvisited⟩⟩

theorem Bypasses.passes (h : Bypasses slot code position) : Passes slot code 0 position := by
  obtain ⟨visited, hpath, hvisited⟩ := h
  induction hpath with
  | start => exact .refl
  | @step visited position target before edge ih =>
    obtain ⟨-, hvisited⟩ := List.forall_mem_cons.mp hvisited
    have hmem : position ∈ visited := by cases before <;> exact List.mem_cons_self
    exact (ih hvisited).tail ⟨edge, hvisited position hmem⟩

-- ════════════════════════
-- Parts of code
-- ════════════════════════

/-- The code has a part at a position. -/
def Placed (code : List Instr) (position : Nat) : List Instr → Prop
  | [] => True
  | instruction :: rest => code[position]? = some instruction ∧ Placed code (position + 1) rest

@[simp] theorem placed_cons {instruction : Instr} :
    Placed code position (instruction :: part) ↔
      code[position]? = some instruction ∧ Placed code (position + 1) part := Iff.rfl

@[simp] theorem placed_append :
    Placed code position (part ++ more) ↔
      Placed code position part ∧ Placed code (position + part.length) more := by
  induction part generalizing position with
  | nil => simp [Placed]
  | cons instruction rest ih => simp [ih, and_assoc, Nat.add_assoc, Nat.add_comm 1]

theorem placed_of_eq_append (before : List Instr) {after : List Instr}
    (h : code = before ++ (part ++ after)) : Placed code before.length part := by
  induction part generalizing before with
  | nil => trivial
  | cons instruction rest ih =>
    refine ⟨by simp [h], ?_⟩
    simpa using ih (before ++ [instruction]) (by simp [h])

theorem Placed.getElem? (h : Placed code position part) {offset : Nat} (hlt : offset < part.length) :
    code[position + offset]? = some part[offset] := by
  induction part generalizing position offset with
  | nil => simp at hlt
  | cons instruction rest ih =>
    cases offset with
    | zero => exact h.1
    | succ offset =>
      have hrest := ih h.2 (Nat.lt_of_succ_lt_succ hlt)
      rwa [Nat.add_right_comm, Nat.add_assoc] at hrest

/-- Every label stands in one place. -/
def LabelledOnce (code : List Instr) : Prop :=
  ∀ {name : String} {position target : Nat}, code[position]? = some (.label name) →
    code[target]? = some (.label name) → position = target

theorem labelledOnce_of_nodup (h : (code.filterMap Instr.label?).Nodup) : LabelledOnce code := by
  have hapart : ∀ {name : String} {position target : Nat}, position < target →
      code[position]? = some (.label name) → code[target]? ≠ some (.label name) := by
    intro name position target hlt hposition htarget
    obtain ⟨hlt', hposition⟩ := List.getElem?_eq_some_iff.mp hposition
    obtain ⟨hlt'', htarget⟩ := List.getElem?_eq_some_iff.mp htarget
    have hne := List.pairwise_iff_getElem.mp (List.pairwise_filterMap.mp h) position target hlt' hlt''
      hlt name (by simp [hposition, Instr.label?]) name (by simp [htarget, Instr.label?])
    exact hne rfl
  intro name position target hposition htarget
  rcases Nat.lt_trichotomy position target with hlt | heq | hgt
  · exact absurd htarget (hapart hlt hposition)
  · exact heq
  · exact absurd hposition (hapart hgt htarget)

-- ════════════════════════
-- Shapes
-- ════════════════════════

/-- A single instruction, which may be missing where control never comes. -/
def Closing (must : Bool) (instruction : Instr) (code : List Instr) : Prop :=
  code = [instruction] ∨ must = true ∧ code = []

/-- Code of the given shape, which stores to `slot` and goes to `exit` wherever it returns. The first
index says whether each way through the code returns. -/
inductive Structured (slot exit : String) : Bool → List Instr → Prop
  | straight {code : List Instr} (isPlain : ∀ instruction ∈ code, instruction.isPlain)
      (stores : ∀ value, .store value (.register slot) ∉ code) : Structured slot exit false code
  | leave (value : Value) :
      Structured slot exit true [.store value (.register slot), .branch exit]
  | seq {must : Bool} {code more : List Instr} (first : Structured slot exit false code)
      (next : Structured slot exit must more) : Structured slot exit must (code ++ more)
  /-- Whatever stands behind a return. -/
  | dead {code : List Instr} (first : Structured slot exit true code) (more : List Instr) :
      Structured slot exit true (code ++ more)
  | ite {must must' : Bool} {arm arm' jump jump' join : List Instr} (operand : Operand)
      (onTrue onFalse after : String)
      (positive : Structured slot exit must arm) (leaves : Closing must (.branch after) jump)
      (negative : Structured slot exit must' arm') (leaves' : Closing must' (.branch after) jump')
      (joins : Closing (must && must') (.label after) join) :
      Structured slot exit (must && must')
        (.branchIf operand onTrue onFalse :: .label onTrue :: (arm ++ (jump ++
          .label onFalse :: (arm' ++ (jump' ++ join)))))
  | loop {must : Bool} {condition arm jump : List Instr} (operand : Operand)
      (test start after : String)
      (tested : Structured slot exit false condition)
      (body : Structured slot exit must arm) (repeats : Closing must (.branch test) jump) :
      Structured slot exit false
        (.branch test :: .label test :: (condition ++
          .branchIf operand start after :: .label start :: (arm ++ (jump ++ [.label after]))))

namespace Structured

/-- Code that control comes to the end of does not end with a terminator. -/
theorem closedAfter_eq (h : Structured slot exit must part) (hmust : must = false) :
    closedAfter false part = false := by
  induction h with
  | straight hplain _ => exact (ordered_of_isPlain hplain).2
  | leave | dead => cases hmust
  | seq _ _ ih ih' => rw [closedAfter_append, ih rfl, ih' hmust]
  | ite operand onTrue onFalse after _ _ _ _ hjoins =>
    obtain rfl | ⟨hboth, -⟩ := hjoins
    · simp [closedAfter, closedAfter_append, Instr.endsBlock]
    · rw [hmust] at hboth
      cases hboth
  | loop => simp [closedAfter, closedAfter_append, Instr.endsBlock]

-- ════════════════════════
-- Ways through
-- ════════════════════════

theorem passes_straight (hplain : ∀ instruction ∈ part, instruction.isPlain)
    (hstores : ∀ value, .store value (.register slot) ∉ part) (hplaced : Placed code position part) :
    Passes slot code position (position + part.length) := by
  induction part generalizing position with
  | nil => exact .refl
  | cons instruction rest ih =>
    obtain ⟨hat, hrest⟩ := hplaced
    have hnext : Skips slot code position (position + 1) :=
      .next hat (Instr.endsBlock_of_isPlain (hplain instruction List.mem_cons_self))
        fun value heq => hstores value (heq ▸ List.mem_cons_self)
    have hpasses := ih (fun other hmem => hplain other (List.mem_cons_of_mem _ hmem))
      (fun value hmem => hstores value (List.mem_cons_of_mem _ hmem)) hrest
    rw [List.length_cons, Nat.add_comm rest.length, ← Nat.add_assoc]
    exact .head hnext hpasses

theorem skips_label {name : String} (hat : code[position]? = some (.label name)) :
    Skips slot code position (position + 1) :=
  .next hat rfl (by simp)

/-- An arm that does not return goes on behind the label that it leads to. -/
theorem passes_jump {name : String} {middle last : Nat} {jump : List Instr}
    (h : Passes slot code position middle) (hplaced : Placed code middle jump)
    (hcloses : Closing false (.branch name) jump) (htarget : code[target]? = some (.label name))
    (hlast : last = target + 1) : Passes slot code position last := by
  obtain rfl : jump = [.branch name] := hcloses.resolve_right (by simp)
  subst hlast
  exact (h.tail (.jump hplaced.1 List.mem_cons_self htarget)).tail (skips_label htarget)

/-- Control comes from the start to the end if some way does not return. -/
theorem passes (h : Structured slot exit must part) (hmust : must = false)
    (hplaced : Placed code position part) :
    Passes slot code position (position + part.length) := by
  induction h generalizing position with
  | straight hplain hstores => exact passes_straight hplain hstores hplaced
  | leave | dead => cases hmust
  | seq _ _ ih ih' =>
    obtain ⟨hfirst, hnext⟩ := placed_append.mp hplaced
    rw [List.length_append, ← Nat.add_assoc]
    exact (ih rfl hfirst).trans (ih' hmust hnext)
  | @ite must must' arm arm' jump jump' join operand onTrue onFalse after _ hcloses _ hcloses' hjoins
      ih ih' =>
    obtain rfl : join = [.label after] := hjoins.resolve_right (by simp [hmust])
    simp only [placed_cons, placed_append] at hplaced
    obtain ⟨hfork, htrue, harm, hjump, hfalse, harm', hjump', hjoin, -⟩ := hplaced
    cases must with
    | false =>
      refine .head (.jump hfork List.mem_cons_self htrue) (.head (skips_label htrue)
        (passes_jump (ih rfl harm) hjump hcloses hjoin ?_))
      simp only [List.length_cons, List.length_append, List.length_nil]
      omega
    | true =>
      cases hmust
      refine .head (.jump hfork (by simp [Instr.leadsTo]) hfalse) (.head (skips_label hfalse)
        (passes_jump (ih' rfl harm') hjump' hcloses' hjoin ?_))
      simp only [List.length_cons, List.length_append, List.length_nil]
      omega
  | @loop must condition arm jump operand test start after _ _ _ ih _ =>
    simp only [placed_cons, placed_append] at hplaced
    obtain ⟨henter, htest, hcondition, hfork, -, -, -, hafter, -⟩ := hplaced
    have hforked := (ih rfl hcondition).tail (.jump hfork (by simp [Instr.leadsTo]) hafter)
    have hpasses := Relation.ReflTransGen.head (.jump henter List.mem_cons_self htest)
      (.head (skips_label htest) (hforked.tail (skips_label hafter)))
    convert hpasses using 1
    simp only [List.length_cons, List.length_append, List.length_nil]
    omega

-- ════════════════════════
-- Where control can be
-- ════════════════════════

end Structured

/-- The positions from `first` to `last` that control can be at once it has come to `first`. Only the
last one leads out of them, and control does not come there if it must return before. -/
structure Confines (slot : String) (code : List Instr) (first last : Nat) (must : Bool)
    (live : Nat → Prop) : Prop where
  start : live first
  within : ∀ position, live position → first ≤ position ∧ position ≤ last
  ends : must = true → ¬live last
  step : ∀ position target, live position → position ≠ last → Skips slot code position target →
    live target

/-- The same for code in front of `last` that goes on to a label, unless it must return before. -/
structure Leads (slot : String) (code : List Instr) (first last : Nat) (must : Bool)
    (name : String) (live : Nat → Prop) : Prop where
  start : live first
  within : ∀ position, live position → first ≤ position ∧ position < last
  step : ∀ position target, live position → Skips slot code position target →
    live target ∨ must = false ∧ code[target]? = some (.label name)

namespace Confines

variable {first middle last : Nat} {live live' : Nat → Prop}

theorem straight (hplain : ∀ instruction ∈ part, instruction.isPlain)
    (hplaced : Placed code first part) :
    Confines slot code first (first + part.length) false
      fun position => first ≤ position ∧ position ≤ first + part.length where
  start := by omega
  within _ hbounds := hbounds
  ends hmust := by cases hmust
  step position target hbounds hne hskips := by
    obtain ⟨offset, rfl⟩ := Nat.exists_eq_add_of_le hbounds.1
    have hlt : offset < part.length := by omega
    have heq := hskips.eq_succ (hplaced.getElem? hlt)
      (Instr.endsBlock_of_isPlain (hplain _ (List.getElem_mem hlt)))
    omega

theorem leave {value : Value} (hat : code[first]? = some (.store value (.register slot))) :
    Confines slot code first (first + 2) true fun position => position = first where
  start := rfl
  within position heq := by omega
  ends _ heq := by omega
  step position target heq _ hskips := absurd (heq ▸ hat) (hskips.stores value)

theorem seq (h : Confines slot code first middle false live)
    (h' : Confines slot code middle last must live') :
    Confines slot code first last must fun position => live position ∨ live' position where
  start := Or.inl h.start
  within position hlive := by
    have hfirst := h.within first h.start
    have hmiddle := h'.within middle h'.start
    rcases hlive with hlive | hlive
    · have hbounds := h.within position hlive
      omega
    · have hbounds := h'.within position hlive
      omega
  ends hmust hlive := by
    refine h'.ends hmust ?_
    rcases hlive with hlive | hlive
    · have hle := (h.within last hlive).2
      have hge := (h'.within middle h'.start).2
      rw [Nat.le_antisymm hle hge]
      exact h'.start
    · exact hlive
  step position target hlive hne hskips := by
    by_cases hmiddle : position = middle
    · subst hmiddle
      exact Or.inr (h'.step _ target h'.start hne hskips)
    · exact hlive.imp (fun hlive => h.step position target hlive hmiddle hskips)
        fun hlive => h'.step position target hlive hne hskips

theorem dead (h : Confines slot code first middle true live) (hle : middle ≤ last) :
    Confines slot code first last true live where
  start := h.start
  within position hlive := by
    have hbounds := h.within position hlive
    omega
  ends _ hlive := by
    have heq := Nat.le_antisymm hle (h.within last hlive).2
    exact h.ends rfl (heq ▸ hlive)
  step position target hlive _ hskips := by
    refine h.step position target hlive ?_ hskips
    rintro rfl
    exact h.ends rfl hlive

/-- Control that must return does not get out. -/
theorem live_of_passes (h : Confines slot code first last true live)
    (hpasses : Passes slot code first target) : live target := by
  induction hpasses with
  | refl => exact h.start
  | tail _ hlast ih =>
    refine h.step _ _ ih ?_ hlast
    rintro rfl
    exact h.ends rfl ih

theorem leads {name : String} {jump : List Instr} (h : Confines slot code first middle must live)
    (hplaced : Placed code middle jump) (hcloses : Closing must (.branch name) jump) :
    Leads slot code first (middle + jump.length) must name live := by
  refine ⟨h.start, fun position hlive => ?_, fun position target hlive hskips => ?_⟩
  · have hbounds := h.within position hlive
    rcases hcloses with rfl | ⟨hmust, rfl⟩
    · rw [List.length_singleton]
      omega
    · have hne : position ≠ middle := fun heq => h.ends hmust (heq ▸ hlive)
      rw [List.length_nil]
      omega
  · by_cases hlast : position = middle
    · subst hlast
      have hmust : must = false := by simpa using fun hmust => h.ends hmust hlive
      obtain rfl : jump = [.branch name] := hcloses.resolve_right (by simp [hmust])
      obtain ⟨other, hother, htarget⟩ := hskips.exists_label hplaced.1 rfl
      obtain rfl : other = name := by simpa [Instr.leadsTo] using hother
      exact Or.inr ⟨hmust, htarget⟩
    · exact Or.inl (h.step position target hlive hlast hskips)

theorem ite {operand : Operand} {onTrue onFalse name : String} {join : List Instr}
    {otherwise after : Nat} (honce : LabelledOnce code)
    (hfork : code[first]? = some (.branchIf operand onTrue onFalse))
    (htrue : code[first + 1]? = some (.label onTrue))
    (h : Leads slot code (first + 2) otherwise must name live)
    (hfalse : code[otherwise]? = some (.label onFalse))
    (h' : Leads slot code (otherwise + 1) after must' name live')
    (hplaced : Placed code after join) (hjoins : Closing (must && must') (.label name) join)
    (hlast : last = after + join.length) :
    Confines slot code first last (must && must') fun position =>
      position = first ∨ position = first + 1 ∨ live position ∨ position = otherwise ∨
        live' position ∨ (must && must') = false ∧ after ≤ position ∧ position ≤ after + 1 := by
  have hbounds := h.within _ h.start
  have hbounds' := h'.within _ h'.start
  have hjoin : (must && must') = false → code[after]? = some (.label name) ∧ join.length = 1 := by
    intro hmust
    obtain rfl : join = [.label name] := hjoins.resolve_right (by simp [hmust])
    exact ⟨hplaced.1, rfl⟩
  -- Control comes to the label behind the conditional from an arm that does not return.
  have hafter : ∀ {target}, (must && must') = false → code[target]? = some (.label name) →
      (must && must') = false ∧ after ≤ target ∧ target ≤ after + 1 := by
    intro target hmust htarget
    rw [honce htarget (hjoin hmust).1]
    exact ⟨hmust, by omega⟩
  refine ⟨Or.inl rfl, ?_, ?_, ?_⟩
  · rintro position (rfl | rfl | hlive | rfl | hlive | ⟨hmust, hlive⟩)
    · omega
    · omega
    · have := h.within position hlive
      omega
    · omega
    · have := h'.within position hlive
      omega
    · have := (hjoin hmust).2
      omega
  · rintro hmust (heq | heq | hlive | heq | hlive | ⟨hmust', -⟩)
    · omega
    · omega
    · have := h.within _ hlive
      omega
    · omega
    · have := h'.within _ hlive
      omega
    · rw [hmust] at hmust'
      cases hmust'
  · rintro position target (rfl | rfl | hlive | rfl | hlive | ⟨hmust, hlive⟩) hne hskips
    · obtain ⟨other, hother, htarget⟩ := hskips.exists_label hfork rfl
      rcases List.mem_pair.mp hother with rfl | rfl
      · exact Or.inr (Or.inl (honce htarget htrue))
      · exact Or.inr (Or.inr (Or.inr (Or.inl (honce htarget hfalse))))
    · rw [hskips.eq_succ htrue rfl]
      exact Or.inr (Or.inr (Or.inl h.start))
    · rcases h.step position target hlive hskips with hlive | ⟨hmust, htarget⟩
      · exact Or.inr (Or.inr (Or.inl hlive))
      · simp [hafter (by simp [hmust]) htarget]
    · rw [hskips.eq_succ hfalse rfl]
      simp [h'.start]
    · rcases h'.step position target hlive hskips with hlive | ⟨hmust, htarget⟩
      · simp [hlive]
      · simp [hafter (by simp [hmust]) htarget]
    · obtain ⟨hat, hlength⟩ := hjoin hmust
      obtain rfl : position = after := by omega
      simp [hskips.eq_succ hat rfl, hmust]

theorem loop {operand : Operand} {test start after : String} {fork behind : Nat}
    (honce : LabelledOnce code) (henter : code[first]? = some (.branch test))
    (htest : code[first + 1]? = some (.label test))
    (h : Confines slot code (first + 2) fork false live)
    (hfork : code[fork]? = some (.branchIf operand start after))
    (hstart : code[fork + 1]? = some (.label start))
    (h' : Leads slot code (fork + 2) behind must test live')
    (hafter : code[behind]? = some (.label after)) (hlast : last = behind + 1) :
    Confines slot code first last false fun position =>
      position = first ∨ position = first + 1 ∨ live position ∨ position = fork + 1 ∨
        live' position ∨ behind ≤ position ∧ position ≤ behind + 1 := by
  have hbounds := h.within _ h.start
  have hbounds' := h'.within _ h'.start
  refine ⟨Or.inl rfl, ?_, by simp, ?_⟩
  · rintro position (rfl | rfl | hlive | rfl | hlive | hlive)
    · omega
    · omega
    · have := h.within position hlive
      omega
    · omega
    · have := h'.within position hlive
      omega
    · omega
  · rintro position target (rfl | rfl | hlive | rfl | hlive | hlive) hne hskips
    · obtain ⟨other, hother, htarget⟩ := hskips.exists_label henter rfl
      obtain rfl : other = test := by simpa [Instr.leadsTo] using hother
      exact Or.inr (Or.inl (honce htarget htest))
    · rw [hskips.eq_succ htest rfl]
      exact Or.inr (Or.inr (Or.inl h.start))
    · by_cases hlast : position = fork
      · subst hlast
        obtain ⟨other, hother, htarget⟩ := hskips.exists_label hfork rfl
        rcases List.mem_pair.mp hother with rfl | rfl
        · simp [honce htarget hstart]
        · simp [honce htarget hafter]
      · exact Or.inr (Or.inr (Or.inl (h.step position target hlive hlast hskips)))
    · rw [hskips.eq_succ hstart rfl]
      simp [h'.start]
    · rcases h'.step position target hlive hskips with hlive | ⟨-, htarget⟩
      · simp [hlive]
      · exact Or.inr (Or.inl (honce htarget htest))
    · obtain rfl : position = behind := by omega
      simp [hskips.eq_succ hafter rfl]

end Confines

namespace Structured

/-- Control does not come to the end if each way returns. -/
theorem exists_confines (h : Structured slot exit must part) (honce : LabelledOnce code)
    (hplaced : Placed code position part) :
    ∃ live, Confines slot code position (position + part.length) must live := by
  induction h generalizing position with
  | straight hplain _ => exact ⟨_, .straight hplain hplaced⟩
  | leave value => exact ⟨_, .leave hplaced.1⟩
  | seq _ _ ih ih' =>
    obtain ⟨hfirst, hnext⟩ := placed_append.mp hplaced
    obtain ⟨live, hlive⟩ := ih hfirst
    obtain ⟨live', hlive'⟩ := ih' hnext
    rw [List.length_append, ← Nat.add_assoc]
    exact ⟨_, hlive.seq hlive'⟩
  | dead _ more ih =>
    obtain ⟨live, hlive⟩ := ih (placed_append.mp hplaced).1
    rw [List.length_append]
    exact ⟨live, hlive.dead (by omega)⟩
  | @ite must must' arm arm' jump jump' join operand onTrue onFalse after _ hcloses _ hcloses' hjoins
      ih ih' =>
    simp only [placed_cons, placed_append] at hplaced
    obtain ⟨hfork, htrue, harm, hjump, hfalse, harm', hjump', hjoin⟩ := hplaced
    obtain ⟨live, hlive⟩ := ih harm
    obtain ⟨live', hlive'⟩ := ih' harm'
    refine ⟨_, .ite honce hfork htrue (hlive.leads hjump hcloses) hfalse (hlive'.leads hjump' hcloses')
      hjoin hjoins ?_⟩
    simp only [List.length_cons, List.length_append]
    omega
  | @loop must condition arm jump operand test start after _ _ hcloses ih ih' =>
    simp only [placed_cons, placed_append] at hplaced
    obtain ⟨henter, htest, hcondition, hfork, hstart, harm, hjump, hafter, -⟩ := hplaced
    obtain ⟨live, hlive⟩ := ih hcondition
    obtain ⟨live', hlive'⟩ := ih' harm
    refine ⟨_, hlive.loop honce henter htest hfork hstart (hlive'.leads hjump hcloses) hafter ?_⟩
    simp only [List.length_cons, List.length_append, List.length_nil]
    omega

/-- Control bypasses the stores exactly if some way does not return. -/
theorem bypasses_iff (h : Structured slot exit must part) {jump rest : List Instr}
    (hcloses : Closing must (.branch exit) jump) (hcode : code = part ++ (jump ++ .label exit :: rest))
    (honce : LabelledOnce code) :
    Bypasses slot code (part.length + jump.length) ↔ must = false := by
  have hplaced : Placed code 0 (part ++ (jump ++ [.label exit])) :=
    placed_of_eq_append [] (by simpa using hcode)
  simp only [placed_append, placed_cons, Nat.zero_add] at hplaced
  obtain ⟨hpart, hjump, hexit, -⟩ := hplaced
  constructor
  · intro hbypasses
    obtain ⟨live, hlive⟩ := h.exists_confines honce hpart
    rw [Nat.zero_add] at hlive
    cases must with
    | false => rfl
    | true =>
      have hreached := hlive.live_of_passes hbypasses.passes
      have hlast := Nat.le_antisymm (Nat.le_add_right _ _) (hlive.within _ hreached).2
      exact absurd (hlast ▸ hreached) (hlive.ends rfl)
  · rintro rfl
    have hpasses := h.passes rfl hpart
    obtain rfl : jump = [.branch exit] := hcloses.resolve_right (by simp)
    rw [Nat.zero_add] at hpasses
    exact bypasses_of_passes (hpasses.tail (.jump hjump.1 List.mem_cons_self hexit))
      (by rw [hexit]; simp)

end Structured

end ThreeAddress
