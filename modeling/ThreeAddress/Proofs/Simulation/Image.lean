import ThreeAddress.Proofs.Semantics.Machine
import ThreeAddress.Proofs.Simulation.Linking

/-!
# Functions while they run

A function body under construction is the first part of the finished code. A machine that stands
behind this part performs the instructions that lowering emits next.

## Main definitions

* `Image`: the finished code of a function, with the variables of its cells.
* `Image.Mirrors`: the stack slots of a machine hold what the cells of a store hold.
* `Image.At`: such a machine stands behind a body.

## Main statements

* `Image.At.assign`, `Image.At.write`, `Image.At.branch`, `Image.At.fork`, `Image.At.label`: what an
  emitted instruction does.
-/

namespace ThreeAddress

/-- Labels that differ from each other are found where they stand. -/
theorem labelPosition?_eq {code : List Instr} (hnodup : (code.filterMap Instr.label?).Nodup)
    {position : Nat} {name : String} (h : code[position]? = some (.label name)) :
    labelPosition? code name = some position := by
  induction code generalizing position with
  | nil => simp at h
  | cons instruction rest ih =>
    rw [labelPosition?, List.findIdx?_cons]
    cases position with
    | zero =>
      obtain rfl : instruction = .label name := by simpa using h
      simp [Instr.label?]
    | succ position =>
      have hrest : rest[position]? = some (.label name) := by simpa using h
      have hmem : name ∈ rest.filterMap Instr.label? :=
        List.mem_filterMap.mpr ⟨_, List.mem_of_getElem? hrest, rfl⟩
      rw [List.filterMap_cons] at hnodup
      have hother : instruction.label? ≠ some name := by
        intro hlabel
        rw [hlabel, List.nodup_cons] at hnodup
        exact hnodup.1 hmem
      have hnodup : (rest.filterMap Instr.label?).Nodup := by
        split at hnodup
        · exact hnodup
        · exact (List.nodup_cons.mp hnodup).2
      have hfound := ih hnodup hrest
      rw [labelPosition?] at hfound
      simp [hother, hfound]

/-- The finished code of a function. -/
structure Image where
  entry : List Instr
  /-- The instructions behind the entry. -/
  code : List Instr
  /-- The variables of all cells, in order. -/
  cells : List Var
  nodup_labels : ((entry ++ code).filterMap Instr.label?).Nodup
  target_not_mem : ∀ instruction ∈ code, ∀ target, instruction.target? = some target →
    target ∉ entry.filterMap Instr.slot?
  cells_reserved : ∀ var ∈ cells, var.register ∈ entry.filterMap Instr.slot?
  nodup_cells : (cells.map Var.register).Nodup

namespace Image

/-- The registers of the stack slots. -/
def slots (image : Image) : List String := image.entry.filterMap Instr.slot?

/-- The address of a stack slot. Slots are reserved in the order of the entry. -/
def address (image : Image) (register : String) : Nat := image.slots.idxOf register

def instructions (image : Image) : List Instr := image.entry ++ image.code

/-- A body is the first part of the code. -/
def Holds (image : Image) (body : Body) : Prop := body.code <+: image.code

/-- The position behind a body. -/
def behind (image : Image) (body : Body) : Nat := image.entry.length + body.code.length

/-- The stack slots of a machine hold what the cells of a store hold, which are values of the right
width. -/
structure Mirrors (image : Image) (store : Store) (machine : Machine) : Prop where
  slots : ∀ register ∈ image.slots,
    machine.registers register = some (.address (image.address register))
  memory : ∀ cell var, image.cells[cell]? = some var →
    machine.memory (image.address var.register) = store cell
  typed : ∀ cell var width word, image.cells[cell]? = some var → var.ty = .int width →
    store cell = some word → word.width = width

/-- A machine stands behind a body that is still open. -/
structure At (image : Image) (body : Body) (store : Store) (machine : Machine) : Prop where
  isOpen : body.isClosed = false
  position : machine.position = image.behind body
  mirrors : image.Mirrors store machine

variable {image : Image} {body last : Body} {store : Store} {machine : Machine}

theorem Holds.of_grows (h : image.Holds last) (hgrows : body.Grows last) : image.Holds body :=
  hgrows.code.trans h

/-- Where a machine stands depends on the code alone. -/
theorem At.of_code_eq (h : image.At body store machine) (hcode : last.code = body.code) :
    image.At last store machine := by
  refine ⟨?_, ?_, h.mirrors⟩
  · rw [Body.isClosed, hcode]
    exact h.isOpen
  · rw [behind, hcode]
    exact h.position

theorem Holds.of_append {instruction : Instr} (h : image.Holds (body.append instruction)) :
    image.Holds body :=
  h.of_grows (body.grows_append instruction)

theorem behind_append (image : Image) (body : Body) (instruction : Instr) :
    image.behind (body.append instruction) = image.behind body + 1 := by
  simp [behind, Nat.add_assoc]

theorem Holds.getElem?_behind {instruction : Instr} (h : image.Holds (body.append instruction)) :
    image.instructions[image.behind body]? = some instruction := by
  obtain ⟨rest, hrest⟩ := h
  rw [Body.code_append, List.append_assoc] at hrest
  rw [instructions, behind, ← hrest, List.getElem?_append_right (by omega)]
  simp

theorem Holds.mem_code {instruction : Instr} (h : image.Holds (body.append instruction)) :
    instruction ∈ image.code := by
  apply h.subset
  simp

-- ════════════════════════
-- Mirrors
-- ════════════════════════

theorem Mirrors.goTo (h : image.Mirrors store machine) (position : Nat) :
    image.Mirrors store (machine.goTo position) :=
  ⟨h.slots, h.memory, h.typed⟩

theorem Mirrors.assign (h : image.Mirrors store machine) {target : String}
    (htarget : target ∉ image.slots) (datum : Datum) :
    image.Mirrors store (machine.assign target datum) := by
  refine ⟨fun register hmem => ?_, h.memory, h.typed⟩
  have hne : register ≠ target := by
    rintro rfl
    exact htarget hmem
  simpa [Machine.assign, hne] using h.slots register hmem

theorem address_inj {register other : String} (hmem : register ∈ image.slots)
    (h : image.address register = image.address other) : register = other :=
  (List.idxOf_inj hmem).mp h

theorem cells_apart {cell cell' : Nat} {var var' : Var} (hcell : image.cells[cell]? = some var)
    (hcell' : image.cells[cell']? = some var')
    (h : image.address var.register = image.address var'.register) : cell = cell' := by
  have hregister := address_inj (image.cells_reserved var (List.mem_of_getElem? hcell)) h
  obtain ⟨hlt, -⟩ := List.getElem?_eq_some_iff.mp hcell
  refine (List.getElem?_inj (by simpa using hlt) image.nodup_cells).mp ?_
  simp [hcell, hcell', hregister]

/-- Writing the stack slot of a variable writes its cell. -/
theorem Mirrors.write (h : image.Mirrors store machine) {cell : Nat} {var : Var}
    (hcell : image.cells[cell]? = some var) {word : Word}
    (hword : ∀ width, var.ty = .int width → word.width = width) :
    image.Mirrors (store.write cell word) (machine.write (image.address var.register) word) := by
  refine ⟨h.slots, fun other var' hother => ?_, fun other var' width word' hother hty hread => ?_⟩
  · simp only [Machine.write, Store.write]
    by_cases heq : other = cell
    · subst heq
      rw [hcell] at hother
      cases hother
      simp
    · have hne : image.address var'.register ≠ image.address var.register :=
        fun haddress => heq (cells_apart hother hcell haddress)
      simpa [heq, hne] using h.memory other var' hother
  · rw [Store.write] at hread
    split_ifs at hread with heq
    · subst heq
      rw [hcell] at hother
      cases hother
      cases hread
      exact hword width hty
    · exact h.typed other var' width word' hother hty hread

-- ════════════════════════
-- Emitted instructions
-- ════════════════════════

open Lowering

variable {instruction : Instr} {result : Unit}

/-- A machine behind a body performs what is emitted next. -/
theorem At.fetch (h : image.At body store machine)
    (hemit : (emit instruction).eval body = .ok (result, last))
    (hstart : instruction.startsBlock = false) (hholds : image.Holds last) :
    last = body.append instruction ∧
      image.instructions[machine.position]? = some instruction := by
  obtain rfl := eq_append_of_eval_emit hemit h.isOpen hstart
  exact ⟨rfl, h.position ▸ hholds.getElem?_behind⟩

theorem At.assign (h : image.At body store machine)
    (hemit : (emit instruction).eval body = .ok (result, last)) (hplain : instruction.isPlain)
    (hholds : image.Holds last) {target : String} (htarget : instruction.target? = some target)
    {datum : Datum} (hperform : machine.perform image.instructions instruction =
      some (.running (machine.assign target datum))) :
    Machine.Reaches image.instructions machine (machine.assign target datum) ∧
      image.At last store (machine.assign target datum) := by
  obtain ⟨rfl, hfetch⟩ := h.fetch hemit (Instr.startsBlock_of_isPlain hplain) hholds
  refine ⟨.perform hfetch hperform, ?_, ?_, ?_⟩
  · rw [Body.isClosed_append, Instr.endsBlock_of_isPlain hplain]
  · rw [behind_append, ← h.position]
    rfl
  · exact h.mirrors.assign (image.target_not_mem instruction hholds.mem_code target htarget) datum

theorem Mirrors.address? (h : image.Mirrors store machine) {var : Var}
    (hslot : var.register ∈ image.slots) :
    machine.address? var.operand = some (image.address var.register) := by
  simp [Machine.address?, Var.operand, h.slots var.register hslot]

theorem At.writeSlot (h : image.At body store machine) {value : Value} {var : Var}
    (hemit : (emit (.store value var.operand)).eval body = .ok (result, last))
    (hholds : image.Holds last) (hslot : var.register ∈ image.slots) {word : Word}
    (hvalue : machine.value? value = some word) :
    last = body.append (.store value var.operand) ∧
      Machine.Reaches image.instructions machine
        (machine.write (image.address var.register) word) := by
  obtain ⟨rfl, hfetch⟩ := h.fetch hemit rfl hholds
  refine ⟨rfl, .perform hfetch ?_⟩
  simp [Machine.perform, hvalue, h.mirrors.address? hslot]

/-- Storing to the variable of a cell writes the cell. -/
theorem At.write (h : image.At body store machine) {value : Value} {cell : Nat} {var : Var}
    (hemit : (emit (.store value var.operand)).eval body = .ok (result, last))
    (hholds : image.Holds last) (hcell : image.cells[cell]? = some var) {word : Word}
    (hvalue : machine.value? value = some word)
    (hword : ∀ width, var.ty = .int width → word.width = width) :
    ∃ next, Machine.Reaches image.instructions machine next ∧
      image.At last (store.write cell word) next := by
  have hslot := image.cells_reserved var (List.mem_of_getElem? hcell)
  obtain ⟨rfl, hreaches⟩ := h.writeSlot hemit hholds hslot hvalue
  refine ⟨_, hreaches, by simp [Instr.endsBlock], ?_, h.mirrors.write hcell hword⟩
  rw [behind_append, ← h.position]
  rfl

/-- A branch goes behind its label. -/
theorem jump {name : String} {labelled : Body} (hends : labelled.EndsWith (.label name))
    (hholds : image.Holds labelled) (machine : Machine) :
    ∃ position, labelPosition? image.instructions name = some position ∧
      Machine.Reaches image.instructions (machine.goTo position)
        (machine.goTo (image.behind labelled)) := by
  obtain ⟨before, hbefore⟩ := hends
  have hlabel : image.instructions[image.entry.length + before.length]? = some (.label name) := by
    obtain ⟨rest, hrest⟩ := hholds
    rw [instructions, ← hrest, hbefore, List.getElem?_append_right (by omega)]
    simp
  refine ⟨_, labelPosition?_eq image.nodup_labels hlabel, .perform hlabel ?_⟩
  simp [Machine.perform, Machine.advance, Machine.goTo, behind, hbefore, Nat.add_assoc]

theorem reaches_branch {name : String}
    (hfetch : image.instructions[machine.position]? = some (.branch name))
    {labelled : Body} (hends : labelled.EndsWith (.label name)) (hholds : image.Holds labelled) :
    Machine.Reaches image.instructions machine (machine.goTo (image.behind labelled)) := by
  obtain ⟨position, hposition, hreaches⟩ := jump hends hholds machine
  refine .trans (.perform hfetch ?_) hreaches
  simp [Machine.perform, hposition]

theorem Mirrors.behind_label (h : image.Mirrors store machine) {name : String} {labelled : Body}
    (hends : labelled.EndsWith (.label name)) :
    image.At labelled store (machine.goTo (image.behind labelled)) :=
  ⟨hends.isClosed, rfl, h.goTo _⟩

theorem At.branch (h : image.At body store machine) {name : String}
    (hemit : (emit (.branch name)).eval body = .ok (result, last)) (hholds : image.Holds last)
    {labelled : Body} (hends : labelled.EndsWith (.label name)) (hlabelled : image.Holds labelled) :
    ∃ next, Machine.Reaches image.instructions machine next ∧ image.At labelled store next := by
  obtain ⟨-, hfetch⟩ := h.fetch hemit rfl hholds
  exact ⟨_, reaches_branch hfetch hends hlabelled, h.mirrors.behind_label hends⟩

theorem At.fork (h : image.At body store machine) {condition : Operand} {positive negative : String}
    (hemit : (emit (.branchIf condition positive negative)).eval body = .ok (result, last))
    (hholds : image.Holds last) {word : Word} {truth : Bool}
    (hword : machine.word? .i1 condition = some word) (htruth : word.truth? = some truth)
    {labelled : Body} (hends : labelled.EndsWith (.label (if truth then positive else negative)))
    (hlabelled : image.Holds labelled) :
    ∃ next, Machine.Reaches image.instructions machine next ∧ image.At labelled store next := by
  obtain ⟨-, hfetch⟩ := h.fetch hemit rfl hholds
  obtain ⟨position, hposition, hreaches⟩ := jump hends hlabelled machine
  refine ⟨_, .trans (.perform hfetch ?_) hreaches, h.mirrors.behind_label hends⟩
  simp [Machine.perform, hword, htruth, hposition]

/-- A label behind an open block is reached by the branch that ends the block. -/
theorem At.label (h : image.At body store machine) {name : String}
    (hemit : (emit (.label name)).eval body = .ok (result, last)) (hholds : image.Holds last) :
    ∃ next, Machine.Reaches image.instructions machine next ∧ image.At last store next := by
  have hends := endsWith_of_eval_emit hemit
  have hfetch : image.instructions[machine.position]? = some (.branch name) := by
    rcases eval_emit_cases hemit with ⟨hplaced, -⟩ | ⟨_, ⟨⟩, -, rfl⟩ | ⟨hstart, -, -⟩
    · simp [h.isOpen, Instr.startsBlock] at hplaced
    · rw [h.position]
      exact hholds.of_append.getElem?_behind
    · simp [Instr.startsBlock] at hstart
  exact ⟨_, reaches_branch hfetch hends hholds, h.mirrors.behind_label hends⟩

end Image

/-- A name stands for the variable of its cell. -/
theorem Linked.cell {image : Image} {env : Env} {vars : List Var} {body : Body} {name : String}
    {cell : Nat} {shape : Shape} (h : Linked env vars body)
    (hvars : vars <+: image.cells) (hname : env.resolve name = some (cell, shape)) :
    ∃ var, image.cells[cell]? = some var ∧ body.scope.find? name = some var ∧
      shape.Describes var.ty := by
  obtain ⟨var, hcell, hfound, hshape⟩ := h.resolve hname
  obtain ⟨hlt, rfl⟩ := List.getElem?_eq_some_iff.mp hcell
  exact ⟨vars[cell], List.prefix_iff_getElem?.mp hvars cell hlt, hfound, hshape⟩

end ThreeAddress
