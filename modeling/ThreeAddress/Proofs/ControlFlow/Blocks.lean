import ThreeAddress.Proofs.SingleDefinition

/-!
# Basic blocks

A lowered function is a row of basic blocks. The first has no label, every other one has, and each
ends with its only terminator. All branches stay inside the function, and control leaves it in one
place, at the end of the last block.

## Main definitions

* `BasicBlock`: plain instructions with a terminator behind them.
* `Ordered`: labels stand exactly behind terminators.
* `FunctionCode.WellFormed`: the blocks of a function with well formed control flow.

## Main statements

* `Ordered.exists_blocks`: ordered code that ends with a terminator is a row of basic blocks.
* `exists_wellFormed_of_mem_functions`: the control flow of every lowered function is well formed.
-/

namespace ThreeAddress

/-- Plain instructions with a terminator behind them. -/
structure BasicBlock where
  body : List Instr
  terminator : Instr
  isPlain_body : ∀ instruction ∈ body, instruction.isPlain
  endsBlock_terminator : terminator.endsBlock

namespace BasicBlock

def instructions (block : BasicBlock) : List Instr :=
  block.body ++ [block.terminator]

/-- The instructions of a block behind its label. -/
def labelled (block : String × BasicBlock) : List Instr :=
  .label block.1 :: block.2.instructions

end BasicBlock

/-- Whether code ends with a terminator. Without any code that is as it was before. -/
def closedAfter (closed : Bool) : List Instr → Bool
  | [] => closed
  | instruction :: rest => closedAfter instruction.endsBlock rest

/-- A label stands exactly behind each terminator, where `closed` says whether a terminator stands
in front. -/
def Ordered (closed : Bool) : List Instr → Prop
  | [] => True
  | instruction :: rest => instruction.startsBlock = closed ∧ Ordered instruction.endsBlock rest

theorem closedAfter_append (closed : Bool) (code more : List Instr) :
    closedAfter closed (code ++ more) = closedAfter (closedAfter closed code) more := by
  induction code generalizing closed with
  | nil => rfl
  | cons instruction rest ih => exact ih instruction.endsBlock

theorem ordered_append {closed : Bool} {code more : List Instr} :
    Ordered closed (code ++ more) ↔
      Ordered closed code ∧ Ordered (closedAfter closed code) more := by
  induction code generalizing closed with
  | nil => simp [Ordered, closedAfter]
  | cons instruction rest ih => simp [Ordered, closedAfter, ih, and_assoc]

theorem Body.isClosed_eq_closedAfter (body : Body) :
    body.isClosed = closedAfter false body.code := by
  rw [isClosed]
  rcases List.eq_nil_or_concat body.code with hcode | ⟨before, last, hcode⟩
  · simp [hcode, closedAfter]
  · simp [hcode, closedAfter, closedAfter_append]

/-- Plain code is ordered and stays open. -/
theorem ordered_of_isPlain {code : List Instr} (h : ∀ instruction ∈ code, instruction.isPlain) :
    Ordered false code ∧ closedAfter false code = false := by
  induction code with
  | nil => exact ⟨trivial, rfl⟩
  | cons instruction rest ih =>
    have hplain := h instruction List.mem_cons_self
    have hrest := ih fun other hmem => h other (List.mem_cons_of_mem _ hmem)
    rw [Ordered, closedAfter, Instr.endsBlock_of_isPlain hplain]
    exact ⟨⟨Instr.startsBlock_of_isPlain hplain, hrest.1⟩, hrest.2⟩

/-- Ordered code that ends with a terminator is a row of basic blocks, and the first has a label if
a terminator stands in front. -/
theorem Ordered.exists_blocks {code : List Instr} :
    (∀ body : List Instr, (∀ instruction ∈ body, instruction.isPlain) → Ordered false code →
      closedAfter false code → ∃ (entry : BasicBlock) (blocks : List (String × BasicBlock)),
        body ++ code = entry.instructions ++ blocks.flatMap BasicBlock.labelled) ∧
    (Ordered true code → closedAfter true code →
      ∃ blocks : List (String × BasicBlock), code = blocks.flatMap BasicBlock.labelled) := by
  induction code with
  | nil =>
    refine ⟨fun _ _ _ hclosed => ?_, fun _ _ => ⟨[], rfl⟩⟩
    simp [closedAfter] at hclosed
  | cons instruction rest ih =>
    constructor
    · rintro body hbody ⟨hstart, hrest⟩ hclosed
      cases hends : instruction.endsBlock with
      | false =>
        rw [hends] at hrest
        rw [closedAfter, hends] at hclosed
        have hplain : ∀ other ∈ body ++ [instruction], other.isPlain := by
          intro other hmem
          rcases List.mem_append.mp hmem with hmem | hmem
          · exact hbody other hmem
          · obtain rfl := List.mem_singleton.mp hmem
            simp [Instr.isPlain, hstart, hends]
        obtain ⟨entry, blocks, hblocks⟩ := ih.1 (body ++ [instruction]) hplain hrest hclosed
        exact ⟨entry, blocks, by rw [← hblocks]; simp⟩
      | true =>
        rw [hends] at hrest
        rw [closedAfter, hends] at hclosed
        obtain ⟨blocks, hblocks⟩ := ih.2 hrest hclosed
        exact ⟨⟨body, instruction, hbody, hends⟩, blocks, by
          rw [← hblocks]; simp [BasicBlock.instructions]⟩
    · rintro ⟨hstart, hrest⟩ hclosed
      obtain ⟨name, rfl⟩ : ∃ name, instruction = .label name := by
        cases instruction <;> simp_all [Instr.startsBlock]
      obtain ⟨block, blocks, hblocks⟩ := ih.1 [] (by simp) hrest hclosed
      exact ⟨(name, block) :: blocks, by
        rw [List.flatMap_cons, BasicBlock.labelled, List.cons_append, ← hblocks]; rfl⟩

-- ════════════════════════
-- What steps keep
-- ════════════════════════

namespace Body

variable {permit : Permit} {unchecked : Prop} {body last : Body}

theorem Step.ordered (h : Step permit body last) (hbody : Ordered false body.code) :
    Ordered false last.code := by
  cases h with
  | mint | rebind | addConstant => exact hbody
  | reserve slot =>
    rw [code_reserve]
    exact hbody
  | append instruction hplaced _ _ _ =>
    rw [code_append, ordered_append, ← isClosed_eq_closedAfter]
    exact ⟨hbody, hplaced, trivial⟩

theorem Steps.ordered (h : Steps permit body last) (hbody : Ordered false body.code) :
    Ordered false last.code :=
  h.invariant (P := fun body => Ordered false body.code) (fun _ _ => Step.ordered) hbody

/-- In front of the end of a function nothing returns, and nothing leads to dead code. -/
theorem Steps.emitted (h : Steps (.flow unchecked) body last) (hcode : body.code = []) :
    ∀ instruction ∈ last.code, (Permit.flow unchecked).emits instruction := by
  refine h.invariant (P := fun body => ∀ instruction ∈ body.code,
    (Permit.flow unchecked).emits instruction) ?_ (by simp [hcode])
  intro body last hstep hbody
  cases hstep with
  | mint | rebind | addConstant => exact hbody
  | reserve slot =>
    rw [code_reserve]
    exact hbody
  | append instruction _ hemits _ _ =>
    intro other hmem
    rw [code_append] at hmem
    rcases List.mem_append.mp hmem with hmem | hmem
    · exact hbody other hmem
    · obtain rfl := List.mem_singleton.mp hmem
      rcases hemits with hemits | ⟨name, rfl, _⟩
      · exact hemits
      · exact ⟨rfl, by simp [Instr.leadsTo]⟩

end Body

-- ════════════════════════
-- Well formed control flow
-- ════════════════════════

namespace FunctionCode

/-- The labels of a function, in the order they are set. -/
def labels (function : FunctionCode) : List String :=
  function.instructions.filterMap Instr.label?

/-- The control flow of a function is well formed, with an entry block, labelled blocks, and a last
block at the exit that all returns share. -/
structure WellFormed (function : FunctionCode) (entry : BasicBlock)
    (inner : List (String × BasicBlock)) (exit : String) (last : BasicBlock) : Prop where
  instructions_eq : function.instructions =
    entry.instructions ++ (inner ++ [(exit, last)]).flatMap BasicBlock.labelled
  ordered : Ordered false function.instructions
  /-- A branch goes to a label that is set once, and never to dead code. -/
  targets : ∀ instruction ∈ function.instructions, ∀ name ∈ instruction.leadsTo,
    function.labels.count name = 1 ∧ ¬IsDeadLabel name
  /-- Only the last block returns. -/
  isReturn_inner : ∀ block ∈ entry :: inner.map Prod.snd, block.terminator.isReturn = false
  exit_eq : ∃ suffix, exit = "cr" ++ suffix
  /-- The last block returns what it finds in the stack slot of the returned value. -/
  returns : ∃ slot value, Lowering.Fetches slot last.body value ∧ last.terminator = .ret value ∧
    value.map Value.ty = function.signature.returns

end FunctionCode

namespace Stages

variable {unchecked : Prop} {function : FunctionCode} (stages : Stages unchecked function)

include stages

/-- The entry of a function holds no control flow. -/
theorem isPlain_entry : ∀ instruction ∈ function.entry, instruction.isPlain :=
  stages.entry_cases (fun _ _ => rfl) fun _ _ => rfl

theorem emitted : ∀ instruction ∈ function.entry ++ stages.ending.code,
    (Permit.flow unchecked).emits instruction := by
  intro instruction hmem
  rcases List.mem_append.mp hmem with hmem | hmem
  · exact (Permit.straight_le_flow unchecked).emits _ (stages.isPlain_entry instruction hmem)
  · exact stages.steps.emitted stages.code_start instruction hmem

/-- Every label that is branched to is set. -/
theorem leadsTo_subset : stages.ending.leadsTo ⊆ stages.ending.labels := by
  obtain ⟨before, hexit⟩ := stages.leaves.exitBlock
  intro name hmem
  rcases stages.leaves.flows.leads name hmem with hmem | hmem | hmem
  · rcases stages.flows.leads name hmem with hmem | hmem | hmem
    · simp [Body.leadsTo, stages.code_start] at hmem
    · exact stages.leaves.flows.extended.steps.labels_subset hmem
    · obtain rfl := List.mem_singleton.mp hmem
      simp [Body.labels, hexit, Instr.label?]
  · exact hmem
  · simp at hmem

theorem instructions_eq : function.instructions =
    function.entry ++ stages.ending.code ++ [.ret stages.value] := by
  rw [FunctionCode.instructions, stages.code_eq, List.append_assoc]

theorem ordered : Ordered false function.instructions := by
  obtain ⟨hentry, hopen⟩ := ordered_of_isPlain stages.isPlain_entry
  have hcode := stages.steps.ordered (by simp [stages.code_start, Ordered])
  rw [stages.instructions_eq, ordered_append, ordered_append, closedAfter_append, hopen,
    ← Body.isClosed_eq_closedAfter, stages.leaves.isOpen]
  exact ⟨⟨hentry, hcode⟩, rfl, trivial⟩

theorem labels_eq : function.labels = stages.ending.labels := by
  have hentry : function.entry.filterMap Instr.label? = [] := by
    refine List.filterMap_eq_nil_iff.mpr fun instruction hmem => ?_
    exact Instr.label?_of_not_startsBlock
      (Instr.startsBlock_of_isPlain (stages.isPlain_entry instruction hmem))
  rw [FunctionCode.labels, stages.instructions_eq, List.filterMap_append, List.filterMap_append,
    hentry]
  simp [Body.labels, Instr.label?]

theorem nodup_labels : function.labels.Nodup :=
  (Instr.filterMap_sublist_defined? Instr.defined?_of_label? _).nodup
    (List.nodup_append.mp stages.nodup_names).2.1

theorem targets {instruction : Instr} (hmem : instruction ∈ function.instructions) {name : String}
    (hname : name ∈ instruction.leadsTo) :
    function.labels.count name = 1 ∧ ¬IsDeadLabel name := by
  rw [stages.instructions_eq] at hmem
  rcases List.mem_append.mp hmem with hmem | hmem
  · refine ⟨List.count_eq_one_of_mem stages.nodup_labels ?_,
      (stages.emitted instruction hmem).2 name hname⟩
    rw [stages.labels_eq]
    rcases List.mem_append.mp hmem with hmem | hmem
    · rw [Instr.leadsTo_of_not_endsBlock
        (Instr.endsBlock_of_isPlain (stages.isPlain_entry instruction hmem))] at hname
      simp at hname
    · exact stages.leadsTo_subset (List.mem_flatMap.mpr ⟨instruction, hmem, hname⟩)
  · obtain rfl := List.mem_singleton.mp hmem
    simp [Instr.leadsTo] at hname

theorem exists_wellFormed : ∃ entry inner exit last, function.WellFormed entry inner exit last := by
  obtain ⟨before, hexit⟩ := stages.leaves.exitBlock
  have hinstructions : function.instructions = (function.entry ++ before) ++
      .label stages.frame.exit :: (stages.loads ++ [.ret stages.value]) := by
    rw [stages.instructions_eq, hexit]
    simp
  have hordered := stages.ordered
  rw [hinstructions, ordered_append] at hordered
  obtain ⟨hbefore, hclosed, -⟩ := hordered
  obtain ⟨entry, inner, hblocks⟩ := Ordered.exists_blocks.1 [] (by simp) hbefore hclosed.symm
  let last : BasicBlock := ⟨stages.loads, .ret stages.value, stages.leaves.fetches.isPlain, rfl⟩
  refine ⟨entry, inner, stages.frame.exit, last, ?_, stages.ordered, fun _ hmem _ => stages.targets hmem,
    ?_, stages.exit_eq, _, _, stages.leaves.fetches, rfl, ?_⟩
  · rw [List.nil_append] at hblocks
    rw [hinstructions, hblocks]
    simp [BasicBlock.labelled, BasicBlock.instructions, last]
  · intro block hmem
    have hterminator : block.terminator ∈ function.entry ++ before := by
      rw [List.nil_append] at hblocks
      rw [hblocks]
      rcases List.mem_cons.mp hmem with rfl | hmem
      · simp [BasicBlock.instructions]
      · obtain ⟨pair, hpair, rfl⟩ := List.mem_map.mp hmem
        refine List.mem_append_right _ (List.mem_flatMap.mpr ⟨pair, hpair, ?_⟩)
        simp [BasicBlock.labelled, BasicBlock.instructions]
    refine (stages.emitted _ ?_).1
    rw [hexit, ← List.append_assoc]
    exact List.mem_append_left _ hterminator
  · rw [stages.leaves.fetches.map_ty, stages.returns_eq]

end Stages

/-- The control flow of every lowered function is well formed. -/
theorem exists_wellFormed_of_mem_functions {prelude : Scope} {module : Module} {program : Program}
    (h : (lowerWith prelude module).result = .ok program) {function : FunctionCode}
    (hfunction : function ∈ program.functions) :
    ∃ entry inner exit last, function.WellFormed entry inner exit last := by
  obtain ⟨stages⟩ := exists_stages_of_mem h (Or.inl trivial) hfunction
  exact stages.exists_wellFormed

/-- A function in which control flow nests: both arms of a conditional return, code follows a
return, and a loop has a conditional with an empty arm. -/
def branching : Module where
  items := [.function {
    name := "branching"
    parameters := [⟨"n", "i32"⟩]
    returns := some "i32"
    body := [
      .loop (.binary .less (.variableRef "n") (.integer 10)) [
        .ite (.binary .equal (.variableRef "n") (.integer 3))
          [.ret (some (.integer 7)), .assign (.variableRef "n") (.integer 0)] [],
        .assign (.variableRef "n") (.binary .add (.variableRef "n") (.integer 1))],
      .ite (.boolean true) [.ret (some (.variableRef "n"))] [.ret (some (.integer 1))],
      .ite (.boolean false) [.ret (some (.integer 2))] [.ret (some (.integer 3))]] }]

theorem exists_wellFormed_branching : ∃ program function,
    (lowerWith {} branching).result = .ok program ∧ function ∈ program.functions ∧
      ∃ entry inner exit last, function.WellFormed entry inner exit last := by
  obtain ⟨program, function, h, hfunction, -⟩ :=
    exists_function_of_any {} branching (P := fun _ => true) (by decide +kernel)
  exact ⟨program, function, h, hfunction, exists_wellFormed_of_mem_functions h hfunction⟩

end ThreeAddress
