import ThreeAddress.Proofs.ControlFlow.Blocks
import ThreeAddress.Proofs.ControlFlow.Graph

/-!
# Dominance

Where every variable is declared before it is mentioned, every register that an instruction reads is
written before: it is an argument, a stack slot of the entry block, or it is written earlier in the
same basic block. No control flow comes between, so the definition dominates the use.

## Main definitions

* `ReadsKnown`: every instruction reads known registers or such as its own block has written.
* `FunctionCode.Definition`: a definition that dominates a use.

## Main statements

* `Body.Steps.readsKnown`: lowering with checked operands keeps that.
* `exists_definition_of_mem_functions`: every register that a lowered function reads has such a
  definition.
-/

namespace ThreeAddress

/-- Every register that an instruction of the code reads is known from elsewhere, or the block of
the instruction has written it before. -/
def ReadsKnown (known : List String) (code : List Instr) : Prop :=
  ∀ before instruction after, code = before ++ instruction :: after →
    ∀ register ∈ instruction.uses,
      register ∈ known ∨ register ∈ (openBlock before).filterMap Instr.target?

variable {known : List String} {code : List Instr}

theorem ReadsKnown.nil : ReadsKnown known [] := by
  intro before instruction after h
  simp at h

theorem ReadsKnown.mono {more : List String} (h : ReadsKnown known code) (hsubset : known ⊆ more) :
    ReadsKnown more code := fun before instruction after hcode register hmem =>
  (h before instruction after hcode register hmem).imp_left fun hmem => hsubset hmem

theorem mem_openBlock_append (before : List Instr) {instruction : Instr}
    (h : instruction ∈ openBlock code) : instruction ∈ openBlock (before ++ code) := by
  induction code using List.reverseRecOn with
  | nil => simp [openBlock] at h
  | append_singleton code last ih =>
    by_cases hplain : last.isPlain
    · rw [openBlock_append_of_isPlain code hplain] at h
      rw [← List.append_assoc, openBlock_append_of_isPlain _ hplain]
      rcases List.mem_append.mp h with h | h
      · exact List.mem_append_left _ (ih h)
      · exact List.mem_append_right _ h
    · rw [openBlock_append_of_not_isPlain code hplain] at h
      simp at h

/-- Code in front only adds to what has been written. -/
theorem ReadsKnown.append {more : List Instr} (h : ReadsKnown known code)
    (h' : ReadsKnown known more) : ReadsKnown known (code ++ more) := by
  intro before instruction after hsplit register hmem
  rcases List.append_eq_append_iff.mp hsplit with ⟨rest, rfl, hrest⟩ | ⟨rest, rfl, hrest⟩
  · refine (h' rest instruction after hrest register hmem).imp_right fun hwritten => ?_
    obtain ⟨other, hother, htarget⟩ := List.mem_filterMap.mp hwritten
    exact List.mem_filterMap.mpr ⟨other, mem_openBlock_append code hother, htarget⟩
  · cases rest with
    | nil =>
      refine (h' [] instruction after (by simpa using hrest.symm) register hmem).imp_right
        fun hwritten => ?_
      simp [openBlock] at hwritten
    | cons first rest =>
      rw [List.cons_append, List.cons.injEq] at hrest
      obtain ⟨rfl, -⟩ := hrest
      exact h before instruction rest rfl register hmem

theorem readsKnown_singleton {instruction : Instr}
    (h : ∀ register ∈ instruction.uses, register ∈ known) : ReadsKnown known [instruction] := by
  intro before other after hsplit register hmem
  obtain ⟨rfl, rfl, rfl⟩ : before = [] ∧ instruction = other ∧ after = [] := by
    cases before <;> simp_all
  exact Or.inl (h register hmem)

/-- One more instruction may read what is known and what its block has written. -/
theorem ReadsKnown.concat {instruction : Instr} (h : ReadsKnown known code)
    (hreads : ∀ register ∈ instruction.uses,
      register ∈ known ∨ register ∈ (openBlock code).filterMap Instr.target?) :
    ReadsKnown known (code ++ [instruction]) := by
  intro before other after hsplit register hmem
  rcases List.eq_nil_or_concat after with rfl | ⟨after, last, rfl⟩
  · obtain ⟨rfl, hlast⟩ := List.append_inj' hsplit rfl
    cases hlast
    exact hreads register hmem
  · have hcode : code ++ [instruction] = (before ++ other :: after) ++ [last] := by simpa using hsplit
    obtain ⟨rfl, -⟩ := List.append_inj' hcode rfl
    exact h before other after rfl register hmem

namespace Body

variable {permit : Permit} {body last : Body}

theorem Step.readsKnown (h : Step permit body last) (hchecked : ¬permit.unchecked)
    (hbody : ReadsKnown body.slots body.code) : ReadsKnown last.slots last.code := by
  have hslots := Steps.slots_subset (.single h)
  cases h with
  | mint | rebind | addConstant => exact hbody
  | reserve slot _ =>
    rw [code_reserve]
    exact hbody.mono hslots
  | append instruction _ _ _ hreads =>
    rw [code_append]
    refine ReadsKnown.concat (hbody.mono hslots) fun register hmem => ?_
    rw [slots_append]
    exact (hreads register hmem).resolve_right hchecked

theorem Steps.readsKnown (h : Steps permit body last) (hchecked : ¬permit.unchecked)
    (hbody : ReadsKnown body.slots body.code) : ReadsKnown last.slots last.code :=
  h.invariant (P := fun body => ReadsKnown body.slots body.code)
    (fun _ _ hstep => hstep.readsKnown hchecked) hbody

end Body

/-- A parameter is copied to a stack slot that is reserved right in front. -/
theorem Parameter.readsKnown_copy (parameter : Parameter) :
    ReadsKnown [parameter.incoming.register] parameter.copy := by
  have hslot : ReadsKnown [parameter.incoming.register]
      [.alloca parameter.slot.register parameter.slot.ty] :=
    readsKnown_singleton (by simp [Instr.uses, Instr.operands])
  refine hslot.concat fun register hmem => ?_
  have hmem : register = parameter.incoming.register ∨ register = parameter.slot.register := by
    simpa [Instr.uses, Instr.operands, Var.value, Var.operand, Operand.register?] using hmem
  rcases hmem with rfl | rfl
  · exact Or.inl List.mem_cons_self
  · refine Or.inr ?_
    rw [← List.nil_append [Instr.alloca _ _], openBlock_append_of_isPlain _ rfl]
    simp [Instr.target?]

theorem readsKnown_slots (slots : List Var) :
    ReadsKnown known (slots.map fun slot => .alloca slot.register slot.ty) := by
  induction slots with
  | nil => exact .nil
  | cons slot rest ih =>
    exact (readsKnown_singleton (by simp [Instr.uses, Instr.operands])).append ih

theorem Prologue.readsKnown_code (prologue : Prologue) :
    ReadsKnown (prologue.parameters.map fun parameter => parameter.incoming.register)
      prologue.code := by
  refine ReadsKnown.append ?_ (readsKnown_slots _)
  induction prologue.parameters with
  | nil => exact .nil
  | cons parameter rest ih =>
    rw [List.flatMap_cons, List.map_cons]
    exact (parameter.readsKnown_copy.mono (by simp)).append (ih.mono (by simp))

-- ════════════════════════
-- Definitions and uses
-- ════════════════════════

namespace FunctionCode

/-- The instruction at `definition`, and no other, writes a register. It comes before `use` in the
text, it is a stack slot of the entry block or stands in the same block as the use, and it dominates
the use. -/
structure Definition (function : FunctionCode) (register : String) (definition use : Nat) :
    Prop where
  writes : ∃ instruction, function.instructions[definition]? = some instruction ∧
    instruction.target? = some register
  unique : ∀ other instruction, function.instructions[other]? = some instruction →
    instruction.target? = some register → other = definition
  precedes : definition < use
  located : (InEntryBlock function.instructions definition ∧
      ∃ ty, function.instructions[definition]? = some (.alloca register ty)) ∨
    InSameBlock function.instructions definition use
  dominates : Dominates function.instructions definition use

end FunctionCode

theorem exists_split_of_mem_openBlock {before : List Instr} {writer : Instr}
    (h : writer ∈ openBlock before) : ∃ front between, before = front ++ writer :: between ∧
      ∀ other ∈ between, other.isPlain := by
  obtain ⟨earlier, hearlier⟩ := List.rtakeWhile_suffix Instr.isPlain before
  obtain ⟨passed, between, hsplit⟩ := List.append_of_mem h
  refine ⟨earlier ++ passed, between, ?_, fun other hother => ?_⟩
  · rw [List.append_assoc, ← hsplit, openBlock, hearlier]
  · exact List.mem_rtakeWhile_imp (show other ∈ openBlock before by simp [hsplit, hother])

/-- What the open block has written is defined in the same block. -/
theorem FunctionCode.definition_of_mem_openBlock {function : FunctionCode} {before after : List Instr}
    {instruction : Instr} {register : String} (hnodup : function.names.Nodup)
    (hsplit : function.instructions = before ++ instruction :: after)
    (huse : register ∈ instruction.uses)
    (hwritten : register ∈ (openBlock before).filterMap Instr.target?) :
    ∃ definition, function.Definition register definition before.length := by
  obtain ⟨writer, hmem, htarget⟩ := List.mem_filterMap.mp hwritten
  obtain ⟨front, between, rfl, hplain⟩ := exists_split_of_mem_openBlock hmem
  have hcode : function.instructions =
      front ++ ([writer] ++ (between ++ [instruction]) ++ after) := by
    simp [hsplit]
  have hlength : (front ++ writer :: between).length = front.length + 1 + between.length := by
    simp
    omega
  have hblock : InSameBlock function.instructions front.length
      (front ++ writer :: between).length := by
    -- Behind the definition come plain instructions and the one that reads, which is no label.
    intro position hlt hle name hlabel
    rw [hcode, List.getElem?_append_right (by omega), List.getElem?_append_left (by
      simp
      omega), List.getElem?_append_right (by simp; omega)] at hlabel
    rcases List.mem_append.mp (List.mem_of_getElem? hlabel) with hmem | hmem
    · have := hplain _ hmem
      simp [Instr.isPlain, Instr.startsBlock] at this
    · obtain rfl := List.mem_singleton.mp hmem
      simp [Instr.uses, Instr.operands] at huse
  have hwriter : function.instructions[front.length]? = some writer := by
    rw [hcode, List.getElem?_append_right (le_refl _)]
    simp
  exact ⟨front.length, ⟨writer, hwriter, htarget⟩,
    fun _ _ hother htarget' => eq_of_target?_eq hnodup hother hwriter htarget' htarget, by omega,
    Or.inr hblock, dominates_of_inSameBlock (by omega) hblock⟩

namespace Stages

variable {function : FunctionCode} (stages : Stages False function)

include stages

/-- A stack slot is reserved in the entry block, whatever uses it. -/
theorem definition_of_mem_slots {register : String} (hslot : register ∈ stages.ending.slots) {use : Nat}
    (huse : function.entry.length ≤ use) :
    ∃ definition, function.Definition register definition use := by
  rw [Body.slots, ← stages.entry_eq] at hslot
  obtain ⟨instruction, hmem, hregister⟩ := List.mem_filterMap.mp hslot
  obtain ⟨ty, rfl⟩ : ∃ ty, instruction = .alloca register ty := by
    cases instruction <;> simp_all [Instr.slot?]
  obtain ⟨definition, hlt, hget⟩ := List.getElem_of_mem hmem
  have hdefinition : function.instructions[definition]? = some (.alloca register ty) := by
    rw [FunctionCode.instructions, List.getElem?_append_left hlt, List.getElem?_eq_getElem hlt, hget]
  have hentry : InEntryBlock function.instructions definition := by
    intro before hbefore instruction hinstruction
    rw [FunctionCode.instructions, List.getElem?_append_left (by omega)] at hinstruction
    exact Instr.endsBlock_of_isPlain (stages.isPlain_entry instruction (List.mem_of_getElem? hinstruction))
  exact ⟨definition, ⟨_, hdefinition, rfl⟩,
    fun _ _ hother htarget =>
      FunctionCode.eq_of_target?_eq stages.nodup_names hother hdefinition htarget rfl,
    by omega, Or.inl ⟨hentry, ty, hdefinition⟩, dominates_of_inEntryBlock (by omega) hentry⟩

theorem readsKnown_code : ReadsKnown stages.ending.slots function.code := by
  rw [stages.code_eq]
  refine (stages.steps.readsKnown (fun h => h) ?_).concat fun register hmem => ?_
  · rw [stages.code_start]
    exact .nil
  · obtain ⟨operand, hoperand, hregister⟩ := List.mem_filterMap.mp hmem
    obtain ⟨returned, hreturned, rfl⟩ := List.mem_map.mp hoperand
    have hreads := stages.leaves.readable returned (by simpa using hreturned) register hregister
    exact hreads.resolve_right fun h => h

theorem readsKnown_entry : ReadsKnown function.parameters function.entry := by
  obtain ⟨slots, hslots⟩ := stages.steps.entry_eq
  rw [stages.parameters_eq, stages.entry_eq, hslots, stages.entry_start]
  exact stages.prologue.readsKnown_code.append (readsKnown_slots slots)

theorem definition_of_mem_uses {use : Nat} {instruction : Instr}
    (hinstruction : function.instructions[use]? = some instruction) {register : String}
    (hregister : register ∈ instruction.uses) :
    register ∈ function.parameters ∨ ∃ definition, function.Definition register definition use := by
  obtain ⟨before, after, hsplit, rfl⟩ : ∃ before after,
      function.instructions = before ++ instruction :: after ∧ before.length = use := by
    obtain ⟨hlt, hget⟩ := List.getElem?_eq_some_iff.mp hinstruction
    refine ⟨function.instructions.take use, function.instructions.drop (use + 1), ?_, ?_⟩
    · rw [← hget, ← List.drop_eq_getElem_cons hlt, List.take_append_drop]
    · rw [List.length_take]
      omega
  have hfromCode : ∀ rest, before = function.entry ++ rest →
      function.code = rest ++ instruction :: after →
      ∃ definition, function.Definition register definition before.length := by
    intro rest hbefore hrest
    rcases stages.readsKnown_code rest instruction after hrest register hregister with hslot | hwritten
    · exact stages.definition_of_mem_slots hslot (by simp [hbefore])
    · refine FunctionCode.definition_of_mem_openBlock stages.nodup_names hsplit hregister ?_
      obtain ⟨writer, hwriter, htarget⟩ := List.mem_filterMap.mp hwritten
      rw [hbefore]
      exact List.mem_filterMap.mpr ⟨writer, mem_openBlock_append _ hwriter, htarget⟩
  rcases List.append_eq_append_iff.mp hsplit with ⟨rest, hbefore, hrest⟩ | ⟨rest, hentry, hrest⟩
  · exact Or.inr (hfromCode rest hbefore hrest)
  · cases rest with
    | nil => exact Or.inr (hfromCode [] (by simp [hentry]) (by simpa using hrest.symm))
    | cons first rest =>
      rw [List.cons_append, List.cons.injEq] at hrest
      obtain ⟨rfl, -⟩ := hrest
      refine (stages.readsKnown_entry before instruction rest hentry register hregister).imp_right
        fun hwritten => ?_
      exact FunctionCode.definition_of_mem_openBlock stages.nodup_names hsplit hregister hwritten

end Stages

/-- Where every variable is declared before it is mentioned, every register that an instruction
reads is the register of an argument, or it has a definition that dominates the use. -/
theorem exists_definition_of_mem_functions {module : Module} {program : Program}
    (h : (lower module).result = .ok program) (hscoped : module.isScoped) {function : FunctionCode}
    (hfunction : function ∈ program.functions) {use : Nat} {instruction : Instr}
    (hinstruction : function.instructions[use]? = some instruction) {register : String}
    (hregister : register ∈ instruction.uses) :
    register ∈ function.parameters ∨ ∃ definition, function.Definition register definition use := by
  obtain ⟨stages⟩ := exists_stages_of_mem h (Or.inr ⟨Scope.Keyed.empty, hscoped⟩) hfunction
  exact stages.definition_of_mem_uses hinstruction hregister

/-- The comparison in the loop reads what the instruction in front of it has loaded. -/
theorem exists_definition_branching : ∃ program function, (lower branching).result = .ok program ∧
    branching.isScoped ∧ function ∈ program.functions ∧
    function.instructions[6]? =
      some (.compare .slt "sym13" .i32 (.register "sym14") (.immediate 10)) ∧
    ("sym14" ∈ function.parameters ∨ ∃ definition, function.Definition "sym14" definition 6) := by
  obtain ⟨program, function, h, hfunction, hsixth⟩ := exists_function_of_any {} branching
    (P := fun function => function.instructions[6]? =
      some (.compare .slt "sym13" .i32 (.register "sym14") (.immediate 10))) (by decide +kernel)
  have hscoped : branching.isScoped := by decide +kernel
  exact ⟨program, function, h, hscoped, hfunction, of_decide_eq_true hsixth,
    exists_definition_of_mem_functions h hscoped hfunction (of_decide_eq_true hsixth)
      (by decide)⟩

end ThreeAddress
