import ThreeAddress.Proofs.ControlFlow.MissingReturn
import ThreeAddress.Proofs.ControlFlow.Settled
import ThreeAddress.Proofs.Emission.Session

/-!
# Variables are stored before they are loaded

The entry of a function reserves the stack slots of its parameters, of the returned value and of the
variables of its body, in the order of the text. Arguments are stored in the entry, and a variable where
it is bound. So control comes to a load from the stack slot of a variable only behind a store to it, unless
the load was written for a reading of the variable where it may be unset.

## Main definitions

* `FunctionCode.slots`: the stack slots of a function.
* `Session.Exposes`: the instructions of a function that were written for such a reading.

## Main statements

* `Stages.Of.slots_eq`: which variables the stack slots are for.
* `exists_store_before_load`: no path leads to a load from a variable without a store to it, exposed loads
  apart.
* `bypasses_skipping`: a variable that is bound in one arm of a conditional and read behind it.
-/

namespace ThreeAddress

/-- The stack slots of a function, in the order in which its entry reserves them. -/
def FunctionCode.slots (function : FunctionCode) : List String :=
  function.entry.filterMap Instr.slot?

/-- The stack slots of a prologue, those of parameters with their names. -/
def Prologue.slots (prologue : Prologue) : List (Var × Option String) :=
  prologue.parameters.map (fun parameter => (parameter.slot, some parameter.name)) ++
    prologue.returnSlot.toList.map (·, none)

theorem Scope.map_name_enter (scope : Scope) (parameters : List (String × Ty)) :
    (scope.enter parameters).1.map Parameter.name = parameters.map Prod.fst := by
  induction parameters generalizing scope with
  | nil => rfl
  | cons parameter rest ih => exact congrArg _ (ih _)

theorem FunctionDef.count_parameters (definition : FunctionDef) (name : String) :
    (definition.parameters.map fun parameter => some parameter.name).count (some name) =
      (definition.parameters.map TypedName.name).count name := by
  rw [count_some]
  simp [List.filterMap_map]

/-- A variable of the body has a larger number than the parameters of its name. -/
theorem FunctionDef.count_lt {definition : FunctionDef} {index : Nat} {name : String}
    (hname : definition.slots[index]? = some (some name))
    (hindex : definition.parameters.length ≤ index) :
    (definition.parameters.map TypedName.name).count name < definition.number index name := by
  have hleading : definition.parameters.map (fun parameter => some parameter.name) <+:
      definition.slots.take index := by
    rw [List.prefix_take_iff, FunctionDef.slots, List.append_assoc]
    exact ⟨List.prefix_append _ _, by simpa using hindex⟩
  rw [FunctionDef.number, List.take_add_one, hname, List.count_append, ← definition.count_parameters]
  exact Nat.lt_of_le_of_lt (hleading.sublist.count_le _) (Nat.lt_add_of_pos_right (by simp))

/-- In a list of stack slots with different registers, one of them is that of its variable. -/
theorem Binding.among_of_nodup {before after : List (Var × Option String)} {slot : Var}
    {name : String}
    (h : ((before ++ (slot, some name) :: after).map fun slot => slot.1.register).Nodup) :
    Binding.Among ⟨slot.register, name, (before.map Prod.snd).count (some name) + 1⟩ 0
      (before ++ (slot, some name) :: after) := by
  have hapart : ∀ {front middle back first second},
      before ++ (slot, some name) :: after = front ++ first :: (middle ++ second :: back) →
        first.1.register ≠ second.1.register := by
    intro front middle back first second heq
    rw [heq, List.map_append, List.map_cons, List.nodup_append, List.nodup_cons] at h
    exact fun hsame => h.2.1.1 (by simp [hsame])
  intro before' var name' after' heq
  rw [Nat.zero_add]
  rcases List.append_eq_append_iff.mp heq with ⟨between, rfl, hrest⟩ | ⟨between, rfl, hrest⟩
  · cases between with
    | nil =>
      cases hrest
      simp
    | cons next between =>
      cases hrest
      refine iff_of_false (hapart rfl).symm fun hnumber => ?_
      simp only [List.map_append, List.map_cons, List.count_append, List.count_cons_self] at hnumber
      omega
  · cases between with
    | nil =>
      cases hrest
      simp
    | cons next between =>
      cases hrest
      refine iff_of_false (hapart (List.append_assoc ..)) fun hnumber => ?_
      obtain ⟨hname, hnumber⟩ := hnumber
      simp only [hname] at hnumber
      simp only [List.map_append, List.map_cons, List.count_append, List.count_cons_self] at hnumber
      omega

namespace Stages

variable {unchecked : Prop} {function : FunctionCode} (stages : Stages unchecked function)

include stages

theorem nodup_slots : function.slots.Nodup := by
  have hnodup := (List.nodup_append.mp stages.nodup_names).2.1
  rw [FunctionCode.instructions, List.filterMap_append] at hnodup
  exact (Instr.filterMap_sublist_defined? Instr.defined?_of_slot? _).nodup
    (List.nodup_append.mp hnodup).1

/-- No instruction writes the register of a stack slot. -/
theorem target?_ne {slot : String} (hslot : slot ∈ function.slots) :
    ∀ instruction ∈ stages.finished.code, instruction.target? ≠ some slot := by
  intro instruction hmem htarget
  obtain ⟨reservation, hentry, hreserves⟩ := List.mem_filterMap.mp hslot
  have hnodup := (List.nodup_append.mp stages.nodup_names).2.1
  rw [FunctionCode.instructions, List.filterMap_append, List.nodup_append] at hnodup
  refine hnodup.2.2 slot ?_ slot ?_ rfl
  · exact List.mem_filterMap.mpr ⟨reservation, hentry, Instr.defined?_of_slot? hreserves⟩
  · refine List.mem_filterMap.mpr ⟨instruction, ?_, Instr.defined?_of_target? htarget⟩
    rw [stages.code_eq]
    exact List.mem_append_left _ (stages.leaves.flows.extended.steps.code_isPrefix.subset hmem)

/-- The end of a function loads only from the stack slot of the returned value. -/
theorem not_bypasses {slot : String} {excused : Instr → Prop} {before after : Bool}
    (hentry : Settles slot excused stages.frame.exit true function.entry before)
    (hcode : Settles slot excused stages.frame.exit before stages.finished.code after)
    (hslot : ∀ var ∈ stages.frame.returnSlot, var.register ≠ slot) {position : Nat} {target : String}
    {ty : Ty} (hat : function.instructions[position]? = some (.load target ty (.register slot)))
    (hunexcused : ¬excused (.load target ty (.register slot))) :
    ¬Bypasses slot function.instructions position := by
  obtain ⟨jump, hcloses, hinstructions⟩ := stages.exists_exit
  have hjump : ∃ left, Settles slot excused stages.frame.exit after jump left := by
    obtain rfl | ⟨-, rfl⟩ := hcloses
    · exact ⟨false, .leave⟩
    · exact ⟨after, .plain (by simp) (by simp)⟩
  obtain ⟨left, hjump⟩ := hjump
  have hloads : ∀ instruction ∈ stages.loads, instruction.reads slot = false := by
    have hfetches := stages.leaves.fetches
    generalize stages.frame.returnSlot = returnSlot, stages.loads = loads, stages.value = value
      at hfetches hslot ⊢
    cases hfetches with
    | nothing => simp
    | load register var => simpa [Instr.reads, Var.operand] using hslot var rfl
  rw [← List.append_assoc] at hinstructions
  refine ((hentry.seq hcode).seq hjump).not_bypasses hinstructions stages.nodup_labels
    (fun labels => ?_) hat hunexcused
  exact (Guarded.plain stages.leaves.fetches.isPlain fun _ instruction hmem =>
    Or.inl (hloads instruction hmem)).append
      (.step rfl (fun _ => Or.inl rfl) (by simp [Instr.leadsTo]) (by simp [Instr.endsBlock])
        (.nil false))

end Stages

namespace Stages.Of

variable {unchecked : Prop} {function : FunctionCode} {stages : Stages unchecked function}
  {globals : Globals} {table : TypeTable} {definition : FunctionDef} {signature : Signature}

/-- The parameters and the returned value have the first stack slots. -/
theorem map_slots_prologue (h : stages.Of globals table definition signature)
    (hsignature : table.denoteSignature definition = .ok signature) :
    stages.prologue.slots.map Prod.snd =
      definition.parameters.map (fun parameter => some parameter.name) ++
        definition.returns.toList.map fun _ => none := by
  have hnames : stages.prologue.parameters.map Parameter.name =
      definition.parameters.map TypedName.name := by
    rw [← h.prologue_eq, Scope.parameters_prologue, Scope.map_name_enter,
      TypeTable.map_fst_zip hsignature]
  have hreturns : stages.prologue.returnSlot.isSome = definition.returns.isSome := by
    rw [← Option.isSome_map (f := Var.ty), ← h.prologue_eq, Scope.map_ty_returnSlot,
      TypeTable.isSome_returns hsignature]
  rw [Prologue.slots, List.map_append, List.map_map, List.map_map]
  congr 1
  · simpa [Function.comp_def] using congrArg (List.map some) hnames
  · cases hslot : stages.prologue.returnSlot <;> cases htext : definition.returns <;> simp_all

/-- The entry of a function reserves the stack slots of its prologue and those of its body. -/
theorem slots_eq (h : stages.Of globals table definition signature)
    {slots : List (Var × Option String)} (hslots : stages.start.Reserves slots stages.finished) :
    function.slots = (stages.prologue.slots ++ slots).map fun slot => slot.1.register := by
  have hleft : stages.finished.Records (fun _ => True) [] (stages.ending.append (.ret stages.value)) :=
    (Lowering.books_leave : Lowering.Books (Record.ledger fun _ => True) [] _) h.left
  obtain ⟨none, hnone, hleft⟩ := hleft.slots
  obtain rfl := List.map_eq_nil_iff.mp hnone
  have hentry : function.entry = stages.finished.entry := by
    rw [stages.entry_eq]
    exact (Body.entry_append ..).symm.trans (hleft.entry.trans (List.append_nil _))
  rw [FunctionCode.slots, hentry, hslots.entry, stages.entry_start, List.filterMap_append,
    Prologue.filterMap_slot?_code, Prologue.filterMap_defined?_code]
  simp [Prologue.slots, Function.comp_def, Instr.slot?]

section Slot

variable {index : Nat} {slot name : String}

/-- Of the stack slots under the name of a variable, the one with its number is its own. -/
theorem among (h : stages.Of globals table definition signature)
    (hsignature : table.denoteSignature definition = .ok signature)
    (hslot : function.slots[index]? = some slot) (hname : definition.slots[index]? = some (some name))
    {slots : List (Var × Option String)}
    (hslots : slots.map Prod.snd = Block.tally Tally.slots definition.body)
    (hreserves : stages.start.Reserves slots stages.finished) :
    Binding.Among ⟨slot, name, definition.number index name⟩ 0
      (stages.prologue.slots ++ slots) := by
  have hregisters := h.slots_eq hreserves
  have hnames : definition.slots = (stages.prologue.slots ++ slots).map Prod.snd := by
    rw [List.map_append, h.map_slots_prologue hsignature, hslots, FunctionDef.slots]
  have hnodup := stages.nodup_slots
  rw [hregisters] at hslot hnodup
  rw [FunctionDef.number, hnames]
  rw [hnames] at hname
  generalize stages.prologue.slots ++ slots = all at hslot hname hnodup ⊢
  rw [List.getElem?_map, Option.map_eq_some_iff] at hslot hname
  obtain ⟨entry, hat, rfl⟩ := hslot
  obtain ⟨_, hat', hname⟩ := hname
  obtain rfl := Option.some.inj (hat.symm.trans hat')
  obtain ⟨hlt, hentry⟩ := List.getElem?_eq_some_iff.mp hat
  have hsplit : all.take index ++ (entry.1, some name) :: all.drop (index + 1) = all := by
    rw [← hname, ← hentry, List.getElem_cons_drop, List.take_append_drop]
  have hcount : ((all.map Prod.snd).take (index + 1)).count (some name) =
      ((all.take index).map Prod.snd).count (some name) + 1 := by
    rw [← List.map_take, List.take_add_one, hat, List.map_append, List.count_append]
    simp [hname]
  rw [hcount]
  have hamong := Binding.among_of_nodup (hsplit.symm ▸ hnodup)
  rwa [hsplit] at hamong

/-- How many parameters have the name of a variable. -/
theorem count_slots_prologue (h : stages.Of globals table definition signature)
    (hsignature : table.denoteSignature definition = .ok signature) :
    (stages.prologue.slots.map Prod.snd).count (some name) =
      (definition.parameters.map TypedName.name).count name := by
  have hreturns : (definition.returns.toList.map fun _ => none).count (some name) = 0 :=
    List.count_eq_zero_of_not_mem (by simp)
  rw [h.map_slots_prologue hsignature, List.count_append, definition.count_parameters, hreturns,
    Nat.add_zero]

theorem reserved (h : stages.Of globals table definition signature)
    (hsignature : table.denoteSignature definition = .ok signature)
    (hslot : function.slots[index]? = some slot)
    (hname : definition.slots[index]? = some (some name)) :
    Binding.Reserved ⟨slot, name, definition.number index name⟩
      ((definition.parameters.map TypedName.name).count name)
      (Block.tally Tally.slots definition.body) stages.start stages.finished := by
  refine ⟨fun hslots hreserves => ?_, stages.target?_ne (List.mem_of_getElem? hslot)⟩
  have hlater := (h.among hsignature hslot hname hslots hreserves).append.2
  rwa [h.count_slots_prologue hsignature, Nat.zero_add] at hlater

theorem resolved (h : stages.Of globals table definition signature)
    (hsignature : table.denoteSignature definition = .ok signature) (hkeyed : globals.root.Keyed)
    (hslot : function.slots[index]? = some slot)
    (hname : definition.slots[index]? = some (some name))
    (hindex : definition.parameters.length ≤ index) :
    Binding.Resolved ⟨slot, name, definition.number index name⟩
      ((definition.parameters.map TypedName.name).count name)
      (definition.parameters.map TypedName.name) stages.start := by
  have hlt := FunctionDef.count_lt hname hindex
  refine ⟨fun other hmem var hvar hregister => ?_, fun hnumber => absurd hnumber hlt.ne⟩
  rw [← TypeTable.map_fst_zip hsignature] at hmem
  obtain ⟨parameter, hparameter, hfound⟩ :=
    hkeyed.exists_find?_prologue _ signature.returns hmem
  rw [h.prologue_eq] at hparameter hfound
  rw [h.scope_start] at hvar
  obtain rfl : parameter.slot = var := Option.some.inj (hfound.symm.trans hvar)
  -- The number of a parameter is at most that of all parameters of its name.
  obtain ⟨slots, hslots, hreserves⟩ := (Lowering.records_lowerStmts h.lowered).slots
  have hamong := (h.among hsignature hslot hname hslots hreserves).append.1
  have hcount : (stages.prologue.slots.map Prod.snd).count (some name) = _ :=
    h.count_slots_prologue hsignature
  obtain ⟨before, after, hsplit⟩ : ∃ before after, stages.prologue.slots =
      before ++ (parameter.slot, some parameter.name) :: after :=
    List.append_of_mem (List.mem_append_left _ (List.mem_map_of_mem hparameter))
  obtain ⟨hsame, hnumber⟩ := (hamong before _ _ after hsplit).mp hregister
  rw [hsplit, List.map_append, List.map_cons, List.count_append, hsame, List.count_cons_self] at hcount
  simp only at hnumber hcount
  omega

end Slot

end Stages.Of

/-- An instruction of a function that was written for a reading of a variable where it may be unset. The
variable has the given name, and its stack slot the given index. -/
def Session.Exposes {prelude : Scope} {module : Module} (session : Session prelude module) (index : Nat)
    (name : String) (instruction : Instr) : Prop :=
  Block.Exposes session.frame name (session.function.definition.number index name)
    ((session.function.definition.parameters.map TypedName.name).count name) false
    session.function.definition.body session.start instruction

end ThreeAddress
