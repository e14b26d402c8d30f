import ThreeAddress.Proofs.ControlFlow.Structured

/-!
# Code that reads a stack slot only where it is set

Whether a stack slot may be unset is followed through code from its start to its end. What holds at a
label is agreed upon in advance: each jump to the label, and the code in front of it, must keep to that.
Then no path leads to a load from the slot without a store.

## Main definitions

* `Guarded`: code that loads from a slot only where it is set, given where the slot may be unset. Some
  instructions are excused.
* `Settles`: the same with labels that are chosen to suit the code.

## Main statements

* `Guarded.not_bypasses`: control comes to no load from the slot without a store to it, unless it is excused.
* `Settles.ite`, `Settles.loop`: conditionals and loops.
* `Settles.not_bypasses`: the code of a function that settles a slot.

## Design notes

Where control never comes, a slot counts as set, so that dead code has nothing to prove.
-/

namespace ThreeAddress

-- ════════════════════════
-- Loads and stores
-- ════════════════════════

namespace Instr

/-- Whether an instruction stores to a stack slot. -/
def sets (slot : String) : Instr → Bool
  | store _ (.register register) => register == slot
  | _ => false

/-- Whether an instruction loads from a stack slot. -/
def reads (slot : String) : Instr → Bool
  | load _ _ (.register register) => register == slot
  | _ => false

theorem sets_eq_false {slot : String} {instruction : Instr}
    (h : ∀ value, instruction ≠ .store value (.register slot)) : instruction.sets slot = false := by
  unfold sets
  split
  · next value register => simpa using fun heq => h value (by rw [heq])
  · rfl

theorem reads_eq_false_iff {slot : String} {instruction : Instr} :
    instruction.reads slot = false ↔
      ∀ target ty, instruction ≠ .load target ty (.register slot) := by
  unfold reads
  split
  · next target ty register => simp
  · next hne => simp only [true_iff]; exact fun target ty => hne target ty slot

end Instr

-- ════════════════════════
-- Guarded code
-- ════════════════════════

/-- Code that loads from a slot only where it is set, or by an instruction that is excused. The slot may be
unset at the start, at the end and at labels, as the Booleans say. -/
inductive Guarded (slot : String) (excused : Instr → Prop) (labels : String → Bool) :
    Bool → List Instr → Bool → Prop
  | nil (unset : Bool) : Guarded slot excused labels unset [] unset
  | label {unset after : Bool} {name : String} {rest : List Instr} (agrees : unset → labels name)
      (behind : Guarded slot excused labels (labels name) rest after) :
      Guarded slot excused labels unset (.label name :: rest) after
  | step {unset next after : Bool} {instruction : Instr} {rest : List Instr}
      (unlabelled : instruction.label? = none)
      (reads : unset → instruction.reads slot = false ∨ excused instruction)
      (agrees : unset → ∀ name ∈ instruction.leadsTo, labels name)
      (continues : unset → instruction.sets slot = false → instruction.endsBlock = false → next)
      (behind : Guarded slot excused labels next rest after) :
      Guarded slot excused labels unset (instruction :: rest) after

namespace Guarded

variable {slot exit : String} {excused : Instr → Prop} {labels : String → Bool}
  {code more : List Instr} {unset middle after : Bool} {position target : Nat}

theorem append (h : Guarded slot excused labels unset code middle)
    (h' : Guarded slot excused labels middle more after) :
    Guarded slot excused labels unset (code ++ more) after := by
  induction h with
  | nil => exact h'
  | label hagrees _ ih => exact .label hagrees (ih h')
  | step hlabel hreads hagrees hcontinues _ ih => exact .step hlabel hreads hagrees hcontinues (ih h')

/-- What holds behind a label, wherever it stands. -/
theorem behind_label {name : String} (h : Guarded slot excused labels unset code after)
    (hat : code[position]? = some (.label name)) :
    Guarded slot excused labels (labels name) (code.drop (position + 1)) after := by
  induction h generalizing position with
  | nil => simp at hat
  | label _ hbehind ih =>
    cases position with
    | zero =>
      cases hat
      exact hbehind
    | succ position => exact ih hat
  | step hlabel _ _ _ _ ih =>
    cases position with
    | zero =>
      cases hat
      cases hlabel
    | succ position => exact ih hat

theorem drop_eq_cons {instruction : Instr} (hat : code[position]? = some instruction) :
    code.drop position = instruction :: code.drop (position + 1) := by
  rw [List.drop_eq_getElem?_toList_append, hat]
  rfl

/-- If control may be somewhere and the slot unset, then so it may where control goes without a
store. -/
theorem skips (h : Guarded slot excused labels unset code after)
    (hhere : Guarded slot excused labels true (code.drop position) after)
    (hskips : Skips slot code position target) :
    Guarded slot excused labels true (code.drop target) after := by
  cases hskips.edge with
  | next hat hends =>
    rw [drop_eq_cons hat] at hhere
    cases hhere with
    | label hagrees hbehind => rwa [hagrees rfl] at hbehind
    | step _ _ _ hcontinues hbehind =>
      have hsets := Instr.sets_eq_false fun value heq => hskips.stores value (heq ▸ hat)
      rwa [hcontinues rfl hsets hends] at hbehind
  | jump hat hleads htarget =>
    rw [drop_eq_cons hat] at hhere
    rw [drop_eq_cons htarget]
    cases hhere with
    | label => simp [Instr.leadsTo] at hleads
    | step _ _ hagrees _ _ => exact .label (fun _ => hagrees rfl _ hleads) (h.behind_label htarget)

/-- Control comes to no load from the slot without a store to it, unless the load is excused. -/
theorem not_bypasses {register : String} {ty : Ty} (h : Guarded slot excused labels true code after)
    (hat : code[position]? = some (.load register ty (.register slot)))
    (hunexcused : ¬excused (.load register ty (.register slot))) :
    ¬Bypasses slot code position := by
  intro hbypasses
  have hpasses := hbypasses.passes
  have hhere : Guarded slot excused labels true (code.drop position) after := by
    clear hat hbypasses
    induction hpasses with
    | refl => exact h
    | tail _ hlast ih => exact h.skips ih hlast
  rw [drop_eq_cons hat] at hhere
  cases hhere with
  | step _ hreads _ _ _ => simp [Instr.reads, hunexcused] at hreads

/-- Where the slot is set, any code will do if it stays set at all labels of the code. -/
theorem of_set (h : ∀ name ∈ code.filterMap Instr.label?, labels name = false) :
    Guarded slot excused labels false code false := by
  induction code with
  | nil => exact .nil false
  | cons instruction rest ih =>
    cases hlabel : instruction.label? with
    | none =>
      rw [List.filterMap_cons_none hlabel] at h
      exact .step hlabel (by simp) (by simp) (by simp) (ih h)
    | some name =>
      rw [List.filterMap_cons_some hlabel, List.forall_mem_cons] at h
      obtain rfl : instruction = .label name := by
        cases instruction <;> simp_all [Instr.label?]
      exact .label (by simp) (h.1 ▸ ih h.2)

theorem plain (hplain : ∀ instruction ∈ code, instruction.isPlain)
    (hreads : unset → ∀ instruction ∈ code, instruction.reads slot = false ∨ excused instruction) :
    Guarded slot excused labels unset code unset := by
  induction code with
  | nil => exact .nil unset
  | cons instruction rest ih =>
    rw [List.forall_mem_cons] at hplain
    have hstarts := Instr.startsBlock_of_isPlain hplain.1
    have hleads := Instr.leadsTo_of_not_endsBlock (Instr.endsBlock_of_isPlain hplain.1)
    refine .step (Instr.label?_of_not_startsBlock hstarts) (fun hunset => ?_) (by simp [hleads])
      (fun hunset _ _ => hunset) (ih hplain.2 fun hunset other hmem => ?_)
    · exact hreads hunset instruction List.mem_cons_self
    · exact hreads hunset other (List.mem_cons_of_mem _ hmem)

/-- The end of an arm, where the slot is set if each way through the arm returns. -/
theorem closing {must : Bool} {name : String} {jump : List Instr}
    (hcloses : Closing must (.branch name) jump) (hmust : must → unset = false)
    (hagrees : unset → labels name) : Guarded slot excused labels unset jump false := by
  obtain rfl | ⟨rfl, rfl⟩ := hcloses
  · exact .step rfl (fun _ => Or.inl rfl) (by simpa [Instr.leadsTo] using hagrees)
      (by simp [Instr.endsBlock]) (.nil false)
  · rw [hmust rfl]
    exact .nil false

theorem fork (operand : Operand) {onTrue onFalse : String} (htrue : labels onTrue = unset)
    (hfalse : labels onFalse = unset) (h : Guarded slot excused labels false code after) :
    Guarded slot excused labels unset (.branchIf operand onTrue onFalse :: code) after :=
  .step rfl (fun _ => Or.inl rfl) (by simp [Instr.leadsTo, htrue, hfalse]) (by simp [Instr.endsBlock]) h

/-- A label that control comes to by jumps alone. -/
theorem behind {name : String} (hlabel : labels name = unset)
    (h : Guarded slot excused labels unset code after) :
    Guarded slot excused labels false (.label name :: code) after :=
  .label (by simp) (hlabel.symm ▸ h)

end Guarded

-- ════════════════════════
-- Labels that suit the code
-- ════════════════════════

/-- Code that is guarded if the slot may be unset at its labels as the code expects, and at the exit of
the function. -/
def Settles (slot : String) (excused : Instr → Prop) (exit : String) (unset : Bool) (code : List Instr)
    (after : Bool) : Prop :=
  ∃ expected : List (String × Bool), expected.map Prod.fst = code.filterMap Instr.label? ∧
    ∀ labels : String → Bool, (∀ entry ∈ expected, labels entry.1 = entry.2) → labels exit →
      Guarded slot excused labels unset code after

namespace Settles

variable {slot exit : String} {excused : Instr → Prop} {code more arm arm' : List Instr}
  {unset middle after after' must must' : Bool}

theorem seq (h : Settles slot excused exit unset code middle)
    (h' : Settles slot excused exit middle more after) :
    Settles slot excused exit unset (code ++ more) after := by
  obtain ⟨expected, hnames, hguarded⟩ := h
  obtain ⟨expected', hnames', hguarded'⟩ := h'
  refine ⟨expected ++ expected', by rw [List.map_append, List.filterMap_append, hnames, hnames'], ?_⟩
  intro labels hlabels hexit
  rw [List.forall_mem_append] at hlabels
  exact (hguarded labels hlabels.1 hexit).append (hguarded' labels hlabels.2 hexit)

/-- Code without labels that is guarded whatever is expected of others. -/
theorem of_guarded (hlabels : code.filterMap Instr.label? = [])
    (h : ∀ labels : String → Bool, labels exit → Guarded slot excused labels unset code after) :
    Settles slot excused exit unset code after :=
  ⟨[], hlabels.symm, fun labels _ hexit => h labels hexit⟩

/-- Where the slot is set, any code will do. -/
theorem of_set (slot : String) (excused : Instr → Prop) (exit : String) (code : List Instr) :
    Settles slot excused exit false code false := by
  refine ⟨(code.filterMap Instr.label?).map (·, false), by simp [Function.comp_def], ?_⟩
  intro labels hlabels _
  exact .of_set fun name hmem => hlabels _ (List.mem_map_of_mem hmem)

theorem plain (hplain : ∀ instruction ∈ code, instruction.isPlain)
    (hreads : unset → ∀ instruction ∈ code, instruction.reads slot = false ∨ excused instruction) :
    Settles slot excused exit unset code unset := by
  refine of_guarded ?_ fun labels _ => .plain hplain hreads
  rw [List.filterMap_eq_nil_iff]
  intro instruction hmem
  exact Instr.label?_of_not_startsBlock (Instr.startsBlock_of_isPlain (hplain instruction hmem))

theorem store (value : Value) : Settles slot excused exit unset [.store value (.register slot)] false :=
  of_guarded rfl fun _ _ => .step rfl (fun _ => Or.inl rfl) (by simp [Instr.leadsTo])
    (by simp [Instr.sets]) (.nil false)

theorem leave : Settles slot excused exit unset [.branch exit] false :=
  of_guarded rfl fun _ hexit => .closing (Or.inl rfl : Closing false _ _) (by simp) fun _ => hexit

theorem ite {jump jump' join : List Instr} (operand : Operand) (onTrue onFalse name : String)
    (hpositive : Settles slot excused exit unset arm after) (hmust : must → after = false)
    (hleaves : Closing must (.branch name) jump)
    (hnegative : Settles slot excused exit unset arm' after') (hmust' : must' → after' = false)
    (hleaves' : Closing must' (.branch name) jump')
    (hjoins : Closing (must && must') (.label name) join) :
    Settles slot excused exit unset (.branchIf operand onTrue onFalse :: .label onTrue :: (arm ++ (jump ++
      .label onFalse :: (arm' ++ (jump' ++ join))))) (after || after') := by
  obtain ⟨expected, hnames, hguarded⟩ := hpositive
  obtain ⟨expected', hnames', hguarded'⟩ := hnegative
  have hjump : jump.filterMap Instr.label? = [] := by
    obtain rfl | ⟨-, rfl⟩ := hleaves <;> rfl
  have hjump' : jump'.filterMap Instr.label? = [] := by
    obtain rfl | ⟨-, rfl⟩ := hleaves' <;> rfl
  refine ⟨(onTrue, unset) :: (expected ++ (onFalse, unset) :: (expected' ++
    (join.filterMap Instr.label?).map (·, after || after'))), ?_, ?_⟩
  · simp [List.filterMap_cons, hnames, hnames', hjump, hjump', Instr.label?, Function.comp_def]
  · intro labels hlabels hexit
    simp only [List.forall_mem_cons, List.forall_mem_append] at hlabels
    obtain ⟨htrue, harm, hfalse, harm', hjoin⟩ := hlabels
    have hagrees : (after || after') → labels name := by
      obtain rfl | ⟨hboth, -⟩ := hjoins
      · have hname : labels name = (after || after') := hjoin (name, _) List.mem_cons_self
        rw [hname]
        exact id
      · obtain ⟨hboth, hboth'⟩ := Bool.and_eq_true_iff.mp hboth
        simp [hmust hboth, hmust' hboth']
    have hend : Guarded slot excused labels false join (after || after') := by
      obtain rfl | ⟨hboth, rfl⟩ := hjoins
      · exact .behind (hjoin (name, _) List.mem_cons_self) (.nil _)
      · obtain ⟨hboth, hboth'⟩ := Bool.and_eq_true_iff.mp hboth
        rw [hmust hboth, hmust' hboth']
        exact .nil false
    have hnegative := (hguarded' labels harm' hexit).append
      ((Guarded.closing hleaves' hmust' fun hafter => hagrees (by simp [hafter])).append hend)
    have hpositive := (hguarded labels harm hexit).append
      ((Guarded.closing hleaves hmust fun hafter => hagrees (by simp [hafter])).append
        (.behind hfalse hnegative))
    exact .fork operand htrue hfalse (.behind htrue hpositive)

theorem loop {condition jump : List Instr} (operand : Operand) (test start name : String)
    (htested : Settles slot excused exit unset condition unset)
    (hbody : Settles slot excused exit unset arm after) (hmust : must → after = false)
    (hafter : after → unset) (hrepeats : Closing must (.branch test) jump) :
    Settles slot excused exit unset (.branch test :: .label test :: (condition ++
      .branchIf operand start name :: .label start :: (arm ++ (jump ++ [.label name])))) unset := by
  obtain ⟨expected, hnames, hguarded⟩ := htested
  obtain ⟨expected', hnames', hguarded'⟩ := hbody
  have hjump : jump.filterMap Instr.label? = [] := by
    obtain rfl | ⟨-, rfl⟩ := hrepeats <;> rfl
  refine ⟨(test, unset) :: (expected ++ (start, unset) :: (expected' ++ [(name, unset)])), ?_, ?_⟩
  · simp [List.filterMap_cons, hnames, hnames', hjump, Instr.label?]
  · intro labels hlabels hexit
    simp only [List.forall_mem_cons, List.forall_mem_append, List.not_mem_nil] at hlabels
    obtain ⟨htest, hcondition, hstart, harm, hname, -⟩ := hlabels
    have harm := (hguarded' labels harm hexit).append
      ((Guarded.closing hrepeats hmust fun h => htest.trans (hafter h)).append
        (.behind hname (.nil unset)))
    have htested := (hguarded labels hcondition hexit).append
      (.fork operand hstart hname (.behind hstart harm))
    exact (Guarded.closing (Or.inl rfl : Closing false _ _) (by simp) fun h => htest.trans h).append
      (.behind htest htested)

/-- Functions read a slot only where it is set, if their statements settle it and their end does not
read it, excused instructions apart. -/
theorem not_bypasses {rest : List Instr} {position : Nat} {register : String} {ty : Ty}
    (h : Settles slot excused exit true arm after) (hcode : code = arm ++ .label exit :: rest)
    (hnodup : (code.filterMap Instr.label?).Nodup)
    (hrest : ∀ labels, Guarded slot excused labels true rest false)
    (hat : code[position]? = some (.load register ty (.register slot)))
    (hunexcused : ¬excused (.load register ty (.register slot))) :
    ¬Bypasses slot code position := by
  obtain ⟨expected, hnames, hguarded⟩ := h
  subst hcode
  rw [List.filterMap_append, ← hnames, List.nodup_append] at hnodup
  obtain ⟨hnodup, -, hapart⟩ := hnodup
  let labels (name : String) : Bool := decide (name = exit ∨ (name, true) ∈ expected)
  have hexit : labels exit := by simp [labels]
  have hlabels : ∀ entry ∈ expected, labels entry.1 = entry.2 := by
    rintro ⟨name, state⟩ hmem
    cases state with
    | true => simp [labels, hmem]
    | false =>
      have hname : name ≠ exit :=
        hapart name (List.mem_map_of_mem hmem) exit (by simp [Instr.label?])
      have hunique : (name, true) ∉ expected := by
        intro hmem'
        have heq := List.inj_on_of_nodup_map hnodup hmem hmem' rfl
        cases heq
      simp [labels, hname, hunique]
  have harm := (hguarded labels hlabels hexit).append (.label (fun _ => hexit) (hexit ▸ hrest labels))
  exact harm.not_bypasses hat hunexcused

end Settles

end ThreeAddress
