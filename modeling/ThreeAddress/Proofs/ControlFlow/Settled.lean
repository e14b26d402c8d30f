import ThreeAddress.Proofs.ControlFlow.Assignment
import ThreeAddress.Proofs.ControlFlow.Guarded
import ThreeAddress.Proofs.ControlFlow.Parts
import ThreeAddress.Proofs.Typing.WellTyped

/-!
# Lowered statements read variables where they are set

Of all variables of a function one is followed while statements are lowered: which names stand for it,
and whether control may come to a place before it is set. An expression loads from the stack slots of
the variables that it reads, so the code of statements settles the stack slot of a variable, if what is
written for readings of it where it may be unset is excused.

## Main definitions

* `Binding`: a variable, told apart from others of its name by its number.
* `Binding.Resolved`: which names stand for the variable.
* `Binding.Reserved`: the stack slot of the variable among those reserved by statements.
* `Lowering.Settling`: a pass whose code settles the stack slot.

## Main statements

* `Lowering.settling_lowerStmts`: statements settle the stack slot of a variable, exposed instructions
  apart.
-/

namespace ThreeAddress

/-- A variable of a function: its stack slot and its name, and its number among the variables of that
name. -/
structure Binding where
  slot : String
  name : String
  number : Nat

namespace Binding

variable {binding : Binding} {excused : Instr → Prop} {seen : Nat} {body middle last : Body}

-- ════════════════════════
-- Its stack slot
-- ════════════════════════

/-- Among some stack slots, that of the variable is where its number says, if `seen` variables of its
name came before. -/
def Among (binding : Binding) (seen : Nat) (slots : List (Var × Option String)) : Prop :=
  ∀ before var name after, slots = before ++ (var, name) :: after →
    (var.register = binding.slot ↔ name = some binding.name ∧
      seen + (before.map Prod.snd).count (some binding.name) + 1 = binding.number)

theorem Among.append {slots more : List (Var × Option String)}
    (h : binding.Among seen (slots ++ more)) :
    binding.Among seen slots ∧
      binding.Among (seen + (slots.map Prod.snd).count (some binding.name)) more := by
  constructor
  · rintro before var name after rfl
    exact h before var name (after ++ more) (by simp)
  · rintro before var name after rfl
    have hlater := h (slots ++ before) var name after (by simp)
    rwa [List.map_append, List.count_append, ← Nat.add_assoc] at hlater

theorem Among.eq_some {slots : List (Var × Option String)} (h : binding.Among seen slots)
    {slot : Var × Option String} (hmem : slot ∈ slots) (hregister : slot.1.register = binding.slot) :
    slot.2 = some binding.name := by
  obtain ⟨before, after, rfl⟩ := List.append_of_mem hmem
  exact ((h before slot.1 slot.2 after rfl).mp hregister).1

/-- From one body to another, stack slots are reserved under the given names, that of the variable where
its number says. No instruction writes its register. -/
structure Reserved (binding : Binding) (seen : Nat) (names : List (Option String))
    (body last : Body) : Prop where
  among : ∀ {slots}, slots.map Prod.snd = names → body.Reserves slots last → binding.Among seen slots
  unwritten : ∀ instruction ∈ last.code, instruction.target? ≠ some binding.slot

theorem Reserved.append {names more : List (Option String)} {literal : Int → Prop}
    (h : binding.Reserved seen (names ++ more) body last)
    (hfirst : body.Records literal names middle) (hnext : middle.Records literal more last) :
    binding.Reserved seen names body middle ∧
      binding.Reserved (seen + names.count (some binding.name)) more middle last := by
  obtain ⟨added, hcode, -⟩ := hnext.code
  refine ⟨⟨fun hslots hreserves => ?_, fun instruction hmem => ?_⟩,
    ⟨fun hslots hreserves => ?_, h.unwritten⟩⟩
  · obtain ⟨slots, hnames, hslots'⟩ := hnext.slots
    exact (h.among (by rw [List.map_append, hslots, hnames]) (hreserves.trans hslots')).append.1
  · exact h.unwritten instruction (hcode ▸ List.mem_append_left _ hmem)
  · obtain ⟨slots, hnames, hslots'⟩ := hfirst.slots
    rw [← hnames]
    exact (h.among (by rw [List.map_append, hslots, hnames]) (hslots'.trans hreserves)).append.2

/-- A passage behind the statements does not matter. -/
theorem Reserved.trim {names : List (Option String)} {literal : Int → Prop}
    (h : binding.Reserved seen names body last) (hfirst : body.Records literal names middle)
    (hnext : middle.Records literal [] last) : binding.Reserved seen names body middle := by
  rw [← List.append_nil names] at h
  exact (h.append hfirst hnext).1

-- ════════════════════════
-- The names that stand for it
-- ════════════════════════

/-- Of the given names, at most that of the variable stands for it, and it does so if the last of `seen`
variables of that name is the one. -/
structure Resolved (binding : Binding) (seen : Nat) (names : List String) (body : Body) : Prop where
  unique : ∀ name ∈ names, ∀ var, body.scope.find? name = some var →
    var.register = binding.slot → name = binding.name ∧ seen = binding.number
  found : seen = binding.number →
    ∃ var, body.scope.find? binding.name = some var ∧ var.register = binding.slot

theorem Resolved.run {names declared : List String} {tally : List (Option String)}
    {literal : Int → Prop} (h : binding.Resolved seen names body) (hkeyed : body.scope.Keyed)
    (hfound : ∀ name ∈ names, ∃ var, body.scope.find? name = some var)
    (hrecords : body.Records literal tally last) (hreserved : binding.Reserved seen tally body last)
    (hdeclared : tally.filterMap id = declared) :
    binding.Resolved (seen + tally.count (some binding.name)) (names ++ declared) last := by
  obtain ⟨slots, rfl, hslots⟩ := hrecords.slots
  have hamong := hreserved.among rfl hslots
  constructor
  · intro name hmem var hvar hregister
    by_cases hbound : some name ∈ slots.map Prod.snd
    · obtain ⟨before, slot, after, rfl, hlast, hslot⟩ := hslots.bound hkeyed hbound
      obtain rfl : slot = var := Option.some.inj (hslot.symm.trans hvar)
      obtain ⟨heq, hnumber⟩ := (hamong before slot (some name) after rfl).mp hregister
      obtain rfl : name = binding.name := Option.some.inj heq
      refine ⟨rfl, ?_⟩
      simp only [List.map_append, List.map_cons, List.count_append, List.count_cons_self,
        List.count_eq_zero_of_not_mem hlast]
      omega
    · have hold : name ∈ names := by
        refine (List.mem_append.mp hmem).resolve_right fun hnew => hbound ?_
        rw [← hdeclared, List.mem_filterMap] at hnew
        obtain ⟨_, hmem, rfl⟩ := hnew
        exact hmem
      obtain ⟨old, hold'⟩ := hfound name hold
      obtain rfl : old = var := Option.some.inj ((hslots.kept hkeyed hbound hold').symm.trans hvar)
      obtain ⟨rfl, hnumber⟩ := h.unique name hold old hold' hregister
      exact ⟨rfl, by rw [List.count_eq_zero_of_not_mem hbound]; exact hnumber⟩
  · intro hnumber
    by_cases hbound : some binding.name ∈ slots.map Prod.snd
    · obtain ⟨before, slot, after, rfl, hlast, hslot⟩ := hslots.bound hkeyed hbound
      refine ⟨slot, hslot, (hamong before slot _ after rfl).mpr ⟨rfl, ?_⟩⟩
      simp only [List.map_append, List.map_cons, List.count_append, List.count_cons_self,
        List.count_eq_zero_of_not_mem hlast] at hnumber
      omega
    · rw [List.count_eq_zero_of_not_mem hbound] at hnumber
      obtain ⟨var, hvar, hregister⟩ := h.found hnumber
      exact ⟨var, hslots.kept hkeyed hbound hvar, hregister⟩

-- ════════════════════════
-- Added code
-- ════════════════════════

/-- The code that was added to a body settles the stack slot of the variable. -/
def Settled (binding : Binding) (excused : Instr → Prop) (exit : String) (before after : Bool)
    (body last : Body) : Prop :=
  ∃ added, last.code = body.code ++ added ∧ Settles binding.slot excused exit before added after

theorem Settled.seq {exit : String} {before between after : Bool}
    (h : binding.Settled excused exit before between body middle)
    (h' : binding.Settled excused exit between after middle last) :
    binding.Settled excused exit before after body last := by
  obtain ⟨added, hcode, hadded⟩ := h
  obtain ⟨added', hcode', hadded'⟩ := h'
  exact ⟨added ++ added', by rw [hcode', hcode, List.append_assoc], hadded.seq hadded'⟩

theorem Settled.refl (binding : Binding) (excused : Instr → Prop) (exit : String) (before : Bool)
    (body : Body) :
    binding.Settled excused exit before before body body :=
  ⟨[], (List.append_nil _).symm, .plain (by simp) (by simp)⟩

/-- Where the slot is set, it does not matter what is added. -/
theorem Settled.of_set (binding : Binding) (excused : Instr → Prop) (exit : String)
    (h : body.code <+: last.code) : binding.Settled excused exit false false body last := by
  obtain ⟨added, hadded⟩ := h
  exact ⟨added, hadded.symm, .of_set ..⟩

/-- A plain instruction that does not load from the slot. -/
theorem Settled.append {exit : String} {before : Bool} {instruction : Instr}
    (hcode : last.code = body.code ++ [instruction]) (hplain : instruction.isPlain)
    (hreads : instruction.reads binding.slot = false) :
    binding.Settled excused exit before before body last :=
  ⟨_, hcode, .plain (by simpa using hplain) (by simpa using fun _ => Or.inl hreads)⟩

theorem Settled.store {exit : String} {before : Bool} {value : Value}
    (hcode : last.code = body.code ++ [.store value (.register binding.slot)]) :
    binding.Settled excused exit before false body last :=
  ⟨_, hcode, .store value⟩

theorem Settled.leave {exit : String} {before : Bool}
    (hcode : last.code = body.code ++ [.branch exit]) :
    binding.Settled excused exit before false body last :=
  ⟨_, hcode, .leave⟩

/-- What is known behind a statement: the slot may be unset there only if the analysis says so. -/
structure Outcome (binding : Binding) (excused : Instr → Prop) (exit : String) (must : Bool)
    (seen : Nat) (unset before after : Bool) (body last : Body) : Prop where
  settled : binding.Settled excused exit before after body last
  before_of_after : after → before
  returns : must → after = false
  isOpen : must = false → last.isClosed = false
  unset_of_after : after → seen = binding.number → unset

theorem Outcome.must_eq_false {exit : String} {must unset before after : Bool}
    (h : binding.Outcome excused exit must seen unset before after body last) (hafter : after) :
    must = false := by
  cases must with
  | false => rfl
  | true => simp [h.returns rfl] at hafter

end Binding

/-- The setting in which some variables are not read. -/
def Setting.sparing {table : TypeTable} (setting : Setting table) (names : List String) :
    Setting table :=
  { setting with spared := names }

namespace Lowering

variable {table : TypeTable} {frame : Frame} {binding : Binding} {excused : Instr → Prop} {seen : Nat}
  {unset before : Bool} {names mentions reads spared : List String} {tally : List (Option String)}
  {body middle last : Body} {result : Unit}

-- ════════════════════════
-- Code without control flow
-- ════════════════════════

/-- Where some variables are read, the stack slots of others can be kept. -/
theorem Fit.sound_declared (h : Fit (.declared table []) frame names body)
    (hmentions : mentions ⊆ names) {kept : List String} (hkept : kept ⊆ body.slots)
    (hne : ∀ name ∈ mentions, ∀ var, body.scope.find? name = some var → var.register ∈ kept →
      name ∈ spared) :
    body.Sound ((Setting.declared table kept).sparing spared) mentions where
  keyed := h.sound.keyed
  stage := trivial
  kept register hmem := by
    refine h.ready.inUse_of_defined register ?_
    obtain ⟨instruction, hentry, hslot⟩ := List.mem_filterMap.mp (hkept hmem)
    exact List.mem_filterMap.mpr
      ⟨instruction, List.mem_append_left _ hentry, Instr.defined?_of_slot? hslot⟩
  binds := ⟨fun _ _ => ⟨trivial, Or.inr trivial⟩, fun _ _ => trivial⟩
  slots _ name hmem := by
    obtain ⟨var, hfound, hentry, -⟩ := h.sound.slots trivial name (hmentions hmem)
    exact ⟨var, hfound, hentry, mt (hne name hmem var hfound)⟩

/-- A pass that reads variables by other names does not load from the stack slot. -/
theorem reads_eq_false (hfit : Fit (.declared table []) frame names body)
    (hadvances : ∀ {kept}, body.Sound ((Setting.declared table kept).sparing spared) mentions →
      ∃ names', body.Advances ((Setting.declared table kept).sparing spared) names' last)
    (hmentions : mentions ⊆ names) (hrecords : body.Records (fun _ => True) tally last)
    (hnameless : tally.filterMap id = []) (hreserved : binding.Reserved seen tally body last)
    (hne : ∀ name ∈ mentions, ∀ var, body.scope.find? name = some var →
      var.register = binding.slot → name ∈ spared)
    {added : List Instr} (hcode : last.code = body.code ++ added) :
    ∀ instruction ∈ added, instruction.reads binding.slot = false := by
  have hloads : ∃ kept, (binding.slot ∈ body.slots → binding.slot ∈ kept) ∧
      ∀ instruction ∈ added, last.Types kept instruction := by
    have hkept : ∀ kept ⊆ body.slots, (∀ register ∈ kept, register = binding.slot) →
        ∀ instruction ∈ added, last.Types kept instruction := by
      intro kept hslots honly instruction hmem
      obtain ⟨_, hadvances⟩ := hadvances (hfit.sound_declared hmentions hslots
        fun name hmem var hvar hregister => hne name hmem var hvar (honly _ hregister))
      obtain ⟨added', hcode', hsound⟩ := hadvances.code
      obtain rfl := List.append_cancel_left (hcode.symm.trans hcode')
      exact (hsound instruction hmem).types trivial
    by_cases hslot : binding.slot ∈ body.slots
    · exact ⟨[binding.slot], by simp, hkept _ (by simpa using hslot) (by simp)⟩
    · exact ⟨[], fun h => absurd h hslot, hkept [] (by simp) (by simp)⟩
  obtain ⟨kept, hkept, htypes⟩ := hloads
  intro instruction hmem
  rw [Instr.reads_eq_false_iff]
  rintro target ty rfl
  obtain ⟨hlocates, hnot⟩ := (htypes _ hmem).loads rfl
  -- The slot is not reserved yet, so neither does its register hold an address.
  have hslot : binding.slot ∉ body.slots := fun h => hnot (hkept h)
  obtain ⟨slots, rfl, hslots⟩ := hrecords.slots
  rcases hlocates with hentry | ⟨writer, hwriter, htarget, -⟩
  · rw [hslots.entry] at hentry
    rcases List.mem_append.mp hentry with hentry | hentry
    · exact hslot (List.mem_filterMap.mpr ⟨_, hentry, rfl⟩)
    · obtain ⟨slot, hslot, heq⟩ := List.mem_map.mp hentry
      injection heq with hregister _
      have hname := (hreserved.among rfl hslots).eq_some hslot hregister
      have hnamed : binding.name ∈ (slots.map Prod.snd).filterMap id :=
        List.mem_filterMap.mpr ⟨_, List.mem_map_of_mem hslot, hname⟩
      rw [hnameless] at hnamed
      cases hnamed
  · exact hreserved.unwritten writer hwriter htarget

/-- Code without control flow settles the stack slot if the variable is not read, or if all of it is
excused. -/
theorem settled_straight (hfit : Fit (.declared table []) frame names body)
    (hopen : body.isClosed = false) (hsteps : body.Steps (.straight True) last)
    (hadvances : ∀ {kept spared}, (∀ name ∈ reads, name ∉ spared) →
      body.Sound ((Setting.declared table kept).sparing spared) mentions →
        ∃ names', body.Advances ((Setting.declared table kept).sparing spared) names' last)
    (hmentions : mentions ⊆ names) (hrecords : body.Records (fun _ => True) tally last)
    (hnameless : tally.filterMap id = []) (hresolved : binding.Resolved seen names body)
    (hreserved : binding.Reserved seen tally body last)
    (hexcused : before → seen = binding.number → binding.name ∈ reads →
      ∀ instruction ∈ last.code.drop body.code.length, excused instruction) :
    binding.Settled excused frame.exit before before body last ∧ last.isClosed = false := by
  obtain ⟨hopen, added, hcode, hplain⟩ := hsteps.exists_plain hopen
  refine ⟨⟨added, hcode, .plain hplain fun hbefore instruction hmem => ?_⟩, hopen⟩
  by_cases hread : seen = binding.number ∧ binding.name ∈ reads
  · refine Or.inr (hexcused hbefore hread.1 hread.2 instruction ?_)
    rwa [hcode, List.drop_left]
  · have hspared : ∀ name ∈ reads, name ∉ [binding.name].filter (· ∉ reads) := by
      intro name hmem
      simp [hmem]
    refine Or.inl (reads_eq_false hfit (hadvances hspared) hmentions hrecords hnameless hreserved ?_
      hcode instruction hmem)
    intro name hname var hvar hregister
    obtain ⟨rfl, hnumber⟩ := hresolved.unique name (hmentions hname) var hvar hregister
    simpa using fun hmem => hread ⟨hnumber, hmem⟩

theorem records_lowerExpr {expression : Expr} {expected : Option Ty} {value : Value}
    (h : (lowerExpr frame expression expected).eval body = .ok (value, last)) :
    body.Records (fun _ => True) (expression.tally Tally.slots) last :=
  books_lowerExpr (Record.ledger fun _ => True) frame expression (fun _ _ => trivial) expected h

theorem settled_lowerExpr {expression : Expr} {expected : Option Ty} {value : Value}
    (h : (lowerExpr frame expression expected).eval body = .ok (value, last))
    (hfit : Fit (.declared table []) frame names body) (hopen : body.isClosed = false)
    (hresolved : binding.Resolved seen names body)
    (hreserved : binding.Reserved seen (expression.tally Tally.slots) body last)
    (hscoped : expression.isScoped names)
    (hexcused : before → seen = binding.number → binding.name ∈ expression.reads →
      ∀ instruction ∈ last.code.drop body.code.length, excused instruction) :
    binding.Settled excused frame.exit before before body last ∧ last.isClosed = false := by
  refine settled_straight hfit hopen (extends_lowerExpr h hfit.ready (Or.inl trivial)).1.steps
    (fun hreads hsound => ?_) (Expr.isScoped_iff.mp hscoped) (records_lowerExpr h)
    expression.filterMap_tally hresolved hreserved hexcused
  have hdelivers := delivers_expression hfit.frame.table_eq
    (fun _ => Expr.isScoped_iff.mpr (List.Subset.refl _)) hreads (fun _ _ => trivial) h hsound
  exact ⟨_, hdelivers.1.1⟩

-- ════════════════════════
-- Simple statements
-- ════════════════════════

/-- A pass whose code settles the stack slot of a variable, if all instructions are excused that it
exposes. It reserves stack slots under the names in `tally`, and `seen` variables of the name are bound in
front of it. -/
def Settling (table : TypeTable) (binding : Binding) (excused : Instr → Prop) (frame : Frame)
    (names : List String) (seen : Nat) (unset : Bool) (tally : List (Option String))
    (must unset' : Bool) (exposes : Body → Instr → Prop) (pass : Lowering Unit) : Prop :=
  ∀ ⦃body last result⦄, pass.eval body = .ok (result, last) →
    Fit (.declared table []) frame names body → body.isClosed = false →
    binding.Resolved seen names body → binding.Reserved seen tally body last →
    (∀ instruction, exposes body instruction → excused instruction) →
    ∀ ⦃before : Bool⦄, (before → seen = binding.number → unset) →
      ∃ after, binding.Outcome excused frame.exit must (seen + tally.count (some binding.name)) unset'
        before after body last

/-- A statement that settles the stack slot, its exposed instructions apart. -/
abbrev SettlingStmt (table : TypeTable) (binding : Binding) (excused : Instr → Prop) (frame : Frame)
    (names : List String) (seen : Nat) (unset : Bool) (statement : Stmt) : Prop :=
  Settling table binding excused frame names seen unset (statement.tally Tally.slots)
    statement.mustReturn (statement.leavesUnset binding.name unset)
    (statement.Exposes frame binding.name binding.number seen unset) (lowerStmt frame statement)

/-- What a part of a statement writes that reads the variable where it may be unset is excused. -/
theorem excused_of_part {statement : Stmt} {code : List Instr}
    (hexcused : ∀ instruction, statement.Exposes frame binding.name binding.number seen unset body
      instruction → excused instruction)
    (hwrites : ∀ instruction ∈ code, statement.Writes frame body instruction)
    (hreads : reads ⊆ statement.reads) (hbefore : before → seen = binding.number → unset) :
    before → seen = binding.number → binding.name ∈ reads →
      ∀ instruction ∈ code, excused instruction :=
  fun hunset hnumber hread instruction hmem => hexcused instruction
    (.part hnumber (hbefore hunset hnumber) (hreads hread) (hwrites instruction hmem))

theorem settling_declare {name : String} {ty : Option String} {value : Expr}
    (hscoped : value.isScoped names) :
    SettlingStmt table binding excused frame names seen unset (.bind name ty value) := by
  intro body last result h hfit hopen hresolved hreserved hexcused before hbefore
  have hwhole := h
  rw [lowerStmt] at h
  rw [Stmt.tally, Tally.bind_slots] at hreserved ⊢
  rw [Stmt.leavesUnset]
  obtain ⟨declared, source, lowered, -, hlower, -, hconcrete, hstore⟩ := eval_declare h
  have hreserves := Body.Reserves.bind lowered name hconcrete
  have hbinds : lowered.Records (fun _ => True) [some name] last :=
    (Body.Records.of_reserves hreserves rfl rfl (Body.code_reserve ..)).finish
      (Books.passage (books_emit rfl fun _ _ _ _ => trivial) hstore)
  obtain ⟨hvalue, hbound⟩ := hreserved.append (records_lowerExpr hlower) hbinds
  have hwrites : ∀ instruction ∈ lowered.code.drop body.code.length,
      (Stmt.bind name ty value).Writes frame body instruction :=
    fun instruction hmem => ⟨last, hwhole, (hbinds.code_isPrefix.drop _).subset hmem⟩
  obtain ⟨hsettled, hopen⟩ := settled_lowerExpr hlower hfit hopen hresolved hvalue hscoped
    (excused_of_part hexcused hwrites (List.Subset.refl _) hbefore)
  have hlast := eq_append_of_eval_emit hstore (by simpa using hopen) rfl
  have hcode : last.code = lowered.code ++
      [.store source (.register (lowered.scope.newRegister name))] := by
    rw [hlast, Body.code_append, Body.code_reserve, Body.code_rebind]
  have hslot : lowered.scope.newRegister name = binding.slot ↔
      some name = some binding.name ∧ seen + 1 = binding.number := by
    rw [value.count_tally] at hbound
    exact hbound.among rfl (hlast ▸ hreserves.append _) [] _ _ [] rfl
  have hopen : last.isClosed = false := isClosed_of_eval_emit hstore
  rw [List.count_append, value.count_tally, Nat.zero_add, List.count_singleton]
  by_cases hset : name = binding.name ∧ seen + 1 = binding.number
  · rw [hslot.mpr ⟨congrArg some hset.1, hset.2⟩] at hcode
    exact ⟨false, hsettled.seq (.store hcode), by simp, by simp [Stmt.mustReturn], fun _ => hopen, by simp⟩
  · refine ⟨before, hsettled.seq (.append hcode rfl rfl), id, by simp [Stmt.mustReturn], fun _ => hopen, ?_⟩
    intro hunset hnumber
    by_cases hname : name = binding.name
    · simp only [hname, beq_self_eq_true, if_true] at hnumber
      exact absurd ⟨hname, hnumber⟩ hset
    · simp [hname] at hnumber ⊢
      exact hbefore hunset hnumber

theorem settling_assign {target value : Expr} (hscoped : target.isScoped names)
    (hscoped' : value.isScoped names) :
    SettlingStmt table binding excused frame names seen unset (.assign target value) := by
  intro body last result h hfit hopen hresolved hreserved hexcused before hbefore
  have hwhole := h
  rw [lowerStmt] at h
  rw [Stmt.tally] at hreserved ⊢
  rw [Stmt.leavesUnset]
  have hrecords : body.Records (fun _ => True)
      (target.tally Tally.slots ++ value.tally Tally.slots) last :=
    (books_assign (fun _ _ => trivial) fun _ _ => trivial :
      Books (Record.ledger fun _ => True) _ _) h
  rw [List.count_append, target.count_tally, value.count_tally, Nat.add_zero]
  cases hvariable : target.asVariable with
  | none =>
    have hreads : target.reads ++ value.reads ⊆ (Stmt.assign target value).reads := by
      simp [Stmt.reads, hvariable]
    obtain ⟨hsettled, hopen⟩ := settled_straight hfit hopen
      (extends_assign h hfit.ready (Or.inl trivial)).steps
      (fun hreads hsound => ⟨_, (advances_assign h hsound hfit.frame.table_eq
        (fun _ => Expr.isScoped_iff.mpr (List.subset_append_left _ value.mentions))
        (fun _ => Expr.isScoped_iff.mpr (List.subset_append_right target.mentions _))
        (List.forall_mem_append.mp hreads).1 (List.forall_mem_append.mp hreads).2).1⟩)
      (List.append_subset.mpr ⟨Expr.isScoped_iff.mp hscoped, Expr.isScoped_iff.mp hscoped'⟩)
      hrecords
      (by rw [List.filterMap_append, target.filterMap_tally, value.filterMap_tally]; rfl) hresolved
      hreserved (excused_of_part hexcused (fun instruction hmem => ⟨last, hwhole, hmem⟩) hreads hbefore)
    refine ⟨before, hsettled, id, by simp [Stmt.mustReturn], fun _ => hopen, ?_⟩
    simpa using hbefore
  | some name =>
    obtain rfl : target = .variableRef name := by
      cases target <;> simp_all [Expr.asVariable]
    simp only [assign, Pass.eval_bind_eq_ok_iff, eval_expectType_eq_ok_iff] at h
    obtain ⟨place, _, hplace, source, lowered, hlower, _, _, ⟨-, rfl⟩, hstore⟩ := h
    obtain ⟨var, hvar, rfl, rfl⟩ := eval_variablePlace hplace
    have hstored := Books.passage (books_emit rfl fun _ _ _ _ => trivial) hstore
    have hwrites : ∀ instruction ∈ lowered.code.drop body.code.length,
        (Stmt.assign (.variableRef name) value).Writes frame body instruction :=
      fun instruction hmem => ⟨last, hwhole, (hstored.code_isPrefix.drop _).subset hmem⟩
    obtain ⟨hsettled, hopen⟩ := settled_lowerExpr hlower hfit hopen hresolved
      (hreserved.trim (records_lowerExpr hlower) hstored) hscoped'
      (excused_of_part hexcused hwrites (List.subset_append_right _ _) hbefore)
    have hcode : last.code =
        lowered.code ++ [.store source (.register var.register)] := by
      rw [eq_append_of_eval_emit hstore hopen rfl]
      exact Body.code_append ..
    have hopen : last.isClosed = false := isClosed_of_eval_emit hstore
    by_cases hset : var.register = binding.slot
    · rw [hset] at hcode
      exact ⟨false, hsettled.seq (.store hcode), by simp, by simp [Stmt.mustReturn], fun _ => hopen, by simp⟩
    · refine ⟨before, hsettled.seq (.append hcode rfl rfl), id, by simp [Stmt.mustReturn], fun _ => hopen, ?_⟩
      intro hunset hnumber
      have hname : name ≠ binding.name := by
        rintro rfl
        obtain ⟨other, hother, hregister⟩ := hresolved.found hnumber
        rw [hvar] at hother
        cases hother
        exact hset hregister
      simp [hname, hbefore hunset hnumber]

theorem settling_evaluate {expression : Expr} (hscoped : expression.isScoped names) :
    SettlingStmt table binding excused frame names seen unset (.eval expression) := by
  intro body last result h hfit hopen hresolved hreserved hexcused before hbefore
  have hwhole := h
  rw [lowerStmt] at h
  rw [Stmt.tally] at hreserved ⊢
  rw [Stmt.leavesUnset, expression.count_tally, Nat.add_zero]
  have hrecords : body.Records (fun _ => True) (expression.tally Tally.slots) last :=
    (books_evaluate fun _ _ => trivial : Books (Record.ledger fun _ => True) _ _) h
  obtain ⟨hsettled, hopen⟩ := settled_straight hfit hopen
    (extends_evaluate h hfit.ready (Or.inl trivial)).steps
    (fun hreads hsound => ⟨_, (advances_evaluate h hsound hfit.frame.table_eq
      (fun _ => Expr.isScoped_iff.mpr (List.Subset.refl _)) hreads).1⟩)
    (Expr.isScoped_iff.mp hscoped) hrecords expression.filterMap_tally hresolved hreserved
    (excused_of_part hexcused (fun instruction hmem => ⟨last, hwhole, hmem⟩) (List.Subset.refl _)
      hbefore)
  exact ⟨before, hsettled, id, by simp [Stmt.mustReturn], fun _ => hopen, hbefore⟩

theorem settling_returnFrom {value : Option Expr} (hscoped : value.all (Expr.isScoped names)) :
    SettlingStmt table binding excused frame names seen unset (.ret value) := by
  intro body last result h hfit hopen hresolved hreserved hexcused before hbefore
  have hwhole := h
  rw [lowerStmt] at h
  rw [Stmt.tally] at hreserved
  suffices hsettled : binding.Settled excused frame.exit before false body last from
    ⟨false, hsettled, by simp, by simp, by simp [Stmt.mustReturn], by simp⟩
  cases value with
  | none =>
    cases hslot : frame.returnSlot with
    | none =>
      simp only [returnFrom, hslot] at h
      rw [eq_append_of_eval_emit h hopen rfl]
      exact .leave (Body.code_append ..)
    | some slot => simp [returnFrom, hslot, Except.bind] at h
  | some value =>
    cases hslot : frame.returnSlot with
    | none => simp [returnFrom, hslot, Except.bind] at h
    | some slot =>
      simp only [returnFrom, hslot, Pass.eval_bind_eq_ok_iff, eval_expectType_eq_ok_iff] at h
      obtain ⟨source, lowered, hlower, _, _, ⟨-, rfl⟩, _, stored, hstore, hjump⟩ := h
      have hstored := Books.passage (books_emit rfl fun _ _ _ _ => trivial) hstore
      have hleft := hstored.trans (Books.passage (books_emit_silent rfl rfl) hjump)
      have hwrites : ∀ instruction ∈ lowered.code.drop body.code.length,
          (Stmt.ret (some value)).Writes frame body instruction :=
        fun instruction hmem => ⟨last, hwhole, (hleft.code_isPrefix.drop _).subset hmem⟩
      rw [Option.toList_some, List.flatMap_singleton] at hreserved
      obtain ⟨hsettled, hopen⟩ := settled_lowerExpr hlower hfit hopen hresolved
        (hreserved.trim (records_lowerExpr hlower) hleft) hscoped
        (excused_of_part hexcused hwrites (by simp [Stmt.reads]) hbefore)
      obtain rfl := eq_append_of_eval_emit hstore hopen rfl
      obtain rfl := eq_append_of_eval_emit hjump (Body.isClosed_append _ _) rfl
      exact (hsettled.seq (.append (Body.code_append ..) rfl rfl)).seq
        (.leave (Body.code_append ..))

-- ════════════════════════
-- Conditionals and loops
-- ════════════════════════

/-- Which names stand for the variable behind a part of a statement. -/
theorem Fit.resolved {declared : List String} (hfit : Fit (.declared table []) frame names body)
    (h : binding.Resolved seen names body) (hrecords : body.Records (fun _ => True) tally last)
    (hreserved : binding.Reserved seen tally body last) (hdeclared : tally.filterMap id = declared) :
    binding.Resolved (seen + declared.count binding.name) (names ++ declared) last := by
  rw [← hdeclared, ← count_some]
  refine h.run hfit.sound.keyed (fun name hmem => ?_) hrecords hreserved rfl
  obtain ⟨var, hfound, -⟩ := hfit.sound.slots trivial name hmem
  exact ⟨var, hfound⟩

/-- A part that declares nothing. -/
theorem Fit.resolved_nameless (hfit : Fit (.declared table []) frame names body)
    (h : binding.Resolved seen names body) (hrecords : body.Records (fun _ => True) tally last)
    (hreserved : binding.Reserved seen tally body last) (hnameless : tally.filterMap id = []) :
    binding.Resolved seen names last := by
  simpa using hfit.resolved h hrecords hreserved hnameless

theorem records_lowerStmts {statements : List Stmt}
    (h : (lowerStmts frame statements).eval body = .ok (result, last)) :
    body.Records (fun _ => True) (Block.tally Tally.slots statements) last :=
  books_lowerStmts (Record.ledger fun _ => True) frame statements (fun _ _ => trivial) h

/-- Statements that settle the stack slot, their exposed instructions apart. -/
abbrev SettlingStmts (table : TypeTable) (binding : Binding) (excused : Instr → Prop) (frame : Frame)
    (names : List String) (seen : Nat) (unset : Bool) (statements : List Stmt) : Prop :=
  Settling table binding excused frame names seen unset (Block.tally Tally.slots statements)
    (Block.mustReturn statements) (Block.leavesUnset binding.name unset statements)
    (Block.Exposes frame binding.name binding.number seen unset statements)
    (lowerStmts frame statements)

/-- Where control leaves out statements, the variable of a name that they bind is unset. -/
theorem unset_of_skip {statements : List Stmt}
    (hbefore : before → seen = binding.number → unset) (hunset : before)
    (hnumber : seen + (Block.declares statements).count binding.name = binding.number) :
    unset || (Block.declares statements).contains binding.name := by
  by_cases hmem : binding.name ∈ Block.declares statements
  · simp [hmem]
  · rw [List.count_eq_zero_of_not_mem hmem] at hnumber
    simp [hbefore hunset hnumber]

theorem settling_ite {condition : Expr} {positive negative : List Stmt}
    (hscoped : condition.isScoped names) (hscopedTrue : Block.isScoped names positive)
    (hpositive : SettlingStmts table binding excused frame names seen unset positive)
    (hnegative : SettlingStmts table binding excused frame (names ++ Block.declares positive)
      (seen + (Block.declares positive).count binding.name)
      (unset || (Block.declares positive).contains binding.name) negative) :
    SettlingStmt table binding excused frame names seen unset (.ite condition positive negative) := by
  intro body last result h hfit hopen hresolved hreserved hexcused before hbefore
  rw [Stmt.tally] at hreserved ⊢
  rw [Stmt.mustReturn, Stmt.leavesUnset]
  obtain ⟨arms, hfitTrue, hfitFalse⟩ := exists_arms h hfit hscoped hscopedTrue hopen
  have hcondition := records_lowerExpr (eval_testCondition arms.tests)
  have hpositives := (records_lowerStmts arms.runs).finish arms.turns
  have hnegatives := (records_lowerStmts arms.runs').finish arms.ends
  obtain ⟨htest, hreserved⟩ :=
    hreserved.append (hcondition.finish arms.enters) (hpositives.trans hnegatives)
  rw [condition.count_tally, Nat.add_zero] at hreserved
  obtain ⟨hreservedTrue, hreservedFalse⟩ := hreserved.append hpositives hnegatives
  rw [Block.count_tally] at hreservedFalse
  -- The condition and the two arms.
  have hwrites : ∀ instruction ∈ arms.tested.code.drop body.code.length,
      (Stmt.ite condition positive negative).Writes frame body instruction :=
    fun instruction hmem => ⟨body, arms.operand, arms.tested, arms.starts, arms.tests, hmem⟩
  obtain ⟨htested, -⟩ := settled_lowerExpr (eval_testCondition arms.tests) hfit hopen hresolved
    (htest.trim hcondition arms.enters) hscoped
    (excused_of_part hexcused hwrites (List.Subset.refl _) hbefore)
  have hresolvedTrue := hfit.resolved_nameless hresolved (hcondition.finish arms.enters) htest
    condition.filterMap_tally
  obtain ⟨after, houtcome⟩ := hpositive arms.runs hfitTrue arms.isOpen hresolvedTrue
    (hreservedTrue.trim (records_lowerStmts arms.runs) arms.turns)
    (fun instruction hexposes => hexcused instruction (.positive arms.reaches hexposes)) hbefore
  have hresolvedFalse := hfitTrue.resolved hresolvedTrue hpositives hreservedTrue
    (Block.filterMap_tally positive)
  obtain ⟨after', houtcome'⟩ := hnegative arms.runs' hfitFalse arms.isOpen' hresolvedFalse
    (hreservedFalse.trim (records_lowerStmts arms.runs') arms.ends)
    (fun instruction hexposes => hexcused instruction (.negative arms.reaches' hexposes))
    (unset_of_skip hbefore)
  obtain ⟨arm, harm, hsettles⟩ := houtcome.settled
  obtain ⟨arm', harm', hsettles'⟩ := houtcome'.settled
  have hdone : (Block.mustReturn positive && Block.mustReturn negative) = false →
      (arms.doneTrue.isClosed && arms.doneFalse.isClosed) = false := by
    intro hmust
    rcases Bool.and_eq_false_iff.mp hmust with hmust | hmust
    · rw [houtcome.isOpen hmust, Bool.false_and]
    · rw [houtcome'.isOpen hmust, Bool.and_false]
  refine ⟨after || after', htested.seq ⟨_, ?_, .ite arms.operand arms.onTrue arms.onFalse arms.after
    hsettles houtcome.returns (arms.leaves.mono houtcome.isOpen) hsettles' houtcome'.returns
    (arms.leaves'.mono houtcome'.isOpen) (arms.joins.mono hdone)⟩, ?_, ?_,
    fun hmust => arms.isOpen_last (hdone hmust), ?_⟩
  · simp [arms.code_last, harm', arms.code_inFalse, harm, arms.code_inTrue]
  · intro hafter
    exact (Bool.or_eq_true_iff.mp hafter).elim houtcome.before_of_after houtcome'.before_of_after
  · intro hmust
    obtain ⟨hmust, hmust'⟩ := Bool.and_eq_true_iff.mp hmust
    rw [houtcome.returns hmust, houtcome'.returns hmust', Bool.or_self]
  · intro hafter hnumber
    rw [List.count_append, List.count_append, condition.count_tally, Block.count_tally,
      Block.count_tally, Nat.zero_add, ← Nat.add_assoc] at hnumber
    have hpositive := houtcome.unset_of_after
    have hnegative := houtcome'.unset_of_after
    rw [Block.count_tally] at hpositive hnegative
    rcases Bool.or_eq_true_iff.mp hafter with hafter | hafter
    · rw [houtcome.must_eq_false hafter, unset_of_skip hpositive hafter hnumber]
      rfl
    · rw [houtcome'.must_eq_false hafter, hnegative hafter hnumber]
      simp

theorem settling_loop {condition : Expr} {statements : List Stmt} (hscoped : condition.isScoped names)
    (hstatements : SettlingStmts table binding excused frame names seen unset statements) :
    SettlingStmt table binding excused frame names seen unset (.loop condition statements) := by
  intro body last result h hfit hopen hresolved hreserved hexcused before hbefore
  rw [Stmt.tally] at hreserved ⊢
  rw [Stmt.leavesUnset]
  obtain ⟨turns, hfitTest, hfitLoop⟩ := exists_turns h hfit hscoped hopen
  have hcondition := records_lowerExpr (eval_testCondition turns.tests)
  have hstatements' := (records_lowerStmts turns.runs).finish turns.ends
  have htests := hcondition.finish turns.starts
  have hreserved : binding.Reserved seen ([] ++ (condition.tally Tally.slots ++
      Block.tally Tally.slots statements)) body last := hreserved
  obtain ⟨henter, hreserved⟩ := hreserved.append turns.enters (htests.trans hstatements')
  obtain ⟨htest, hreserved⟩ := hreserved.append htests hstatements'
  rw [condition.count_tally, List.count_nil, Nat.add_zero] at hreserved
  have hresolvedTest := hfit.resolved_nameless hresolved turns.enters henter rfl
  have hwrites : ∀ instruction ∈ turns.tested.code.drop turns.inTest.code.length,
      (Stmt.loop condition statements).Writes frame body instruction :=
    fun instruction hmem => ⟨turns.inTest, turns.operand, turns.tested, turns.reaches, turns.tests, hmem⟩
  obtain ⟨htested, -⟩ := settled_lowerExpr (eval_testCondition turns.tests) hfitTest turns.isOpen
    hresolvedTest (htest.trim hcondition turns.starts) hscoped
    (excused_of_part hexcused hwrites (List.Subset.refl _) hbefore)
  have hresolvedLoop := hfitTest.resolved_nameless hresolvedTest htests htest
    condition.filterMap_tally
  obtain ⟨after, houtcome⟩ := hstatements turns.runs hfitLoop turns.isOpen' hresolvedLoop
    (hreserved.trim (records_lowerStmts turns.runs) turns.ends)
    (fun instruction hexposes => hexcused instruction (.turn turns.reaches' hexposes)) hbefore
  obtain ⟨code, hcode, htested⟩ := htested
  obtain ⟨arm, harm, hsettles⟩ := houtcome.settled
  refine ⟨before, ⟨_, ?_, .loop turns.operand turns.test turns.start turns.after htested hsettles
    houtcome.returns houtcome.before_of_after (turns.repeats.mono houtcome.isOpen)⟩, id,
    by simp [Stmt.mustReturn], fun _ => turns.isOpen_last, ?_⟩
  · simp [turns.code_last, harm, turns.code_inLoop, hcode, turns.code_inTest]
  · rw [List.count_append, condition.count_tally, Block.count_tally, Nat.zero_add]
    exact unset_of_skip hbefore

mutual

/-- A statement settles the stack slot of a variable, its exposed instructions apart. -/
theorem settling_lowerStmt : ∀ (statement : Stmt) {names : List String} {seen : Nat} {unset : Bool},
    statement.isScoped names → SettlingStmt table binding excused frame names seen unset statement
  | .bind name ty value, names, seen, unset, hscoped => by
    rw [Stmt.isScoped] at hscoped
    exact settling_declare hscoped
  | .assign target value, names, seen, unset, hscoped => by
    rw [Stmt.isScoped, Bool.and_eq_true] at hscoped
    exact settling_assign hscoped.1 hscoped.2
  | .eval expression, names, seen, unset, hscoped => by
    rw [Stmt.isScoped] at hscoped
    exact settling_evaluate hscoped
  | .ret value, names, seen, unset, hscoped => by
    rw [Stmt.isScoped] at hscoped
    exact settling_returnFrom hscoped
  | .directive text, names, seen, unset, _ => by
    intro body last result h _ hopen _ _ _ before hbefore
    rw [lowerStmt, Pass.eval_report_eq_ok_iff] at h
    subst h
    rw [Stmt.leavesUnset]
    exact ⟨before, .refl .., id, by simp [Stmt.mustReturn], fun _ => hopen, hbefore⟩
  | .ite condition positive negative, names, seen, unset, hscoped => by
    simp only [Stmt.isScoped, Bool.and_eq_true, and_assoc] at hscoped
    exact settling_ite hscoped.1 hscoped.2.1 (settling_lowerStmts positive hscoped.2.1)
      (settling_lowerStmts negative hscoped.2.2)
  | .loop condition statements, names, seen, unset, hscoped => by
    simp only [Stmt.isScoped, Bool.and_eq_true] at hscoped
    exact settling_loop hscoped.1 (settling_lowerStmts statements hscoped.2)

/-- Statements settle the stack slot of a variable, their exposed instructions apart. -/
theorem settling_lowerStmts : ∀ (statements : List Stmt) {names : List String} {seen : Nat}
    {unset : Bool}, Block.isScoped names statements →
      SettlingStmts table binding excused frame names seen unset statements
  | [], names, seen, unset, _ => by
    intro body last result h _ hopen _ _ _ before hbefore
    rw [lowerStmts] at h
    obtain ⟨-, rfl⟩ := Pass.eval_pure_eq_ok_iff.mp h
    rw [Block.leavesUnset]
    exact ⟨before, .refl .., id, by simp [Block.mustReturn], fun _ => hopen, hbefore⟩
  | statement :: rest, names, seen, unset, hscoped => by
    intro body last result h hfit hopen hresolved hreserved hexcused before hbefore
    rw [Block.isScoped, Bool.and_eq_true] at hscoped
    simp only [lowerStmts, Pass.eval_bind_eq_ok_iff] at h
    obtain ⟨_, middle, hfirst, hrest⟩ := h
    have hrecords : body.Records (fun _ => True) (statement.tally Tally.slots) middle :=
      books_lowerStmt (Record.ledger fun _ => True) frame statement (fun _ _ => trivial) hfirst
    rw [Block.tally] at hreserved ⊢
    obtain ⟨hreservedFirst, hreservedRest⟩ := hreserved.append hrecords (records_lowerStmts hrest)
    obtain ⟨between, houtcome⟩ := settling_lowerStmt statement hscoped.1 hfirst hfit hopen
      hresolved hreservedFirst (fun instruction hexposes => hexcused instruction (.here hexposes))
      hbefore
    obtain ⟨hfitRest, -⟩ := hfit.run (proceeding_lowerStmt frame statement fun _ => hscoped.1)
      (flowing_lowerStmt frame statement (Or.inl trivial)) hfirst
    rw [Block.mustReturn, Block.leavesUnset, List.count_append, ← Nat.add_assoc]
    cases hmust : statement.mustReturn with
    | true =>
      have hset := houtcome.returns hmust
      have hdead := (hfitRest.lowerStmts hscoped.2 hrest).2.code
      have hsettled := houtcome.settled
      rw [hset] at hsettled
      exact ⟨false, hsettled.seq (.of_set binding _ _ hdead), by simp, by simp, by simp, by simp⟩
    | false =>
      have hresolvedRest := hfit.resolved hresolved hrecords hreservedFirst statement.filterMap_tally
      rw [statement.count_tally] at hreservedRest ⊢
      have hunset := houtcome.unset_of_after
      rw [statement.count_tally] at hunset
      obtain ⟨after, houtcome'⟩ := settling_lowerStmts rest hscoped.2 hrest hfitRest
        (houtcome.isOpen hmust) hresolvedRest hreservedRest
        (fun instruction hexposes => hexcused instruction (.later hmust hfirst hexposes)) hunset
      rw [Bool.false_or]
      exact ⟨after, houtcome.settled.seq houtcome'.settled,
        fun hafter => houtcome.before_of_after (houtcome'.before_of_after hafter), houtcome'.returns,
        houtcome'.isOpen, houtcome'.unset_of_after⟩

end

end Lowering

end ThreeAddress
