import ThreeAddress.Proofs.Emission.Session
import ThreeAddress.Proofs.Typing.Agreement

/-!
# Dereferences

A variable is dereferenced by one load for each reference: the first reads the stack slot, and each further
one reads the pointer that the one before it has loaded. The references are counted and taken off the type
before the first load. So the loads are emitted and arrive at the type that was found if there are enough,
and no line is written otherwise.

## Main definitions

* `Lowering.Part`, `Session.Arrives`: the passes that the lowering of a function is made of, and the states
  that they lead to.
* `LoadChain`: loads through references, each from the address that the one before it has loaded.
* `Body.Gains`: a body with the lines of more instructions at its end and nothing else.

## Main statements

* `Session.Arrives.sound`: all variables of such states have types with a runtime representation.
* `Lowering.exists_eval_followAll`: references are followed by a chain of loads.
* `Lowering.derefPlace_of_lt`: a dereference too many is rejected in the state in which it was met.
* `deref_of_arrives`: dereferences are lowered to chains of loads, or are rejected.
-/

namespace ThreeAddress

-- ════════════════════════
-- States
-- ════════════════════════

/-- The passes that the lowering of a function is made of. The types that are asked for and those of
variables have a runtime representation. -/
inductive Lowering.Part (frame : Frame) : {α : Type} → Lowering α → Prop
  | expression (expression : Expr) (expected : Option Ty) (h : ∀ ty ∈ expected, ty.Grounded) :
      Part frame (lowerExpr frame expression expected)
  | target (expression : Expr) : Part frame (lowerTarget frame expression)
  | statement (statement : Stmt) : Part frame (lowerStmt frame statement)
  | temporary (ty : Ty) (h : ty.isConcrete → ty.Grounded) : Part frame (temporary ty)
  | newLabel (base : String) : Part frame (newLabel base)
  | bindName (name : String) (ty : Ty) (h : ty.Grounded) : Part frame (bindName name ty)
  | reserve (slot : Var) : Part frame (reserve slot)
  | intern (constant : Constant) : Part frame (intern constant)
  | emit (instruction : Instr) : Part frame (emit instruction)

/-- A state in which the lowering of a function may be: behind the prologue, or where a pass leads to from
such a state. -/
inductive Session.Arrives {prelude : Scope} {module : Module} (session : Session prelude module) :
    Body → Prop
  | begin : Arrives session session.start
  | run {α : Type} {pass : Lowering α} {body last : Body} {value : α} (h : session.Arrives body)
      (hpass : Lowering.Part session.frame pass) (hrun : pass.eval body = .ok (value, last)) :
      Arrives session last

section Sound

variable {table : TypeTable} {htable : table.Grounded} {frame : Frame} {names : List String}
  {body last : Body}

/-- A new variable whose type has a runtime representation. -/
theorem Body.Sound.rebind (h : body.Sound (.grounded htable) names) (name : String) {ty : Ty}
    (hty : ty.Grounded) : (body.rebind name ty).Sound (.grounded htable) (names ++ [name]) where
  keyed := h.keyed.bind name ty
  stage := trivial
  kept _ hmem := absurd hmem List.not_mem_nil
  binds := h.binds.insert (List.subset_append_left _ _) (fun _ _ => hty) fun _ => Or.inr trivial
  slots hchecked := hchecked.elim

/-- What the passes of lowering a function keep. -/
theorem Lowering.Part.sound {α : Type} {pass : Lowering α} {value : α} (h : Part frame pass)
    (hrun : pass.eval body = .ok (value, last)) (hbody : body.Sound (.grounded htable) names)
    (hframe : frame.Sound (.grounded htable) body) :
    (∃ names, last.Sound (.grounded htable) names) ∧ frame.Sound (.grounded htable) last := by
  cases h with
  | expression expression expected hexpected =>
    obtain ⟨hadvances, -⟩ := delivers_lowerExpr hframe.table_eq expression False.elim
      hframe.not_mem_spared expected hexpected hrun hbody
    exact ⟨⟨_, hadvances.sound⟩, hframe.mono hadvances.entry⟩
  | target expression =>
    obtain ⟨hadvances, -⟩ := advances_lowerTarget hframe.table_eq hrun hbody False.elim
      hframe.not_mem_spared
    exact ⟨⟨_, hadvances.sound⟩, hframe.mono hadvances.entry⟩
  | statement statement =>
    obtain ⟨hproceeds, -⟩ := proceeding_lowerStmt frame statement False.elim hrun hbody hframe
    exact ⟨⟨_, hproceeds.sound⟩, hproceeds.soundFrame hframe⟩
  | temporary ty hty =>
    obtain ⟨hadvances, -⟩ := advances_temporary hrun hbody hty
    exact ⟨⟨_, hadvances.sound⟩, hframe.mono hadvances.entry⟩
  | newLabel base =>
    have hproceeds := proceeds_newLabel hrun hbody
    exact ⟨⟨_, hproceeds.sound⟩, hproceeds.soundFrame hframe⟩
  | bindName name ty hty =>
    obtain ⟨-, rfl⟩ := eval_bindName_eq_ok_iff.mp hrun
    exact ⟨⟨_, hbody.rebind name hty⟩, hframe.mono List.prefix_rfl⟩
  | reserve slot =>
    obtain ⟨-, rfl⟩ := eval_reserve_eq_ok_iff.mp hrun
    refine ⟨⟨_, hbody.reserve slot⟩, hframe.mono ?_⟩
    exact ⟨_, (Body.entry_reserve ..).symm⟩
  | intern constant =>
    rcases eval_intern hrun with rfl | rfl
    · exact ⟨⟨_, hbody⟩, hframe⟩
    · exact ⟨⟨_, hbody.addConstant constant⟩, hframe.mono List.prefix_rfl⟩
  | emit instruction =>
    exact ⟨⟨_, sound_emit hrun hbody⟩, hframe.mono (entry_emit hrun ▸ List.prefix_rfl)⟩

end Sound

namespace Session

variable {prelude : Scope} {module : Module}

/-- All variables in the states of lowering a function have types with a runtime representation. -/
theorem Arrives.sound {session : Session {} module} {body : Body} (h : session.Arrives body) :
    (∃ names, body.Sound (.grounded session.grounded_table) names) ∧
      session.frame.Sound (.grounded session.grounded_table) body := by
  induction h with
  | begin =>
    -- Parameters and the returned value have the types of the signature, which the table denotes.
    obtain ⟨hparameters, hreturns⟩ :=
      value_of_denoteSignature (.grounded session.grounded_table) session.signature_eq
    have hscope : session.start.scope = session.prologue.scope := Body.scope_begin ..
    have hbinds : (Setting.grounded session.grounded_table).Binds _ session.prologue.scope :=
      session.binds_root.prologue (fun parameter hmem => hparameters _ (List.of_mem_zip hmem).2)
        hreturns (fun _ _ => trivial) fun _ _ => trivial
    have hkeyed : session.prologue.scope.Keyed :=
      (session.keyed_root Scope.Keyed.empty).prologue _ _
    rw [← hscope] at hbinds hkeyed
    refine ⟨⟨_, hkeyed, trivial, fun _ hmem => absurd hmem List.not_mem_nil, hbinds, False.elim⟩, rfl,
      rfl, ?_, ?_⟩
    · intro slot hslot
      refine hreturns _ ?_
      rw [← session.draft.globals.root.map_ty_returnSlot _ session.function.signature.returns]
      exact Option.mem_map_of_mem _ hslot
    · intro slot hslot
      rw [Session.start, Body.entry_begin]
      exact Prologue.alloca_mem_code hslot
  | run _ hpass hrun ih =>
    obtain ⟨⟨names, hbody⟩, hframe⟩ := ih
    exact hpass.sound hrun hbody hframe

end Session

-- ════════════════════════
-- Chains of loads
-- ════════════════════════

/-- Loads through references. The first reads the given address, at the given type. Each further one reads
the register of the one before it, at the type that the reference before it points to. The place is where
the last one leads to. -/
inductive LoadChain : Operand → Ty → List Instr → Place → Prop
  | nil (address : Operand) (ty : Ty) : LoadChain address ty [] ⟨address, ty⟩
  | cons {address : Operand} {register : String} {target : Ty} {loads : List Instr} {place : Place}
      (h : LoadChain (.register register) target loads place) :
      LoadChain address (.ref target) (.load register (.ref target) address :: loads) place

/-- The type behind a number of references. -/
def Ty.behind? : Nat → Ty → Option Ty
  | 0, ty => some ty
  | depth + 1, ty => ty.target?.bind (behind? depth)

namespace LoadChain

variable {address : Operand} {ty : Ty} {loads : List Instr} {place : Place}

theorem behind?_length (h : LoadChain address ty loads place) :
    ty.behind? loads.length = some place.ty := by
  induction h with
  | nil => rfl
  | cons _ ih => exact ih

theorem endsBlock (h : LoadChain address ty loads place) :
    ∀ load ∈ loads, load.endsBlock = false := by
  induction h with
  | nil => exact List.forall_mem_nil _
  | cons _ ih => exact List.forall_mem_cons.mpr ⟨rfl, ih⟩

theorem grounded (h : LoadChain address ty loads place) (hty : ty.Grounded) : place.ty.Grounded := by
  induction h with
  | nil => exact hty
  | cons _ ih =>
    cases hty with
    | ref htarget => exact ih htarget

end LoadChain

/-- A body with the lines of more instructions at its end. Behind a terminator the label of a dead block
comes first. No other line is written. -/
structure Body.Gains (instructions : List Instr) (body last : Body) : Prop where
  globals : last.globals = body.globals
  start : last.sheet.start = body.sheet.start
  slot : last.sheet.slot = body.sheet.slot
  lines : ∃ opening,
    last.sheet.lines = body.sheet.lines ++ (opening ++ instructions).map .instr ∧
    if body.isClosed ∧ instructions ≠ [] then ∃ dead, opening = [.label dead] ∧ IsDeadLabel dead
    else opening = []

namespace Body

variable {instructions others : List Instr} {body middle last : Body}

/-- Lines at the end belong to the code behind the stack slots. -/
theorem code_of_lines (hslot : last.sheet.slot = body.sheet.slot)
    (hlines : last.sheet.lines = body.sheet.lines ++ instructions.map .instr) :
    last.code = body.code ++ instructions := by
  have hinstructions : (instructions.map Line.instr).filterMap Line.instruction? = instructions := by
    rw [List.filterMap_map]
    exact List.filterMap_some
  rw [code, code, Sheet.code, Sheet.code, hslot, hlines,
    List.drop_append_of_le_length body.sheet.slot_le, List.filterMap_append, hinstructions]

namespace Gains

theorem refl (body : Body) : body.Gains [] body :=
  ⟨rfl, rfl, rfl, [], (List.append_nil _).symm, by simp⟩

theorem of_mint {base : String} {ty : Ty} (h : (body.mint base ty).Gains instructions last) :
    body.Gains instructions last :=
  ⟨h.globals, h.start, h.slot, h.lines⟩

/-- What is added behind instructions that end no block needs no label. -/
theorem trans (h : body.Gains instructions middle) (h' : middle.Gains others last)
    (hplain : ∀ instruction ∈ instructions, instruction.endsBlock = false) :
    body.Gains (instructions ++ others) last := by
  obtain ⟨opening, hlines, hopening⟩ := h.lines
  obtain ⟨opening', hlines', hopening'⟩ := h'.lines
  have hcode := code_of_lines h.slot hlines
  refine ⟨h'.globals.trans h.globals, h'.start.trans h.start, h'.slot.trans h.slot, ?_⟩
  rcases instructions.eq_nil_or_concat' with rfl | ⟨before, instruction, rfl⟩
  · -- Nothing was added, so the block is as open as it was.
    rw [if_neg (by simp)] at hopening
    subst hopening
    have hclosed : middle.isClosed = body.isClosed := by
      rw [Body.isClosed, Body.isClosed, hcode, List.append_nil, List.append_nil]
    refine ⟨opening', by simpa [hlines] using hlines', ?_⟩
    rwa [hclosed] at hopening'
  · have hends : middle.EndsWith instruction :=
      ⟨body.code ++ (opening ++ before), by simp [hcode]⟩
    have hopen : middle.isClosed = false := by
      rw [hends.isClosed]
      exact hplain instruction (by simp)
    rw [if_neg (by simp [hopen])] at hopening'
    subst hopening'
    refine ⟨opening, by simp [hlines', hlines], ?_⟩
    simpa using hopening

end Gains

end Body

namespace Lowering

variable {body last : Body}

theorem exists_eval_emit {instruction : Instr} (h : instruction.placeholder? = none) (body : Body) :
    ∃ last, (emit instruction).eval body = .ok ((), last) := by
  obtain ⟨separated, hseparate⟩ : ∃ separated, (separate instruction).eval body = .ok ((), separated) := by
    simp only [separate, Pass.eval_bind, Pass.eval_get, Except.bind]
    split <;> exact ⟨_, rfl⟩
  refine ⟨separated.append instruction, ?_⟩
  simp only [emit, Pass.eval_bind_eq_ok_iff, eval_checkConcrete_eq_ok_iff]
  exact ⟨(), body, ⟨h, rfl⟩, (), separated, hseparate, eval_append instruction⟩

theorem gains_emit {instruction : Instr} {result : Unit}
    (hrun : (emit instruction).eval body = .ok (result, last)) (h : instruction.startsBlock = false) :
    body.Gains [instruction] last := by
  rcases eval_emit_cases hrun with ⟨hclosed, rfl⟩ | ⟨name, rfl, -, rfl⟩ | ⟨-, hclosed, rfl⟩
  · refine ⟨rfl, rfl, rfl, [], rfl, ?_⟩
    rw [← hclosed, h]
    simp
  · cases h
  · refine ⟨rfl, rfl, rfl, [.label (body.scope.newRegister "dead")], List.append_assoc .., ?_⟩
    rw [if_pos (by simp [hclosed])]
    exact ⟨_, rfl, body.scope.exists_newRegister_eq "dead"⟩

theorem placeholder?_load {target : String} {ty : Ty} {address : Operand} (h : ty.isConcrete) :
    (Instr.load target ty address).placeholder? = none := by
  simp [Instr.placeholder?, Instr.mentions, h]

/-- A pointer is loaded into a new register. -/
theorem exists_eval_follow (target : Ty) (address : Operand) (body : Body) :
    ∃ register last, (follow (.ref target) address).eval body = .ok (.register register, last) ∧
      body.Gains [.load register (.ref target) address] last := by
  let base := "sym" ++ toString body.scope.size
  let register := body.scope.newRegister base
  have hconcrete : (Instr.load register (.ref target) address).placeholder? = none :=
    placeholder?_load rfl
  obtain ⟨last, hload⟩ := exists_eval_emit hconcrete (body.mint base (.ref target))
  refine ⟨register, last, ?_, (gains_emit hload rfl).of_mint⟩
  simp only [follow, Pass.eval_bind_eq_ok_iff]
  exact ⟨_, _, eval_temporary_eq_ok_iff.mpr ⟨rfl, rfl⟩, (), last, hload, rfl⟩

/-- References are followed by a chain of loads, as long as there are any. -/
theorem exists_eval_followAll {depth : Nat} (place : Place) (h : depth ≤ place.ty.refDepth)
    (body : Body) :
    ∃ found last loads, (followAll place depth).eval body = .ok (found, last) ∧
      loads.length = depth ∧ LoadChain place.address place.ty loads found ∧ body.Gains loads last := by
  induction depth generalizing place body with
  | zero => exact ⟨place, body, [], rfl, rfl, .nil _ _, .refl body⟩
  | succ depth ih =>
    obtain ⟨address, ty⟩ := place
    cases ty with
    | ref target =>
      obtain ⟨register, loaded, hfollow, hload⟩ := exists_eval_follow target address body
      have hle : depth ≤ target.refDepth := Nat.le_of_succ_le_succ h
      obtain ⟨found, last, loads, hrest, rfl, hchain, hgains⟩ :=
        ih ⟨.register register, target⟩ hle loaded
      refine ⟨found, last, _ :: loads, ?_, rfl, .cons hchain,
        hload.trans hgains (List.forall_mem_singleton.mpr rfl)⟩
      exact Pass.eval_bind_eq_ok_iff.mpr ⟨_, loaded, hfollow, hrest⟩
    | _ => cases h

variable {name : String} {var : Var} {depth : Nat}

theorem eval_variableNamed (h : body.scope.variableNamed name = .ok var) :
    (variableNamed name).eval body = .ok (var, body) := by
  obtain ⟨hfound, hstorable⟩ := Scope.variableNamed_eq_ok_iff.mp h
  exact eval_variableNamed_eq_ok_iff.mpr ⟨hfound, hstorable, rfl⟩

theorem exists_eval_derefPlace (hvar : body.scope.variableNamed name = .ok var)
    (h : depth ≤ var.ty.refDepth) :
    ∃ place last loads, (derefPlace name depth).eval body = .ok (place, last) ∧
      loads.length = depth ∧ LoadChain var.operand var.ty loads place ∧ body.Gains loads last := by
  obtain ⟨final, hwalk⟩ := Ty.exists_walk h
  have hpath : var.ty.dereferenced name depth = .ok final :=
    (Ty.dereferenced_of_le name h).trans hwalk
  obtain ⟨place, last, loads, hfollow, hlength, hchain, hgains⟩ :=
    exists_eval_followAll var.place h body
  refine ⟨place, last, loads, ?_, hlength, hchain, hgains⟩
  simp only [derefPlace, Pass.eval_bind_eq_ok_iff, Pass.eval_ofExcept_eq_ok_iff]
  exact ⟨var, body, eval_variableNamed hvar, final, body, ⟨hpath, rfl⟩, hfollow⟩

/-- A dereference too many is noticed before anything is done. -/
theorem derefPlace_of_lt (hvar : body.scope.variableNamed name = .ok var)
    (h : var.ty.refDepth < depth) :
    derefPlace name depth body =
      ⟨.error (.tooManyDereferences name depth var.ty.refDepth var.ty), body, []⟩ := by
  have hnamed : variableNamed name body = ⟨.ok var, body, []⟩ := by
    rw [← hvar]
    rfl
  show Pass.bind (variableNamed name) _ body = _
  rw [Pass.bind, hnamed]
  show Run.mk (Pass.bind (Pass.ofExcept (var.ty.dereferenced name depth)) _ body).result _ _ = _
  rw [Ty.dereferenced_of_lt name h]
  rfl

/-- A variable keeps its meaning when a register is made for what is read through it. -/
theorem variableNamed_mint (hkeyed : body.scope.Keyed)
    (hvar : body.scope.variableNamed name = .ok var) (base : String) (ty : Ty) :
    (body.mint base ty).scope.variableNamed name = .ok var := by
  obtain ⟨hfound, hstorable⟩ := Scope.variableNamed_eq_ok_iff.mp hvar
  exact Scope.variableNamed_eq_ok_iff.mpr ⟨hkeyed.find?_mint base ty hfound, hstorable⟩

/-- Reading a dereference takes one more load. -/
theorem exists_eval_deref (frame : Frame) (hkeyed : body.scope.Keyed)
    (hvar : body.scope.variableNamed name = .ok var) (hty : var.ty.Grounded)
    (h : depth ≤ var.ty.refDepth) (expected : Option Ty) :
    ∃ place register last loads,
      (lowerExpr frame (.deref name depth) expected).eval body =
        .ok (⟨.register register, place.ty⟩, last) ∧
      loads.length = depth ∧ LoadChain var.operand var.ty loads place ∧
      body.Gains (loads ++ [.load register place.ty place.address]) last := by
  let base := "sym" ++ toString body.scope.size
  let register := body.scope.newRegister base
  let asked := (expected.filter Ty.isStorable).getD .dynamic
  obtain ⟨place, placed, loads, hplace, hlength, hchain, hgains⟩ :=
    exists_eval_derefPlace (variableNamed_mint hkeyed hvar base asked) h
  have hconcrete : (Instr.load register place.ty place.address).placeholder? = none :=
    placeholder?_load (hchain.grounded hty).isConcrete
  obtain ⟨last, hload⟩ := exists_eval_emit hconcrete placed
  refine ⟨place, register, last, loads, ?_, hlength, hchain,
    hgains.of_mint.trans (gains_emit hload rfl) hchain.endsBlock⟩
  rw [lowerExpr_deref, compute_eq]
  simp only [loadInto, Pass.eval_bind_eq_ok_iff]
  exact ⟨_, _, eval_temporary_eq_ok_iff.mpr ⟨rfl, rfl⟩, place.ty, last,
    ⟨place, placed, hplace, (), last, hload, rfl⟩, rfl⟩

/-- The register that was to hold the value is all that is left of a dereference too many. -/
theorem stops_deref_of_lt (frame : Frame) (hkeyed : body.scope.Keyed)
    (hvar : body.scope.variableNamed name = .ok var) (h : var.ty.refDepth < depth)
    (expected : Option Ty) :
    (lowerExpr frame (.deref name depth) expected).Stops body
      (.tooManyDereferences name depth var.ty.refDepth var.ty)
      (body.mint ("sym" ++ toString body.scope.size)
        ((expected.filter Ty.isStorable).getD .dynamic)) := by
  let base := "sym" ++ toString body.scope.size
  let asked := (expected.filter Ty.isStorable).getD .dynamic
  have hfails := derefPlace_of_lt (variableNamed_mint hkeyed hvar base asked) h
  have hstops : (derefPlace name depth).Stops (body.mint base asked)
      (.tooManyDereferences name depth var.ty.refDepth var.ty) (body.mint base asked) := by
    rw [Pass.Stops, hfails]
    exact ⟨rfl, rfl⟩
  rw [lowerExpr_deref, compute_eq]
  refine Pass.stops_bind_iff.mpr (Or.inr ⟨_, _, eval_temporary_eq_ok_iff.mpr ⟨rfl, rfl⟩, ?_⟩)
  exact Pass.stops_bind_iff.mpr (Or.inl (Pass.stops_bind_iff.mpr (Or.inl hstops)))

end Lowering

open Lowering in
/-- **Dereferences are chains of loads.** In every state of lowering a function of a module, a variable can
be dereferenced exactly as often as its type has references. The place is then reached by that many loads:
the first reads the stack slot of the variable, at its type, each further one reads the register of the one
before it, at the type behind one more reference, and no line is written but theirs and the label of a dead
block behind a terminator. They arrive at the type that was found before the first of them. Reading the
place takes one more load from there, at that type. A dereference too many is reported with both numbers.
It leaves the state as it is, or with one more register if a value was asked for, and no line is written. -/
theorem deref_of_arrives {module : Module} {session : Session {} module} {body : Body}
    (hbody : session.Arrives body) {name : String} {var : Var}
    (hvar : body.scope.variableNamed name = .ok var) (depth : Nat) :
    (depth ≤ var.ty.refDepth →
      (∃ place last loads,
        (lowerTarget session.frame (.deref name depth)).eval body = .ok (place, last) ∧
        loads.length = depth ∧ LoadChain var.operand var.ty loads place ∧
        var.ty.behind? depth = some place.ty ∧ var.ty.dereferenced name depth = .ok place.ty ∧
        body.Gains loads last) ∧
      ∀ expected, ∃ place register last loads,
        (lowerExpr session.frame (.deref name depth) expected).eval body =
          .ok (⟨.register register, place.ty⟩, last) ∧
        loads.length = depth ∧ LoadChain var.operand var.ty loads place ∧
        body.Gains (loads ++ [.load register place.ty place.address]) last) ∧
    (var.ty.refDepth < depth →
      lowerTarget session.frame (.deref name depth) body =
        ⟨.error (.tooManyDereferences name depth var.ty.refDepth var.ty), body, []⟩ ∧
      ∀ expected, ∃ base ty,
        (lowerExpr session.frame (.deref name depth) expected).Stops body
          (.tooManyDereferences name depth var.ty.refDepth var.ty) (body.mint base ty) ∧
        (body.mint base ty).sheet = body.sheet) := by
  obtain ⟨⟨names, hsound⟩, -⟩ := hbody.sound
  obtain ⟨hfound, hstorable⟩ := Scope.variableNamed_eq_ok_iff.mp hvar
  have hty : var.ty.Grounded := (hsound.binds.vars hfound hstorable).1
  constructor
  · intro h
    refine ⟨?_, exists_eval_deref session.frame hsound.keyed hvar hty h⟩
    obtain ⟨place, last, loads, hrun, hlength, hchain, hgains⟩ := exists_eval_derefPlace hvar h
    obtain ⟨_, _, hnamed, hpath, -⟩ := eval_derefPlace hrun
    obtain ⟨rfl, -⟩ := Prod.mk.inj (Except.ok.inj ((eval_variableNamed hvar).symm.trans hnamed))
    exact ⟨place, last, loads, hrun, hlength, hchain, hlength ▸ hchain.behind?_length, hpath, hgains⟩
  · intro h
    exact ⟨derefPlace_of_lt hvar h, fun expected =>
      ⟨_, _, stops_deref_of_lt session.frame hsound.keyed hvar h expected, rfl⟩⟩

/-- A function that returns what two references lead to. -/
def peering : FunctionDef where
  name := "peering"
  parameters := [⟨"link", "&&i32"⟩]
  returns := some "i32"
  body := [.ret (some (.deref "link" 2))]

/-- The moment at which that function is about to be lowered. -/
def peeringSession : Session {} ⟨[.function peering]⟩ where
  table := {}
  codes := []
  draft :=
    { globals.root := (Globals.start.root.bind "peering" (.function ⟨some .i32, [.ref (.ref .i32)], false⟩)).2 }
  function := ⟨peering, .make "peering" (.function ⟨some .i32, [.ref (.ref .i32)], false⟩)⟩
  reached := by
    have hsignature : ({} : TypeTable).denoteSignature peering =
        .ok ⟨some .i32, [.ref (.ref .i32)], false⟩ := by
      decide +kernel
    refine ⟨_, _, [], [], _, eval_declareSupport_all, rfl, ?_, rfl⟩
    show (bindFunctions {} [] [peering]).eval .start = _
    rw [bindFunctions]
    simp only [Pass.eval_bind, Pass.eval_require, Pass.eval_ofExcept, hsignature]
    rfl

open Lowering in
/-- Behind the return, the parameter can be dereferenced twice and not three times. -/
theorem deref_peering : ∃ body var, peeringSession.Arrives body ∧ body.isClosed ∧
    body.scope.variableNamed "link" = .ok var ∧
    (∃ place last loads,
      (lowerTarget peeringSession.frame (.deref "link" 2)).eval body = .ok (place, last) ∧
      loads.length = 2 ∧ LoadChain var.operand var.ty loads place ∧ body.Gains loads last) ∧
    lowerTarget peeringSession.frame (.deref "link" 3) body =
      ⟨.error (.tooManyDereferences "link" 3 2 var.ty), body, []⟩ := by
  obtain ⟨⟨_, body⟩, hrun, hbody⟩ : ∃ result,
      (lowerStmt peeringSession.frame (.ret (some (.deref "link" 2)))).eval peeringSession.start =
        .ok result ∧
      (result.2.isClosed &&
        (result.2.scope.variableNamed "link").toOption.any fun var => decide (var.ty.refDepth = 2)) :=
    exists_ok_of_any (by decide +kernel)
  rw [Bool.and_eq_true] at hbody
  obtain ⟨hclosed, hlink⟩ := hbody
  obtain ⟨var, hvar, hdepth⟩ := exists_ok_of_any hlink
  have hdepth : var.ty.refDepth = 2 := of_decide_eq_true hdepth
  have hbody : peeringSession.Arrives body := .run .begin (.statement _) hrun
  obtain ⟨place, last, loads, hplace, hlength, hchain, -, -, hgains⟩ :=
    ((deref_of_arrives hbody hvar 2).1 hdepth.ge).1
  have hfails := ((deref_of_arrives hbody hvar 3).2 (by omega)).1
  rw [hdepth] at hfails
  exact ⟨body, var, hbody, hclosed, hvar, ⟨place, last, loads, hplace, hlength, hchain, hgains⟩, hfails⟩

end ThreeAddress
