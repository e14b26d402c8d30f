import Mathlib.Data.List.InsertIdx
import ThreeAddress.Proofs.Emission.Lines
import ThreeAddress.Proofs.Emission.Session

/-!
# Where stack slots are reserved

A function reserves all its stack slots in front of its code: a slot for every parameter with the copy of
the argument, one for the returned value, and one for every variable and struct value of the body in the
order in which they are asked for. The lines of all functions are in one list. While a function is lowered,
the line of a new slot is inserted into it behind those of the slots before it, and every other line goes to
the end. So no line is ever moved past another, and those of the functions before are not touched.

## Main definitions

* `FunctionCode.Layout`: the stack slots of a function in front of its code.
* `Sheet.listing`: the lines so far, as they are written.
* `Listing.Edit`: one more line at the end or at a given position.

## Main statements

* `nonempty_layout`: the functions of a lowered program are laid out that way.
* `Body.Change.edit`: what one change to a body does to the lines.
* `Body.Evolves.sublist`: lines keep their order.
* `hoisted_of_lowerWith`: slots are hoisted, in every lowered program and all the way to it.
-/

namespace ThreeAddress

-- ════════════════════════
-- The layout of a function
-- ════════════════════════

/-- The argument and the stack slot that are made for a parameter. -/
structure TypedName.Enters (table : TypeTable) (source : TypedName) (parameter : Parameter) : Prop where
  name : parameter.name = source.name
  incoming : NamedAfter (source.name ++ ".val") parameter.incoming.register
  slot : NamedAfter source.name parameter.slot.register
  denotes : table.denote source.ty = .ok parameter.slot.ty
  copied : parameter.incoming.ty = parameter.slot.ty

theorem Scope.forall₂_enters {table : TypeTable} {sources : List TypedName} {types : List Ty}
    (h : List.Forall₂ (fun source ty => table.denote source.ty = .ok ty) sources types) (scope : Scope) :
    List.Forall₂ (TypedName.Enters table) sources
      (scope.enter ((sources.map TypedName.name).zip types)).1 := by
  induction h generalizing scope with
  | nil => exact .nil
  | cons hdenotes _ ih =>
    exact .cons ⟨rfl, Scope.namedAfter_newRegister .., Scope.namedAfter_newRegister .., hdenotes, rfl⟩
      (ih _)

theorem Scope.namedAfter_returnSlot (scope : Scope) (parameters : List (String × Ty))
    (returns : Option Ty) : ∀ slot ∈ (scope.prologue parameters returns).returnSlot,
      NamedAfter "retptr" slot.register := by
  intro slot hslot
  cases returns with
  | none => cases hslot
  | some ty =>
    cases hslot
    exact Scope.namedAfter_newRegister ..

/-- The stack slots of a function in front of its code. Each of them is reserved once: those of the
parameters with the copies of the arguments, that of the returned value, and those that the body asks for
in the order in which it does. -/
structure FunctionCode.Layout (table : TypeTable) (definition : FunctionDef)
    (function : FunctionCode) where
  parameters : List Parameter
  returned : Option Var
  slots : List Var
  signature : table.denoteSignature definition = .ok function.signature
  entered : List.Forall₂ (TypedName.Enters table) definition.parameters parameters
  arguments : function.parameters = parameters.map fun parameter => parameter.incoming.register
  returns : returned.map Var.ty = function.signature.returns
  named : ∀ slot ∈ returned, NamedAfter "retptr" slot.register
  requested : List.Forall₂ (Request.Reserved table)
    ((Block.requests definition.body).filter Request.isSlot) slots
  instructions : function.instructions = parameters.flatMap Parameter.copy ++
    (returned.toList ++ slots).map (fun slot => .alloca slot.register slot.ty) ++ function.code
  code : ∀ instruction ∈ function.code, instruction.slot? = none

/-- The stages of lowering a function lay it out. -/
theorem Stages.Of.nonempty_layout {unchecked : Prop} {function : FunctionCode}
    {stages : Stages unchecked function} {globals : Globals} {table : TypeTable}
    {definition : FunctionDef} {signature : Signature}
    (h : stages.Of globals table definition signature)
    (hsignature : table.denoteSignature definition = .ok signature) :
    Nonempty (function.Layout table definition) := by
  obtain ⟨slots, calls, hanswered, hentry, -, hcode⟩ := h.exists_answered
  obtain ⟨hparameters, -⟩ := TypeTable.denotes_of_denoteSignature hsignature
  have hprologue := h.prologue_eq
  refine ⟨⟨stages.prologue.parameters, stages.prologue.returnSlot, slots, ?_, ?_, stages.parameters_eq,
    ?_, ?_, hanswered.forall₂_reserved, ?_, hcode⟩⟩
  · rw [hsignature, h.signature_eq]
  · rw [← hprologue, Scope.parameters_prologue]
    exact Scope.forall₂_enters hparameters _
  · rw [← hprologue, Scope.map_ty_returnSlot, h.signature_eq]
  · rw [← hprologue]
    exact Scope.namedAfter_returnSlot _ _ _
  · rw [FunctionCode.instructions, hentry, Prologue.code, List.map_append]
    simp only [List.append_assoc]

-- ════════════════════════
-- Edits
-- ════════════════════════

namespace Listing

/-- The lines as they were, one more at the end, or one more in front of that at the given position. -/
inductive Edit (position : Nat) (listing : Listing) : Listing → Prop
  | keep : Edit position listing listing
  | add (indent : Nat) (text : String) : Edit position listing (listing.addBody indent text)
  | insert (indent : Nat) (text : String) {last : Listing}
      (h : listing.insertBody? position indent text = some last) : Edit position listing last

variable {listing last : Listing} {position : Nat}

theorem toList_body_of_insertBody? {indent : Nat} {text : String}
    (h : listing.insertBody? position indent text = some last) :
    last.body.toList = listing.body.toList.insertIdx position (indented indent text) := by
  rw [insertBody?] at h
  split at h
  · next hposition =>
    cases h
    exact Array.toList_insertIdx hposition
  · cases h

/-- Lines in front of the position are kept where they are. -/
theorem Edit.take_eq (h : listing.Edit position last) (hposition : position ≤ listing.body.size) :
    last.body.toList.take position = listing.body.toList.take position := by
  cases h with
  | keep => rfl
  | add indent text =>
    rw [addBody, Array.toList_push, List.take_append_of_le_length]
    rwa [Array.length_toList]
  | insert _ _ hinsert =>
    rw [toList_body_of_insertBody? hinsert, List.take_insertIdx_eq_take_of_le _ _ _ _ le_rfl]

end Listing

-- ════════════════════════
-- Sheets
-- ════════════════════════

namespace Sheet

variable (sheet : Sheet) (line : Line)

/-- The lines so far, as they are written. -/
def listing : Listing := sheet.lines.foldl Listing.addLine {}

theorem listing_eq : sheet.listing = { body := (sheet.lines.map Line.shown).toArray } := by
  rw [listing, Listing.foldl_addLine]
  simp

theorem listing_add : (sheet.add line).listing = sheet.listing.addBody line.indent line.text := by
  rw [listing, add, List.foldl_append]
  rfl

theorem insertBody?_listing :
    sheet.listing.insertBody? sheet.slot line.indent line.text = some (sheet.insert line).listing := by
  have hslot : sheet.slot ≤ (sheet.lines.map Line.shown).toArray.size := by
    simpa using sheet.slot_le
  have hlines : (sheet.lines.map Line.shown).insertIdx sheet.slot line.shown =
      (sheet.insert line).lines.map Line.shown := (List.map_insertIdx _ _ _ _).symm
  rw [listing_eq, listing_eq, Listing.insertBody?, dif_pos hslot, List.insertIdx_toArray, ← hlines]
  rfl

end Sheet

namespace Body

variable {body last : Body}

/-- What one change to a body does to the lines. -/
theorem Change.edit (h : body.Change last) :
    body.sheet.listing.Edit body.sheet.slot last.sheet.listing := by
  cases h with
  | mint | rebind | addConstant => exact .keep
  | reserve slot => exact .insert _ _ (body.sheet.insertBody?_listing _)
  | append instruction =>
    have hlines := body.sheet.listing_add (.instr instruction)
    exact hlines ▸ .add _ _

theorem Change.sublist (h : body.Change last) : body.sheet.lines.Sublist last.sheet.lines := by
  cases h with
  | mint | rebind | addConstant => exact .refl _
  | reserve slot => exact List.sublist_insertIdx _ _ _
  | append instruction => exact List.sublist_append_left _ _

/-- Lines keep their order. -/
theorem Evolves.sublist (h : body.Evolves last) : body.sheet.lines.Sublist last.sheet.lines :=
  h.invariant (P := fun last => body.sheet.lines.Sublist last.sheet.lines)
    (fun _ _ hchange hsublist => hsublist.trans hchange.sublist) (.refl _)

end Body

-- ════════════════════════
-- Lowered programs
-- ════════════════════════

variable {prelude : Scope} {module : Module} {program : Program}

/-- The functions of a lowered program reserve their stack slots in front of their code. -/
theorem nonempty_layout (h : (lowerWith prelude module).result = .ok program) :
    List.Forall₂ (fun definition function =>
        Nonempty (function.Layout ⟨program.structs⟩ definition))
      module.functions program.functions := by
  obtain ⟨_, _, table, bound, _, _, -, -, hbind, hcodes, hstructs, -⟩ := eval_lowerWith h
  obtain ⟨hdefinitions, hsignatures, -⟩ := eval_bindFunctions hbind
  have hall := forall₂_loweredIn (fun _ => True) (fun _ _ => id) hcodes hsignatures trivial
  rw [← hdefinitions, List.forall₂_map_left_iff, hstructs]
  refine hall.imp fun function code hlowered => ?_
  obtain ⟨globals, stages, hstages, -⟩ := hlowered.exists_stages
  obtain ⟨_, _, hsignature, -⟩ := hlowered
  exact hstages.nonempty_layout hsignature

/-- Stack slots are hoisted. In every lowered program the lines of a function are its header, the stack
slots of its parameters with the copies of the arguments, that of the returned value, those of the
variables and struct values of its body in the order in which they are asked for, and code without any.
Lowering a function adds its lines behind those of the functions before it. All the way to it, a change at
most adds a line at the end or inserts that of a stack slot behind those before it, so the lines of the
functions before stay where they are and no line is moved past another. -/
theorem hoisted_of_lowerWith (h : (lowerWith prelude module).result = .ok program) :
    program.listing.body.toList = program.functions.flatMap FunctionCode.lines ∧
    List.Forall₂ (fun definition function =>
        Nonempty (function.Layout ⟨program.structs⟩ definition))
      module.functions program.functions ∧
    ∀ position < module.functions.length,
      ∃ (session : Session prelude module) (code : FunctionCode) (last : Body),
        session.codes = program.functions.take position ∧
        program.functions[position]? = some code ∧
        (lowerFunction session.table session.function).eval session.draft = .ok (code, last.close.draft) ∧
        session.draft.lines = session.codes.flatMap FunctionCode.sheetLines ∧
        last.close.draft.lines = session.draft.lines ++ code.sheetLines ∧
        session.Reaches last ∧
        ∀ body, session.Reaches body →
          session.draft.lines <+: body.sheet.lines ∧ session.draft.lines.length < body.sheet.slot ∧
          (∀ next, body.Change next →
            body.sheet.listing.Edit body.sheet.slot next.sheet.listing ∧
            next.sheet.listing.body.toList.take body.sheet.slot =
              body.sheet.listing.body.toList.take body.sheet.slot) ∧
          ∀ statements later, (Lowering.lowerStmts session.frame statements).eval body =
            .ok ((), later) → session.Reaches later ∧ body.sheet.lines.Sublist later.sheet.lines := by
  refine ⟨body_listing_lowerWith h, nonempty_layout h, fun position hposition => ?_⟩
  obtain ⟨session, -, -, hcodes, code, final, hrun, hcode⟩ :=
    exists_session h (List.getElem?_eq_getElem hposition)
  obtain ⟨last, hlast, -, rfl⟩ := session.exists_reaches hrun
  refine ⟨session, code, last, hcodes, hcode, hrun, session.lines_draft,
    lines_lowerFunction session.signature_eq hrun, hlast, fun body hbody => ⟨?_, ?_, ?_, ?_⟩⟩
  · rw [hbody.follows.lines, List.append_assoc]
    exact List.prefix_append _ _
  · rw [hbody.follows.slot, List.length_append, List.length_singleton]
    omega
  · intro next hchange
    refine ⟨hchange.edit, hchange.edit.take_eq ?_⟩
    rw [Sheet.listing_eq]
    simpa using body.sheet.slot_le
  · intro statements later hlower
    have hresponds : Lowering.Responds session.table _ (Lowering.lowerStmts session.frame statements) :=
      Lowering.responds_lowerStmts rfl statements
    exact ⟨hbody.of_responds hresponds hlower, (hresponds hlower).evolves.sublist⟩

/-- A function with variables and a struct value in a loop, in an arm and behind returns. -/
def nesting : FunctionDef where
  name := "nesting"
  parameters := [⟨"n", "i32"⟩, ⟨"pair", "Pair"⟩]
  returns := some "i32"
  body := [
    .loop (.binary .less (.variableRef "n") (.integer 10)) [
      .bind "step" (some "i32") (.call "early" [.variableRef "n"]),
      .ite (.binary .equal (.variableRef "step") (.integer 5))
        [.ret (some (.variableRef "step")), .bind "step" none (.variableRef "n")]
        [.assign (.variableRef "n") (.binary .add (.variableRef "n") (.variableRef "step"))]],
    .bind "last" none (.build "Pair" [
      ⟨"second", .call "early" [.variableRef "n"]⟩,
      ⟨"first", .integer 1⟩]),
    .ret (some (.field "last" "first")),
    .bind "late" (some "bool") (.boolean true)]

def nestingModule : Module where
  items := [
    .function ⟨"early", [⟨"n", "i32"⟩], some "i32",
      [.bind "m" none (.variableRef "n"), .ret (some (.variableRef "m"))]⟩,
    .struct ⟨"Pair", [⟨"first", "i32"⟩, ⟨"second", "i32"⟩]⟩,
    .function nesting]

theorem hoisted_nesting : ∃ program, (lowerWith {} nestingModule).result = .ok program ∧
    program.functions.map (fun function => function.instructions.filterMap Instr.slot?) = [
      ["n", "retptr", "m"],
      ["n", "pair", "retptr", "step", "step0", "sym33", "last", "late"]] ∧
    List.Forall₂ (fun definition function =>
        Nonempty (function.Layout ⟨program.structs⟩ definition))
      nestingModule.functions program.functions ∧
    ∃ (session : Session {} nestingModule) (code : FunctionCode) (last : Body),
      session.codes = program.functions.take 1 ∧ session.Reaches last ∧
      (lowerFunction session.table session.function).eval session.draft = .ok (code, last.close.draft) ∧
      last.close.draft.lines = session.draft.lines ++ code.sheetLines := by
  obtain ⟨program, h, hslots⟩ := exists_program_of_any {} nestingModule
    (P := fun program =>
      program.functions.map (fun function => function.instructions.filterMap Instr.slot?) = [
        ["n", "retptr", "m"],
        ["n", "pair", "retptr", "step", "step0", "sym33", "last", "late"]]) (by decide +kernel)
  obtain ⟨-, hlayout, hsessions⟩ := hoisted_of_lowerWith h
  obtain ⟨session, code, last, hcodes, -, hrun, -, hlines, hlast, -⟩ := hsessions 1 (by decide)
  exact ⟨program, h, of_decide_eq_true hslots, hlayout, session, code, last, hcodes, hlast, hrun, hlines⟩

end ThreeAddress
