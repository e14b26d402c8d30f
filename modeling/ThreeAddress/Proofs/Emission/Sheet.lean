import ThreeAddress.Proofs.Emission.Evolution
import ThreeAddress.Proofs.Emission.Symbols

/-!
# The lines of functions

All functions of a module are written to one list of lines, and stack slots are inserted in the middle of
it. Nothing in front of the function at hand is touched by that: its instructions follow the lines of the
functions before it, and the place for its next stack slot is between its entry and its code. So a lowered
function adds its own lines to the end and changes no other.

## Main definitions

* `FunctionCode.sheetLines`: the lines of a function.
* `Body.Follows`: a function is being written behind the given lines.

## Main statements

* `Body.Evolves.follows`: the given lines stay where they are in every state of lowering a function.
* `lines_lowerFunction`: lowering a function adds its lines to those before it.
* `lines_lowerWith`: the lines of a lowered program are those of its functions.
-/

namespace ThreeAddress

/-- The lines of a function. -/
def FunctionCode.sheetLines (function : FunctionCode) : List Line :=
  function.header :: function.instructions.map .instr ++ [.close]

namespace Body

/-- The instructions so far are written behind the given lines, and the place for the next stack slot is
between the entry and the code. -/
structure Follows (front : List Line) (body : Body) : Prop where
  lines : body.sheet.lines = front ++ (body.entry ++ body.code).map .instr
  slot : body.sheet.slot = front.length + body.entry.length

variable {front : List Line} {body last : Body}

theorem follows_begin (body : Body) (header : Line) (prologue : Prologue) :
    (body.begin header prologue).Follows (body.sheet.lines ++ [header]) := by
  have hlines : (body.begin header prologue).sheet.lines =
      body.sheet.lines ++ [header] ++ prologue.code.map .instr := by
    rw [lines_begin, List.append_cons]
  have hslot : (body.begin header prologue).sheet.slot =
      (body.begin header prologue).sheet.lines.length := rfl
  constructor
  · rw [hlines, entry_begin, code_begin, List.append_nil]
  · rw [hslot, hlines, entry_begin, List.length_append, List.length_map]

theorem Follows.append (h : body.Follows front) (instruction : Instr) :
    (body.append instruction).Follows front := by
  constructor
  · have hlines : (body.append instruction).sheet.lines = body.sheet.lines ++ [.instr instruction] := rfl
    rw [hlines, h.lines, entry_append, code_append]
    simp
  · rw [entry_append]
    exact h.slot

/-- A stack slot is inserted behind the lines in front of the function. -/
theorem Follows.reserve (h : body.Follows front) (slot : Var) : (body.reserve slot).Follows front := by
  have hlines : body.sheet.lines =
      (front ++ body.entry.map .instr) ++ body.code.map .instr := by
    rw [h.lines, List.map_append, List.append_assoc]
  have hslot : body.sheet.slot = (front ++ body.entry.map Line.instr).length := by
    rw [h.slot, List.length_append, List.length_map]
  constructor
  · have hinserted : (body.reserve slot).sheet.lines =
        body.sheet.lines.insertIdx body.sheet.slot (.instr (.alloca slot.register slot.ty)) := rfl
    rw [hinserted, hlines, hslot, Sheet.insertIdx_append, entry_reserve, code_reserve]
    simp
  · have hnext : (body.reserve slot).sheet.slot = body.sheet.slot + 1 := rfl
    rw [hnext, h.slot, entry_reserve, List.length_append, List.length_singleton, Nat.add_assoc]

theorem Change.follows (h : body.Change last) (hbody : body.Follows front) : last.Follows front := by
  cases h with
  | mint | rebind | addConstant => exact ⟨hbody.lines, hbody.slot⟩
  | reserve slot => exact hbody.reserve slot
  | append instruction => exact hbody.append instruction

/-- The lines in front of a function stay where they are while it is lowered. -/
theorem Evolves.follows (h : body.Evolves last) (hbody : body.Follows front) : last.Follows front :=
  h.invariant (fun _ _ => Change.follows) hbody

end Body

variable {table : TypeTable} {draft final : Draft}

/-- Lowering a function adds its lines to those before it. -/
theorem lines_lowerFunction {function : BoundFunction} {code : FunctionCode}
    (hsignature : table.denoteSignature function.definition = .ok function.signature)
    (h : (lowerFunction table function).eval draft = .ok (code, final)) :
    final.lines = draft.lines ++ code.sheetLines := by
  obtain ⟨body, hrun, rfl⟩ := eval_lowerFunction h
  obtain ⟨stages, -, hstart, rfl⟩ := Lowering.exists_stages hrun
    (TypeTable.length_denoteSignature hsignature) (Or.inl trivial)
  have hfollows := stages.steps.evolves.follows
    (hstart ▸ draft.body.follows_begin code.header stages.prologue)
  have hlines := (hfollows.append (.ret stages.value)).lines
  have hclose : (stages.ending.append (.ret stages.value)).close.draft.lines =
      (stages.ending.append (.ret stages.value)).sheet.lines ++ [.close] := rfl
  rw [hclose, hlines, FunctionCode.sheetLines, FunctionCode.instructions, stages.entry_eq,
    stages.code_eq, Body.entry_append, Body.code_append]
  simp [Draft.body, Sheet.ofLines]

theorem lines_lowerFunctions {functions : List BoundFunction} {codes : List FunctionCode}
    (hsignatures : ∀ function ∈ functions,
      table.denoteSignature function.definition = .ok function.signature)
    (h : (lowerFunctions table functions).eval draft = .ok (codes, final)) :
    final.lines = draft.lines ++ codes.flatMap FunctionCode.sheetLines := by
  induction functions generalizing draft codes with
  | nil =>
    obtain ⟨rfl, rfl⟩ := Pass.eval_pure_eq_ok_iff.mp h
    exact (List.append_nil _).symm
  | cons function rest ih =>
    rw [List.forall_mem_cons] at hsignatures
    obtain ⟨code, middle, codes, hfirst, hrest, rfl⟩ := eval_lowerFunctions_cons.mp h
    rw [ih hsignatures.2 hrest, lines_lowerFunction hsignatures.1 hfirst, List.flatMap_cons,
      List.append_assoc]

/-- The lines of a lowered program are those of its functions, in order. -/
theorem lines_lowerWith {prelude : Scope} {module : Module} {program : Program}
    (h : (lowerWith prelude module).result = .ok program) :
    program.lines = program.functions.flatMap FunctionCode.sheetLines := by
  obtain ⟨_, _, _, _, _, _, -, -, hbind, hcodes, -, -, -, hlines⟩ := eval_lowerWith h
  rw [hlines, lines_lowerFunctions (eval_bindFunctions hbind).2.1 hcodes]
  rfl

/-- The rounds of lowering a module, with the lines of its functions. -/
theorem result_lowerCodes (module : Module) :
    (lower module).result =
      (TypeTable.defineAll {} module.structs).bind fun table =>
        ((bindFunctions table [] module.functions).eval .start).bind fun (bound, named) =>
          ((lowerCodes table bound).eval named).map fun (codes, last) =>
            ⟨table.structs, last.constants, codes, codes.flatMap FunctionCode.sheetLines,
              Support.all.map Support.declaration⟩ := by
  rw [result_lower]
  congr 1
  funext table
  cases hbind : (bindFunctions table [] module.functions).eval .start with
  | error diagnostic => rfl
  | ok pair =>
    obtain ⟨bound, named⟩ := pair
    have hview : (lowerCodes table bound).eval named =
        ((lowerFunctions table bound).eval { globals := named }).map (Prod.map id Draft.globals) :=
      eval_lowerCodes bound { globals := named }
    simp only [Except.bind]
    rw [hview]
    cases hcodes : (lowerFunctions table bound).eval { globals := named } with
    | error diagnostic => rfl
    | ok result =>
      obtain ⟨codes, final⟩ := result
      have hlines : final.lines = codes.flatMap FunctionCode.sheetLines :=
        lines_lowerFunctions (eval_bindFunctions hbind).2.1 hcodes
      simp only [Except.map, Prod.map, id, hlines]

end ThreeAddress
