import ThreeAddress.Proofs.Emission.Lines
import ThreeAddress.Proofs.Scope.Ownership

/-!
# Unique symbols

The functions that a program defines, those that it declares and its constants have symbols that differ
from each other, whatever the module and the prelude call their functions. A prelude is any scope that
operations on scopes lead to. Its functions already differ, since no register is given out twice, and
the symbols of the module are new after them.

## Main statements

* `nodup_globals_of_lowerWith`: no two lines of a program introduce the same symbol.
-/

namespace ThreeAddress

/-- The lines of a program are those of its types, of its constants, of the functions that it defines
and of those that it declares. All symbols that these introduce differ from each other, whatever names
the module and the prelude use. -/
theorem nodup_globals_of_lowerWith (actions : List Scope.Action) {module : Module} {program : Program}
    (h : (lowerWith (Scope.performAll {} actions) module).result = .ok program) :
    (program.constants.map (fun entry => globalText entry.2) ++
      program.functions.map (fun function => globalText function.symbol) ++
      program.externals.map (fun entry => globalText entry.1)).Nodup ∧
    program.listing.lines = program.typeLines ++ program.constants.map Program.constantLine ++
      program.functions.flatMap FunctionCode.lines ++ program.externals.map Program.externalLine := by
  have hprelude := Scope.Recorded.empty.performAll actions
  have hnodup := nodup_symbols_of_lowerWith hprelude.nodup_ownFunctions
    (fun _ => hprelude.inUse_of_mem_ownFunctions) h
  have hglobals : (program.constants.map Prod.snd ++ program.symbols.map Prod.fst).Nodup :=
    List.perm_append_comm.nodup_iff.mp hnodup
  have hinjective : Function.Injective globalText := fun _ _ heq => String.append_right_inj "@" |>.mp heq
  refine ⟨?_, shown_lowerWith h ▸ (legible_of_lowerWith h).lines_listing⟩
  simpa [Program.symbols, Function.comp_def] using hglobals.map hinjective

/-- A prelude that has a function for the name of a constant, two functions of one name, and a variable
for the name of a support function. -/
def crowded : List Scope.Action := [
  .declare "str" ⟨none, [], false⟩,
  .declare "malloc0" ⟨some .i32, [], false⟩,
  .nest,
  .bind "malloc" .i32,
  .declare "log" ⟨none, [.i32], false⟩,
  .declare "log" ⟨none, [.bytes], false⟩,
  .mint "log" (.function ⟨none, [], false⟩)]

/-- A module whose functions are named like support functions, constants and functions of a prelude. -/
def crowding : Module where
  items := [
    .function {
      name := "log"
      parameters := []
      returns := none
      body := [.eval (.call "printf" [.text "a"]), .eval (.call "printf" [.text "b"])] },
    .function {
      name := "str0"
      parameters := []
      returns := none
      body := [.eval (.call "log" []), .eval (.call "printf" [.text "a"])] },
    .function { name := "pitch_ok", parameters := [], returns := none, body := [] },
    .function {
      name := "arrconst"
      parameters := []
      returns := none
      body := [.bind "a" none (.array [.integer 1, .integer 2])] }]

theorem nodup_globals_crowding : ∃ program,
    (lowerWith (Scope.performAll {} crowded) crowding).result = .ok program ∧
    program.constants.map Prod.snd = ["str1", "str2", "arrconst0"] ∧
    program.functions.map FunctionCode.symbol = ["log2", "str0", "pitch_ok0", "arrconst"] ∧
    program.externals.map Prod.fst =
      ["log0", "log1", "malloc1", "realloc", "printf", "pitch_ok", "pitch_err"] ∧
    (program.constants.map (fun entry => globalText entry.2) ++
      program.functions.map (fun function => globalText function.symbol) ++
      program.externals.map (fun entry => globalText entry.1)).Nodup := by
  obtain ⟨program, h, hprogram⟩ := exists_program_of_any (Scope.performAll {} crowded) crowding
    (P := fun program => program.constants.map Prod.snd = ["str1", "str2", "arrconst0"] ∧
      program.functions.map FunctionCode.symbol = ["log2", "str0", "pitch_ok0", "arrconst"] ∧
      program.externals.map Prod.fst =
        ["log0", "log1", "malloc1", "realloc", "printf", "pitch_ok", "pitch_err"]) (by decide +kernel)
  obtain ⟨hconstants, hfunctions, hexternals⟩ := of_decide_eq_true hprogram
  exact ⟨program, h, hconstants, hfunctions, hexternals, (nodup_globals_of_lowerWith crowded h).1⟩

end ThreeAddress
