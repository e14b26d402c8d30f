import ThreeAddress.Proofs.Contract.Module
import ThreeAddress.Proofs.Requests.Function
import ThreeAddress.Proofs.Typing.Supply

/-!
# Calls and their targets

Every call in a lowered module goes to one symbol of the program, at the signature of that symbol and
with arguments that it accepts. Which symbol that is can be read off the source: a built-in goes to
its support functions, and any other name to the function of that name. Support functions keep their
names, so a function of the module never stands in for one.

## Main definitions

* `Program.symbolOf`: the symbol that the name of a function of the module stands for.

## Main statements

* `accepts_of_call_mem`: a call agrees with the symbol that it names.
* `calls_agree_of_lower`: the same for all calls of a module, with the symbols they go to.
-/

namespace ThreeAddress

variable {module : Module} {program : Program}

/-- A call names a function that the program defines or declares, at its signature, and with arguments
that it accepts. -/
theorem accepts_of_call_mem (h : (lower module).result = .ok program) {function : FunctionCode}
    (hfunction : function ∈ program.functions) {target : Option String} {callee : String}
    {signature : Signature} {arguments : List Value}
    (hcall : .call target callee signature arguments ∈ function.instructions) :
    (callee, signature) ∈ program.symbols ∧ signature.accepts arguments.length := by
  obtain ⟨table, bound, named, codes, last, hstructs, hbind, hcodes, rfl⟩ := lower_eq_ok_iff.mp h
  obtain ⟨-, hsignatures, hkeyed⟩ := eval_bindFunctions hbind
  let program : Program :=
    ⟨table.structs, last.globals.constants, codes, last.lines, Support.all.map Support.declaration⟩
  have hsupport (function : Support) : (function.name, function.signature) ∈ program.symbols :=
    List.mem_append_right _ (List.mem_map_of_mem (by cases function <;> decide))
  have htable : table.Grounded := grounded_of_eval_defineStructs hstructs
  -- Without a prelude, there is nowhere that variables could have functions from.
  let setting := Setting.supplied htable (fun _ => False)
    (fun register signature => (register, signature) ∈ program.symbols) (fun _ => False.elim) hsupport
  have hstart : setting.Binds [] Globals.start.root := by
    constructor
    · intro name var hfound hstorable
      obtain ⟨function, rfl, rfl⟩ := Globals.exists_of_find?_start hfound
      cases hstorable
    · intro name var signature hfound hty
      obtain ⟨function, rfl, rfl⟩ := Globals.exists_of_find?_start hfound
      obtain rfl := Ty.function.inj hty
      exact ⟨function.grounded.supplied _, hsupport function⟩
  have hnamed : setting.Binds [] named.root := by
    refine hstart.bindFunctions hbind fun function hmem => ⟨?_, List.mem_append_left _ ?_⟩
    · exact (htable.denoteSignature (hsignatures function hmem)).supplied _
    · rw [map_symbol_lowerFunctions hcodes]
      exact List.mem_map_of_mem hmem
  have hall := forall₂_loweredIn (fun root => root.Keyed ∧ setting.Binds [] root)
    (fun _ constant hroot => ⟨hroot.1.mint _ _, hroot.2.addConstant constant trivial⟩) hcodes hsignatures
    ⟨hkeyed Globals.keyed_start, hnamed⟩
  obtain ⟨defined, hdefined, hlowered⟩ := exists_mem_of_forall₂ hall hfunction
  obtain ⟨globals, stages, hstages, hroot, hbinds⟩ := hlowered.exists_stages
  have hadmits : setting.Admits globals.root stages.prologue :=
    ⟨hroot, hbinds, fun _ _ => trivial, fun _ _ => trivial, trivial, rfl, List.forall_mem_nil _⟩
  have hsound := hstages.sound_code (hsignatures _ hdefined) hadmits False.elim _
    (stages.mem_code_of_isCall hcall rfl)
  exact ⟨(hsound.calls rfl).1.2, (hsound.calls rfl).2⟩

/-- The symbol that the name of a function of the module stands for. Support functions stand for
themselves. -/
def Program.symbolOf (module : Module) (program : Program) : String → String :=
  symbolIn ((module.functions.map FunctionDef.name).zip (program.functions.map FunctionCode.symbol))

/-- The calls in the code of a function go to the symbols of its body. -/
theorem forall₂_callees_of_lower (h : (lower module).result = .ok program) :
    List.Forall₂ (fun definition function =>
      function.callees = Block.callees (program.symbolOf module) definition.body)
      module.functions program.functions := by
  obtain ⟨table, bound, named, codes, last, hstructs, hbind, hcodes, rfl⟩ := lower_eq_ok_iff.mp h
  have htable : table.Grounded := grounded_of_eval_defineStructs hstructs
  obtain ⟨hdefinitions, hsignatures, -⟩ := eval_bindFunctions hbind
  have hsymbols : codes.map FunctionCode.symbol = bound.map BoundFunction.symbol := by
    simpa [Function.comp_def] using congrArg (List.map Prod.fst) (map_symbol_lowerFunctions hcodes)
  have hsymbol : Program.symbolOf module ⟨table.structs, last.globals.constants, codes, last.lines,
      Support.all.map Support.declaration⟩ = symbolIn (symbolsOf bound) := by
    rw [Program.symbolOf, hsymbols, ← hdefinitions, List.map_map, List.zip_map']
    rfl
  have hroot : named.root.Upholds (Contract.calling htable (symbolIn (symbolsOf bound))) :=
    Scope.upholds_named hbind rfl
  rw [hsymbol, ← hdefinitions, List.forall₂_map_left_iff]
  exact forall₂_callees hcodes hsignatures hroot

/-- The symbols of a program, be they of functions that it defines, of functions that it declares or
of constants, differ from each other, and it declares the support functions by their own names. Every
call names the symbol of a function that the program defines or declares, at the signature of that
function and with a number of arguments that it accepts. The calls in the code of a function are those
of its body: a call of a built-in goes to its support functions, which the program does not define, and
any other call goes to the symbol of the function that it names. -/
theorem calls_agree_of_lower (h : (lower module).result = .ok program) :
    (program.symbols.map Prod.fst ++ program.constants.map Prod.snd).Nodup ∧
    program.externals = Support.all.map Support.declaration ∧
    (∀ function ∈ program.functions, ∀ target callee signature arguments,
      .call target callee signature arguments ∈ function.instructions →
        (callee, signature) ∈ program.symbols ∧ signature.accepts arguments.length) ∧
    (∀ builtin : Builtin, ∀ support ∈ builtin.support, ∀ function ∈ program.functions,
      function.symbol ≠ support.name) ∧
    List.Forall₂ (fun definition function =>
      function.callees = Block.callees (program.symbolOf module) definition.body)
      module.functions program.functions := by
  have hnodup := nodup_symbols_of_lower h
  have hcalls := @accepts_of_call_mem module program h
  have hall := forall₂_callees_of_lower h
  obtain ⟨table, bound, named, codes, last, hstructs, hbind, hcodes, rfl⟩ := lower_eq_ok_iff.mp h
  refine ⟨hnodup, rfl, fun function hmem _ _ _ _ => hcalls hmem, ?_, hall⟩
  intro _ support _ function hmem heq
  have hsymbols := (List.nodup_append.mp hnodup).1
  rw [Program.symbols, List.map_append] at hsymbols
  refine (List.nodup_append.mp hsymbols).2.2 function.symbol ?_ support.name ?_ heq
  · exact List.mem_map_of_mem (List.mem_map_of_mem hmem)
  · exact List.mem_map_of_mem (List.mem_map_of_mem (by cases support <;> decide))

/-- A module whose functions are named like a support function and like built-ins. They call each
other, built-ins, and a support function that keeps its name. -/
def impersonating : Module where
  items := [
    .function {
      name := "main"
      parameters := []
      returns := none
      body := [
        .eval (.call "printf" [.text "%d", .call "malloc" [.integer 8, .boolean true]]),
        .bind "memory" none (.call "alloc" [.integer 8]),
        .eval (.call "pitch_ok" [.variableRef "memory"])] },
    .function {
      name := "malloc"
      parameters := [⟨"size", "i32"⟩, ⟨"zeroed", "bool"⟩]
      returns := some "i32"
      body := [.ret (some (.variableRef "size"))] },
    .function {
      name := "printf"
      parameters := []
      returns := none
      body := [.eval (.call "main" [])] }]

theorem calls_agree_impersonating : ∃ program,
    (lower impersonating).result = .ok program ∧
    program.functions.map FunctionCode.symbol = ["main", "malloc0", "printf0"] ∧
    program.functions.map FunctionCode.callees =
      [["malloc0", "printf", "malloc", "pitch_ok"], [], ["main"]] ∧
    List.Forall₂ (fun definition function =>
      function.callees = Block.callees (program.symbolOf impersonating) definition.body)
      impersonating.functions program.functions := by
  obtain ⟨program, h, hprogram⟩ := exists_program_of_any {} impersonating
    (P := fun program => program.functions.map FunctionCode.symbol = ["main", "malloc0", "printf0"] ∧
      program.functions.map FunctionCode.callees =
        [["malloc0", "printf", "malloc", "pitch_ok"], [], ["main"]]) (by decide +kernel)
  obtain ⟨hsymbols, hcallees⟩ := of_decide_eq_true hprogram
  obtain ⟨-, -, -, -, hall⟩ := calls_agree_of_lower h
  exact ⟨program, h, hsymbols, hcallees, hall⟩

end ThreeAddress
