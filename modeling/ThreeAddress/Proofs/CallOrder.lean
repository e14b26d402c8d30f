import ThreeAddress.Proofs.Calls
import ThreeAddress.Proofs.Emission.Lines
import ThreeAddress.Proofs.Requests.Function

/-!
# The order of calls

Calls are neither lost nor repeated, and they are not moved. The calls in the code of a function fall into
groups, one for each call in its body and in the order in which the body is evaluated: operands and
arguments from left to right and before the call they are for, members of struct values in the order they
are given, the target of an assignment before its value, and statements as they are written. The lines of a
function show the same calls, and they can be read off these lines unless names stand in the way.

## Main definitions

* `Request.callees`: the symbols that a request leads to.
* `IsCallLine`: the lines of the calls of a symbol.
* `calleeInLine?`: the symbol that a line calls.
* `Instr.isReadable`: the instructions whose names do not stand in the way.

## Main statements

* `Block.callees_eq_flatMap`: the symbols that the calls of a block go to, request by request.
* `Instr.calleeInLine?_shown`: a line is read as a call exactly if it is one.
* `calls_in_order_of_lower`: the calls of every function of a lowered module, in order.
-/

namespace ThreeAddress

/-- The symbols that a request leads to. -/
def Request.callees (symbol : String → String) : Request → List String
  | call callee _ => calleesOf symbol callee
  | bind _ _ | build _ => []

-- ════════════════════════
-- Requests and callees
-- ════════════════════════

section Sources

variable (symbol : String → String)

mutual

theorem Expr.callees_eq_flatMap : ∀ expression : Expr,
    expression.callees symbol = expression.requests.flatMap (Request.callees symbol)
  | .binary _ lhs rhs => by
    rw [Expr.callees, Expr.requests, List.flatMap_append, lhs.callees_eq_flatMap,
      rhs.callees_eq_flatMap]
  | .call callee arguments => by
    rw [Expr.callees, Expr.requests, List.flatMap_append, Expr.calleesAll_eq_flatMap arguments,
      List.flatMap_singleton]
    rfl
  | .build struct fields => by
    rw [Expr.callees, Expr.requests, List.flatMap_cons, FieldValue.calleesAll_eq_flatMap fields]
    rfl
  | .array elements => by
    rw [Expr.callees, Expr.requests, Expr.calleesAll_eq_flatMap elements]
  | .element _ index => by
    rw [Expr.callees, Expr.requests, index.callees_eq_flatMap]
  | .integer _ | .boolean _ | .text _ | .variableRef _ | .address _ | .deref _ _ | .field _ _ => by
    rw [Expr.callees, Expr.requests, List.flatMap_nil]

theorem Expr.calleesAll_eq_flatMap : ∀ expressions : List Expr,
    Expr.calleesAll symbol expressions =
      (Expr.requestsAll expressions).flatMap (Request.callees symbol)
  | [] => by rw [Expr.calleesAll, Expr.requestsAll, List.flatMap_nil]
  | expression :: rest => by
    rw [Expr.calleesAll, Expr.requestsAll, List.flatMap_append, expression.callees_eq_flatMap,
      Expr.calleesAll_eq_flatMap rest]

theorem FieldValue.calleesAll_eq_flatMap : ∀ fields : List FieldValue,
    FieldValue.calleesAll symbol fields =
      (FieldValue.requestsAll fields).flatMap (Request.callees symbol)
  | [] => by rw [FieldValue.calleesAll, FieldValue.requestsAll, List.flatMap_nil]
  | ⟨_, value⟩ :: rest => by
    rw [FieldValue.calleesAll, FieldValue.requestsAll, List.flatMap_append, value.callees_eq_flatMap,
      FieldValue.calleesAll_eq_flatMap rest]

end

mutual

theorem Stmt.callees_eq_flatMap : ∀ statement : Stmt,
    statement.callees symbol = statement.requests.flatMap (Request.callees symbol)
  | .bind name text? value => by
    rw [Stmt.callees, Stmt.requests, List.flatMap_append, value.callees_eq_flatMap,
      List.flatMap_singleton, Request.callees, List.append_nil]
  | .assign target value => by
    rw [Stmt.callees, Stmt.requests, List.flatMap_append, target.callees_eq_flatMap,
      value.callees_eq_flatMap]
  | .eval expression => by
    rw [Stmt.callees, Stmt.requests, expression.callees_eq_flatMap]
  | .ret none => by
    rw [Stmt.callees, Stmt.requests, Option.toList_none, List.flatMap_nil, List.flatMap_nil,
      List.flatMap_nil]
  | .ret (some value) => by
    rw [Stmt.callees, Stmt.requests, Option.toList_some, List.flatMap_singleton,
      List.flatMap_singleton, value.callees_eq_flatMap]
  | .ite condition positive negative => by
    rw [Stmt.callees, Stmt.requests, List.flatMap_append, List.flatMap_append,
      condition.callees_eq_flatMap, Block.callees_eq_flatMap positive,
      Block.callees_eq_flatMap negative]
  | .loop condition body => by
    rw [Stmt.callees, Stmt.requests, List.flatMap_append, condition.callees_eq_flatMap,
      Block.callees_eq_flatMap body]
  | .directive _ => by rw [Stmt.callees, Stmt.requests, List.flatMap_nil]

/-- The symbols that the calls of a block go to, request by request. -/
theorem Block.callees_eq_flatMap : ∀ statements : List Stmt,
    Block.callees symbol statements =
      (Block.requests statements).flatMap (Request.callees symbol)
  | [] => by rw [Block.callees, Block.requests, List.flatMap_nil]
  | statement :: rest => by
    rw [Block.callees, Block.requests, List.flatMap_append, statement.callees_eq_flatMap,
      Block.callees_eq_flatMap rest]

end

/-- Requests for stack slots lead to no symbols. -/
theorem Request.flatMap_callees_filter (requests : List Request) :
    (requests.filter fun request => !request.isSlot).flatMap (Request.callees symbol) =
      requests.flatMap (Request.callees symbol) := by
  induction requests with
  | nil => rfl
  | cons request rest ih =>
    cases request with
    | call callee arguments =>
      rw [List.filter_cons_of_pos rfl, List.flatMap_cons, List.flatMap_cons, ih]
    | bind | build =>
      rw [List.filter_cons_of_neg (by simp [isSlot]), List.flatMap_cons, ih]
      rfl

end Sources

-- ════════════════════════
-- Code and callees
-- ════════════════════════

theorem Support.filterMap_callee? {functions : List Support} {calls : List Instr}
    (h : List.Forall₂ Support.IsCalled functions calls) :
    calls.filterMap Instr.callee? = functions.map Support.name := by
  induction h with
  | nil => rfl
  | cons head _ ih =>
    obtain ⟨target, arguments, rfl, -⟩ := head
    simp [Instr.callee?, ih]

/-- A request leads to as many symbols as there are calls for it. -/
theorem Request.Called.length_callees {body : Body} {request : Request} {calls : List Instr}
    (h : request.Called body calls) (symbol : String → String) :
    (calls.filterMap Instr.callee?).length = (request.callees symbol).length := by
  cases h with
  | builtin found called =>
    rw [Support.filterMap_callee? called, Request.callees, calleesOf, found]
  | function missing =>
    rw [Request.callees, calleesOf, missing]
    rfl

theorem filterMap_callee?_filter (code : List Instr) :
    (code.filter Instr.isCall).filterMap Instr.callee? = code.filterMap Instr.callee? := by
  rw [List.filterMap_filter]
  congr 1
  funext instruction
  cases instruction <;> rfl

/-- If the calls in the code of a function go to the symbols of its body, they fall into groups that belong
to the calls in its body. -/
theorem Stages.Of.exists_groups {unchecked : Prop} {function : FunctionCode}
    {stages : Stages unchecked function} {globals : Globals} {table : TypeTable}
    {definition : FunctionDef} {signature : Signature} {symbol : String → String}
    (h : stages.Of globals table definition signature)
    (hcallees : function.callees = Block.callees symbol definition.body) :
    ∃ groups : List (List Instr), function.instructions.filter Instr.isCall = groups.flatten ∧
      List.Forall₂ (fun request group => request.callees symbol = group.filterMap Instr.callee?)
        ((Block.requests definition.body).filter fun request => !request.isSlot) groups := by
  obtain ⟨groups, hcalls, hcalled⟩ := h.exists_called
  refine ⟨groups, hcalls, ?_⟩
  generalize hrequests : (Block.requests definition.body).filter _ = requests at hcalled ⊢
  -- Both sides have the same symbols in a row, and as many for each request.
  have hflatten : (requests.map (Request.callees symbol)).flatten =
      (groups.map (List.filterMap Instr.callee?)).flatten := by
    rw [← List.filterMap_flatten, ← hcalls, filterMap_callee?_filter, ← List.flatMap_def, ← hrequests,
      Request.flatMap_callees_filter, ← Block.callees_eq_flatMap]
    exact hcallees.symm
  have hlengths : (requests.map (Request.callees symbol)).map List.length =
      (groups.map (List.filterMap Instr.callee?)).map List.length := by
    rw [List.map_map, List.map_map, ← List.forall₂_eq_eq_eq, List.forall₂_map_left_iff,
      List.forall₂_map_right_iff]
    exact hcalled.imp fun _ _ hgroup => (hgroup.length_callees symbol).symm
  have heq := List.eq_iff_flatten_eq.mpr ⟨hflatten, hlengths⟩
  rwa [← List.forall₂_eq_eq_eq, List.forall₂_map_left_iff, List.forall₂_map_right_iff] at heq

-- ════════════════════════
-- Lines and callees
-- ════════════════════════

/-- A line that calls a symbol. The result of the call is written to a register, or there is none. -/
def IsCallLine (symbol line : String) : Prop :=
  ∃ target returns parameters arguments : String, (target = "" ∨ ∃ name, target = "%" ++ name ++ " = ") ∧
    line = "    " ++ target ++ "call " ++ returns ++ " " ++ parameters ++ " @" ++ symbol ++ "(" ++
      arguments ++ ")"

/-- The lines of the calls in a function. -/
def FunctionCode.callLines (function : FunctionCode) : List String :=
  (function.instructions.filter Instr.isCall).map fun instruction => (Line.instr instruction).shown

/-- What is computed in the text of an instruction, which may begin with a register that is written. -/
def computationIn (text : List Char) : List Char :=
  if text.head? = some '%' then (text.dropWhile (· ≠ ' ')).drop " = ".length else text

/-- The symbol that is called in a line of a function. -/
def calleeInLine? (line : String) : Option String :=
  if Listing.indentStep.toList.isPrefixOf line.toList then
    let computation := computationIn (line.toList.drop Listing.indentStep.length)
    if "call ".toList.isPrefixOf computation then
      some (String.ofList (((computation.dropWhile (· ≠ '@')).drop 1).takeWhile (· ≠ '(')))
    else
      none
  else
    none

/-- Whether the names in an instruction end where they should: registers and labels at the first blank, the
types of a signature in front of the first `@`, and a symbol that is called at the first parenthesis. -/
def Instr.isReadable (instruction : Instr) : Bool :=
  instruction.defined?.all (fun name => !name.toList.contains ' ') &&
    match instruction with
    | call _ callee signature _ =>
      !callee.toList.contains '(' && !signature.returnSpelling.toList.contains '@' &&
        !signature.parameterList.toList.contains '@'
    | _ => true

/-- Whether the instructions of a function are readable. -/
def FunctionCode.isReadable (function : FunctionCode) : Bool :=
  function.instructions.all Instr.isReadable

theorem FunctionCode.callLines_sublist (function : FunctionCode) :
    function.callLines.Sublist function.lines := by
  have hcalls : function.callLines.Sublist
      (function.instructions.map fun instruction => (Line.instr instruction).shown) :=
    List.filter_sublist.map _
  exact (hcalls.trans (List.sublist_append_left _ [functionEnd])).cons _

theorem Instr.isCallLine_shown (target : Option String) (callee : String) (signature : Signature)
    (arguments : List Value) :
    IsCallLine callee (Line.instr (.call target callee signature arguments)).shown := by
  have hindent : (Line.instr (.call target callee signature arguments)).shown =
      "    " ++ (Instr.call target callee signature arguments).text := rfl
  refine ⟨target.elim "" fun name => "%" ++ name ++ " = ", signature.returnSpelling,
    signature.parameterList, commaSeparated (arguments.map Value.text), ?_, ?_⟩
  · cases target with
    | none => exact Or.inl rfl
    | some name => exact Or.inr ⟨name, rfl⟩
  · have hsymbol : " @" = " " ++ "@" := by decide +kernel
    rw [hindent, hsymbol]
    cases target with
    | none => simp only [Instr.text, Option.elim_none, globalText, String.append_assoc, String.empty_append]
    | some name =>
      simp only [Instr.text, Option.elim_some, assignText, registerText, globalText, String.append_assoc]

/-- The calls in a function have lines that name their symbols. -/
theorem FunctionCode.forall₂_isCallLine (function : FunctionCode) :
    List.Forall₂ IsCallLine function.callees function.callLines := by
  rw [callees, callLines]
  induction function.instructions with
  | nil => exact .nil
  | cons instruction rest ih =>
    cases instruction with
    | call target callee signature arguments =>
      exact .cons (Instr.isCallLine_shown target callee signature arguments) ih
    | _ => exact ih

/-- The line of an instruction is read behind its indentation. -/
theorem calleeInLine?_indented (text : String) :
    calleeInLine? ("    " ++ text) =
      if "call ".toList.isPrefixOf (computationIn text.toList) then
        some (String.ofList ((((computationIn text.toList).dropWhile (· ≠ '@')).drop 1).takeWhile
          (· ≠ '(')))
      else none := by
  have hindented : ("    " ++ text).toList = Listing.indentStep.toList ++ text.toList :=
    String.toList_append
  have hprefix : Listing.indentStep.toList.isPrefixOf (Listing.indentStep.toList ++ text.toList) :=
    List.isPrefixOf_iff_prefix.mpr (List.prefix_append _ _)
  rw [calleeInLine?, hindented, if_pos hprefix]
  rfl

theorem computationIn_assignText {target : String} (h : ' ' ∉ target.toList) (text : String) :
    computationIn (assignText target text).toList = text.toList := by
  have htext : (assignText target text).toList =
      ('%' :: target.toList) ++ ' ' :: '=' :: ' ' :: text.toList := by
    simp [assignText, registerText, String.toList_append]
  have hname : ' ' ∉ '%' :: target.toList := by simpa using h
  have hhead : ('%' :: target.toList ++ ' ' :: '=' :: ' ' :: text.toList).head? = some '%' := rfl
  rw [computationIn, htext, if_pos hhead, dropWhile_ne_append hname]
  rfl

/-- The symbol in a call is read between the first `@` and the first parenthesis behind it. -/
theorem calleeInLine?_application {text callee : String} {signature : Signature} (arguments : String)
    (htext : computationIn text.toList = ("call " ++ signature.returnSpelling ++ " " ++
      signature.parameterList ++ " " ++ globalText callee ++ "(" ++ arguments ++ ")").toList)
    (hcallee : '(' ∉ callee.toList) (hreturns : '@' ∉ signature.returnSpelling.toList)
    (hparameters : '@' ∉ signature.parameterList.toList) :
    calleeInLine? ("    " ++ text) = some callee := by
  have hcomputation : computationIn text.toList = ("call ".toList ++ signature.returnSpelling.toList ++
      " ".toList ++ signature.parameterList.toList ++ " ".toList) ++
        '@' :: (callee.toList ++ '(' :: (arguments.toList ++ ")".toList)) := by
    rw [htext]
    simp [globalText, String.toList_append]
  have hapart : '@' ∉ "call ".toList ++ signature.returnSpelling.toList ++ " ".toList ++
      signature.parameterList.toList ++ " ".toList := by
    simp [hreturns, hparameters]
  have hcall : "call ".toList.isPrefixOf (computationIn text.toList) := by
    rw [hcomputation, List.isPrefixOf_iff_prefix]
    simp only [List.append_assoc]
    exact List.prefix_append _ _
  rw [calleeInLine?_indented, if_pos hcall, hcomputation, dropWhile_ne_append hapart, List.drop_one,
    List.tail_cons, takeWhile_ne_append hcallee, String.ofList_toList]

/-- A line whose computation begins otherwise calls nothing. -/
theorem calleeInLine?_eq_none {text : String} (h : (computationIn text.toList).head? ≠ some 'c') :
    calleeInLine? ("    " ++ text) = none := by
  rw [calleeInLine?_indented, if_neg]
  intro hcall
  obtain ⟨rest, hrest⟩ := List.isPrefixOf_iff_prefix.mp hcall
  rw [← hrest] at h
  exact h rfl

theorem calleeInLine?_assignText {target text : String} (htarget : ' ' ∉ target.toList)
    (h : text.toList.head? ≠ some 'c') : calleeInLine? ("    " ++ assignText target text) = none := by
  refine calleeInLine?_eq_none ?_
  rwa [computationIn_assignText htarget]

theorem calleeInLine?_of_head {text : String} (hregister : text.toList.head? ≠ some '%')
    (h : text.toList.head? ≠ some 'c') : calleeInLine? ("    " ++ text) = none := by
  refine calleeInLine?_eq_none ?_
  rwa [computationIn, if_neg hregister]

/-- A line is read as a call exactly if it is one. -/
theorem Instr.calleeInLine?_shown {instruction : Instr} (h : instruction.isReadable) :
    calleeInLine? (Line.instr instruction).shown = instruction.callee? := by
  obtain ⟨hname, hcall⟩ := Bool.and_eq_true_iff.mp h
  have hspaceless : ∀ name ∈ instruction.defined?, ' ' ∉ name.toList := by
    simpa [Option.all_eq_true] using hname
  cases instruction with
  | label name =>
    have hblank : ¬Listing.indentStep.toList.isPrefixOf (name ++ ":").toList := by
      rw [List.isPrefixOf_iff_prefix, String.toList_append]
      rintro ⟨rest, hrest⟩
      have hmem : ' ' ∈ name.toList ++ ":".toList := hrest ▸ List.mem_append_left rest (by decide)
      simp [hspaceless name rfl] at hmem
    show calleeInLine? ("" ++ (name ++ ":")) = none
    rw [String.empty_append, calleeInLine?, if_neg hblank]
  | alloca target | load target | elementAddress target | compare _ target | extractMember target =>
    exact calleeInLine?_assignText (hspaceless target rfl) (by simp)
  | arithmetic opcode target =>
    exact calleeInLine?_assignText (hspaceless target rfl) (by cases opcode <;> simp [Opcode.text])
  | extend extension target =>
    exact calleeInLine?_assignText (hspaceless target rfl) (by cases extension <;> simp [Extension.text])
  | store | branch | branchIf =>
    exact calleeInLine?_of_head (by simp [Line.text, text]) (by simp [Line.text, text])
  | ret value =>
    cases value <;>
      exact calleeInLine?_of_head (by simp [Line.text, text]) (by simp [Line.text, text])
  | call target callee signature arguments =>
    obtain ⟨⟨hcallee, hreturns⟩, hparameters⟩ :
        ('(' ∉ callee.toList ∧ '@' ∉ signature.returnSpelling.toList) ∧
          '@' ∉ signature.parameterList.toList := by
      simpa using hcall
    refine calleeInLine?_application (commaSeparated (arguments.map Value.text)) ?_ hcallee hreturns
      hparameters
    cases target with
    | none =>
      have hhead : (Instr.call none callee signature arguments).text.toList.head? ≠ some '%' := by
        simp [text]
      exact if_neg hhead
    | some target => exact computationIn_assignText (hspaceless target rfl) _

/-- The calls of a function can be read from its lines. -/
theorem FunctionCode.filterMap_calleeInLine? {function : FunctionCode} (h : function.isReadable) :
    function.lines.filterMap calleeInLine? = function.callees := by
  have hheader : calleeInLine?
      (functionHeader function.symbol function.signature function.parameters) = none := by
    rw [calleeInLine?, if_neg]
    simp [functionHeader, Listing.indentStep]
  have hend : calleeInLine? functionEnd = none := by decide +kernel
  have hinstructions : (function.instructions.map fun instruction =>
      (Line.instr instruction).shown).filterMap calleeInLine? = function.callees := by
    rw [List.filterMap_map, callees]
    exact List.filterMap_congr fun instruction hmem =>
      Instr.calleeInLine?_shown (List.all_eq_true.mp h instruction hmem)
  rw [lines, List.cons_append, List.filterMap_cons_none hheader, List.filterMap_append,
    List.filterMap_cons_none hend, List.filterMap_nil, List.append_nil]
  exact hinstructions

-- ════════════════════════
-- Programs
-- ════════════════════════

variable {module : Module} {program : Program}

/-- Calls are kept and stay in order. The text of a lowered program has the lines of its functions between
its declarations. The symbols that the calls in a function name are those that its body calls, in the order
in which the body is evaluated, and so are those that the lines of its calls show. They are also those that
are read from all its lines, as long as its names can be told apart there. What is more, the calls fall into
groups, one after the other, that belong to the calls in the body: a call of a built-in has those of its
support functions, and any other call has one of the function that it names. -/
theorem calls_in_order_of_lower (h : (lower module).result = .ok program) :
    program.listing.body.toList = program.functions.flatMap FunctionCode.lines ∧
    List.Forall₂ (fun definition function =>
      function.callees = Block.callees (program.symbolOf module) definition.body ∧
      function.callLines.Sublist function.lines ∧
      List.Forall₂ IsCallLine (Block.callees (program.symbolOf module) definition.body)
        function.callLines ∧
      (function.isReadable → function.lines.filterMap calleeInLine? =
        Block.callees (program.symbolOf module) definition.body) ∧
      ∃ groups : List (List Instr), function.instructions.filter Instr.isCall = groups.flatten ∧
        List.Forall₂ (fun request group =>
            request.callees (program.symbolOf module) = group.filterMap Instr.callee?)
          ((Block.requests definition.body).filter fun request => !request.isSlot) groups)
      module.functions program.functions := by
  refine ⟨body_listing_lowerWith h, ?_⟩
  obtain ⟨table, hlowered⟩ := forall₂_lowerWith h
  refine List.forall₂_iff_get.mpr ⟨hlowered.length_eq, fun position hlt hlt' => ?_⟩
  have hcallees := (forall₂_callees_of_lower h).get hlt hlt'
  obtain ⟨globals, symbol, signature, last, hsignature, -, hrun⟩ := hlowered.get hlt hlt'
  obtain ⟨stages, hstages, -⟩ := Lowering.exists_stages hrun
    (TypeTable.length_denoteSignature hsignature) (Or.inl trivial)
  have hlines := (program.functions.get ⟨position, hlt'⟩).forall₂_isCallLine
  refine ⟨hcallees, FunctionCode.callLines_sublist _, hcallees ▸ hlines, fun hreadable => ?_,
    hstages.exists_groups hcallees⟩
  rw [FunctionCode.filterMap_calleeInLine? hreadable]
  exact hcallees

/-- A function with calls in all places, also behind its return. -/
def touring : FunctionDef where
  name := "touring"
  parameters := [⟨"cells", "[i32; 4]"⟩]
  returns := none
  body := [
    .assign (.element "cells" (.call "left" [.integer 0]))
      (.binary .add (.call "right" [.integer 1])
        (.call "Unwrap" [.call "Ok" [.call "left" [.integer 2]]])),
    .loop (.binary .less (.call "left" [.integer 3]) (.call "right" [.integer 4])) [
      .ite (.binary .equal (.call "right" [.integer 5]) (.integer 6))
        [.ret none]
        [.eval (.call "printf" [.text "%d %d", .call "right" [.integer 7], .call "left" [.integer 8]])],
      .bind "pair" none (.build "Pair" [
        ⟨"second", .call "right" [.call "left" [.integer 9]]⟩,
        ⟨"first", .call "left" [.integer 10]⟩])],
    .ret none,
    .eval (.call "realloc" [.call "alloc" [.integer 8], .integer 16])]

def touringModule : Module where
  items := [
    .struct ⟨"Pair", [⟨"first", "i32"⟩, ⟨"second", "i32"⟩]⟩,
    .function touring,
    .function ⟨"left", [⟨"n", "i32"⟩], some "i32", [.ret (some (.variableRef "n"))]⟩,
    .function ⟨"right", [⟨"n", "i32"⟩], some "i32", [.ret (some (.call "left" [.variableRef "n"]))]⟩]

theorem calls_in_order_touring : ∃ program, (lower touringModule).result = .ok program ∧
    program.functions.map (fun function => function.lines.filterMap calleeInLine?) = [
      ["left", "right", "left", "malloc", "pitch_ok", "left", "right", "right", "right", "left", "printf",
        "left", "right", "left", "malloc", "realloc"], [], ["left"]] ∧
    List.Forall₂ (fun definition function => function.lines.filterMap calleeInLine? =
        Block.callees (program.symbolOf touringModule) definition.body)
      touringModule.functions program.functions := by
  obtain ⟨program, h, hcallees⟩ := exists_program_of_any {} touringModule
    (P := fun program => program.functions.all FunctionCode.isReadable &&
      program.functions.map FunctionCode.callees = [
        ["left", "right", "left", "malloc", "pitch_ok", "left", "right", "right", "right", "left", "printf",
          "left", "right", "left", "malloc", "realloc"], [], ["left"]]) (by decide +kernel)
  obtain ⟨hreadable, hcallees⟩ := Bool.and_eq_true_iff.mp hcallees
  have hreadable := List.all_eq_true.mp hreadable
  refine ⟨program, h, ?_, ?_⟩
  · rw [← of_decide_eq_true hcallees]
    exact List.map_congr_left fun function hmem =>
      FunctionCode.filterMap_calleeInLine? (hreadable function hmem)
  · obtain ⟨-, hfunctions⟩ := calls_in_order_of_lower h
    refine List.forall₂_iff_get.mpr ⟨hfunctions.length_eq, fun position hlt hlt' => ?_⟩
    exact (hfunctions.get hlt hlt').2.2.2.1 (hreadable _ (List.getElem_mem hlt'))

end ThreeAddress
