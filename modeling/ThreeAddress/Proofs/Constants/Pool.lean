import ThreeAddress.Proofs.Constants.Interning
import ThreeAddress.Proofs.Emission.Lines
import ThreeAddress.Proofs.Tally.Function

/-!
# The constants of a program

Every text and every array literal of a module stands in the program as a constant, and the code takes
the address of that constant where the literal is evaluated. The constant is declared once. Its type and
its contents are those of the literal, and two literals have one constant exactly if they are alike.

## Main definitions

* `Module.literals`: the texts and arrays of a module, in the order they are evaluated.
* `Program.addressed`: the constants whose addresses the code takes, with the types it takes them at.
* `Literal.Holds`: memory of a type with the given contents that holds a literal.
* `Program.Declares`: a line that declares the constant of a literal.
* `Literal.Alike`: literals that have the same constant.
* `Literal.ledger`: what a body shows for the literals that were met.

## Main statements

* `pooled_lowerFunctions`: functions take the addresses of the constants of their literals, in order.
* `declared_of_lowerWith`: all of these constants are declared, and shared where literals are alike.
-/

namespace ThreeAddress

-- ════════════════════════
-- Literals
-- ════════════════════════

/-- A literal that stands in memory. -/
inductive Literal where
  | text (value : String)
  | array (elements : List Expr)

/-- The value of an element of an array literal. -/
def Expr.constant? : Expr → Option Int
  | .integer value => some value
  | .boolean value => some (if value then 1 else 0)
  | _ => none

namespace Literal

/-- The literals among the things that lowering meets. -/
def tally : Tally Literal where
  text value := [.text value]
  array elements := [.array elements]
  bind _ := []
  build _ := []

/-- How the constant of a literal is linked. -/
def linkage : Literal → String
  | text _ => "private unnamed_addr constant"
  | array _ => "private constant"

/-- Memory of the given type and with the given contents holds a literal: its bytes and a zero byte, or
its values in order. -/
inductive Holds : Literal → Ty → String → Prop
  | text {value quoted : String}
      (bytes : Declaration.unquoted quoted.toList = some (Constant.bytes value ++ [0])) :
      Holds (.text value) (.array .i8 (.sized ((Constant.bytes value).length + 1)))
        ("c\"" ++ quoted ++ "\"")
  | empty (width : Width) : Holds (.array []) (.array (.int width) (.sized 0)) "zeroinitializer"
  | array {elements : List Expr} {values : List Int} (width : Width) (nonempty : values ≠ [])
      (values_eq : elements.map Expr.constant? = values.map some) :
      Holds (.array elements) (.array (.int width) (.sized values.length))
        ("[" ++ commaSeparated (values.map fun value => width.spelling ++ " " ++ toString value) ++
          "]")

/-- Literals with their types have the same constant. Arrays of one width share theirs if they have the
same values, and a text shares its constant with no array. -/
def Alike : Literal × Ty → Literal × Ty → Prop
  | (.text value, _), (.text value', _) => value = value'
  | (.array elements, ty), (.array elements', ty') =>
    ty.elementWidth = ty'.elementWidth ∧
      elements.map Expr.constant? = elements'.map Expr.constant?
  | _, _ => False

end Literal

/-- The literals of a module, in the order they are evaluated. -/
def Module.literals (module : Module) : List Literal :=
  module.functions.flatMap fun definition => Block.tally Literal.tally definition.body

/-- The constant whose address an instruction takes, with the type it is taken at. -/
def Instr.addressed? : Instr → Option (Ty × String)
  | elementAddress _ base (.global symbol) _ _ => some (base, symbol)
  | _ => none

/-- The constants whose addresses a function takes, in order. -/
def FunctionCode.addressed (function : FunctionCode) : List (Ty × String) :=
  function.instructions.filterMap Instr.addressed?

/-- The constants whose addresses a program takes, in order. -/
def Program.addressed (program : Program) : List (Ty × String) :=
  program.functions.flatMap FunctionCode.addressed

/-- Exactly one line at file scope declares a symbol, at the given type and with contents that hold a
literal. -/
def Program.Declares (program : Program) (literal : Literal) (use : Ty × String) : Prop :=
  ∃ contents, literal.Holds use.1 contents ∧
    program.listing.head.toList.filter (declares use.2) =
      [globalText use.2 ++ " = " ++ literal.linkage ++ " " ++ use.1.memorySpelling ++ " " ++ contents]

/-- The constants whose addresses a body takes so far. -/
def Body.addressed (body : Body) : List (Ty × String) :=
  (body.entry ++ body.code).filterMap Instr.addressed?

-- ════════════════════════
-- The constant of a literal
-- ════════════════════════

namespace Literal

/-- The constants that a literal may stand for. The width of an array is not written in the literal. -/
inductive Denotes : Literal → Constant → Prop
  | text (value : String) : Denotes (.text value) (.text value)
  | array {elements : List Expr} {width : Width} {values : List Int}
      (values_eq : elements.map Expr.constant? = values.map some) :
      Denotes (.array elements) (.array width values)

theorem map_constant?_of_constantElements {width : Width} {elements : List Expr} {values : List Int}
    (h : constantElements width elements = .ok values) :
    elements.map Expr.constant? = values.map some := by
  have hall := forall₂_constantElements h
  clear h
  induction hall with
  | nil => rfl
  | @cons element value elements values helement _ ih =>
    rw [List.map_cons, List.map_cons, ih]
    congr 1
    cases element with
    | integer => exact congrArg some (Except.ok.inj helement)
    | boolean truth =>
      rw [constantElement] at helement
      split at helement
      · exact congrArg some (Except.ok.inj helement)
      · cases helement
    | _ => cases helement

theorem Denotes.linkage_eq {literal : Literal} {constant : Constant} (h : literal.Denotes constant) :
    literal.linkage = constant.linkage := by
  cases h <;> rfl

/-- The constant of a literal holds it. -/
theorem Denotes.holds {literal : Literal} {constant : Constant} (h : literal.Denotes constant) :
    literal.Holds constant.ty constant.contents := by
  cases h with
  | text value =>
    have hcontents : (Constant.text value).contents =
        "c\"" ++ (Declaration.quotedBytes (Constant.bytes value) ++ "\\00") ++ "\"" := by
      have hend : "\\00\"" = "\\00" ++ "\"" := by decide +kernel
      rw [Constant.contents, hend]
      simp only [String.append_assoc]
    rw [hcontents]
    exact .text (Declaration.unquoted_quotedBytes _)
  | @array elements width values hvalues =>
    by_cases hempty : values = []
    · subst hempty
      obtain rfl : elements = [] := List.map_eq_nil_iff.mp hvalues
      exact .empty width
    · have hcontents : (Constant.array width values).contents = "[" ++ commaSeparated
          (values.map fun value => width.spelling ++ " " ++ toString value) ++ "]" := by
        rw [Constant.contents, if_neg (by simpa using hempty)]
      rw [hcontents]
      exact .array width hempty hvalues

/-- Literals are alike exactly if they stand for the same constant. -/
theorem Denotes.alike_iff {literal literal' : Literal} {constant constant' : Constant}
    (h : literal.Denotes constant) (h' : literal'.Denotes constant') :
    Alike (literal, constant.ty) (literal', constant'.ty) ↔ constant = constant' := by
  cases h with
  | text value =>
    cases h' with
    | text value' => simp [Alike]
    | array => simp [Alike]
  | @array elements width values hvalues =>
    cases h' with
    | text => simp [Alike]
    | @array elements' width' values' hvalues' =>
      have hsame : values.map some = values'.map some ↔ values = values' :=
        (List.map_injective_iff.mpr fun _ _ => Option.some.inj).eq_iff
      rw [Alike, hvalues, hvalues', hsame, Constant.array.injEq]
      rfl

end Literal

-- ════════════════════════
-- Literals that were met
-- ════════════════════════

/-- The names of a module have a symbol for the constant of a literal, at the type of the constant. -/
def Globals.Provides (globals : Globals) (literal : Literal) (use : Ty × String) : Prop :=
  ∃ constant, literal.Denotes constant ∧ use.1 = constant.ty ∧
    globals.constants.lookup constant = some use.2

/-- Between the given names of a module, literals were met and the addresses of their constants were
taken. -/
structure Pooled (literals : List Literal) (globals last : Globals) (uses : List (Ty × String)) :
    Prop where
  grows : ∃ constants, last = globals.internAll constants ∧
    ∀ constant ∈ constants, ∃ literal ∈ literals, Literal.Denotes literal constant
  provides : List.Forall₂ last.Provides literals uses

namespace Pooled

variable {literals more : List Literal} {globals middle last : Globals}
  {uses others : List (Ty × String)}

theorem refl (globals : Globals) : Pooled [] globals globals [] :=
  ⟨⟨[], rfl, List.forall_mem_nil _⟩, .nil⟩

/-- Constants keep their symbols while more of them are met. -/
theorem append (h : Pooled literals globals middle uses) (h' : Pooled more middle last others) :
    Pooled (literals ++ more) globals last (uses ++ others) := by
  obtain ⟨constants, rfl, hconstants⟩ := h.grows
  obtain ⟨added, rfl, hadded⟩ := h'.grows
  refine ⟨⟨constants ++ added, (globals.internAll_append constants added).symm, ?_⟩, ?_⟩
  · refine List.forall_mem_append.mpr ⟨fun constant hmem => ?_, fun constant hmem => ?_⟩
    · obtain ⟨literal, hliteral, hdenotes⟩ := hconstants constant hmem
      exact ⟨literal, List.mem_append_left _ hliteral, hdenotes⟩
    · obtain ⟨literal, hliteral, hdenotes⟩ := hadded constant hmem
      exact ⟨literal, List.mem_append_right _ hliteral, hdenotes⟩
  · refine List.rel_append (h.provides.imp ?_) h'.provides
    rintro literal use ⟨constant, hdenotes, hty, hlookup⟩
    exact ⟨constant, hdenotes, hty, Globals.lookup_internAll hlookup added⟩

end Pooled

namespace Body

theorem addressed_append (body : Body) (instruction : Instr) :
    (body.append instruction).addressed = body.addressed ++ instruction.addressed?.toList := by
  rw [addressed, code_append, entry_append, ← List.append_assoc, List.filterMap_append]
  cases h : instruction.addressed? <;> simp [addressed, h]

theorem addressed_reserve (body : Body) (slot : Var) :
    (body.reserve slot).addressed = body.addressed := by
  have hnone : (Instr.alloca slot.register slot.ty).addressed? = none := rfl
  simp [addressed, List.filterMap_cons_none hnone]

/-- Nothing in front of a function body takes an address. -/
theorem addressed_begin (body : Body) (header : Line) (prologue : Prologue) :
    (body.begin header prologue).addressed = [] := by
  have hcode : ∀ instruction ∈ prologue.code, instruction.addressed? = none :=
    prologue.code_cases (fun _ _ => rfl) fun _ _ => rfl
  simpa [addressed] using hcode

end Body

namespace Lowering

theorem addressed_of_eval_emit {instruction : Instr} {body last : Body} {result : Unit}
    (h : (emit instruction).eval body = .ok (result, last)) :
    last.globals = body.globals ∧
      last.addressed = body.addressed ++ instruction.addressed?.toList := by
  rcases eval_emit_cases h with ⟨-, rfl⟩ | ⟨name, -, -, rfl⟩ | ⟨-, -, rfl⟩
  · exact ⟨rfl, body.addressed_append instruction⟩
  · refine ⟨rfl, ?_⟩
    rw [Body.addressed_append, Body.addressed_append]
    simp [Instr.addressed?]
  · refine ⟨rfl, ?_⟩
    rw [Body.addressed_append, Body.addressed_append]
    simp [Instr.addressed?, Body.addressed]

/-- Taking the address of a literal's constant. -/
theorem pooled_addressConstant {literal : Literal} {constant : Constant} {target : Var}
    {body last : Body} (hdenotes : literal.Denotes constant)
    (h : (addressConstant constant target).eval body = .ok ((), last)) :
    ∃ uses, Pooled [literal] body.globals last.globals uses ∧
      last.addressed = body.addressed ++ uses := by
  obtain ⟨symbol, middle, hintern, hemit⟩ := Pass.eval_bind_eq_ok_iff.mp h
  obtain ⟨found, hfound, hlookup⟩ := eval_intern_intern constant body
  obtain ⟨rfl, rfl⟩ := Prod.mk.inj (Except.ok.inj (hfound.symm.trans hintern))
  obtain ⟨hglobals, haddressed⟩ := addressed_of_eval_emit hemit
  refine ⟨[(constant.ty, found)], ⟨⟨[constant], hglobals, ?_⟩, ?_⟩, haddressed⟩
  · exact List.forall_mem_singleton.mpr ⟨literal, List.mem_singleton_self _, hdenotes⟩
  refine List.forall₂_cons.mpr ⟨⟨constant, hdenotes, rfl, ?_⟩, .nil⟩
  rw [hglobals]
  exact hlookup

end Lowering

theorem Instr.addressed?_of_isOrdinary {instruction : Instr} (h : instruction.isOrdinary) :
    instruction.addressed? = none := by
  cases instruction with
  | elementAddress target base address indices inbounds =>
    cases address with
    | global symbol => cases h
    | _ => rfl
  | _ => rfl

/-- What a body shows for the literals that were met: it takes the addresses of their constants. -/
def Literal.ledger : Ledger Literal.tally where
  Booked literals body last := ∃ uses, Pooled literals body.globals last.globals uses ∧
    last.addressed = body.addressed ++ uses
  literal _ := True
  refl body := ⟨[], .refl _, (List.append_nil _).symm⟩
  trans := by
    rintro literals more body middle last ⟨uses, hpooled, huses⟩ ⟨others, hpooled', hothers⟩
    refine ⟨uses ++ others, hpooled.append hpooled', ?_⟩
    rw [hothers, huses, List.append_assoc]
  mint body base ty := ⟨[], .refl _, (List.append_nil _).symm⟩
  append body instruction hdrawn := by
    refine ⟨[], .refl _, ?_⟩
    rw [Body.addressed_append, Instr.addressed?_of_isOrdinary hdrawn.ordinary]
    rfl
  member body _ _ _ _ _ := ⟨[], .refl _, Body.addressed_append body _⟩
  allocate body _ _ _ _ _ _ := by
    refine ⟨[], .refl _, ?_⟩
    rw [Body.addressed_append, Body.addressed_append]
    simp [Instr.addressed?, Instr.allocation]
  bind body name _ _ := ⟨[], .refl _, by rw [Body.addressed_reserve, List.append_nil]; rfl⟩
  build body struct _ _ := ⟨[], .refl _, by rw [Body.addressed_reserve, List.append_nil]⟩
  text h := Lowering.pooled_addressConstant (.text _) h
  array _ helements h :=
    Lowering.pooled_addressConstant (.array (map_constant?_of_constantElements helements)) h

variable {table : TypeTable} {draft final : Draft}

/-- A function takes the addresses of the constants of its literals. -/
theorem pooled_lowerFunction {function : BoundFunction} {code : FunctionCode}
    (h : (lowerFunction table function).eval draft = .ok (code, final)) :
    Pooled (Block.tally Literal.tally function.definition.body) draft.globals final.globals
      code.addressed := by
  obtain ⟨prologue, body, ⟨uses, hpooled, huses⟩, hinstructions, hglobals⟩ :=
    booked_lowerFunction Literal.ledger h fun _ _ => trivial
  rw [Body.addressed_begin, List.nil_append] at huses
  rw [Body.globals_begin, ← hglobals] at hpooled
  rw [FunctionCode.addressed, hinstructions, ← Body.addressed, huses]
  exact hpooled

/-- Functions take the addresses of the constants of their literals, one function after the other. -/
theorem pooled_lowerFunctions {functions : List BoundFunction} {codes : List FunctionCode}
    (h : (lowerFunctions table functions).eval draft = .ok (codes, final)) :
    Pooled (functions.flatMap fun function => Block.tally Literal.tally function.definition.body)
      draft.globals final.globals (codes.flatMap FunctionCode.addressed) := by
  induction functions generalizing draft codes with
  | nil =>
    obtain ⟨rfl, rfl⟩ := Pass.eval_pure_eq_ok_iff.mp h
    exact .refl _
  | cons function rest ih =>
    obtain ⟨code, middle, codes, hfirst, hrest, rfl⟩ := eval_lowerFunctions_cons.mp h
    exact (pooled_lowerFunction hfirst).append (ih hrest)

-- ════════════════════════
-- Programs
-- ════════════════════════

variable {prelude : Scope} {module : Module} {program : Program}

/-- The literals of a module have constants in its program, and no constant is there twice. -/
theorem provides_of_lowerWith (h : (lowerWith prelude module).result = .ok program) :
    (program.constants.map Prod.fst).Nodup ∧
    List.Forall₂ (fun literal use => ∃ constant, Literal.Denotes literal constant ∧
      use.1 = constant.ty ∧ (constant, use.2) ∈ program.constants) module.literals
        program.addressed := by
  obtain ⟨table, bound, named, last, hdefinitions, -, hcodes, hnone, hlast⟩ :=
    eval_lowerFunctions_of_lowerWith h
  have hpooled := pooled_lowerFunctions hcodes
  have hnodup : (program.constants.map Prod.fst).Nodup := by
    obtain ⟨constants, hglobals, -⟩ := hpooled.grows
    rw [hlast, hglobals]
    exact Globals.nodup_known_internAll (by simp [Globals.known, hnone]) constants
  refine ⟨hnodup, ?_⟩
  rw [Module.literals, ← hdefinitions, List.flatMap_map]
  refine hpooled.provides.imp ?_
  rintro literal use ⟨constant, hdenotes, hty, hlookup⟩
  rw [← hlast] at hlookup
  exact ⟨constant, hdenotes, hty, (lookup_eq_some_iff_mem hnodup).mp hlookup⟩

/-- Every constant of a program is that of a literal. -/
theorem exists_literal_of_mem_constants (h : (lowerWith prelude module).result = .ok program)
    {constant : Constant} (hmem : constant ∈ program.constants.map Prod.fst) :
    ∃ literal ∈ module.literals, Literal.Denotes literal constant := by
  obtain ⟨table, bound, named, last, hdefinitions, -, hcodes, hnone, hlast⟩ :=
    eval_lowerFunctions_of_lowerWith h
  obtain ⟨constants, hglobals, hdenoted⟩ := (pooled_lowerFunctions hcodes).grows
  rw [hlast, hglobals, ← Globals.known, Globals.mem_known_internAll] at hmem
  obtain ⟨literal, hliteral, hdenotes⟩ :=
    hdenoted constant (hmem.resolve_left (by simp [Globals.known, hnone]))
  rw [Module.literals, ← hdefinitions, List.flatMap_map]
  exact ⟨literal, hliteral, hdenotes⟩

/-- A program takes the address of one constant for each literal of its module, in the order of
evaluation, and of no others. Whatever the prelude, each of them is declared by exactly one line at file
scope, at the type that its address is taken at and with the contents of the literal, and two literals
have the same constant exactly if they are alike. -/
theorem declared_of_lowerWith (h : (lowerWith prelude module).result = .ok program) :
    List.Forall₂ program.Declares module.literals program.addressed ∧
    ∀ first ∈ module.literals.zip program.addressed,
      ∀ second ∈ module.literals.zip program.addressed,
        first.2.2 = second.2.2 ↔
          Literal.Alike (first.1, first.2.1) (second.1, second.2.1) := by
  obtain ⟨hnodup, hprovides⟩ := provides_of_lowerWith h
  have hlegible := legible_of_lowerWith h
  constructor
  · refine hprovides.imp ?_
    rintro literal ⟨base, symbol⟩ ⟨constant, hdenotes, rfl, hmem⟩
    refine ⟨constant.contents, hdenotes.holds, ?_⟩
    rw [hlegible.filter_declares hmem, Program.constantLine, Constant.line_declaration,
      hdenotes.linkage_eq]
  · rintro ⟨literal, base, symbol⟩ hfirst ⟨literal', base', symbol'⟩ hsecond
    obtain ⟨constant, hdenotes, rfl, hmem⟩ := List.forall₂_zip hprovides hfirst
    obtain ⟨constant', hdenotes', rfl, hmem'⟩ := List.forall₂_zip hprovides hsecond
    rw [hdenotes.alike_iff hdenotes']
    constructor
    · intro hsymbol
      exact (Prod.mk.inj (List.inj_on_of_nodup_map hlegible.nodup hmem hmem' hsymbol)).1
    · intro hconstant
      exact (Prod.mk.inj (List.inj_on_of_nodup_map hnodup hmem hmem' hconstant)).2

/-- A module with one text in two functions, a text that spells an array, and arrays of one list of
values at three widths. -/
def repeating : Module where
  items := [
    .function {
      name := "first"
      parameters := []
      returns := none
      body := [
        .bind "s" none (.text "π\"\n"),
        .bind "a" (some "[i8; 2]") (.array [.integer 1, .integer 0]),
        .bind "b" (some "[bool; 2]") (.array [.boolean true, .integer 0]),
        .bind "c" none (.array [])] },
    .function {
      name := "second"
      parameters := []
      returns := none
      body := [
        .bind "d" none (.array [.integer 1, .integer 0]),
        .loop (.boolean false) [
          .eval (.call "printf" [.text "π\"\n", .text "[1, 0]"]),
          .bind "e" (some "[bool; 2]") (.array [.integer 1, .boolean false])]] }]

/-- A prelude that has a function for the name of a constant. -/
def occupied : Scope := (Scope.bind {} "str" (.function ⟨none, [], false⟩)).2

/-- The constants that the code of `repeating` takes the addresses of. -/
def repeatedConstants : List (Ty × String) := [
  (.array .i8 (.sized 5), "str0"),
  (.array .i8 (.sized 2), "arrconst"),
  (.array .bool (.sized 2), "arrconst0"),
  (.array .i32 (.sized 0), "arrconst1"),
  (.array .i32 (.sized 2), "arrconst2"),
  (.array .i8 (.sized 5), "str0"),
  (.array .i8 (.sized 7), "str1"),
  (.array .bool (.sized 2), "arrconst0")]

theorem declared_repeating : ∃ program,
    (lowerWith occupied repeating).result = .ok program ∧
    program.addressed = repeatedConstants ∧
    List.Forall₂ program.Declares repeating.literals repeatedConstants ∧
    ∀ first ∈ repeating.literals.zip repeatedConstants,
      ∀ second ∈ repeating.literals.zip repeatedConstants,
        first.2.2 = second.2.2 ↔
          Literal.Alike (first.1, first.2.1) (second.1, second.2.1) := by
  obtain ⟨program, h, hprogram⟩ := exists_program_of_any occupied repeating
    (P := fun program => program.addressed = repeatedConstants) (by decide +kernel)
  have haddressed := of_decide_eq_true hprogram
  have hdeclared := declared_of_lowerWith h
  rw [haddressed] at hdeclared
  exact ⟨program, h, haddressed, hdeclared⟩

end ThreeAddress
