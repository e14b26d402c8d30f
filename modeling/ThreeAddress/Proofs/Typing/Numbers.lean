import Mathlib.Algebra.Group.Int.Defs
import Mathlib.Algebra.Group.Nat.Defs
import ThreeAddress.Proofs.Constants.Pool
import ThreeAddress.Proofs.Emission.Symbols
import ThreeAddress.Proofs.Tally.Record
import ThreeAddress.Proofs.Typing.Table

/-!
# Numbers in a program

A number in the code or in a constant is written at an integer type. Literals of the source are written
as they are, so a literal that is too large for its type stays so. Apart from them, all numbers fit their
types, except for a size of a struct that is passed to the allocator and a position of a member in an
address computation, where these outgrow the width they are written at.

## Main definitions

* `Width.Fits`: a number that can be written at a width.
* `Program.numbers`: the numbers in a program, each with the width it is written at.
* `Exceeds`: a number at a place in the code of a function that does not fit its width.
* `Setting.covered`: the setting in which all structs are those of the module.

## Main statements

* `fits_or_exceeds_of_lower`: the numbers in a program fit, apart from such places.
* `exists_literal_not_fits_filling`: a literal that does not fit is written as it is.
-/

namespace ThreeAddress

/-- A number that can be written at a width, as a signed or an unsigned one. -/
def Width.Fits (width : Width) (number : Int) : Prop :=
  -2 ^ (width.bits - 1) ≤ number ∧ number < 2 ^ width.bits

instance (width : Width) (number : Int) : Decidable (width.Fits number) :=
  inferInstanceAs (Decidable (_ ∧ _))

/-- A number at an integer type. -/
def Value.number? : Value → Option (Int × Width)
  | ⟨.immediate number, .int width⟩ => some (number, width)
  | _ => none

/-- The numbers that an instruction reads, each with its width. -/
def Instr.numbers (instruction : Instr) : List (Int × Width) :=
  instruction.readings.filterMap Value.number?

/-- The numbers in a constant, each with its width. -/
def Constant.numbers : Constant → List (Int × Width)
  | .text _ => []
  | .array width values => values.map fun value => (value, width)

/-- The numbers in a program, each with the width it is written at. -/
def Program.numbers (program : Program) : List (Int × Width) :=
  program.functions.flatMap (fun function => function.instructions.flatMap Instr.numbers) ++
    program.constants.flatMap fun entry => entry.1.numbers

/-- The integer literals of a module. -/
def Module.integers (module : Module) : List Int :=
  module.functions.flatMap fun definition => Block.integers definition.body

/-- A number at a place in the code of a function that does not fit its width. Sizes and positions are taken
as words of 64 bits, and so written with a sign. -/
inductive Exceeds (literal : Int → Prop) (structs : List StructTy) (code : List Instr) :
    Instr → Int → Width → Prop where
  /-- Literals are written as they are. They do not stand where the address of a member or of a constant is
  computed. -/
  | literal {instruction : Instr} {number : Int} {width : Width} :
      instruction.isOrdinary → literal number → width ≠ .i64 →
        Exceeds literal structs code instruction number width
  /-- The size of a struct is passed to the allocator, for a value that is stored next. -/
  | size {definition : StructTy} {target : String} {size : UInt64} {value : Value} {address : Operand} :
      definition ∈ structs → value.ty = .struct definition →
      (Ty.struct definition).size = .ok size → 2 ^ 32 ≤ size.toNat →
      [.allocation target size, .store value address] <:+: code →
        Exceeds literal structs code (.allocation target size) (signedWord size) .i32
  /-- The position of a member is written where its address is computed. -/
  | position {definition : StructTy} {target register : String} {position : Nat} :
      definition ∈ structs → position < definition.members.length → 2 ^ 32 ≤ position →
        Exceeds literal structs code (.elementAddress target (.struct definition)
          (.register register) [.index 0, .index position] true) (signedWord (.ofNat position)) .i32

-- ════════════════════════
-- Words
-- ════════════════════════

theorem Value.number?_eq_some_iff {value : Value} {number : Int} {width : Width} :
    value.number? = some (number, width) ↔ value = .immediate number (.int width) := by
  obtain ⟨operand, ty⟩ := value
  cases operand <;> cases ty <;> simp [number?, immediate]

theorem fits_of_le {width : Width} {number : Int} (hle : 0 ≤ number) (hlt : number < 2) :
    width.Fits number := by
  cases width <;> simp only [Width.Fits, Width.bits] <;> omega

theorem signedWord_of_lt {word : UInt64} (h : word.toNat < 2 ^ 63) : signedWord word = word.toNat :=
  BitVec.toInt_eq_toNat_of_lt (by simpa using (by omega : 2 * word.toNat < 2 ^ 64))

/-- A word of 32 bits can be written at that width. -/
theorem fits_signedWord {word : UInt64} (h : word.toNat < 2 ^ 32) :
    Width.i32.Fits (signedWord word) := by
  rw [signedWord_of_lt (by omega)]
  simp only [Width.Fits, Width.bits]
  omega

theorem number_of_index {position : Nat} {number : Int} {width : Width}
    (h : (Value.index position).number? = some (number, width)) :
    number = signedWord (.ofNat position) ∧ width = .i32 := by
  have hvalue := Value.number?_eq_some_iff.mp h
  simp only [Value.index, Value.immediate, Value.mk.injEq, Operand.immediate.injEq, Ty.int.injEq]
    at hvalue
  exact ⟨hvalue.1.symm, hvalue.2.symm⟩

/-- A position in an address computation, or one that outgrows its width. -/
theorem fits_of_index {position : Nat} {number : Int} {width : Width}
    (h : (Value.index position).number? = some (number, width)) :
    width.Fits number ∨ 2 ^ 32 ≤ position := by
  obtain ⟨rfl, rfl⟩ := number_of_index h
  refine (Nat.lt_or_ge position (2 ^ 32)).imp (fun hlt => fits_signedWord ?_) id
  rw [UInt64.toNat_ofNat']
  omega

/-- Only structs are large. -/
theorem Ty.Grounded.size_lt {ty : Ty} {size : UInt64} (h : ty.Grounded) (hsize : ty.size = .ok size) :
    size.toNat < 2 ^ 32 ∨ ∃ definition, ty = .struct definition := by
  cases h with
  | int width =>
    obtain rfl := Except.ok.inj hsize
    exact Or.inl (by cases width <;> decide)
  | result | ref | array =>
    obtain rfl := Except.ok.inj hsize
    exact Or.inl (by decide)
  | struct => exact Or.inr ⟨_, rfl⟩

-- ════════════════════════
-- The structs of a module
-- ════════════════════════

namespace TypeTable

variable {table : TypeTable}

theorem eq_attemptAll_of_defineAll {definitions : List StructDef} {defined : TypeTable}
    (h : table.defineAll definitions = .ok defined) : defined = table.attemptAll definitions := by
  induction definitions generalizing table with
  | nil =>
    cases h
    rfl
  | cons definition rest ih =>
    rw [defineAll] at h
    cases hdefine : (define definition).eval table with
    | error diagnostic =>
      rw [hdefine] at h
      cases h
    | ok result =>
      rw [hdefine] at h
      rw [ih h, attemptAll, attemptAll, List.foldl_cons, attempt,
        (Pass.eval_eq_ok_iff.mp hdefine).2]

theorem Covers.struct {definition : StructTy} (h : table.Covers (.struct definition)) :
    definition ∈ table.structs :=
  List.mem_of_find?_eq_some (h definition List.mem_cons_self)

end TypeTable

theorem coherent_of_eval_defineStructs {table : TypeTable} {items : List Item} {globals last : Globals}
    (h : (defineStructs {} items).eval globals = .ok (table, last)) : table.Coherent := by
  rw [eval_defineStructs] at h
  cases hdefine : TypeTable.defineAll {} (items.filterMap Item.struct?) with
  | error diagnostic =>
    rw [hdefine] at h
    cases h
  | ok found =>
    rw [hdefine] at h
    cases h
    rw [TypeTable.eq_attemptAll_of_defineAll hdefine]
    exact TypeTable.Coherent.empty.attemptAll _

variable {table : TypeTable}

namespace TypeTable

theorem covers_ref_iff {ty : Ty} : table.Covers (.ref ty) ↔ table.Covers ty := by
  simp [Covers, Ty.parts]

theorem covers_array_iff {ty : Ty} {extent : Extent} :
    table.Covers (.array ty extent) ↔ table.Covers ty := by
  simp [Covers, Ty.parts]

theorem Covers.member {definition : StructTy} (h : table.Covers (.struct definition)) {member : Member}
    (hmem : member ∈ definition.members) : table.Covers member.ty := fun part hpart =>
  h part (List.mem_cons_of_mem _ (StructTy.mem_parts.mpr ⟨member, hmem, hpart⟩))

/-- A type with a runtime representation that is made of structs of the table. -/
structure Provides (table : TypeTable) (ty : Ty) : Prop where
  grounded : ty.Grounded
  covers : table.Covers ty

/-- A function whose parameters and value have such types. -/
structure ProvidesSignature (table : TypeTable) (signature : Signature) : Prop where
  returns : ∀ ty ∈ signature.returns, table.Provides ty
  parameters : ∀ ty ∈ signature.parameters, table.Provides ty

end TypeTable

theorem Support.provides (function : Support) : table.ProvidesSignature function.signature := by
  have hgrounded := function.grounded
  constructor <;> intro ty hmem
  · refine ⟨hgrounded.returns ty hmem, ?_⟩
    cases function <;> cases hmem <;> simp [TypeTable.Covers, Ty.parts]
  · refine ⟨hgrounded.parameters ty hmem, ?_⟩
    have hscalar : ty ∈ [Ty.bytes, .i32] := by
      cases function <;> simp_all [Support.signature]
    rcases List.mem_pair.mp hscalar with rfl | rfl <;> simp [TypeTable.Covers, Ty.parts]

/-- The setting in which all structs are those of the module. -/
def Setting.covered (htable : table.Coherent) : Setting table where
  checked := False
  value := table.Provides
  known _ := True
  callable _ := table.ProvidesSignature
  kept := []
  stage _ := True
  int width := ⟨.int width, by simp [TypeTable.Covers, Ty.parts]⟩
  result := ⟨.result, by simp [TypeTable.Covers, Ty.parts]⟩
  ref h := ⟨.ref h.grounded, TypeTable.covers_ref_iff.mpr h.covers⟩
  array extent _ h := ⟨.array extent h.grounded, TypeTable.covers_array_iff.mpr h.covers⟩
  struct hmem := ⟨htable.grounded _ hmem, htable.covers _ hmem⟩
  target h := by
    cases h.grounded with
    | ref hground => exact ⟨hground, TypeTable.covers_ref_iff.mp h.covers⟩
  element h := by
    cases h.grounded with
    | array _ hground => exact ⟨hground, TypeTable.covers_array_iff.mp h.covers⟩
  member h member hmem := by
    cases h.grounded with
    | struct hmembers => exact ⟨hmembers member hmem, h.covers.member hmem⟩
  function h := by cases h.grounded
  returns h := h.returns
  parameters h := h.parameters
  support := Support.provides
  grow _ _ := trivial
  temporary _ := trivial

-- ════════════════════════
-- Numbers that fit
-- ════════════════════════

section Code

variable {literal : Int → Prop} {code : List Instr} {instruction : Instr} {number : Int}
  {width : Width}

theorem Exceeds.appendLeft {structs : List StructTy}
    (h : Exceeds literal structs code instruction number width) (first : List Instr) :
    Exceeds literal structs (first ++ code) instruction number width := by
  cases h with
  | literal hordinary hliteral hwidth => exact .literal hordinary hliteral hwidth
  | size hmem hty hsize hle hcode =>
    exact .size hmem hty hsize hle (hcode.trans (List.suffix_append first code).isInfix)
  | position hmem hlt hle => exact .position hmem hlt hle

theorem Exceeds.appendRight {structs : List StructTy}
    (h : Exceeds literal structs code instruction number width) (rest : List Instr) :
    Exceeds literal structs (code ++ rest) instruction number width := by
  cases h with
  | literal hordinary hliteral hwidth => exact .literal hordinary hliteral hwidth
  | size hmem hty hsize hle hcode =>
    exact .size hmem hty hsize hle (hcode.trans (List.prefix_append code rest).isInfix)
  | position hmem hlt hle => exact .position hmem hlt hle

/-- A word of 64 bits, or a literal at a smaller width. -/
theorem fits_or_ne (h : -2 ^ 63 ≤ number ∧ number < 2 ^ 63) (width : Width) :
    width.Fits number ∨ width ≠ .i64 := by
  refine or_iff_not_imp_right.mpr fun hwidth => ?_
  obtain rfl := not_not.mp hwidth
  simp only [Width.Fits, Width.bits]
  omega

variable (hwords : ∀ number, literal number → -2 ^ 63 ≤ number ∧ number < 2 ^ 63)
include hwords

/-- A number in an ordinary instruction is a literal. -/
theorem Instr.Drawn.fits_or_exceeds (h : instruction.Drawn literal)
    (hmem : (number, width) ∈ instruction.numbers) (structs : List StructTy) :
    width.Fits number ∨ Exceeds literal structs code instruction number width := by
  obtain ⟨value, hvalue, hnumber⟩ := List.mem_filterMap.mp hmem
  obtain rfl := Value.number?_eq_some_iff.mp hnumber
  have hliteral : literal number := h.readings _ hvalue number rfl
  exact (fits_or_ne (hwords number hliteral) width).imp_right (.literal h.ordinary hliteral)

/-- Every number in code as lowering writes it fits its width, or is of one of the three kinds. -/
theorem Written.fits_or_exceeds (h : Written literal code) (htable : table.Coherent) {body : Body}
    (hsound : ∀ instruction ∈ code, instruction.Sound (.covered htable) body) :
    ∀ instruction ∈ code, ∀ {number width}, (number, width) ∈ instruction.numbers →
      width.Fits number ∨ Exceeds literal table.structs code instruction number width := by
  induction h with
  | nil => simp
  | append _ _ ih ih' =>
    obtain ⟨hcode, hmore⟩ := List.forall_mem_append.mp hsound
    refine List.forall_mem_append.mpr ⟨fun instruction hmem _ _ hnumber => ?_,
      fun instruction hmem _ _ hnumber => ?_⟩
    · exact (ih hcode instruction hmem hnumber).imp_right (·.appendRight _)
    · exact (ih' hmore instruction hmem hnumber).imp_right (·.appendLeft _)
  | drawn hdrawn =>
    refine List.forall_mem_singleton.mpr ?_
    intro number width hmem
    exact hdrawn.fits_or_exceeds hwords hmem _
  | member target register hlt =>
    have hbase := ((List.forall_mem_singleton.mp hsound).bases rfl).1
    refine List.forall_mem_singleton.mpr ?_
    intro number width hmem
    obtain ⟨value, hvalue, hnumber⟩ := List.mem_filterMap.mp hmem
    rcases List.mem_pair.mp hvalue with rfl | rfl
    · exact Or.inl ((fits_of_index hnumber).resolve_right (by decide))
    · refine (fits_of_index hnumber).imp_right fun hle => ?_
      obtain ⟨rfl, rfl⟩ := number_of_index hnumber
      exact .position hbase.covers.struct hlt hle
  | @allocation target address value size hsize hstore =>
    have hty := (hsound _ (List.mem_cons_of_mem _ (List.mem_singleton_self _))).stores rfl
    refine List.forall_mem_cons.mpr ⟨?_, List.forall_mem_singleton.mpr ?_⟩
    · intro number width hmem
      obtain ⟨argument, hargument, hnumber⟩ := List.mem_filterMap.mp hmem
      rw [List.mem_singleton.mp hargument] at hnumber
      cases hnumber
      -- All types but structs are small.
      rcases hty.grounded.size_lt hsize with hlt | ⟨definition, heq⟩
      · exact Or.inl (fits_signedWord hlt)
      · refine (Nat.lt_or_ge size.toNat (2 ^ 32)).imp fits_signedWord fun hle => ?_
        exact .size (heq ▸ hty.covers).struct heq (heq ▸ hsize) hle List.infix_rfl
    · intro number width hmem
      exact hstore.fits_or_exceeds hwords hmem _
  | constant target symbol constant =>
    refine List.forall_mem_singleton.mpr ?_
    intro number width hmem
    obtain ⟨value, hvalue, hnumber⟩ := List.mem_filterMap.mp hmem
    have hzero : value = .index 0 := by
      rcases List.mem_pair.mp hvalue with rfl | rfl <;> rfl
    rw [hzero] at hnumber
    exact Or.inl ((fits_of_index hnumber).resolve_right (by decide))

end Code

section Modules

variable {module : Module} {program : Program}

theorem Module.mem_integers {definition : FunctionDef} (h : definition ∈ module.functions) :
    ∀ number ∈ Block.integers definition.body, number ∈ module.integers :=
  fun _ hnumber => List.mem_flatMap.mpr ⟨definition, h, hnumber⟩

/-- The numbers in the code of the functions. -/
theorem forall₂_fits_or_exceeds (h : (lower module).result = .ok program)
    (hwords : ∀ number ∈ module.integers, -2 ^ 63 ≤ number ∧ number < 2 ^ 63) :
    List.Forall₂ (fun definition function => ∀ instruction ∈ function.instructions,
      ∀ {number width}, (number, width) ∈ instruction.numbers → width.Fits number ∨
        Exceeds (· ∈ Block.integers definition.body) program.structs function.instructions instruction
          number width) module.functions program.functions := by
  obtain ⟨support, declared, table, bound, named, last, hsupport, hstructs, hbind, hcodes, hprogram,
    -, -⟩ := eval_lowerWith h
  obtain ⟨hdefinitions, hsignatures, -⟩ := eval_bindFunctions hbind
  rw [hprogram]
  have htable := coherent_of_eval_defineStructs hstructs
  have hadmitted := ((Setting.covered htable).binds_empty).forall₂_admits Scope.Keyed.empty hsupport hbind
    hcodes (fun function _ _ => function.provides)
    (fun function hmem =>
      have hvalues := value_of_denoteSignature (.covered htable) (hsignatures function hmem)
      ⟨hvalues.2, hvalues.1⟩)
    (fun _ => trivial) (fun _ => trivial) rfl rfl
  refine List.forall₂_iff_zip.mpr ⟨hadmitted.length_eq, fun {definition function} hzip => ?_⟩
  obtain ⟨globals, signature, stages, hstages, hsignature, hadmits⟩ := List.forall₂_zip hadmitted hzip
  have hliteral := Module.mem_integers (List.of_mem_zip hzip).1
  intro instruction hinstruction number width hmem
  rcases List.mem_append.mp hinstruction with hentry | hcode
  · have hnone : instruction.numbers = [] := stages.entry_cases
      (P := fun instruction => instruction.numbers = []) (fun _ _ => rfl) (fun _ _ => rfl)
      instruction hentry
    rw [hnone] at hmem
    cases hmem
  · have hfits := (hstages.written fun _ => id).fits_or_exceeds
      (fun number hnumber => hwords number (hliteral number hnumber)) htable
      (hstages.sound_code hsignature hadmits False.elim) instruction hcode hmem
    exact hfits.imp_right (·.appendLeft _)

theorem Expr.eq_integer_of_constant? {element : Expr} {number : Int}
    (h : element.constant? = some number) : element = .integer number ∨ number = 0 ∨ number = 1 := by
  cases element with
  | integer value =>
    cases h
    exact Or.inl rfl
  | boolean value => cases value <;> cases h <;> simp
  | _ => cases h

/-- The numbers in a constant are those of an array literal. -/
theorem Literal.Denotes.mem_elements {literal : Literal} {constant : Constant}
    (h : literal.Denotes constant) {number : Int} {width : Width}
    (hmem : (number, width) ∈ constant.numbers) : (number = 0 ∨ number = 1) ∨
      ∃ elements, literal = .array elements ∧ .integer number ∈ elements := by
  cases h with
  | text => cases hmem
  | array hvalues =>
    obtain ⟨value, hvalue, heq⟩ := List.mem_map.mp hmem
    cases heq
    have hsome := List.mem_map_of_mem (f := some) hvalue
    rw [← hvalues] at hsome
    obtain ⟨element, helement, hconstant⟩ := List.mem_map.mp hsome
    refine (Expr.eq_integer_of_constant? hconstant).symm.imp_right ?_
    rintro rfl
    exact ⟨_, rfl, helement⟩

theorem Constant.Drawn.cases {constant : Constant} {literal : Int → Prop} (h : constant.Drawn literal)
    {number : Int} {width : Width} (hmem : (number, width) ∈ constant.numbers) :
    literal number ∨ number = 0 ∨ number = 1 := by
  cases constant with
  | text => cases hmem
  | array width values =>
    obtain ⟨value, hvalue, heq⟩ := List.mem_map.mp hmem
    cases heq
    exact h number hvalue

theorem drawn_of_mem_constants (h : (lower module).result = .ok program) {constant : Constant}
    (hmem : constant ∈ program.constants.map Prod.fst) : constant.Drawn (· ∈ module.integers) := by
  obtain ⟨support, declared, table, bound, named, last, hsupport, hstructs, hbind, hcodes, -,
    hconstants, -⟩ := eval_lowerWith h
  obtain ⟨hdefinitions, -⟩ := eval_bindFunctions hbind
  obtain ⟨entry, hentry, rfl⟩ := List.mem_map.mp hmem
  rw [hconstants] at hentry
  refine drawn_of_lowerFunctions hcodes ?_ ?_ entry hentry
  · intro function hfunction
    exact Module.mem_integers (hdefinitions ▸ List.mem_map_of_mem hfunction)
  · have hnone : named.constants = [] :=
      (issued_bindFunctions hbind).2.trans (issued_declareSupport hsupport).2
    simp [hnone]

/-- Where the literals of a module are words of 64 bits, all numbers in the code of a function fit the
widths that they are written at, except for literals of that function, written as they are at a smaller
width, and for the sizes of structs and positions in them for which the width of 32 bits is not enough. The
numbers in a constant fit, except for those that stand in an array literal which the constant is for. -/
theorem fits_or_exceeds_of_lower (h : (lower module).result = .ok program)
    (hwords : ∀ number ∈ module.integers, -2 ^ 63 ≤ number ∧ number < 2 ^ 63) :
    List.Forall₂ (fun definition function => ∀ instruction ∈ function.instructions,
      ∀ {number width}, (number, width) ∈ instruction.numbers → width.Fits number ∨
        Exceeds (· ∈ Block.integers definition.body) program.structs function.instructions instruction
          number width) module.functions program.functions ∧
    ∀ constant ∈ program.constants.map Prod.fst, ∀ {number width},
      (number, width) ∈ constant.numbers → width.Fits number ∨ width ≠ .i64 ∧
        ∃ elements, .array elements ∈ module.literals ∧ Literal.Denotes (.array elements) constant ∧
          .integer number ∈ elements := by
  refine ⟨forall₂_fits_or_exceeds h hwords, fun constant hconstant number width hmem => ?_⟩
  obtain ⟨literal, hliteral, hdenotes⟩ := exists_literal_of_mem_constants h hconstant
  rcases hdenotes.mem_elements hmem with hbit | ⟨elements, rfl, helement⟩
  · exact Or.inl (fits_of_le (by omega) (by omega))
  rcases (drawn_of_mem_constants h hconstant).cases hmem with hnumber | hbit
  · exact (fits_or_ne (hwords number hnumber) width).imp_right fun hwidth =>
      ⟨hwidth, elements, hliteral, hdenotes, helement⟩
  · exact Or.inl (fits_of_le (by omega) (by omega))

end Modules

/-- A module that puts literals into a byte, an array of bytes and a struct behind a success value. -/
def filling : Module where
  items := [
    .struct ⟨"Pair", [⟨"first", "i64"⟩, ⟨"second", "i8"⟩]⟩,
    .function {
      name := "fill"
      parameters := []
      returns := some "Result"
      body := [
        .bind "x" (some "i8") (.integer 300),
        .bind "xs" (some "[i8; 2]") (.array [.integer 1, .integer (-200)]),
        .bind "pair" none (.build "Pair" [⟨"first", .integer (2 ^ 40)⟩, ⟨"second", .variableRef "x"⟩]),
        .ret (some (.call "Ok" [.variableRef "pair"]))] }]

theorem fits_or_exceeds_filling : ∃ program,
    (lower filling).result = .ok program ∧
    (∀ number ∈ filling.integers, -2 ^ 63 ≤ number ∧ number < 2 ^ 63) ∧
    .array .i8 [1, -200] ∈ program.constants.map Prod.fst ∧
    (Width.i8.Fits (-200) ∨ Width.i8 ≠ .i64 ∧ ∃ elements, .array elements ∈ filling.literals ∧
      Literal.Denotes (.array elements) (.array .i8 [1, -200]) ∧ .integer (-200) ∈ elements) ∧
    ∃ function ∈ program.functions, ∃ instruction ∈ function.instructions,
      (300, .i8) ∈ instruction.numbers ∧ (Width.i8.Fits 300 ∨
        Exceeds (· ∈ [300, 1, -200, 2 ^ 40]) program.structs function.instructions instruction 300
          .i8) := by
  obtain ⟨program, h, hnumbers⟩ := exists_program_of_any {} filling
    (P := fun program => decide (.array .i8 [1, -200] ∈ program.constants.map Prod.fst ∧
      ∃ function ∈ program.functions, ∃ instruction ∈ function.instructions,
        (300, .i8) ∈ instruction.numbers))
    (by decide +kernel)
  obtain ⟨hconstant, function, hfunction, instruction, hinstruction, hmem⟩ :=
    of_decide_eq_true hnumbers
  have hwords : ∀ number ∈ filling.integers, -2 ^ 63 ≤ number ∧ number < 2 ^ 63 := by decide +kernel
  obtain ⟨hcode, hconstants⟩ := fits_or_exceeds_of_lower h hwords
  obtain ⟨definition, hdefinition, hfits⟩ := exists_mem_of_forall₂ hcode hfunction
  refine ⟨program, h, hwords, hconstant, hconstants _ hconstant (by decide), function, hfunction,
    instruction, hinstruction, hmem, ?_⟩
  obtain rfl := List.mem_singleton.mp hdefinition
  exact hfits instruction hinstruction hmem

/-- A literal that does not fit its type is written as it is. -/
theorem exists_literal_not_fits_filling : ∃ program,
    (lower filling).result = .ok program ∧
    (300, .i8) ∈ program.numbers ∧ ¬Width.i8.Fits 300 := by
  obtain ⟨program, h, hnumbers⟩ := exists_program_of_any {} filling
    (P := fun program => decide ((300, .i8) ∈ program.numbers)) (by decide +kernel)
  exact ⟨program, h, of_decide_eq_true hnumbers, by decide⟩

end ThreeAddress
