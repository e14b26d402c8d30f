import ThreeAddress.Proofs.Emission.Sheet
import ThreeAddress.Proofs.Emission.Symbols

/-!
# The lines of a program

A program is written as the types it names, its constants, its functions and the functions that are
defined elsewhere, in this order. A file scope line is written once, however often it is asked for. The
symbols of constants hold no spaces, so the line of a constant tells its symbol.

## Main definitions

* `Line.shown`: how a line of a function body is written.
* `FunctionCode.lines`: the lines of a function, as they are written.
* `Constant.linkage`, `Constant.contents`: the two ends of the line of a constant, around its type.
* `declares`: whether a line is that of the constant with a given symbol.
* `Program.Legible`: the programs whose constants can be told apart by their symbols.

## Main statements

* `Program.Legible.lines_listing`: all lines of a program.
* `shown_lowerWith`: between its constants and the functions from elsewhere, a lowered program has the lines
  of its functions.
* `unquoted_quotedBytes`: the bytes of a text constant can be read back.
* `Program.Legible.filter_declares`: every constant has one line.
-/

namespace ThreeAddress

-- ════════════════════════
-- Segments
-- ════════════════════════

namespace Listing

variable (listing : Listing)

@[simp] theorem indented_zero (text : String) : indented 0 text = text := by
  simp [indented, String.join]

theorem head_addHead (text : String) : (listing.addHead text).head.toList =
    if text ∈ listing.head.toList then listing.head.toList else listing.head.toList ++ [text] := by
  by_cases hmem : text ∈ listing.head <;> simp [addHead, addHead?, hmem]

/-- File scope lines change the other segments in nothing. -/
theorem foldl_addHead_eq (lines : List String) :
    lines.foldl addHead listing = { listing with head := (lines.foldl addHead listing).head } := by
  induction lines generalizing listing with
  | nil => rfl
  | cons line rest ih =>
    rw [List.foldl_cons, ih]
    congr 1 <;>
    · rw [addHead, addHead?]
      split <;> rfl

theorem mem_head_foldl_addHead {lines : List String} {line : String} :
    line ∈ (lines.foldl addHead listing).head.toList ↔ line ∈ listing.head.toList ∨ line ∈ lines := by
  induction lines generalizing listing with
  | nil => simp
  | cons first rest ih =>
    have hfirst : line ∈ (listing.addHead first).head.toList ↔
        line ∈ listing.head.toList ∨ line = first := by
      rw [head_addHead]
      split
      · next hmem => exact ⟨Or.inl, fun h => h.elim id fun heq => heq ▸ hmem⟩
      · rw [List.mem_append, List.mem_singleton]
    rw [List.foldl_cons, ih, hfirst, List.mem_cons, or_assoc]

/-- File scope lines that differ from each other and from those before are all written. -/
theorem head_foldl_addHead {lines : List String} (hnodup : lines.Nodup)
    (hnew : ∀ line ∈ lines, line ∉ listing.head.toList) :
    (lines.foldl addHead listing).head.toList = listing.head.toList ++ lines := by
  induction lines generalizing listing with
  | nil => exact (List.append_nil _).symm
  | cons first rest ih =>
    rw [List.nodup_cons] at hnodup
    rw [List.forall_mem_cons] at hnew
    have hfirst : (listing.addHead first).head.toList = listing.head.toList ++ [first] := by
      rw [head_addHead, if_neg hnew.1]
    rw [List.foldl_cons, ih _ hnodup.2, hfirst, List.append_assoc, List.singleton_append]
    intro line hmem hold
    rw [hfirst, List.mem_append, List.mem_singleton] at hold
    rcases hold with hold | rfl
    · exact hnew.2 line hmem hold
    · exact hnodup.1 hmem

end Listing

/-- A line as it is written. -/
def Line.shown (line : Line) : String := Listing.indented line.indent line.text

/-- The lines of a function, as they are written. -/
def FunctionCode.lines (function : FunctionCode) : List String :=
  functionHeader function.symbol function.signature function.parameters ::
    (function.instructions.map fun instruction =>
      Listing.indented instruction.indent instruction.text) ++ [functionEnd]

theorem FunctionCode.map_shown_sheetLines (function : FunctionCode) :
    function.sheetLines.map Line.shown = function.lines := by
  simp [sheetLines, lines, header, Line.shown, Line.indent, Line.text]

/-- Between its constants and the functions from elsewhere, a lowered program has the lines of its
functions. -/
theorem shown_lowerWith {prelude : Scope} {module : Module} {program : Program}
    (h : (lowerWith prelude module).result = .ok program) :
    program.lines.map Line.shown = program.functions.flatMap FunctionCode.lines := by
  rw [lines_lowerWith h, List.map_flatMap]
  exact List.flatMap_congr fun function _ => function.map_shown_sheetLines

namespace Listing

variable (listing : Listing)

theorem foldl_addLine (lines : List Line) :
    lines.foldl addLine listing =
      { listing with body := listing.body ++ (lines.map Line.shown).toArray } := by
  induction lines generalizing listing with
  | nil => simp
  | cons line rest ih =>
    rw [List.foldl_cons, ih]
    simp [addLine, addBody, Line.shown]

theorem foldl_addTail (externals : List (String × Signature)) :
    externals.foldl (fun listing (symbol, signature) =>
        listing.addTail (Declaration.external symbol signature).line) listing =
      { listing with tail := listing.tail ++ (externals.map fun (symbol, signature) =>
        (Declaration.external symbol signature).line).toArray } := by
  induction externals generalizing listing with
  | nil => simp
  | cons external rest ih =>
    rw [List.foldl_cons, ih]
    simp [addTail]

end Listing

theorem Program.body_listing (program : Program) :
    program.listing.body.toList = program.lines.map Line.shown := by
  rw [listing, Listing.foldl_addTail, Listing.foldl_addLine, ← List.foldl_map,
    Listing.foldl_addHead_eq]
  simp

/-- The middle segment of a lowered program has the lines of its functions. -/
theorem body_listing_lowerWith {prelude : Scope} {module : Module} {program : Program}
    (h : (lowerWith prelude module).result = .ok program) :
    program.listing.body.toList = program.functions.flatMap FunctionCode.lines := by
  rw [program.body_listing, shown_lowerWith h]

-- ════════════════════════
-- Constants
-- ════════════════════════

namespace Constant

/-- How a constant is linked. -/
def linkage : Constant → String
  | text _ => "private unnamed_addr constant"
  | array _ _ => "private constant"

/-- What a constant holds. -/
def contents : Constant → String
  | text value => "c\"" ++ Declaration.quotedBytes (bytes value) ++ "\\00\""
  | array width values =>
    if values.isEmpty then
      "zeroinitializer"
    else
      "[" ++ commaSeparated (values.map fun value => width.spelling ++ " " ++ toString value) ++ "]"

/-- The line of a constant has its symbol, its linkage, its type and its contents, in this order. -/
theorem line_declaration (constant : Constant) (symbol : String) :
    (constant.declaration symbol).line = globalText symbol ++ " = " ++ constant.linkage ++ " " ++
      constant.ty.memorySpelling ++ " " ++ constant.contents := by
  cases constant with
  | text value =>
    have hopening : " = private unnamed_addr constant [" =
      " = " ++ ("private unnamed_addr constant" ++ (" " ++ "[")) := by decide +kernel
    have hmember : " x i8] c\"" = " x " ++ ("i8" ++ ("]" ++ (" " ++ "c\""))) := by decide +kernel
    show globalText symbol ++ " = private unnamed_addr constant [" ++ _ ++ " x i8] c\"" ++ _ ++ _ =
      _ ++ " = " ++ _ ++ " " ++ ("[" ++ _ ++ " x " ++ "i8" ++ "]") ++ " " ++ ("c\"" ++ _ ++ _)
    rw [hopening, hmember]
    simp only [String.append_assoc]
    rfl
  | array width values =>
    have hopening : " = private constant [" =
      " = " ++ ("private constant" ++ (" " ++ "[")) := by decide +kernel
    have hmember : "] " = "]" ++ " " := by decide +kernel
    show globalText symbol ++ " = private constant [" ++ _ ++ " x " ++ _ ++ "] " ++ _ =
      _ ++ " = " ++ _ ++ " " ++ ("[" ++ _ ++ " x " ++ _ ++ "]") ++ " " ++ _
    rw [hopening, hmember]
    simp only [String.append_assoc]
    rfl

end Constant

namespace Declaration

/-- The value of an upper-case hexadecimal digit. -/
def hexValue? (digit : Char) : Option Nat :=
  if digit.isDigit then
    some (digit.toNat - '0'.toNat)
  else if 'A' ≤ digit ∧ digit ≤ 'F' then
    some (digit.toNat - 'A'.toNat + 10)
  else
    none

/-- The bytes that the characters between the quotes of a text constant stand for. Besides escaped bytes,
only ASCII characters other than quotes stand there. -/
def unquoted : List Char → Option (List UInt8)
  | [] => some []
  | '\\' :: high :: low :: rest => do
    let high ← hexValue? high
    let low ← hexValue? low
    return UInt8.ofNat (16 * high + low) :: (← unquoted rest)
  | character :: rest =>
    if character.toNat < 128 && character ≠ '\\' && character ≠ '"' then
      (unquoted rest).map (UInt8.ofNat character.toNat :: ·)
    else
      none

theorem hexValue?_hexDigit : ∀ n, n < 16 → hexValue? (hexDigit n) = some n := by
  decide

/-- A character that stands for itself is read back as its byte. -/
theorem unquoted_plain {byte : UInt8} (h : isPlain byte) (rest : List Char) :
    unquoted (Char.ofNat byte.toNat :: rest) = (unquoted rest).map (byte :: ·) := by
  have hplain : ∀ n : Fin 256, isPlain (UInt8.ofNat n) → (Char.ofNat n).toNat < 128 ∧
      Char.ofNat n ≠ '\\' ∧ Char.ofNat n ≠ '"' ∧
      UInt8.ofNat (Char.ofNat n).toNat = UInt8.ofNat n := by decide +kernel
  obtain ⟨hascii, hbackslash, hquote, hbyte⟩ := hplain ⟨byte.toNat, byte.toNat_lt⟩ (by simpa using h)
  rw [unquoted]
  · simp_all
  · simp_all

theorem unquoted_quotedByte (byte : UInt8) (rest : List Char) :
    unquoted (quotedByte byte ++ rest) = (unquoted rest).map (byte :: ·) := by
  rw [quotedByte]
  split
  · next h => exact unquoted_plain h rest
  · have hbyte := byte.toNat_lt
    have hsum : UInt8.ofNat (16 * (byte.toNat / 16) + byte.toNat % 16) = byte := by
      rw [Nat.div_add_mod, UInt8.ofNat_toNat]
    show unquoted ('\\' :: hexDigit _ :: hexDigit _ :: rest) = _
    rw [unquoted, hexValue?_hexDigit _ (by omega), hexValue?_hexDigit _ (by omega)]
    show (unquoted rest >>= fun rest => some (UInt8.ofNat _ :: rest)) = _
    rw [hsum]
    cases unquoted rest <;> rfl

/-- The bytes of a text constant can be read back, and a zero byte follows them. -/
theorem unquoted_quotedBytes (bytes : List UInt8) :
    unquoted (quotedBytes bytes ++ "\\00").toList = some (bytes ++ [0]) := by
  have hread (rest : List Char) :
      unquoted (bytes.flatMap quotedByte ++ rest) = (unquoted rest).map (bytes ++ ·) := by
    induction bytes with
    | nil => simp
    | cons byte bytes ih =>
      rw [List.flatMap_cons, List.append_assoc, unquoted_quotedByte, ih, Option.map_map]
      rfl
  rw [String.toList_append, quotedBytes, String.toList_ofList, hread]
  rfl

end Declaration

-- ════════════════════════
-- Where names end
-- ════════════════════════

section Names

variable {name rest : List Char} {character : Char}

theorem dropWhile_ne_append (h : character ∉ name) :
    (name ++ character :: rest).dropWhile (· ≠ character) = character :: rest := by
  rw [List.dropWhile_append_of_pos]
  · simp
  · intro other hmem
    simpa using fun heq : other = character => h (heq ▸ hmem)

theorem takeWhile_ne_append (h : character ∉ name) :
    (name ++ character :: rest).takeWhile (· ≠ character) = name := by
  rw [List.takeWhile_append_of_pos]
  · simp
  · intro other hmem
    simpa using fun heq : other = character => h (heq ▸ hmem)

end Names

/-- Whether a line is that of the constant with the given symbol. -/
def declares (symbol line : String) : Bool :=
  (globalText symbol ++ " = ").toList.isPrefixOf line.toList

theorem declares_iff {symbol line : String} :
    declares symbol line ↔ ∃ rest, line.toList = '@' :: symbol.toList ++ ' ' :: '=' :: ' ' :: rest := by
  have hopening : (globalText symbol ++ " = ").toList =
      '@' :: symbol.toList ++ [' ', '=', ' '] := by
    rw [globalText, String.toList_append, String.toList_append]
    rfl
  rw [declares, hopening, List.isPrefixOf_iff_prefix]
  constructor
  · rintro ⟨rest, hrest⟩
    exact ⟨rest, by rw [← hrest]; simp⟩
  · rintro ⟨rest, hrest⟩
    exact ⟨rest, by rw [hrest]; simp⟩

theorem declares_line (constant : Constant) (symbol : String) :
    declares symbol (constant.declaration symbol).line := by
  rw [declares, Constant.line_declaration, List.isPrefixOf_iff_prefix]
  simp only [String.append_assoc, String.toList_append]
  exact ⟨_, List.append_assoc _ _ _⟩

/-- A line tells the symbol of its constant, since symbols hold no spaces. -/
theorem eq_of_declares {symbol other line : String} (hsymbol : ' ' ∉ symbol.toList)
    (hother : ' ' ∉ other.toList) (h : declares symbol line) (h' : declares other line) :
    symbol = other := by
  obtain ⟨rest, hline⟩ := declares_iff.mp h
  obtain ⟨rest', hline'⟩ := declares_iff.mp h'
  have hchars : symbol.toList ++ ' ' :: '=' :: ' ' :: rest = other.toList ++ ' ' :: '=' :: ' ' :: rest' :=
    List.cons_inj_right _ |>.mp (hline.symm.trans hline')
  have hprefixes := congrArg (List.takeWhile (· ≠ ' ')) hchars
  rw [takeWhile_ne_append hsymbol, takeWhile_ne_append hother] at hprefixes
  exact String.toList_inj.mp hprefixes

theorem not_declares_structType (symbol name : String) (members : List Ty) :
    ¬declares symbol (Declaration.structType name members).line := by
  rw [declares_iff]
  rintro ⟨rest, hrest⟩
  simp only [Declaration.line, assignText, registerText, String.toList_append] at hrest
  exact absurd (List.cons.inj hrest).1 (by decide)

/-- A number behind a text adds no space. -/
theorem space_notMem_newRegister (scope : Scope) (constant : Constant) :
    ' ' ∉ (scope.newRegister constant.base).toList := by
  have hbase : ' ' ∉ constant.base.toList := by cases constant <;> simp [Constant.base]
  rcases scope.newRegister_eq constant.base with h | ⟨number, h⟩
  · rwa [h]
  · rw [h, String.toList_append, List.mem_append]
    rintro (hmem | hmem)
    · exact hbase hmem
    · have hdigit := Nat.isDigit_of_mem_toDigits (by decide) (by decide)
        (Nat.toList_repr (n := number) ▸ hmem)
      exact absurd hdigit (by decide)

/-- The programs whose constants can be told apart by their symbols. -/
structure Program.Legible (program : Program) : Prop where
  nodup : (program.constants.map Prod.snd).Nodup
  spaceless : ∀ entry ∈ program.constants, ' ' ∉ entry.2.toList

/-- Every lowered program is legible, whatever its prelude. -/
theorem legible_of_lowerWith {prelude : Scope} {module : Module} {program : Program}
    (h : (lowerWith prelude module).result = .ok program) : program.Legible := by
  constructor
  · obtain ⟨support, last, -, hissued⟩ := issued_of_lowerWith h
    exact hissued.nodup.of_append_right
  · obtain ⟨table, bound, named, last, -, hsignatures, hcodes, hnone, hlast⟩ :=
      eval_lowerFunctions_of_lowerWith h
    rw [hlast]
    refine invariant_lowerFunctions (P := fun globals => ∀ entry ∈ globals.constants,
      ' ' ∉ entry.2.toList) ?_ hcodes hsignatures (by simp [hnone])
    intro globals constant hspaceless entry hmem
    rcases List.mem_append.mp hmem with hmem | hmem
    · exact hspaceless entry hmem
    · rw [List.mem_singleton.mp hmem]
      exact space_notMem_newRegister globals.root constant

-- ════════════════════════
-- All lines
-- ════════════════════════

namespace Program

/-- The lines of the types that a program names. -/
def typeLines (program : Program) : List String :=
  (((resultDeclaration :: program.structs.map structDeclaration).map Declaration.line).foldl
    Listing.addHead {}).head.toList

/-- The line of a constant. -/
def constantLine (entry : Constant × String) : String := (entry.1.declaration entry.2).line

/-- The line of a function that is defined elsewhere. -/
def externalLine (entry : String × Signature) : String := (Declaration.external entry.1 entry.2).line

variable {program : Program}

theorem exists_of_mem_typeLines {line : String} (h : line ∈ program.typeLines) :
    ∃ name members, line = (Declaration.structType name members).line := by
  have hmem := ((Listing.mem_head_foldl_addHead _).mp h).resolve_left (by simp)
  obtain ⟨declaration, hdeclaration, rfl⟩ := List.mem_map.mp hmem
  rcases List.mem_cons.mp hdeclaration with rfl | hdeclaration
  · exact ⟨_, _, rfl⟩
  · obtain ⟨struct, -, rfl⟩ := List.mem_map.mp hdeclaration
    exact ⟨_, _, rfl⟩

theorem filter_declares_typeLines (symbol : String) :
    program.typeLines.filter (declares symbol) = [] := by
  rw [List.filter_eq_nil_iff]
  intro line hmem
  obtain ⟨name, members, rfl⟩ := exists_of_mem_typeLines hmem
  exact not_declares_structType symbol name members

namespace Legible

/-- A line is that of a constant exactly if it declares its symbol. -/
theorem declares_constantLine (h : program.Legible) {entry other : Constant × String}
    (hentry : entry ∈ program.constants) (hother : other ∈ program.constants) :
    declares entry.2 (constantLine other) ↔ other.2 = entry.2 := by
  constructor
  · exact fun hdeclares => (eq_of_declares (h.spaceless entry hentry) (h.spaceless other hother)
      hdeclares (declares_line other.1 other.2)).symm
  · rintro heq
    rw [← heq]
    exact declares_line other.1 other.2

theorem head_listing (h : program.Legible) :
    program.listing.head.toList = program.typeLines ++ program.constants.map constantLine := by
  have hnodup : (program.constants.map constantLine).Nodup := by
    refine List.pairwise_map.mpr ((List.pairwise_map.mp h.nodup).imp_of_mem ?_)
    intro entry other hentry hother hne hline
    refine hne ((h.declares_constantLine hother hentry).mp ?_)
    rw [hline]
    exact declares_line other.1 other.2
  have hnew : ∀ line ∈ program.constants.map constantLine, line ∉ program.typeLines := by
    intro line hmem htype
    obtain ⟨entry, -, rfl⟩ := List.mem_map.mp hmem
    obtain ⟨name, members, hline⟩ := exists_of_mem_typeLines htype
    exact not_declares_structType entry.2 name members (hline ▸ declares_line entry.1 entry.2)
  rw [typeLines, ← Listing.head_foldl_addHead _ hnodup hnew, ← List.foldl_append]
  rw [listing, Listing.foldl_addTail, Listing.foldl_addLine, declarations]
  simp [List.foldl_map, List.foldl_append, constantLine]

/-- All lines of a program. -/
theorem lines_listing (h : program.Legible) :
    program.listing.lines = program.typeLines ++ program.constants.map constantLine ++
      program.lines.map Line.shown ++ program.externals.map externalLine := by
  rw [Listing.lines, h.head_listing]
  rw [listing, Listing.foldl_addTail, Listing.foldl_addLine, ← List.foldl_map,
    Listing.foldl_addHead_eq]
  simp [externalLine]

/-- Every constant has one line. -/
theorem filter_declares (h : program.Legible) {entry : Constant × String}
    (hentry : entry ∈ program.constants) :
    program.listing.head.toList.filter (declares entry.2) = [constantLine entry] := by
  have hentries : program.constants.filter (fun other => other.2 = entry.2) = [entry] := by
    obtain ⟨before, after, hsplit⟩ := List.append_of_mem hentry
    have hnodup := h.nodup
    rw [hsplit, List.map_append, List.map_cons, List.nodup_middle, List.nodup_cons,
      List.mem_append, not_or] at hnodup
    have hothers {others : List (Constant × String)} (hnotMem : entry.2 ∉ others.map Prod.snd) :
        others.filter (fun other => other.2 = entry.2) = [] := by
      rw [List.filter_eq_nil_iff]
      intro other hmem heq
      exact hnotMem (of_decide_eq_true heq ▸ List.mem_map_of_mem hmem)
    rw [hsplit, List.filter_append, List.filter_cons_of_pos (by simp), hothers hnodup.1.1,
      hothers hnodup.1.2, List.nil_append]
  rw [h.head_listing, List.filter_append, filter_declares_typeLines, List.nil_append, List.filter_map,
    ← List.map_singleton (f := constantLine), ← hentries]
  congr 1
  refine List.filter_congr fun other hother => ?_
  rw [Bool.eq_iff_iff, decide_eq_true_iff]
  exact h.declares_constantLine hentry hother

end Legible

end Program

end ThreeAddress
