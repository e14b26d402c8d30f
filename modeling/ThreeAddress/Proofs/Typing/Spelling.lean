import ThreeAddress.Proofs.Typing.Grammar
import ThreeAddress.Proofs.Typing.Table

/-!
# Source syntax reads back

A type that is built from what programs can name is shown in source syntax, and that text denotes the type
again. The text is written from the inside out and read from the outside in, so what is shown is that
it has a derivation: each array is split in front of its own length, because the last semicolon is
the one that belongs to it.

## Main definitions

* `Ty.Expressible`: the types that are built from what a table can name.
* `TypeTable.Unreserved`: the tables whose structs have names of their own.

## Main statements

* `TypeTable.Unreserved.attemptAll`: definitions lead to such tables only.
* `Ty.Expressible.exists_derives`: the source syntax of a type is derived by the grammar.
* `denote_display`: types are read back from how they are shown.
-/

namespace ThreeAddress

namespace TypeTable

variable {table : TypeTable}

/-- No struct is called like a primitive type or like the success or error value. -/
def Unreserved (table : TypeTable) : Prop :=
  ∀ definition ∈ table.structs,
    Width.ofName? definition.name = none ∧ definition.name ≠ Ty.result.source

namespace Unreserved

theorem empty : Unreserved {} := by simp [Unreserved]

theorem attempt (h : table.Unreserved) (definition : StructDef) :
    (table.attempt definition).Unreserved := by
  rcases table.attempt_cases definition with heq | ⟨struct, hdefine⟩
  · rwa [heq]
  · obtain ⟨hfree, hname, -, hextended⟩ := define_eq_ok_iff.mp hdefine
    rw [hextended]
    refine List.forall_mem_append.mpr ⟨h, List.forall_mem_singleton.mpr ?_⟩
    rw [hname]
    simp only [isReserved, Bool.or_eq_true, decide_eq_true_eq, not_or, Option.not_isSome_iff_eq_none]
      at hfree
    exact ⟨hfree.1.2, hfree.1.1⟩

theorem attemptAll (h : table.Unreserved) (definitions : List StructDef) :
    (table.attemptAll definitions).Unreserved := by
  induction definitions generalizing table with
  | nil => exact h
  | cons definition rest ih => exact ih (h.attempt definition)

end Unreserved

/-- A struct of a table is what its name denotes. -/
theorem Coherent.names (h : table.Coherent) (hfree : table.Unreserved) {definition : StructTy}
    (hmem : definition ∈ table.structs) : table.Names definition.name (.struct definition) :=
  .struct (hfree definition hmem).1 (hfree definition hmem).2
    (h.covers definition hmem definition List.mem_cons_self)

end TypeTable

/-- A decimal numeral is read as the number that it is written for. -/
theorem TypeText.numeral_toString (number : Nat) : Numeral (toString number).toList number := by
  rw [Nat.toString_eq_repr, Nat.toList_repr]
  have hdigits : ∀ c ∈ Nat.toDigits 10 number, IsDigit c := fun c hmem =>
    isDigit_iff.mp (Nat.isDigit_of_mem_toDigits (by decide) (by decide) hmem)
  have hnumeral := numeral_ofDigitChars Nat.toDigits_ne_nil hdigits
  rwa [Nat.ofDigitChars_ten_toDigits] at hnumeral

namespace Ty

/-- The types that are built from integers, success or error values and the structs of a table, by
references and arrays. -/
inductive Expressible (table : TypeTable) : Ty → Prop
  | int (width : Width) : Expressible table (.int width)
  | result : Expressible table .result
  | struct {definition : StructTy} (h : definition ∈ table.structs) :
      Expressible table (.struct definition)
  | ref {target : Ty} : Expressible table target → Expressible table (.ref target)
  | sized {member : Ty} {length : Nat} (h : length < 2 ^ 64) :
      Expressible table member → Expressible table (.array member (.sized length))
  | unsized {member : Ty} : Expressible table member → Expressible table (.array member .unsized)

/-- Integers are shown under a primitive name. -/
theorem ofName?_source_int (width : Width) : Width.ofName? (Ty.int width).source = some width := by
  cases width <;> decide +kernel

open TypeText TypeTree in
/-- An array is derived with one blank in front of its length. -/
theorem derives_array {member length : String} {tree : TypeTree} {extent : Extent}
    (hmember : Derives member.toList tree) (hlength : Length length.toList extent) :
    Derives ("[" ++ member ++ "; " ++ length ++ "]").toList (.array tree extent) := by
  have hnone : Text.Blanks [] := by simp [Text.Blanks]
  have hblank : Text.Blanks [' '] := by
    simp only [Text.Blanks, List.forall_mem_singleton]
    decide
  have htext : ("[" ++ member ++ "; " ++ length ++ "]").toList =
      '[' :: (member.toList ++ ';' :: ([' '] ++ length.toList ++ []) ++ [']']) := by
    simp [String.toList_append]
  rw [htext]
  exact .array hblank hlength hnone hmember

open TypeText TypeTree in
/-- The source syntax of a type is derived by the grammar, with a name inside that denotes the type
inside. -/
theorem Expressible.exists_derives {table : TypeTable} (hcoherent : table.Coherent)
    (hfree : table.Unreserved) (hnames : ∀ struct ∈ table.structs, Identifier struct.name.toList)
    {ty : Ty} (h : Expressible table ty) :
    ∃ tree inner, Derives ty.source.toList tree ∧ table.Names tree.base inner ∧
      tree.around inner = ty := by
  induction h with
  | int width =>
    have hname : table.Names (Ty.int width).source (.int width) := .int (ofName?_source_int width)
    have hidentifier := hname.isIdentifier fun struct hmem => isIdentifier_iff.mpr (hnames struct hmem)
    exact ⟨.name _, _, .identifier (isIdentifier_iff.mp hidentifier), hname, rfl⟩
  | result => exact ⟨.name _, _, .result, .result, rfl⟩
  | @struct definition hmem =>
    exact ⟨.name _, _, .identifier (hnames definition hmem), hcoherent.names hfree hmem, rfl⟩
  | ref _ ih =>
    obtain ⟨tree, inner, hderives, hname, rfl⟩ := ih
    refine ⟨.ref tree, inner, ?_, hname, rfl⟩
    rw [Ty.source, String.toList_append]
    exact .ref hderives
  | @sized member length hlt _ ih =>
    obtain ⟨tree, inner, hderives, hname, rfl⟩ := ih
    refine ⟨.array tree (.sized length), inner, ?_, hname, rfl⟩
    rw [Ty.source]
    exact derives_array hderives (.numeral (numeral_toString length) hlt)
  | unsized _ ih =>
    obtain ⟨tree, inner, hderives, hname, rfl⟩ := ih
    refine ⟨.array tree .unsized, inner, ?_, hname, rfl⟩
    have hclosing : "; *]" = "; " ++ "*" ++ "]" := by decide +kernel
    rw [Ty.source, hclosing, ← String.append_assoc, ← String.append_assoc]
    exact derives_array hderives .star

end Ty

open TypeText in
/-- Against a table that definitions lead to, with structs whose names are identifiers, every type that is
built from integers, references, arrays, success or error values and structs of the table is denoted by
the text that shows it. -/
theorem denote_display (definitions : List StructDef)
    (hnames : ∀ struct ∈ (TypeTable.attemptAll {} definitions).structs, Identifier struct.name.toList)
    {ty : Ty} (hty : ty.Expressible (TypeTable.attemptAll {} definitions)) :
    (TypeTable.attemptAll {} definitions).denote (ty.display false) = .ok ty := by
  have hcoherent := TypeTable.Coherent.empty.attemptAll definitions
  have hfree := TypeTable.Unreserved.empty.attemptAll definitions
  obtain ⟨tree, inner, hderives, hname, rfl⟩ := hty.exists_derives hcoherent hfree hnames
  rw [Ty.display, Style.paint_false, TypeTable.denote, TypeTable.denoteChars_of_read hderives.read,
    TypeTable.named_eq_ok_iff.mpr hname]
  rfl

/-- A point, and a line that refers to points. -/
def drawn : List StructDef := [
  ⟨"Point", [⟨"x", "i32"⟩, ⟨"y", "i32"⟩]⟩,
  ⟨"_line2", [⟨"from", "Point"⟩, ⟨"to", "&Point"⟩]⟩]

/-- The line of that table. -/
def drawnLine : StructTy :=
  let point : StructTy := ⟨"Point", [⟨"x", .i32⟩, ⟨"y", .i32⟩]⟩
  ⟨"_line2", [⟨"from", .struct point⟩, ⟨"to", .ref (.struct point)⟩]⟩

open TypeText in
theorem denote_display_drawn :
    (∀ struct ∈ (TypeTable.attemptAll {} drawn).structs, Identifier struct.name.toList) ∧
    Ty.display false (.array (.ref (.array (.array (.struct drawnLine) .unsized)
      (.sized 18446744073709551615))) (.sized 0)) = "[&[[_line2; *]; 18446744073709551615]; 0]" ∧
    (TypeTable.attemptAll {} drawn).denote (Ty.display false (.array (.ref (.array
      (.array (.struct drawnLine) .unsized) (.sized 18446744073709551615))) (.sized 0))) =
        .ok (.array (.ref (.array (.array (.struct drawnLine) .unsized)
          (.sized 18446744073709551615))) (.sized 0)) := by
  have hnames : ∀ struct ∈ (TypeTable.attemptAll {} drawn).structs, Identifier struct.name.toList := by
    simp only [← isIdentifier_iff]
    decide +kernel
  have hline : drawnLine ∈ (TypeTable.attemptAll {} drawn).structs := by decide +kernel
  refine ⟨hnames, by decide +kernel, denote_display drawn hnames ?_⟩
  exact .sized (by decide) (.ref (.sized (by decide) (.unsized (.struct hline))))

end ThreeAddress
