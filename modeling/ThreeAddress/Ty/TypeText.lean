import ThreeAddress.Text.Blank
import ThreeAddress.Text.Decimal
import ThreeAddress.Ty.Basic

/-!
# Type texts

A type text is read from the outside in. This module reads one level: a reference, an array or a
name.

## Main definitions

* `TypeText`: what the outermost level of a type text says.
* `TypeText.read`: the outermost level of a text.
* `TypeText.length_of_read_ref`, `TypeText.length_of_read_array`: the text inside is shorter.

## Design notes

The text of an array is split at its last semicolon, so the members of an array may be arrays.
-/

namespace ThreeAddress

/-- What the outermost level of a type text says. -/
inductive TypeText where
  /-- A reference to what the rest denotes. -/
  | ref (target : List Char)
  /-- An array of what `member` denotes. -/
  | array (member : List Char) (extent : Extent)
  /-- A name. -/
  | name (name : String)
  /-- Brackets that enclose no array. -/
  | malformed

namespace TypeText

/-- The extent of an array. -/
def extent? (text : List Char) : Option Extent :=
  match Text.trim text with
  | ['*'] => some .unsized
  | numeral => (Text.readWord? numeral).map .sized

/-- The parts of a text in front of and behind its last semicolon. -/
def splitLast? : List Char → Option (List Char × List Char)
  | [] => none
  | c :: rest =>
    match splitLast? rest with
    | some (front, back) => some (c :: front, back)
    | none => if c = ';' then some ([], rest) else none

/-- The inside of an array type: the text of its members and its extent. The text starts behind the
opening bracket. -/
def array? (text : List Char) : Option (List Char × Extent) :=
  if text.getLast? = some ']' then
    match splitLast? text.dropLast with
    | some (member, length) => (extent? length).map fun extent => (member, extent)
    | none => none
  else
    none

/-- Reads the outermost level of a text without blanks at its ends. -/
def read : List Char → TypeText
  | '&' :: target => .ref target
  | '[' :: inner =>
    match array? inner with
    | some (member, extent) => .array member extent
    | none => .malformed
  | text => .name (String.ofList text)

theorem length_splitLast? {text front back : List Char} (h : splitLast? text = some (front, back)) :
    front.length < text.length := by
  induction text generalizing front with
  | nil => simp [splitLast?] at h
  | cons c rest ih =>
    simp only [splitLast?] at h
    split at h
    · rename_i found
      simp only [Option.some.injEq, Prod.mk.injEq] at h
      obtain ⟨rfl, rfl⟩ := h
      simpa using ih found
    · split at h
      · simp only [Option.some.injEq, Prod.mk.injEq] at h
        obtain ⟨rfl, rfl⟩ := h
        simp
      · simp at h

theorem length_array? {text member : List Char} {extent : Extent}
    (h : array? text = some (member, extent)) : member.length < text.length := by
  unfold array? at h
  split at h
  · split at h
    · rename_i found
      simp only [Option.map_eq_some_iff, Prod.mk.injEq] at h
      obtain ⟨_, -, rfl, -⟩ := h
      have shorter := length_splitLast? found
      rw [List.length_dropLast] at shorter
      omega
    · simp at h
  · simp at h

/-- The text of a reference's target is shorter than the whole. -/
theorem length_of_read_ref {text target : List Char} (h : read text = .ref target) :
    target.length < text.length := by
  unfold read at h
  split at h
  · simp_all
  · split at h <;> simp at h
  · simp at h

/-- The text of an array's members is shorter than the whole. -/
theorem length_of_read_array {text member : List Char} {extent : Extent}
    (h : read text = .array member extent) : member.length < text.length := by
  unfold read at h
  split at h
  · simp at h
  · split at h
    · rename_i found
      simp only [TypeText.array.injEq] at h
      obtain ⟨rfl, rfl⟩ := h
      have shorter := length_array? found
      simp only [List.length_cons]
      omega
    · simp at h
  · simp at h

end TypeText

end ThreeAddress
