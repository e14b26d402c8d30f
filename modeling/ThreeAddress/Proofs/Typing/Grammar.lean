import ThreeAddress.Proofs.Typing.Denotation
import ThreeAddress.Proofs.Typing.Lexical

/-!
# The grammar of type texts

Type texts are read from the outside in: blanks are dropped at both ends, a leading character decides, and
an array is split at its last semicolon. This is how one reads the texts of a grammar. What a text denotes
against a table of structs is therefore settled by its derivation, and there is at most one.

## Main definitions

* `TypeTree`: what a derivation builds.
* `TypeTree.Derives`: the grammar of type texts.
* `TypeTree.Read`: the same, level by level as texts are read.

## Main statements

* `TypeTree.derives_iff_read`: texts are read exactly as they are derived.
* `TypeTree.Read.unique`: a text has at most one derivation.
* `denote_iff_derives`: which texts denote a type, and how the others fail.
-/

namespace ThreeAddress

open TypeText (Identifier Length isIdentifier_iff array?_eq_some_iff)

-- ════════════════════════
-- The grammar
-- ════════════════════════

/-- What a type text says, before its name is looked up. -/
inductive TypeTree where
  | name (name : String)
  | ref (target : TypeTree)
  | array (member : TypeTree) (extent : Extent)

namespace TypeTree

/-- The name inside. -/
def base : TypeTree → String
  | .name text => text
  | ref target => target.base
  | array member _ => member.base

/-- The type that a tree denotes if the name inside denotes the given type. -/
def around (inner : Ty) : TypeTree → Ty
  | .name _ => inner
  | ref target => .ref (target.around inner)
  | array member extent => .array (member.around inner) extent

/-- The grammar of type texts. -/
inductive Derives : List Char → TypeTree → Prop
  | pad {before text after : List Char} {tree : TypeTree} (hbefore : Text.Blanks before)
      (hafter : Text.Blanks after) : Derives text tree → Derives (before ++ text ++ after) tree
  | ref {text : List Char} {tree : TypeTree} : Derives text tree → Derives ('&' :: text) (.ref tree)
  | array {text before length after : List Char} {tree : TypeTree} {extent : Extent}
      (hbefore : Text.Blanks before) (hlength : Length length extent) (hafter : Text.Blanks after) :
      Derives text tree →
        Derives ('[' :: (text ++ ';' :: (before ++ length ++ after) ++ [']'])) (.array tree extent)
  | primitive {name : String} (h : name ∈ Width.names.map Prod.fst) :
      Derives name.toList (.name name)
  | result : Derives "Result".toList (.name "Result")
  | identifier {name : String} (h : Identifier name.toList) : Derives name.toList (.name name)

-- ════════════════════════
-- Reading
-- ════════════════════════

/-- What is derived from a text, level by level as it is read. -/
inductive Read : List Char → TypeTree → Prop
  | ref {text target : List Char} {tree : TypeTree}
      (hread : TypeText.read (Text.trim text) = .ref target) : Read target tree → Read text (.ref tree)
  | array {text member : List Char} {tree : TypeTree} {extent : Extent}
      (hread : TypeText.read (Text.trim text) = .array member extent) :
      Read member tree → Read text (.array tree extent)
  | name {text : List Char} {name : String} (hread : TypeText.read (Text.trim text) = .name name)
      (h : isIdentifier name) : Read text (.name name)

/-- Only what remains between the blanks matters. -/
theorem Read.congr {text text' : List Char} {tree : TypeTree} (h : Read text tree)
    (htrim : Text.trim text' = Text.trim text) : Read text' tree := by
  cases h with
  | ref hread h => exact .ref (htrim ▸ hread) h
  | array hread h => exact .array (htrim ▸ hread) h
  | name hread h => exact .name (htrim ▸ hread) h

/-- An identifier opens with none of the characters that a reference or an array opens with. -/
theorem read_identifier {name : String} (h : Identifier name.toList) :
    TypeText.read (Text.trim name.toList) = .name name := by
  rw [Text.trim_eq_self h.not_isBlank]
  unfold TypeText.read
  split
  · next heq =>
    rw [heq] at h
    obtain ⟨hfirst, -⟩ := h
    exact absurd hfirst (by decide)
  · next heq =>
    rw [heq] at h
    obtain ⟨hfirst, -⟩ := h
    exact absurd hfirst (by decide)
  · rw [String.ofList_toList]

theorem read_of_isIdentifier {name : String} (h : isIdentifier name) :
    Read name.toList (.name name) :=
  .name (read_identifier (isIdentifier_iff.mp h)) h

/-- Primitive names are identifiers. -/
theorem isIdentifier_of_mem_names {name : String} (h : name ∈ Width.names.map Prod.fst) :
    isIdentifier name := by
  revert name
  decide

theorem Derives.read {text : List Char} {tree : TypeTree} (h : Derives text tree) :
    Read text tree := by
  induction h with
  | pad hbefore hafter _ ih => exact ih.congr (Text.trim_append hbefore hafter)
  | @ref text tree _ ih =>
    have hread : TypeText.read (Text.trim ('&' :: text)) = .ref (Text.trimRight text) := by
      rw [Text.trim_cons (by decide)]
      rfl
    exact .ref hread (ih.congr (Text.trim_trimRight text))
  | @array text before length after tree extent hbefore hlength hafter _ ih =>
    refine .array ?_ ih
    have hinner : TypeText.array? (text ++ ';' :: (before ++ length ++ after) ++ [']']) =
        some (text, extent) :=
      array?_eq_some_iff.mpr ⟨before, length, after, hbefore, hlength, hafter, rfl⟩
    rw [Text.trim_cons (by decide), Text.trimRight_append_singleton (by decide), TypeText.read, hinner]
  | primitive h => exact read_of_isIdentifier (isIdentifier_of_mem_names h)
  | result => exact read_of_isIdentifier (by decide)
  | identifier h => exact read_of_isIdentifier (isIdentifier_iff.mpr h)

/-- A level is read off a text that spells it. -/
theorem eq_of_read_ref {text target : List Char} (h : TypeText.read text = .ref target) :
    text = '&' :: target := by
  unfold TypeText.read at h
  split at h
  · cases h
    rfl
  · split at h <;> cases h
  · cases h

theorem eq_of_read_array {text member : List Char} {extent : Extent}
    (h : TypeText.read text = .array member extent) :
    ∃ inner, text = '[' :: inner ∧ TypeText.array? inner = some (member, extent) := by
  unfold TypeText.read at h
  split at h
  · cases h
  · next inner =>
    cases hinner : TypeText.array? inner with
    | none =>
      rw [hinner] at h
      cases h
    | some parts =>
      rw [hinner] at h
      cases h
      exact ⟨inner, rfl, hinner⟩
  · cases h

theorem eq_of_read_name {text : List Char} {name : String} (h : TypeText.read text = .name name) :
    text = name.toList := by
  unfold TypeText.read at h
  split at h
  · cases h
  · split at h <;> cases h
  · cases h
    rw [String.toList_ofList]

theorem Read.derives {text : List Char} {tree : TypeTree} (h : Read text tree) :
    Derives text tree := by
  have hpad : ∀ {text tree}, Derives (Text.trim text) tree → Derives text tree := by
    intro text tree hderives
    obtain ⟨before, after, hbefore, hafter, heq⟩ := Text.exists_trim_append text
    rw [heq]
    exact .pad hbefore hafter hderives
  induction h with
  | ref hread _ ih =>
    refine hpad ?_
    rw [eq_of_read_ref hread]
    exact .ref ih
  | array hread _ ih =>
    refine hpad ?_
    obtain ⟨inner, heq, hinner⟩ := eq_of_read_array hread
    obtain ⟨before, length, after, hbefore, hlength, hafter, rfl⟩ := array?_eq_some_iff.mp hinner
    rw [heq]
    exact .array hbefore hlength hafter ih
  | name hread h =>
    refine hpad ?_
    rw [eq_of_read_name hread]
    exact .identifier (isIdentifier_iff.mp h)

/-- Texts are read exactly as they are derived. -/
theorem derives_iff_read {text : List Char} {tree : TypeTree} : Derives text tree ↔ Read text tree :=
  ⟨Derives.read, Read.derives⟩

/-- A text has at most one derivation. -/
theorem Read.unique {text : List Char} {tree tree' : TypeTree} (h : Read text tree)
    (h' : Read text tree') : tree = tree' := by
  induction h generalizing tree' with
  | ref hread _ ih =>
    cases h' with
    | ref hread' h' =>
      cases hread.symm.trans hread'
      rw [ih h']
    | array hread' | name hread' => cases hread.symm.trans hread'
  | array hread _ ih =>
    cases h' with
    | array hread' h' =>
      cases hread.symm.trans hread'
      rw [ih h']
    | ref hread' | name hread' => cases hread.symm.trans hread'
  | name hread _ =>
    cases h' with
    | name hread' => cases hread.symm.trans hread'; rfl
    | ref hread' | array hread' => cases hread.symm.trans hread'

end TypeTree

-- ════════════════════════
-- What texts denote
-- ════════════════════════

namespace TypeTable

variable {table : TypeTable} {text : List Char} {tree : TypeTree}

/-- A text is read one level at a time. -/
theorem denoteChars_of_read_ref {target : List Char}
    (h : TypeText.read (Text.trim text) = .ref target) :
    table.denoteChars text = (table.denoteChars target).map .ref := by
  rw [denoteChars]
  split <;> simp_all

theorem denoteChars_of_read_array {member : List Char} {extent : Extent}
    (h : TypeText.read (Text.trim text) = .array member extent) :
    table.denoteChars text = (table.denoteChars member).map fun ty => .array ty extent := by
  rw [denoteChars]
  split <;> simp_all

theorem denoteChars_of_read_name {name : String}
    (h : TypeText.read (Text.trim text) = .name name) :
    table.denoteChars text = table.named name := by
  rw [denoteChars]
  split <;> simp_all

theorem denoteChars_of_read_malformed (h : TypeText.read (Text.trim text) = .malformed) :
    table.denoteChars text = .error (.malformedType (String.ofList (Text.trim text))) := by
  rw [denoteChars]
  split <;> simp_all

/-- What a derived text denotes is settled by the name inside. -/
theorem denoteChars_of_read (h : tree.Read text) :
    table.denoteChars text = (table.named tree.base).map fun ty => tree.around ty := by
  induction h with
  | @ref _ _ inner hread _ ih =>
    rw [denoteChars_of_read_ref hread, ih, TypeTree.base]
    cases table.named inner.base <;> rfl
  | @array _ _ inner _ hread _ ih =>
    rw [denoteChars_of_read_array hread, ih, TypeTree.base]
    cases table.named inner.base <;> rfl
  | @name _ name hread _ =>
    rw [denoteChars_of_read_name hread, TypeTree.base]
    cases table.named name <;> rfl

/-- What names nothing is unknown if it is an identifier. -/
theorem named_of_not_names {name : String} (h : ¬∃ ty, table.Names name ty) :
    table.named name =
      .error (if isIdentifier name then .unknownType name else .malformedType name) := by
  cases hnamed : table.named name with
  | ok ty => exact absurd ⟨ty, named_eq_ok_iff.mp hnamed⟩ h
  | error diagnostic =>
    rw [named] at hnamed
    split at hnamed
    · cases hnamed
    · split at hnamed
      · cases hnamed
      · split at hnamed
        · cases hnamed
        · exact hnamed.symm

/-- Every name that means something is an identifier if the names of the structs are. -/
theorem Names.isIdentifier {name : String} {ty : Ty} (h : table.Names name ty)
    (hnames : ∀ struct ∈ table.structs, isIdentifier struct.name) : isIdentifier name := by
  cases h with
  | @int _ width hwidth =>
    refine TypeTree.isIdentifier_of_mem_names (List.mem_map.mpr ⟨(name, width), ?_, rfl⟩)
    obtain ⟨before, after, hnames, -⟩ := List.lookup_eq_some_iff.mp hwidth
    rw [hnames]
    exact List.mem_append_right _ List.mem_cons_self
  | result => decide
  | @struct _ definition _ _ hfound =>
    have hname : definition.name = name := by simpa using List.find?_some hfound
    exact hname ▸ hnames definition (List.mem_of_find?_eq_some hfound)

theorem isIdentifier_base (h : tree.Read text) : isIdentifier tree.base := by
  induction h with
  | ref _ _ ih => exact ih
  | array _ _ ih => exact ih
  | name _ h => exact h

/-- A text that is not derived is malformed. -/
theorem exists_malformedType (hnames : ∀ struct ∈ table.structs, isIdentifier struct.name)
    {text : List Char} (h : ¬∃ tree : TypeTree, tree.Read text) :
    ∃ detail, table.denoteChars text = .error (.malformedType detail) := by
  cases hread : TypeText.read (Text.trim text) with
  | ref target =>
    have hshorter := TypeText.length_of_read_ref hread
    have htrimmed := Text.length_trim_le text
    have hinner : ¬∃ tree, TypeTree.Read target tree := fun ⟨_, htree⟩ => h ⟨_, .ref hread htree⟩
    obtain ⟨detail, hdetail⟩ := exists_malformedType hnames hinner
    exact ⟨detail, by rw [denoteChars_of_read_ref hread, hdetail]; rfl⟩
  | array member extent =>
    have hshorter := TypeText.length_of_read_array hread
    have htrimmed := Text.length_trim_le text
    have hinner : ¬∃ tree, TypeTree.Read member tree := fun ⟨_, htree⟩ => h ⟨_, .array hread htree⟩
    obtain ⟨detail, hdetail⟩ := exists_malformedType hnames hinner
    exact ⟨detail, by rw [denoteChars_of_read_array hread, hdetail]; rfl⟩
  | name name =>
    have hname : ¬isIdentifier name := fun hname => h ⟨_, .name hread hname⟩
    refine ⟨name, ?_⟩
    rw [denoteChars_of_read_name hread, named_of_not_names, if_neg hname]
    exact fun ⟨_, hnamed⟩ => hname (hnamed.isIdentifier hnames)
  | malformed => exact ⟨_, denoteChars_of_read_malformed hread⟩
termination_by text.length
decreasing_by all_goals omega

/-- A text has a known name inside, an unknown name inside, or no derivation. -/
theorem denoteChars_cases (hnames : ∀ struct ∈ table.structs, isIdentifier struct.name)
    (text : List Char) :
    (∃ tree inner, TypeTree.Read text tree ∧ table.Names tree.base inner ∧
      table.denoteChars text = .ok (tree.around inner)) ∨
    (∃ tree, TypeTree.Read text tree ∧ (¬∃ ty, table.Names tree.base ty) ∧
      table.denoteChars text = .error (.unknownType tree.base)) ∨
    (¬∃ tree, TypeTree.Read text tree) ∧
      ∃ detail, table.denoteChars text = .error (.malformedType detail) := by
  by_cases hread : ∃ tree, TypeTree.Read text tree
  · obtain ⟨tree, htree⟩ := hread
    have hdenote : table.denoteChars text = _ := denoteChars_of_read htree
    by_cases hnamed : ∃ inner, table.Names tree.base inner
    · obtain ⟨inner, hinner⟩ := hnamed
      rw [named_eq_ok_iff.mpr hinner] at hdenote
      exact Or.inl ⟨tree, inner, htree, hinner, hdenote⟩
    · rw [named_of_not_names hnamed, if_pos (isIdentifier_base htree)] at hdenote
      exact Or.inr (Or.inl ⟨tree, htree, hnamed, hdenote⟩)
  · exact Or.inr (Or.inr ⟨hread, exists_malformedType hnames hread⟩)

theorem Names.unique {name : String} {ty ty' : Ty} (h : table.Names name ty)
    (h' : table.Names name ty') : ty = ty' := by
  have heq := (named_eq_ok_iff.mpr h).symm.trans (named_eq_ok_iff.mpr h')
  injection heq

end TypeTable

open TypeTree in
/-- Against structs whose names are identifiers, a text denotes a type if and only if it has a derivation
whose name is known, and then the type is the one that its only derivation denotes. A derived text
whose name is not known is reported with that name, and any other text is malformed. -/
theorem denote_iff_derives {table : TypeTable}
    (hnames : ∀ struct ∈ table.structs, Identifier struct.name.toList) (text : String) :
    (∀ tree tree', Derives text.toList tree → Derives text.toList tree' → tree = tree') ∧
    (∀ ty, table.denote text = .ok ty ↔
      ∃ tree inner, Derives text.toList tree ∧ table.Names tree.base inner ∧ ty = tree.around inner) ∧
    (∀ name, table.denote text = .error (.unknownType name) ↔
      ∃ tree, Derives text.toList tree ∧ tree.base = name ∧ ¬∃ ty, table.Names name ty) ∧
    ((∃ detail, table.denote text = .error (.malformedType detail)) ↔
      ¬∃ tree, Derives text.toList tree) ∧
    ∀ fault, table.denote text ≠ .error (.internal fault) := by
  simp only [derives_iff_read, TypeTable.denote, ← isIdentifier_iff] at hnames ⊢
  refine ⟨fun _ _ => Read.unique, ?_⟩
  obtain ⟨tree, inner, htree, hinner, hdenote⟩ | ⟨tree, htree, hnone, hdenote⟩ | ⟨hread, detail, hdenote⟩ :=
    TypeTable.denoteChars_cases hnames text.toList
  · rw [hdenote]
    refine ⟨fun ty => ⟨?_, ?_⟩, fun name => ⟨by simp, ?_⟩, ⟨by simp, fun h => absurd ⟨tree, htree⟩ h⟩, by simp⟩
    · rintro ⟨⟩
      exact ⟨tree, inner, htree, hinner, rfl⟩
    · rintro ⟨tree', inner', htree', hinner', rfl⟩
      cases htree'.unique htree
      rw [hinner'.unique hinner]
    · rintro ⟨tree', htree', rfl, hnone⟩
      cases htree'.unique htree
      exact absurd ⟨inner, hinner⟩ hnone
  · rw [hdenote]
    refine ⟨fun ty => ⟨by simp, ?_⟩, fun name => ⟨?_, ?_⟩, ⟨by simp, fun h => absurd ⟨tree, htree⟩ h⟩, by simp⟩
    · rintro ⟨tree', inner, htree', hinner, -⟩
      cases htree'.unique htree
      exact absurd ⟨inner, hinner⟩ hnone
    · rintro ⟨⟩
      exact ⟨tree, htree, rfl, hnone⟩
    · rintro ⟨tree', htree', rfl, -⟩
      cases htree'.unique htree
      rfl
  · rw [hdenote]
    refine ⟨fun ty => ⟨by simp, ?_⟩, fun name => ⟨by simp, ?_⟩, ⟨fun _ => hread, fun _ => ⟨detail, rfl⟩⟩, by simp⟩
    · rintro ⟨tree, _, htree, -⟩
      exact absurd ⟨tree, htree⟩ hread
    · rintro ⟨tree, htree, -⟩
      exact absurd ⟨tree, htree⟩ hread

/-- A table with one struct. -/
def pointed : TypeTable := ⟨[⟨"Point", [⟨"x", .int .i32⟩]⟩]⟩

open TypeTree in
theorem denote_pointed : (∀ struct ∈ pointed.structs, Identifier struct.name.toList) ∧
    pointed.denote " [&[Point;*] ; +03]" =
      .ok (.array (.ref (.array (.struct ⟨"Point", [⟨"x", .int .i32⟩]⟩) .unsized)) (.sized 3)) ∧
    pointed.denote "&Shape" = .error (.unknownType "Shape") := by
  have hnames : ∀ struct ∈ pointed.structs, Identifier struct.name.toList := by
    simp only [← isIdentifier_iff]
    decide
  have hblank : Text.Blanks [' '] := by simp [Text.Blanks]; decide
  have hnone : Text.Blanks [] := by simp [Text.Blanks]
  have hpoint : Derives "Point".toList (.name "Point") :=
    .identifier (isIdentifier_iff.mp (by decide))
  have hpoints : Derives (['&', '[', 'P', 'o', 'i', 'n', 't', ';', '*', ']'] ++ [' '])
      (.ref (.array (.name "Point") .unsized)) :=
    .pad hnone hblank (.ref (.array hnone .star hnone hpoint))
  have hthree : TypeText.Numeral ['0', '3'] 3 := .snoc (by decide) (.digit (c := '0') (by decide))
  have harray := Derives.pad hblank hnone (.array hblank (.plus hthree (by decide)) hnone hpoints)
  refine ⟨hnames, ?_, ?_⟩
  · exact ((denote_iff_derives hnames _).2.1 _).mpr
      ⟨_, _, harray, .struct (by decide) (by decide) rfl, rfl⟩
  · have hshape : Derives "Shape".toList (.name "Shape") :=
      .identifier (isIdentifier_iff.mp (by decide))
    refine ((denote_iff_derives hnames _).2.2.1 _).mpr ⟨_, .ref hshape, rfl, ?_⟩
    simp only [← TypeTable.named_eq_ok_iff]
    rintro ⟨ty, h⟩
    cases h

end ThreeAddress
