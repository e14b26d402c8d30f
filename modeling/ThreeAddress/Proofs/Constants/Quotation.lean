import ThreeAddress.Proofs.Emission.Lines

/-!
# Quoted texts

The line of a text constant holds its bytes between quotes. Most printable characters stand for themselves
and everything else is escaped by a backslash and two hexadecimal digits. A reader takes what stands
between the quotes and undoes the escapes. It gets the bytes back, whatever they are, with a zero byte
behind them: no byte ends the quotation early, and no digit that follows an escape is taken for a part
of it.

## Main definitions

* `Declaration.quotation`: what stands between the quotes of a line.
* `Declaration.unescaped`: the bytes that characters between quotes stand for.

## Main statements

* `Declaration.unescaped_of_unquoted`: strict reading and lenient reading agree.
* `Declaration.isPrintable_of_mem_quotedBytes`: only printable characters are written.
* `unescaped_quotation_line`: text constants are read back, so their lines differ.
-/

namespace ThreeAddress

namespace Declaration

/-- What stands between the last two quotes of a line that ends with one of them. -/
def quotation (line : String) : List Char :=
  ((line.toList.reverse.drop 1).takeWhile (· ≠ '"')).reverse

/-- The bytes that characters between quotes stand for. A backslash with two hexadecimal digits behind it,
in upper or lower case, is the byte of that number, and any other character is itself. -/
def unescaped : List Char → List UInt8
  | [] => []
  | '\\' :: high :: low :: rest =>
    match hexValue? high.toUpper, hexValue? low.toUpper with
    | some first, some second => UInt8.ofNat (16 * first + second) :: unescaped rest
    | _, _ => String.utf8EncodeChar '\\' ++ unescaped (high :: low :: rest)
  | character :: rest => String.utf8EncodeChar character ++ unescaped rest

/-- The characters of ASCII that show something, and the space. -/
def IsPrintable (character : Char) : Prop := ' ' ≤ character ∧ character ≤ '~'

instance : DecidablePred IsPrintable := fun _ => inferInstanceAs (Decidable (_ ∧ _))

theorem toUpper_of_hexValue? {digit : Char} {value : Nat} (h : hexValue? digit = some value) :
    digit.toUpper = digit := by
  have hle : digit.toNat ≤ 'F'.toNat := by
    unfold hexValue? at h
    split at h
    · next hdigit => exact (Char.isDigit_iff_toNat.mp hdigit).2.trans (by decide)
    · split at h
      · next hletter => exact hletter.2
      · cases h
  refine dif_neg fun hlower => ?_
  have hge : 'a'.toNat ≤ digit.toNat := hlower.1
  exact absurd (hge.trans hle) (by decide)

/-- An ASCII character is encoded by its number. -/
theorem utf8EncodeChar_ascii {character : Char} (h : character.toNat < 128) :
    String.utf8EncodeChar character = [UInt8.ofNat character.toNat] := by
  refine String.utf8EncodeChar_eq_singleton (Char.utf8Size_eq_one_iff.mpr ?_)
  exact Nat.le_of_lt_succ h

/-- What is read back by the strict rule is read the same way by the lenient one. -/
theorem unescaped_of_unquoted {text : List Char} {bytes : List UInt8} (h : unquoted text = some bytes) :
    unescaped text = bytes := by
  fun_induction unquoted text generalizing bytes with
  | case1 =>
    cases h
    rfl
  | case2 high low rest ih =>
    simp only [bind, Option.bind_eq_some_iff, pure, Option.some.injEq] at h
    obtain ⟨first, hfirst, second, hsecond, others, hothers, rfl⟩ := h
    rw [unescaped, toUpper_of_hexValue? hfirst, toUpper_of_hexValue? hsecond, hfirst, hsecond]
    simp only [ih hothers]
  | case3 character rest hshort hplain ih =>
    obtain ⟨others, hothers, rfl⟩ := Option.map_eq_some_iff.mp h
    simp only [Bool.and_eq_true, decide_eq_true_eq] at hplain
    rw [unescaped, utf8EncodeChar_ascii hplain.1.1, ih hothers, List.singleton_append]
    exact hshort
  | case4 => cases h

/-- Only printable characters are written for a byte, and no quote. -/
theorem isPrintable_of_mem_quotedByte {byte : UInt8} {character : Char}
    (h : character ∈ quotedByte byte) : IsPrintable character ∧ character ≠ '"' := by
  have hdigit : ∀ n, n < 16 → IsPrintable (hexDigit n) ∧ hexDigit n ≠ '"' := by decide
  have hplain : ∀ n : Fin 256, isPlain (UInt8.ofNat n) →
      IsPrintable (Char.ofNat n) ∧ Char.ofNat n ≠ '"' := by decide +kernel
  have hlt := byte.toNat_lt
  rw [quotedByte] at h
  split at h
  · next hbyte =>
    rw [List.mem_singleton.mp h]
    exact hplain ⟨byte.toNat, hlt⟩ (by simpa using hbyte)
  · simp only [List.mem_cons, List.not_mem_nil, or_false] at h
    rcases h with rfl | rfl | rfl
    · decide
    · exact hdigit _ (by omega)
    · exact hdigit _ (by omega)

theorem isPrintable_of_mem_quotedBytes {bytes : List UInt8} {character : Char}
    (h : character ∈ (quotedBytes bytes ++ "\\00").toList) :
    IsPrintable character ∧ character ≠ '"' := by
  rw [String.toList_append, List.mem_append, quotedBytes, String.toList_ofList] at h
  rcases h with h | h
  · obtain ⟨byte, -, hmem⟩ := List.mem_flatMap.mp h
    exact isPrintable_of_mem_quotedByte hmem
  · have hzero : "\\00".toList = ['\\', '0', '0'] := by decide +kernel
    rw [hzero] at h
    simp only [List.mem_cons, List.not_mem_nil, or_false] at h
    rcases h with rfl | rfl | rfl <;> decide

/-- A text without quotes is found between quotes at the end of a line. -/
theorem quotation_append (front : String) {text : String} (h : '"' ∉ text.toList) :
    quotation (front ++ "\"" ++ text ++ "\"") = text.toList := by
  have hline : (front ++ "\"" ++ text ++ "\"").toList =
      front.toList ++ ['"'] ++ text.toList ++ ['"'] := by
    simp only [String.toList_append]
    rfl
  have htext : ∀ character ∈ text.toList.reverse, decide (character ≠ '"') = true := by
    intro character hmem
    rw [List.mem_reverse] at hmem
    exact decide_eq_true fun heq => h (heq ▸ hmem)
  rw [quotation, hline, List.reverse_append, List.reverse_append, List.reverse_append]
  show (((text.toList.reverse ++ ('"' :: front.toList.reverse))).takeWhile _).reverse = _
  rw [List.takeWhile_append_of_pos htext, List.takeWhile_cons_of_neg (by decide), List.append_nil,
    List.reverse_reverse]

/-- The line of a text constant from its opening quote on. -/
theorem line_textConstant (name : String) (bytes : List UInt8) :
    (textConstant name bytes).line = "@" ++ name ++ " = private unnamed_addr constant [" ++
      toString (bytes.length + 1) ++ " x i8] c\"" ++ (quotedBytes bytes ++ "\\00") ++ "\"" := by
  have hclosing : "\\00\"" = "\\00" ++ "\"" := by decide +kernel
  show _ ++ "\\00\"" = _
  rw [hclosing]
  simp only [String.append_assoc]
  rfl

theorem quotation_line (name : String) (bytes : List UInt8) :
    quotation (textConstant name bytes).line = (quotedBytes bytes ++ "\\00").toList := by
  have hopening : " x i8] c\"" = " x i8] c" ++ "\"" := by decide +kernel
  rw [line_textConstant, hopening, ← @String.append_assoc _ " x i8] c" _]
  exact quotation_append _ fun hmem => (isPrintable_of_mem_quotedBytes hmem).2 rfl

/-- The bytes of a text constant are read back from its line. -/
theorem unescaped_quotation (name : String) (bytes : List UInt8) :
    unescaped (quotation (textConstant name bytes).line) = bytes ++ [0] := by
  rw [quotation_line]
  exact unescaped_of_unquoted (unquoted_quotedBytes bytes)

end Declaration

open Declaration in
/-- The line of a text constant holds its bytes between quotes, in printable characters other than the
quote. Read back they are the bytes with a zero byte behind them, and the length that is written in front
is the number of bytes read. So no two texts have the same line. -/
theorem unescaped_quotation_line (name : String) (bytes : List UInt8) :
    (∃ quoted : String, quotation (textConstant name bytes).line = quoted.toList ∧
      (textConstant name bytes).line = "@" ++ name ++ " = private unnamed_addr constant [" ++
        toString (unescaped quoted.toList).length ++ " x i8] c\"" ++ quoted ++ "\"" ∧
      (∀ character ∈ quoted.toList, IsPrintable character ∧ character ≠ '"') ∧
      unescaped quoted.toList = bytes ++ [0]) ∧
    ∀ other bytes', (textConstant name bytes).line = (textConstant other bytes').line →
      bytes = bytes' := by
  have hread := unescaped_quotation name bytes
  constructor
  · refine ⟨quotedBytes bytes ++ "\\00", quotation_line name bytes, ?_,
      fun _ => isPrintable_of_mem_quotedBytes, quotation_line name bytes ▸ hread⟩
    rw [← quotation_line name bytes, hread, List.length_append]
    exact line_textConstant name bytes
  · intro other bytes' hline
    rw [hline, unescaped_quotation] at hread
    exact (List.append_left_inj [0]).mp hread.symm

/-- A quote, a backslash, a letter of two bytes, an escaped byte with a digit behind it, and a zero byte. -/
def awkward : List UInt8 := [0x22, 0x5C, 0xC3, 0xA9, 0x0A, 0x34, 0x00]

open Declaration in
theorem unescaped_quotation_awkward :
    (textConstant "str" awkward).line =
      "@str = private unnamed_addr constant [8 x i8] c\"\\22\\5C\\C3\\A9\\0A4\\00\\00\"" ∧
    (∃ quoted : String, quotation (textConstant "str" awkward).line = quoted.toList ∧
      quoted = "\\22\\5C\\C3\\A9\\0A4\\00\\00" ∧
      unescaped quoted.toList = [0x22, 0x5C, 0xC3, 0xA9, 0x0A, 0x34, 0x00, 0x00]) ∧
    ∀ other bytes', (textConstant "str" awkward).line = (textConstant other bytes').line →
      awkward = bytes' := by
  obtain ⟨⟨quoted, hquotation, -, -, hread⟩, hinjective⟩ := unescaped_quotation_line "str" awkward
  have hquoted : quotation (textConstant "str" awkward).line =
      "\\22\\5C\\C3\\A9\\0A4\\00\\00".toList := by decide +kernel
  exact ⟨by decide +kernel, ⟨quoted, hquotation,
    String.toList_inj.mp (hquotation.symm.trans hquoted), hread⟩, hinjective⟩

end ThreeAddress
