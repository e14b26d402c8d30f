import Mathlib.Data.List.Forall2
import Mathlib.Data.Option.Basic
import Mathlib.Logic.Equiv.Basic
import ThreeAddress.Program

/-!
# Code up to names

Two pieces of code are the same up to names if they differ only in their registers, labels and
symbols. That is said twice: by a relation between the names of the two, which can grow while both
are produced, and by functions that rename one into the other.

## Main definitions

* `Instr.Matches`: two instructions are the same up to related names.
* `Instr.rename`, `FunctionCode.rename`: code with other registers, labels and symbols.

## Main statements

* `Instr.Matches.mono`: more related names keep instructions the same.
* `Instr.Matches.rename_eq`: functions that respect the relations rename one into the other.
* `exists_perm_of_nodup`: names that are paired one to one are paired by a permutation.
-/

namespace ThreeAddress

-- ════════════════════════
-- Pairs of names
-- ════════════════════════

/-- If names are paired one to one, some permutation of all names maps each to its partner. -/
theorem exists_perm_of_nodup {pairs : List (String × String)} (hleft : (pairs.map Prod.fst).Nodup)
    (hright : (pairs.map Prod.snd).Nodup) :
    ∃ change : Equiv.Perm String, ∀ pair ∈ pairs, change pair.1 = pair.2 := by
  induction pairs with
  | nil => exact ⟨Equiv.refl _, by simp⟩
  | cons pair rest ih =>
    rw [List.map_cons, List.nodup_cons] at hleft hright
    obtain ⟨change, hchange⟩ := ih hleft.2 hright.2
    -- the swap corrects the first pair and touches no name that is paired already
    refine ⟨change.trans (Equiv.swap (change pair.1) pair.2), List.forall_mem_cons.mpr ⟨?_, ?_⟩⟩
    · exact Equiv.swap_apply_left _ _
    · intro other hmem
      have hne : other.1 ≠ pair.1 := fun heq => hleft.1 (heq ▸ List.mem_map_of_mem hmem)
      have hne' : other.2 ≠ pair.2 := fun heq => hright.1 (heq ▸ List.mem_map_of_mem hmem)
      rw [Equiv.trans_apply, hchange other hmem]
      refine Equiv.swap_apply_of_ne_of_ne ?_ hne'
      rw [← hchange other hmem]
      exact fun heq => hne (change.injective heq)

theorem optionRel_imp {α β : Type} {related related' : α → β → Prop}
    (h : ∀ a b, related a b → related' a b) {first : Option α} {second : Option β}
    (hrelated : Option.Rel related first second) : Option.Rel related' first second := by
  cases hrelated with
  | some hrelated => exact .some (h _ _ hrelated)
  | none => exact .none

/-- Lists that are related element by element are mapped into each other. -/
theorem map_eq_of_forall₂ {α : Type} {related : α → α → Prop} {change : α → α} {first second : List α}
    (h : List.Forall₂ related first second) (hchange : ∀ a b, related a b → change a = b) :
    first.map change = second := by
  induction h with
  | nil => rfl
  | cons hhead _ ih => rw [List.map_cons, hchange _ _ hhead, ih]

theorem exists_perm_map_eq {names others : List String} (hlength : names.length = others.length)
    (hnames : names.Nodup) (hothers : others.Nodup) :
    ∃ change : Equiv.Perm String, names.map change = others := by
  rw [← List.map_fst_zip (Nat.le_of_eq hlength)] at hnames
  rw [← List.map_snd_zip (Nat.le_of_eq hlength.symm)] at hothers
  obtain ⟨change, hchange⟩ := exists_perm_of_nodup hnames hothers
  have hzip : List.Forall₂ (fun name other => change name = other) names others :=
    List.forall₂_iff_zip.mpr ⟨hlength, fun hmem => hchange _ hmem⟩
  exact ⟨change, map_eq_of_forall₂ hzip fun _ _ heq => heq⟩

-- ════════════════════════
-- Related code
-- ════════════════════════

/-- Two operands are the same up to related registers and symbols. -/
inductive Operand.Matches (registers symbols : String → String → Prop) : Operand → Operand → Prop
  | register {name other : String} (h : registers name other) :
    Matches registers symbols (.register name) (.register other)
  | global {name other : String} (h : symbols name other) :
    Matches registers symbols (.global name) (.global other)
  | immediate (value : Int) : Matches registers symbols (.immediate value) (.immediate value)
  | boolean (value : Bool) : Matches registers symbols (.boolean value) (.boolean value)

/-- Two values are the same up to related registers and symbols. -/
structure Value.Matches (registers symbols : String → String → Prop) (value other : Value) :
    Prop where
  operand : Operand.Matches registers symbols value.operand other.operand
  ty : value.ty = other.ty

/-- Two instructions are the same up to related registers, labels and symbols. -/
inductive Instr.Matches (registers symbols : String → String → Prop) : Instr → Instr → Prop
  | label {name other : String} (h : registers name other) :
    Matches registers symbols (.label name) (.label other)
  | alloca {target other : String} (h : registers target other) (ty : Ty) :
    Matches registers symbols (.alloca target ty) (.alloca other ty)
  | load {target other : String} {address address' : Operand} (h : registers target other) (ty : Ty)
      (haddress : Operand.Matches registers symbols address address') :
    Matches registers symbols (.load target ty address) (.load other ty address')
  | store {value value' : Value} {address address' : Operand}
      (hvalue : Value.Matches registers symbols value value')
      (haddress : Operand.Matches registers symbols address address') :
    Matches registers symbols (.store value address) (.store value' address')
  | elementAddress {target other : String} {address address' : Operand}
      {indices indices' : List Value} (h : registers target other) (base : Ty)
      (haddress : Operand.Matches registers symbols address address')
      (hindices : List.Forall₂ (Value.Matches registers symbols) indices indices')
      (inbounds : Bool) :
    Matches registers symbols (.elementAddress target base address indices inbounds)
      (.elementAddress other base address' indices' inbounds)
  | arithmetic {target other : String} {lhs lhs' rhs rhs' : Operand} (opcode : Opcode)
      (h : registers target other) (ty : Ty) (hlhs : Operand.Matches registers symbols lhs lhs')
      (hrhs : Operand.Matches registers symbols rhs rhs') :
    Matches registers symbols (.arithmetic opcode target ty lhs rhs)
      (.arithmetic opcode other ty lhs' rhs')
  | compare {target other : String} {lhs lhs' rhs rhs' : Operand} (predicate : Predicate)
      (h : registers target other) (ty : Ty) (hlhs : Operand.Matches registers symbols lhs lhs')
      (hrhs : Operand.Matches registers symbols rhs rhs') :
    Matches registers symbols (.compare predicate target ty lhs rhs)
      (.compare predicate other ty lhs' rhs')
  | extend {target other : String} {value value' : Value} (extension : Extension)
      (h : registers target other) (hvalue : Value.Matches registers symbols value value')
      (ty : Ty) :
    Matches registers symbols (.extend extension target value ty) (.extend extension other value' ty)
  | call {target other : Option String} {callee callee' : String} {arguments arguments' : List Value}
      (h : Option.Rel registers target other) (hcallee : symbols callee callee')
      (signature : Signature)
      (harguments : List.Forall₂ (Value.Matches registers symbols) arguments arguments') :
    Matches registers symbols (.call target callee signature arguments)
      (.call other callee' signature arguments')
  | extractMember {target other : String} {aggregate aggregate' : Value} (h : registers target other)
      (haggregate : Value.Matches registers symbols aggregate aggregate') (position : Nat) :
    Matches registers symbols (.extractMember target aggregate position)
      (.extractMember other aggregate' position)
  | branch {label other : String} (h : registers label other) :
    Matches registers symbols (.branch label) (.branch other)
  | branchIf {condition condition' : Operand} {positive positive' negative negative' : String}
      (hcondition : Operand.Matches registers symbols condition condition')
      (hpositive : registers positive positive') (hnegative : registers negative negative') :
    Matches registers symbols (.branchIf condition positive negative)
      (.branchIf condition' positive' negative')
  | ret {value value' : Option Value}
      (h : Option.Rel (Value.Matches registers symbols) value value') :
    Matches registers symbols (.ret value) (.ret value')

section Mono

variable {registers symbols registers' symbols' : String → String → Prop}
  (hregisters : ∀ name other, registers name other → registers' name other)
  (hsymbols : ∀ name other, symbols name other → symbols' name other)

include hregisters hsymbols

theorem Operand.Matches.mono {operand other : Operand}
    (h : Operand.Matches registers symbols operand other) :
    Operand.Matches registers' symbols' operand other := by
  cases h with
  | register h => exact .register (hregisters _ _ h)
  | global h => exact .global (hsymbols _ _ h)
  | immediate value => exact .immediate value
  | boolean value => exact .boolean value

theorem Value.Matches.mono {value other : Value} (h : Value.Matches registers symbols value other) :
    Value.Matches registers' symbols' value other :=
  ⟨h.operand.mono hregisters hsymbols, h.ty⟩

theorem Value.Matches.mono_all {values others : List Value}
    (h : List.Forall₂ (Value.Matches registers symbols) values others) :
    List.Forall₂ (Value.Matches registers' symbols') values others :=
  h.imp fun _ _ h => h.mono hregisters hsymbols

/-- More related names keep instructions the same. -/
theorem Instr.Matches.mono {instruction other : Instr}
    (h : Instr.Matches registers symbols instruction other) :
    Instr.Matches registers' symbols' instruction other := by
  cases h with
  | label h => exact .label (hregisters _ _ h)
  | alloca h ty => exact .alloca (hregisters _ _ h) ty
  | load h ty haddress => exact .load (hregisters _ _ h) ty (haddress.mono hregisters hsymbols)
  | store hvalue haddress =>
    exact .store (hvalue.mono hregisters hsymbols) (haddress.mono hregisters hsymbols)
  | elementAddress h base haddress hindices inbounds =>
    exact .elementAddress (hregisters _ _ h) base (haddress.mono hregisters hsymbols)
      (Value.Matches.mono_all hregisters hsymbols hindices) inbounds
  | arithmetic opcode h ty hlhs hrhs =>
    exact .arithmetic opcode (hregisters _ _ h) ty (hlhs.mono hregisters hsymbols)
      (hrhs.mono hregisters hsymbols)
  | compare predicate h ty hlhs hrhs =>
    exact .compare predicate (hregisters _ _ h) ty (hlhs.mono hregisters hsymbols)
      (hrhs.mono hregisters hsymbols)
  | extend extension h hvalue ty =>
    exact .extend extension (hregisters _ _ h) (hvalue.mono hregisters hsymbols) ty
  | call h hcallee signature harguments =>
    exact .call (optionRel_imp hregisters h) (hsymbols _ _ hcallee) signature
      (Value.Matches.mono_all hregisters hsymbols harguments)
  | extractMember h haggregate position =>
    exact .extractMember (hregisters _ _ h) (haggregate.mono hregisters hsymbols) position
  | branch h => exact .branch (hregisters _ _ h)
  | branchIf hcondition hpositive hnegative =>
    exact .branchIf (hcondition.mono hregisters hsymbols) (hregisters _ _ hpositive)
      (hregisters _ _ hnegative)
  | ret h => exact .ret (optionRel_imp (fun _ _ h => h.mono hregisters hsymbols) h)

end Mono

-- ════════════════════════
-- What related instructions share
-- ════════════════════════

section Shared

variable {registers symbols : String → String → Prop}

theorem Value.Matches.map_ty {values others : List Value}
    (h : List.Forall₂ (Value.Matches registers symbols) values others) :
    values.map Value.ty = others.map Value.ty := by
  induction h with
  | nil => rfl
  | cons hhead _ ih => rw [List.map_cons, List.map_cons, hhead.ty, ih]

variable {instruction other : Instr}

theorem Instr.Matches.mentions_eq (h : Instr.Matches registers symbols instruction other) :
    instruction.mentions = other.mentions := by
  cases h with
  | store hvalue | extractMember _ hvalue => rw [mentions, mentions, hvalue.ty]
  | extend _ _ hvalue ty => rw [mentions, mentions, hvalue.ty]
  | elementAddress _ base _ hindices =>
    rw [mentions, mentions, Value.Matches.map_ty hindices]
  | call _ _ signature harguments =>
    rw [mentions, mentions, Value.Matches.map_ty harguments]
  | ret h =>
    cases h with
    | some h => simp [mentions, h.ty]
    | none => rfl
  | _ => rfl

theorem Instr.Matches.endsBlock_eq (h : Instr.Matches registers symbols instruction other) :
    instruction.endsBlock = other.endsBlock := by
  cases h <;> rfl

end Shared

-- ════════════════════════
-- Renamed code
-- ════════════════════════

section Rename

variable (register symbol : String → String)

/-- An operand with other registers and symbols. -/
def Operand.rename : Operand → Operand
  | .register name => .register (register name)
  | .global name => .global (symbol name)
  | .immediate value => .immediate value
  | .boolean value => .boolean value

/-- A value with other registers and symbols. -/
def Value.rename (value : Value) : Value :=
  { value with operand := value.operand.rename register symbol }

/-- An instruction with other registers, labels and symbols. -/
def Instr.rename : Instr → Instr
  | .label name => .label (register name)
  | .alloca target ty => .alloca (register target) ty
  | .load target ty address => .load (register target) ty (address.rename register symbol)
  | .store value address => .store (value.rename register symbol) (address.rename register symbol)
  | .elementAddress target base address indices inbounds =>
    .elementAddress (register target) base (address.rename register symbol)
      (indices.map (Value.rename register symbol)) inbounds
  | .arithmetic opcode target ty lhs rhs =>
    .arithmetic opcode (register target) ty (lhs.rename register symbol) (rhs.rename register symbol)
  | .compare predicate target ty lhs rhs =>
    .compare predicate (register target) ty (lhs.rename register symbol) (rhs.rename register symbol)
  | .extend extension target value ty =>
    .extend extension (register target) (value.rename register symbol) ty
  | .call target callee signature arguments =>
    .call (target.map register) (symbol callee) signature
      (arguments.map (Value.rename register symbol))
  | .extractMember target aggregate position =>
    .extractMember (register target) (aggregate.rename register symbol) position
  | .branch name => .branch (register name)
  | .branchIf condition positive negative =>
    .branchIf (condition.rename register symbol) (register positive) (register negative)
  | .ret value => .ret (value.map (Value.rename register symbol))

/-- A function with other registers, labels and symbols. -/
def FunctionCode.rename (function : FunctionCode) : FunctionCode where
  symbol := symbol function.symbol
  signature := function.signature
  parameters := function.parameters.map register
  entry := function.entry.map (Instr.rename register symbol)
  code := function.code.map (Instr.rename register symbol)

end Rename

section Respects

variable {registers symbols : String → String → Prop} {register symbol : String → String}
  (hregister : ∀ name other, registers name other → register name = other)
  (hsymbol : ∀ name other, symbols name other → symbol name = other)

include hregister hsymbol

theorem Operand.Matches.rename_eq {operand other : Operand}
    (h : Operand.Matches registers symbols operand other) :
    operand.rename register symbol = other := by
  cases h with
  | register h => rw [Operand.rename, hregister _ _ h]
  | global h => rw [Operand.rename, hsymbol _ _ h]
  | immediate | boolean => rfl

theorem Value.Matches.rename_eq {value other : Value}
    (h : Value.Matches registers symbols value other) : value.rename register symbol = other := by
  rw [Value.rename, h.operand.rename_eq hregister hsymbol, h.ty]

theorem Value.Matches.map_rename_eq {values others : List Value}
    (h : List.Forall₂ (Value.Matches registers symbols) values others) :
    values.map (Value.rename register symbol) = others :=
  map_eq_of_forall₂ h fun _ _ h => h.rename_eq hregister hsymbol

/-- Functions that respect the relations between names rename an instruction into the related one. -/
theorem Instr.Matches.rename_eq {instruction other : Instr}
    (h : Instr.Matches registers symbols instruction other) :
    instruction.rename register symbol = other := by
  cases h with
  | label h | branch h => rw [Instr.rename, hregister _ _ h]
  | alloca h ty => rw [Instr.rename, hregister _ _ h]
  | load h ty haddress =>
    rw [Instr.rename, hregister _ _ h, haddress.rename_eq hregister hsymbol]
  | store hvalue haddress =>
    rw [Instr.rename, hvalue.rename_eq hregister hsymbol, haddress.rename_eq hregister hsymbol]
  | elementAddress h base haddress hindices inbounds =>
    rw [Instr.rename, hregister _ _ h, haddress.rename_eq hregister hsymbol,
      Value.Matches.map_rename_eq hregister hsymbol hindices]
  | arithmetic opcode h ty hlhs hrhs | compare predicate h ty hlhs hrhs =>
    rw [Instr.rename, hregister _ _ h, hlhs.rename_eq hregister hsymbol,
      hrhs.rename_eq hregister hsymbol]
  | extend extension h hvalue ty =>
    rw [Instr.rename, hregister _ _ h, hvalue.rename_eq hregister hsymbol]
  | call h hcallee signature harguments =>
    rw [Instr.rename, hsymbol _ _ hcallee,
      Value.Matches.map_rename_eq hregister hsymbol harguments]
    cases h with
    | some h => rw [Option.map_some, hregister _ _ h]
    | none => rfl
  | extractMember h haggregate position =>
    rw [Instr.rename, hregister _ _ h, haggregate.rename_eq hregister hsymbol]
  | branchIf hcondition hpositive hnegative =>
    rw [Instr.rename, hcondition.rename_eq hregister hsymbol, hregister _ _ hpositive,
      hregister _ _ hnegative]
  | ret h =>
    cases h with
    | some h => rw [Instr.rename, Option.map_some, h.rename_eq hregister hsymbol]
    | none => rfl

end Respects

end ThreeAddress
