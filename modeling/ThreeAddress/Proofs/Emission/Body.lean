import Mathlib.Data.List.DropRight
import ThreeAddress.Proofs.Emission.Names
import ThreeAddress.Proofs.Guards
import ThreeAddress.Proofs.Pass.Inversion
import ThreeAddress.Proofs.Scope.Fresh

/-!
# Changes to a body

What the primitive steps of lowering do to a body, as functions on bodies, and the views of a body
that the statements about emitted code are made of.

## Main definitions

* `Body.append`, `Body.reserve`, `Body.mint`, `Body.rebind`, `Body.addConstant`: the changes.
* `Body.close`: a body with its last line.
* `Body.defined`: the names that the instructions so far introduce.
* `Body.Owes`: a register or label that was made and is not introduced yet.
* `Body.slots`, `openBlock`, `Body.Available`: where the next instruction may take its operands
  from.
* `Body.Keyed`: bound names are in use, in the function and in the module.

## Main statements

* `Sheet.entry_insert`, `Sheet.code_add` and their like: what lines mean for the two parts of a function.
* `Lowering.eval_mint_eq_ok_iff` and its like: a primitive step succeeds exactly with its change.
-/

namespace ThreeAddress

/-- The instructions behind the last label or terminator. -/
def openBlock (code : List Instr) : List Instr :=
  code.rtakeWhile Instr.isPlain

theorem openBlock_append_of_isPlain (code : List Instr) {instruction : Instr}
    (h : instruction.isPlain) : openBlock (code ++ [instruction]) = openBlock code ++ [instruction] :=
  List.rtakeWhile_concat_pos _ _ _ h

theorem openBlock_append_of_not_isPlain (code : List Instr) {instruction : Instr}
    (h : ¬instruction.isPlain) : openBlock (code ++ [instruction]) = [] :=
  List.rtakeWhile_concat_neg _ _ _ h

-- ════════════════════════
-- Lines
-- ════════════════════════

namespace Sheet

variable (sheet : Sheet) (line : Line)

@[simp] theorem entry_ofLines (lines : List Line) : (ofLines lines).entry = [] := by
  simp [ofLines, entry]

@[simp] theorem code_ofLines (lines : List Line) : (ofLines lines).code = [] := by
  simp [ofLines, code]

@[simp] theorem entry_add : (sheet.add line).entry = sheet.entry := by
  simp only [add, entry, List.take_append_of_le_length sheet.slot_le]

@[simp] theorem code_add : (sheet.add line).code = sheet.code ++ line.instruction?.toList := by
  simp only [add, code, List.drop_append_of_le_length sheet.slot_le, List.filterMap_append]
  cases line <;> rfl

/-- A line that is inserted between others. -/
theorem insertIdx_append {α : Type} (front rest : List α) (value : α) :
    (front ++ rest).insertIdx front.length value = front ++ value :: rest := by
  induction front with
  | nil => rfl
  | cons first front ih => exact congrArg (first :: ·) ih

theorem length_take_slot : (sheet.lines.take sheet.slot).length = sheet.slot := by
  rw [List.length_take, Nat.min_eq_left sheet.slot_le]

theorem lines_insert :
    (sheet.insert line).lines = sheet.lines.take sheet.slot ++ line :: sheet.lines.drop sheet.slot := by
  have hinsert := insertIdx_append (sheet.lines.take sheet.slot) (sheet.lines.drop sheet.slot) line
  rwa [List.take_append_drop, length_take_slot] at hinsert

/-- A line that is inserted follows the stack slots so far. -/
@[simp] theorem entry_insert : (sheet.insert line).entry = sheet.entry ++ line.instruction?.toList := by
  have htake : (sheet.insert line).lines.take (sheet.slot + 1) = sheet.lines.take sheet.slot ++ [line] := by
    rw [lines_insert, List.append_cons, List.take_left' (by simp [sheet.slot_le])]
  have hstart : sheet.start ≤ (sheet.lines.take sheet.slot).length :=
    sheet.length_take_slot.symm ▸ sheet.start_le
  show (((sheet.insert line).lines.take (sheet.slot + 1)).drop sheet.start).filterMap _ = _
  rw [htake, List.drop_append_of_le_length hstart, List.filterMap_append, entry]
  cases line <;> rfl

@[simp] theorem code_insert : (sheet.insert line).code = sheet.code := by
  show ((sheet.insert line).lines.drop (sheet.slot + 1)).filterMap _ = _
  rw [lines_insert, List.append_cons, List.drop_left' (by simp [sheet.slot_le]), code]

/-- Everything so far is in front of the next stack slot. -/
@[simp] theorem entry_mark : sheet.mark.entry = sheet.entry ++ sheet.code := by
  have hstart : sheet.start ≤ (sheet.lines.take sheet.slot).length :=
    sheet.length_take_slot.symm ▸ sheet.start_le
  have hdrop : sheet.lines.drop sheet.start =
      (sheet.lines.take sheet.slot).drop sheet.start ++ sheet.lines.drop sheet.slot := by
    rw [← List.drop_append_of_le_length hstart, List.take_append_drop]
  simp only [mark, entry, code, List.take_length, hdrop, List.filterMap_append]

@[simp] theorem code_mark : sheet.mark.code = [] := by
  simp [mark, code]

end Sheet

namespace Body

-- ════════════════════════
-- Changes
-- ════════════════════════

/-- The body with one more instruction at its end. -/
def append (body : Body) (instruction : Instr) : Body :=
  { body with sheet := body.sheet.add (.instr instruction) }

/-- The body with one more stack slot. -/
def reserve (body : Body) (slot : Var) : Body :=
  { body with sheet := body.sheet.insert (.instr (.alloca slot.register slot.ty)) }

/-- The body with the line that ends a function. -/
def close (body : Body) : Body :=
  { body with sheet := body.sheet.add .close }

/-- The body with more instructions at its end. -/
def appendAll (body : Body) (instructions : List Instr) : Body :=
  instructions.foldl append body

/-- The body with a new register, bound under its own name. -/
def mint (body : Body) (base : String) (ty : Ty) : Body :=
  { body with scope := (body.scope.mint base ty).2 }

/-- The body with a source name bound to a new register. -/
def rebind (body : Body) (name : String) (ty : Ty) : Body :=
  { body with scope := (body.scope.bind name ty).2 }

/-- The body with one more constant in the module. -/
def addConstant (body : Body) (constant : Constant) : Body :=
  let (var, root) := body.globals.root.mint constant.base constant.ty
  { body with globals := ⟨root, body.globals.constants ++ [(constant, var.register)]⟩ }

@[simp] theorem code_append (body : Body) (instruction : Instr) :
    (body.append instruction).code = body.code ++ [instruction] :=
  body.sheet.code_add (.instr instruction)

@[simp] theorem entry_append (body : Body) (instruction : Instr) :
    (body.append instruction).entry = body.entry :=
  body.sheet.entry_add (.instr instruction)

@[simp] theorem entry_reserve (body : Body) (slot : Var) :
    (body.reserve slot).entry = body.entry ++ [.alloca slot.register slot.ty] :=
  body.sheet.entry_insert (.instr (.alloca slot.register slot.ty))

@[simp] theorem code_reserve (body : Body) (slot : Var) : (body.reserve slot).code = body.code :=
  body.sheet.code_insert (.instr (.alloca slot.register slot.ty))

@[simp] theorem entry_close (body : Body) : body.close.entry = body.entry :=
  body.sheet.entry_add .close

@[simp] theorem code_close (body : Body) : body.close.code = body.code :=
  (body.sheet.code_add .close).trans (List.append_nil _)

@[simp] theorem entry_appendAll (body : Body) (instructions : List Instr) :
    (body.appendAll instructions).entry = body.entry := by
  induction instructions generalizing body with
  | nil => rfl
  | cons instruction rest ih => exact (ih _).trans (body.entry_append instruction)

@[simp] theorem code_appendAll (body : Body) (instructions : List Instr) :
    (body.appendAll instructions).code = body.code ++ instructions := by
  induction instructions generalizing body with
  | nil => exact (List.append_nil _).symm
  | cons instruction rest ih =>
    have hcode := ih (body.append instruction)
    rwa [code_append, List.append_assoc] at hcode

/-- Appending instructions leaves everything but the lines as it is. -/
theorem appendAll_eq (body : Body) (instructions : List Instr) :
    body.appendAll instructions = { body with sheet := (body.appendAll instructions).sheet } := by
  induction instructions generalizing body with
  | nil => rfl
  | cons instruction rest ih => exact ih (body.append instruction)

theorem lines_appendAll (body : Body) (instructions : List Instr) :
    (body.appendAll instructions).sheet.lines = body.sheet.lines ++ instructions.map .instr := by
  induction instructions generalizing body with
  | nil => exact (List.append_nil _).symm
  | cons instruction rest ih =>
    refine (ih (body.append instruction)).trans ?_
    exact List.append_assoc body.sheet.lines [.instr instruction] _

@[simp] theorem isClosed_append (body : Body) (instruction : Instr) :
    (body.append instruction).isClosed = instruction.endsBlock := by
  simp [isClosed]

@[simp] theorem isClosed_reserve (body : Body) (slot : Var) :
    (body.reserve slot).isClosed = body.isClosed := by
  simp [isClosed]

@[simp] theorem scope_append (body : Body) (instruction : Instr) :
    (body.append instruction).scope = body.scope := rfl

@[simp] theorem scope_reserve (body : Body) (slot : Var) :
    (body.reserve slot).scope = body.scope := rfl

section Views

variable (body : Body) (name : String) (ty : Ty) (constant : Constant)

@[simp] theorem entry_mint : (body.mint name ty).entry = body.entry := rfl

@[simp] theorem code_mint : (body.mint name ty).code = body.code := rfl

@[simp] theorem isClosed_mint : (body.mint name ty).isClosed = body.isClosed := rfl

@[simp] theorem entry_rebind : (body.rebind name ty).entry = body.entry := rfl

@[simp] theorem code_rebind : (body.rebind name ty).code = body.code := rfl

@[simp] theorem isClosed_rebind : (body.rebind name ty).isClosed = body.isClosed := rfl

@[simp] theorem entry_addConstant : (body.addConstant constant).entry = body.entry := rfl

@[simp] theorem code_addConstant : (body.addConstant constant).code = body.code := rfl

@[simp] theorem isClosed_addConstant : (body.addConstant constant).isClosed = body.isClosed := rfl

end Views

-- ════════════════════════
-- Names
-- ════════════════════════

/-- The names that the instructions so far introduce. -/
def defined (body : Body) : List String :=
  (body.entry ++ body.code).filterMap Instr.defined?

/-- A register or label that was made and that no instruction introduces yet. -/
def Owes (body : Body) (name : String) : Prop :=
  body.scope.inUse name ∧ name ∉ body.defined

theorem defined_append (body : Body) (instruction : Instr) :
    (body.append instruction).defined = body.defined ++ instruction.defined?.toList := by
  simp only [defined, code_append, entry_append, List.filterMap_append, List.append_assoc]
  cases hdefined : instruction.defined? <;> simp [hdefined]

/-- The entry stands in front, so what is added to it is introduced in the middle. -/
theorem perm_defined_reserve (body : Body) (slot : Var) :
    (body.reserve slot).defined.Perm (body.defined ++ [slot.register]) := by
  simp only [defined, entry_reserve, code_reserve, List.filterMap_append, List.append_assoc]
  exact List.Perm.append_left _ List.perm_append_comm

theorem mem_defined_append {body : Body} {instruction : Instr} {name : String} :
    name ∈ (body.append instruction).defined ↔
      name ∈ body.defined ∨ instruction.defined? = some name := by
  simp [defined_append]

theorem mem_defined_reserve {body : Body} {slot : Var} {name : String} :
    name ∈ (body.reserve slot).defined ↔ name ∈ body.defined ∨ name = slot.register := by
  simp [(perm_defined_reserve body slot).mem_iff]

-- ════════════════════════
-- Operands
-- ════════════════════════

/-- The registers of the stack slots reserved so far. -/
def slots (body : Body) : List String :=
  body.entry.filterMap Instr.slot?

@[simp] theorem slots_append (body : Body) (instruction : Instr) :
    (body.append instruction).slots = body.slots := by
  simp [slots]

@[simp] theorem slots_reserve (body : Body) (slot : Var) :
    (body.reserve slot).slots = body.slots ++ [slot.register] := by
  simp [slots, Instr.slot?]

/-- A register that the next instruction finds defined: a stack slot, or one written in the block
that is still open. -/
def Available (body : Body) (register : String) : Prop :=
  register ∈ body.slots ∨ register ∈ (openBlock body.code).filterMap Instr.target?

/-- The last instruction of a body. -/
def EndsWith (body : Body) (instruction : Instr) : Prop :=
  ∃ before, body.code = before ++ [instruction]

theorem EndsWith.isClosed {body : Body} {instruction : Instr} (h : body.EndsWith instruction) :
    body.isClosed = instruction.endsBlock := by
  obtain ⟨before, hbefore⟩ := h
  rw [Body.isClosed, hbefore]
  simp

/-- A body is closed if its last instruction is a terminator. -/
theorem isClosed_iff {body : Body} :
    body.isClosed ↔ ∃ code terminator,
      body.code = code ++ [terminator] ∧ terminator.endsBlock := by
  rw [isClosed, Option.any_eq_true]
  constructor
  · rintro ⟨terminator, hlast, hends⟩
    obtain ⟨code, hcode⟩ := List.getLast?_eq_some_iff.mp hlast
    exact ⟨code, terminator, hcode, hends⟩
  · rintro ⟨code, terminator, hcode, hends⟩
    exact ⟨terminator, by simp [hcode], hends⟩

/-- A block with a terminator offers nothing to the next instruction. -/
theorem openBlock_of_isClosed {body : Body} (h : body.isClosed) :
    openBlock body.code = [] := by
  obtain ⟨code, terminator, hcode, hends⟩ := isClosed_iff.mp h
  rw [hcode]
  exact openBlock_append_of_not_isPlain code (by simp [Instr.isPlain, hends])

/-- Bound names are in use, in the scope of the function and in that of the module. -/
structure Keyed (body : Body) : Prop where
  scope : body.scope.Keyed
  root : body.globals.root.Keyed

end Body

-- ════════════════════════
-- Primitive steps
-- ════════════════════════

namespace Lowering

variable {body last : Body}

@[simp] theorem eval_mint (base : String) (ty : Ty) :
    (mint base ty).eval body =
      .ok (Var.make (body.scope.newRegister base) ty, body.mint base ty) := rfl

@[simp] theorem eval_bindName (name : String) (ty : Ty) :
    (bindName name ty).eval body =
      .ok (Var.make (body.scope.newRegister name) ty, body.rebind name ty) := rfl

@[simp] theorem eval_newLabel (base : String) :
    (newLabel base).eval body = .ok (body.scope.newRegister base, body.mint base .label) := rfl

@[simp] theorem eval_append (instruction : Instr) :
    (append instruction).eval body = .ok ((), body.append instruction) := rfl

theorem eval_mint_eq_ok_iff {base : String} {ty : Ty} {var : Var} :
    (mint base ty).eval body = .ok (var, last) ↔
      var = Var.make (body.scope.newRegister base) ty ∧ last = body.mint base ty := by
  rw [eval_mint]
  simp [eq_comm]

theorem eval_temporary_eq_ok_iff {ty : Ty} {var : Var} :
    (temporary ty).eval body = .ok (var, last) ↔
      var = Var.make (body.scope.newRegister ("sym" ++ toString body.scope.size)) ty ∧
        last = body.mint ("sym" ++ toString body.scope.size) ty := by
  have hrun : (temporary ty).eval body = .ok ((body.scope.temporary ty).1,
    { body with scope := (body.scope.temporary ty).2 }) := rfl
  rw [hrun]
  simp [eq_comm, Scope.temporary, Scope.mint, Body.mint]

/-- A temporary is minted; what for does not matter. -/
theorem eval_temporary {ty : Ty} {var : Var} (h : (temporary ty).eval body = .ok (var, last)) :
    ∃ base, var = Var.make (body.scope.newRegister base) ty ∧ last = body.mint base ty :=
  ⟨_, eval_temporary_eq_ok_iff.mp h⟩

theorem eval_newLabel_eq_ok_iff {base name : String} :
    (newLabel base).eval body = .ok (name, last) ↔
      name = body.scope.newRegister base ∧ last = body.mint base .label := by
  rw [newLabel, Pass.eval_map_eq_ok_iff]
  constructor
  · rintro ⟨var, hmint, rfl⟩
    obtain ⟨rfl, rfl⟩ := eval_mint_eq_ok_iff.mp hmint
    exact ⟨rfl, rfl⟩
  · rintro ⟨rfl, rfl⟩
    exact ⟨_, eval_mint_eq_ok_iff.mpr ⟨rfl, rfl⟩, rfl⟩

theorem eval_bindName_eq_ok_iff {name : String} {ty : Ty} {var : Var} :
    (bindName name ty).eval body = .ok (var, last) ↔
      var = Var.make (body.scope.newRegister name) ty ∧ last = body.rebind name ty := by
  rw [eval_bindName]
  simp [eq_comm]

theorem eval_variableNamed_eq_ok_iff {name : String} {var : Var} :
    (variableNamed name).eval body = .ok (var, last) ↔
      body.scope.find? name = some var ∧ var.ty.isStorable ∧ body = last := by
  rw [variableNamed, Pass.eval_bind_eq_ok_iff]
  simp only [Pass.eval_get_eq_ok_iff, Pass.eval_ofExcept_eq_ok_iff, Scope.variableNamed]
  constructor
  · rintro ⟨_, _, ⟨rfl, rfl⟩, hfound, rfl⟩
    split at hfound
    · simp at hfound
    · next found h =>
      split at hfound
      · next hstorable =>
        cases hfound
        exact ⟨h, hstorable, rfl⟩
      · simp at hfound
  · rintro ⟨hfound, hstorable, rfl⟩
    exact ⟨_, _, ⟨rfl, rfl⟩, by simp [hfound, hstorable], rfl⟩

theorem eval_checkConcrete_eq_ok_iff {instruction : Instr} {result : Unit} :
    (checkConcrete instruction).eval body = .ok (result, last) ↔
      instruction.placeholder? = none ∧ body = last := by
  unfold checkConcrete
  split
  · next found => simp [found]
  · next found => simp [found, eq_comm]

theorem placeholder?_alloca_eq_none_iff {register : String} {ty : Ty} :
    (Instr.alloca register ty).placeholder? = none ↔ ty.isConcrete := by
  simp [Instr.placeholder?, Instr.mentions]

theorem eval_reserve_eq_ok_iff {slot : Var} {result : Unit} :
    (reserve slot).eval body = .ok (result, last) ↔
      slot.ty.isConcrete ∧ last = body.reserve slot := by
  simp only [reserve, Pass.eval_bind_eq_ok_iff, eval_checkConcrete_eq_ok_iff,
    placeholder?_alloca_eq_none_iff]
  constructor
  · rintro ⟨_, _, ⟨hconcrete, rfl⟩, hmodify⟩
    cases hmodify
    exact ⟨hconcrete, rfl⟩
  · rintro ⟨hconcrete, rfl⟩
    exact ⟨(), body, ⟨hconcrete, rfl⟩, rfl⟩

theorem eval_append_eq_ok_iff {instruction : Instr} {result : Unit} :
    (append instruction).eval body = .ok (result, last) ↔ last = body.append instruction := by
  rw [eval_append]
  simp [eq_comm]

theorem eval_expectType_eq_ok_iff {site : Site} {expected actual : Ty} {result : Unit} :
    (expectType site expected actual).eval body = .ok (result, last) ↔
      expected.agrees actual ∧ body = last := by
  rw [expectType, Pass.eval_require_eq_ok_iff]

/-- A constant is looked up, or it is added under a new symbol. -/
theorem eval_intern_eq (constant : Constant) :
    (intern constant).eval body = .ok (match body.globals.constants.lookup constant with
      | some symbol => (symbol, body)
      | none => (body.globals.root.newRegister constant.base, body.addConstant constant)) := by
  cases hlookup : body.globals.constants.lookup constant with
  | some symbol => simp [intern, hlookup, Except.bind]
  | none =>
    simp only [intern, Pass.eval_bind, Pass.eval_get, Except.bind, hlookup]
    rfl

/-- A constant is in the module already, or it is added. -/
theorem eval_intern {constant : Constant} {symbol : String}
    (h : (intern constant).eval body = .ok (symbol, last)) :
    body = last ∨ last = body.addConstant constant := by
  rw [eval_intern_eq] at h
  cases hlookup : body.globals.constants.lookup constant with
  | some found =>
    rw [hlookup] at h
    cases h
    exact Or.inl rfl
  | none =>
    rw [hlookup] at h
    cases h
    exact Or.inr rfl

end Lowering

end ThreeAddress
