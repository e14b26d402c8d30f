import ThreeAddress.Proofs.Typing.Prediction

/-!
# What is known while a function is lowered

A body under construction is sound if its scope binds only what is known: variables of known types
under known names, and functions that may be called. The instructions that are added to a sound body
are sound themselves: every register they read is written, at the type it is read at.

## Main definitions

* `Instr.produces`, `Instr.typedUses`: the type of the register that an instruction writes, and of
  the operands it reads, as the emitted code spells them.
* `Body.Types`: an instruction whose operands have the types it reads them at.
* `Setting`: what is known of types, names and functions.
* `Body.Sound`: a body whose scope keeps to a setting.
* `Body.Advances`: what a pass without control flow does to a sound body.

## Design notes

A setting is a parameter, since different results know different things. That operands are written
at all is only known where every variable is declared, and only there a setting is checked. The types
of values are closed under what lowering does with types, and a setting carries the proofs of that.
-/

namespace ThreeAddress

-- ════════════════════════
-- Types of registers and operands
-- ════════════════════════

namespace Instr

/-- The types of the members of a success or error value. -/
def resultMembers : List Ty := [.bool, .bytes]

/-- The type of the register that an instruction writes, as the emitted code spells it. -/
def produces : Instr → Option String
  | alloca _ _ | elementAddress _ _ _ _ _ => some "ptr"
  | load _ ty _ | arithmetic _ _ ty _ _ | extend _ _ _ ty => some ty.spelling
  | compare _ _ _ _ _ => some Ty.bool.spelling
  | call _ _ signature _ => signature.returns.map Ty.spelling
  | extractMember _ _ position => resultMembers[position]?.map Ty.spelling
  | label _ | store _ _ | branch _ | branchIf _ _ _ | ret _ => none

/-- The operands of an instruction, each with the type that the emitted code reads it at. -/
def typedUses : Instr → List (Operand × String)
  | label _ | alloca _ _ | branch _ => []
  | load _ _ address => [(address, "ptr")]
  | store value address => [(value.operand, value.ty.spelling), (address, "ptr")]
  | elementAddress _ _ address indices _ =>
    (address, "ptr") :: indices.map fun index => (index.operand, index.ty.spelling)
  | arithmetic _ _ ty lhs rhs | compare _ _ ty lhs rhs => [(lhs, ty.spelling), (rhs, ty.spelling)]
  | extend _ _ value _ => [(value.operand, value.ty.spelling)]
  | call _ _ _ arguments => arguments.map fun argument => (argument.operand, argument.ty.spelling)
  | extractMember _ aggregate _ => [(aggregate.operand, aggregate.ty.spelling)]
  | branchIf condition _ _ => [(condition, Ty.bool.spelling)]
  | ret value => value.toList.map fun value => (value.operand, value.ty.spelling)

/-- The address that an instruction reads from, writes to or computes with. -/
def address? : Instr → Option Operand
  | load _ _ address | store _ address | elementAddress _ _ address _ _ => some address
  | _ => none

/-- The indices of an address computation. -/
def indices : Instr → List Value
  | elementAddress _ _ _ indices _ => indices
  | _ => []

/-- Every operand is read at a type. -/
theorem map_fst_typedUses (instruction : Instr) :
    instruction.typedUses.map Prod.fst = instruction.operands := by
  cases instruction <;> simp [typedUses, operands]

end Instr

/-- Whether an operand can be an address: a register or a symbol of the module. -/
def Operand.isLocation : Operand → Bool
  | .register _ | .global _ => true
  | _ => false

namespace Body

/-- Some instruction so far writes a register at a type. -/
def Produces (body : Body) (register spelling : String) : Prop :=
  ∃ instruction ∈ body.entry ++ body.code,
    instruction.target? = some register ∧ instruction.produces = some spelling

/-- A register holds the address of memory for a type: of a stack slot of that type, or of memory
that it was computed or loaded to point to. -/
def Locates (body : Body) (register : String) (ty : Ty) : Prop :=
  .alloca register ty ∈ body.entry ∨
    ∃ instruction ∈ body.code,
      instruction.target? = some register ∧ instruction.produces = some "ptr"

/-- An instruction behind the entry whose operands have the types it reads them at. It loads from none
of the registers that are kept, and writes to none of them. -/
structure Types (body : Body) (kept : List String) (instruction : Instr) : Prop where
  uses : ∀ {register spelling}, (.register register, spelling) ∈ instruction.typedUses →
    body.Produces register spelling
  address : ∀ operand ∈ instruction.address?, operand.isLocation
  indices : ∀ index ∈ instruction.indices, index.ty.isInteger
  loads : ∀ {target ty slot}, instruction = .load target ty (.register slot) →
    body.Locates slot ty ∧ slot ∉ kept
  stores : ∀ {value register}, instruction = .store value (.register register) → register ∉ kept
  slot : instruction.slot? = none

/-- All instructions of the first body stand in the second. -/
structure Precedes (body last : Body) : Prop where
  entry : body.entry <+: last.entry
  code : body.code <+: last.code

variable {body middle last : Body}

theorem Precedes.produces (h : body.Precedes last) {register spelling : String}
    (hproduces : body.Produces register spelling) : last.Produces register spelling := by
  obtain ⟨instruction, hmem, hwrites⟩ := hproduces
  refine ⟨instruction, ?_, hwrites⟩
  rw [List.mem_append] at hmem ⊢
  exact hmem.imp (fun h' => h.entry.subset h') fun h' => h.code.subset h'

theorem Precedes.locates (h : body.Precedes last) {register : String} {ty : Ty}
    (hlocates : body.Locates register ty) : last.Locates register ty := by
  refine hlocates.imp (fun hmem => h.entry.subset hmem) ?_
  rintro ⟨instruction, hmem, hwrites⟩
  exact ⟨instruction, h.code.subset hmem, hwrites⟩

theorem Precedes.types (h : body.Precedes last) {kept : List String} {instruction : Instr}
    (htypes : body.Types kept instruction) : last.Types kept instruction where
  uses hmem := h.produces (htypes.uses hmem)
  address := htypes.address
  indices := htypes.indices
  loads heq := (htypes.loads heq).imp_left h.locates
  stores := htypes.stores
  slot := htypes.slot

/-- An address is a pointer. -/
theorem Locates.produces {register : String} {ty : Ty} (h : body.Locates register ty) :
    body.Produces register "ptr" := by
  rcases h with hmem | ⟨instruction, hmem, hwrites⟩
  · exact ⟨_, List.mem_append_left _ hmem, rfl, rfl⟩
  · exact ⟨instruction, List.mem_append_right _ hmem, hwrites⟩

end Body

-- ════════════════════════
-- Settings
-- ════════════════════════

/-- Whether a type is a sized array of a type that no instruction may use. Memory of such a type is
spelled by its members. -/
def Ty.isObscure : Ty → Bool
  | .array member (.sized _) => !member.isConcrete
  | _ => false

/-- What is known of types, names and functions while the functions of a module are lowered. -/
structure Setting (table : TypeTable) where
  /-- Every variable is declared, so that operands are written by some instruction. -/
  checked : Prop
  /-- The types that values may have. -/
  value : Ty → Prop
  /-- The names that variables may have besides those declared. -/
  known : String → Prop
  /-- The symbols that may be called, with their signatures. -/
  callable : String → Signature → Prop
  /-- The registers that are not accessed through a variable or a pointer. -/
  kept : List String
  /-- The names of variables that are not read. Their registers may be kept. -/
  spared : List String := []
  /-- The scopes that temporaries are made in. -/
  stage : Scope → Prop
  int : ∀ width, value (.int width)
  result : value .result
  ref : ∀ {ty}, value ty → value (.ref ty)
  array : ∀ {ty} extent, ty.isObscure = false → value ty → value (.array ty extent)
  struct : ∀ {definition}, definition ∈ table.structs → value (.struct definition)
  target : ∀ {ty}, value (.ref ty) → value ty
  element : ∀ {ty extent}, value (.array ty extent) → value ty
  member : ∀ {definition}, value (.struct definition) → ∀ member ∈ definition.members,
    value member.ty
  function : ∀ {signature}, value (.function signature) → ∀ register, callable register signature
  returns : ∀ {register signature}, callable register signature → ∀ ty ∈ signature.returns, value ty
  parameters : ∀ {register signature}, callable register signature →
    ∀ ty ∈ signature.parameters, value ty
  support : ∀ function : Support, callable function.name function.signature
  grow : ∀ {scope : Scope} {name : String} {var : Var}, ¬scope.inUse var.register → stage scope →
    stage (scope.insert name var)
  temporary : ∀ {scope : Scope}, stage scope →
    known (scope.newRegister ("sym" ++ toString scope.size))

variable {table : TypeTable}

theorem Setting.constantTy (setting : Setting table) (constant : Constant) :
    setting.value constant.ty := by
  cases constant <;> exact setting.array _ rfl (setting.int _)

/-- A scope in which variables and functions are what a setting knows. -/
structure Setting.Binds (setting : Setting table) (names : List String) (scope : Scope) : Prop where
  vars : ∀ {name var}, scope.find? name = some var → var.ty.isStorable →
    setting.value var.ty ∧ (name ∈ names ∨ setting.known name)
  functions : ∀ {name var signature}, scope.find? name = some var → var.ty = .function signature →
    setting.callable var.register signature

/-- A body whose scope keeps to a setting, with the given names declared. -/
structure Body.Sound (setting : Setting table) (names : List String) (body : Body) : Prop where
  keyed : body.scope.Keyed
  stage : setting.stage body.scope
  kept : ∀ register ∈ setting.kept, body.scope.inUse register
  binds : setting.Binds names body.scope
  /-- Declared names stand for stack slots. -/
  slots : setting.checked → ∀ name ∈ names, ∃ var, body.scope.find? name = some var ∧
    .alloca var.register var.ty ∈ body.entry ∧ (name ∉ setting.spared → var.register ∉ setting.kept)

/-- An instruction that keeps to a setting. -/
structure Instr.Sound (setting : Setting table) (body : Body) (instruction : Instr) : Prop where
  types : setting.checked → body.Types setting.kept instruction
  calls : ∀ {target callee signature arguments},
    instruction = .call target callee signature arguments →
      setting.callable callee signature ∧ signature.accepts arguments.length
  stores : ∀ {value address}, instruction = .store value address → setting.value value.ty
  /-- The base of an address computation is known, and so is an array of such, if it is obscure. -/
  bases : ∀ {target base address indices inbounds},
    instruction = .elementAddress target base address indices inbounds →
      setting.value base ∧ (base.isObscure → ∃ extent, setting.value (.array base extent))

/-- A value that keeps to a setting. -/
structure Value.Sound (setting : Setting table) (body : Body) (value : Value) : Prop where
  known : setting.value value.ty
  produces : setting.checked →
    ∀ register, value.operand = .register register → body.Produces register value.ty.spelling

/-- A place that keeps to a setting. -/
structure Place.Sound (setting : Setting table) (body : Body) (place : Place) : Prop where
  known : setting.value place.ty
  locates : setting.checked → ∃ register, place.address = .register register ∧
    register ∉ setting.kept ∧ body.Locates register place.ty

/-- What a pass without control flow does to a sound body: the body stays sound, and only sound
instructions are added. -/
structure Body.Advances (setting : Setting table) (names : List String) (body last : Body) :
    Prop where
  sound : last.Sound setting names
  entry : body.entry <+: last.entry
  code : ∃ added, last.code = body.code ++ added ∧
    ∀ instruction ∈ added, instruction.Sound setting last

-- ════════════════════════
-- Structural rules
-- ════════════════════════

variable {setting : Setting table} {names : List String} {body middle last : Body}

theorem Body.Precedes.soundInstr (h : body.Precedes last) {instruction : Instr}
    (hsound : instruction.Sound setting body) : instruction.Sound setting last :=
  ⟨fun hchecked => h.types (hsound.types hchecked), hsound.calls, hsound.stores, hsound.bases⟩

theorem Body.Precedes.soundValue (h : body.Precedes last) {value : Value}
    (hsound : value.Sound setting body) : value.Sound setting last :=
  ⟨hsound.known, fun hchecked register heq => h.produces (hsound.produces hchecked register heq)⟩

theorem Body.Precedes.soundPlace (h : body.Precedes last) {place : Place}
    (hsound : place.Sound setting body) : place.Sound setting last := by
  refine ⟨hsound.known, fun hchecked => ?_⟩
  obtain ⟨register, heq, hkept, hlocates⟩ := hsound.locates hchecked
  exact ⟨register, heq, hkept, h.locates hlocates⟩

namespace Body.Advances

theorem precedes (h : body.Advances setting names last) : body.Precedes last := by
  obtain ⟨added, hcode, -⟩ := h.code
  exact ⟨h.entry, hcode ▸ List.prefix_append _ _⟩

theorem refl (h : body.Sound setting names) : body.Advances setting names body :=
  ⟨h, List.prefix_rfl, [], (List.append_nil _).symm, by simp⟩

theorem trans {names' : List String} (h : body.Advances setting names' middle)
    (h' : middle.Advances setting names last) : body.Advances setting names last := by
  obtain ⟨added, hcode, hadded⟩ := h.code
  obtain ⟨added', hcode', hadded'⟩ := h'.code
  refine ⟨h'.sound, h.entry.trans h'.entry, added ++ added', ?_, ?_⟩
  · rw [hcode', hcode, List.append_assoc]
  · intro instruction hmem
    rcases List.mem_append.mp hmem with hmem | hmem
    · exact h'.precedes.soundInstr (hadded instruction hmem)
    · exact hadded' instruction hmem

/-- A pass that adds no instruction behind the entry. -/
theorem of_code_eq (hsound : last.Sound setting names)
    (hentry : body.entry <+: last.entry) (hcode : last.code = body.code) :
    body.Advances setting names last :=
  ⟨hsound, hentry, [], by rw [hcode, List.append_nil], by simp⟩

end Body.Advances

-- ════════════════════════
-- New bindings
-- ════════════════════════

namespace Setting.Binds

variable {scope : Scope}

/-- A binding is known if its type is and its name is. -/
theorem insert (h : setting.Binds names scope) {name : String} {var : Var} {names' : List String}
    (hnames : names ⊆ names') (hty : var.ty.isConcrete → var.ty ≠ .label → setting.value var.ty)
    (hname : var.ty.isStorable → name ∈ names' ∨ setting.known name) :
    setting.Binds names' (scope.insert name var) where
  vars {other found} hfound hstorable := by
    by_cases heq : other = name
    · subst heq
      rw [Scope.find?_insert_self] at hfound
      cases hfound
      refine ⟨hty ?_ ?_, hname hstorable⟩
      · cases hvar : var.ty <;> simp_all [Ty.isStorable, Ty.isConcrete]
      · intro hlabel
        rw [hlabel] at hstorable
        cases hstorable
    · rw [Scope.find?_insert_of_ne _ _ heq] at hfound
      exact (h.vars hfound hstorable).imp_right (Or.imp_left fun hmem => hnames hmem)
  functions {other found signature} hfound hfunction := by
    by_cases heq : other = name
    · subst heq
      rw [Scope.find?_insert_self] at hfound
      cases hfound
      exact setting.function (hfunction ▸ hty (by rw [hfunction]; rfl) (by rw [hfunction]; simp)) _
    · rw [Scope.find?_insert_of_ne _ _ heq] at hfound
      exact h.functions hfound hfunction

theorem insertFunction (h : setting.Binds names scope) (name : String) {var : Var}
    {signature : Signature} (hty : var.ty = .function signature)
    (hcallable : setting.callable var.register signature) :
    setting.Binds names (scope.insert name var) where
  vars {other found} hfound hstorable := by
    by_cases heq : other = name
    · subst heq
      rw [Scope.find?_insert_self] at hfound
      cases hfound
      rw [hty] at hstorable
      cases hstorable
    · rw [Scope.find?_insert_of_ne _ _ heq] at hfound
      exact h.vars hfound hstorable
  functions {other found signature'} hfound hfunction := by
    by_cases heq : other = name
    · subst heq
      rw [Scope.find?_insert_self] at hfound
      cases hfound
      rw [hty] at hfunction
      cases hfunction
      exact hcallable
    · rw [Scope.find?_insert_of_ne _ _ heq] at hfound
      exact h.functions hfound hfunction

theorem mint (h : setting.Binds names scope) (base : String) {ty : Ty}
    (hty : ty.isConcrete → ty ≠ .label → setting.value ty)
    (hname : ty.isStorable → setting.known (scope.newRegister base)) :
    setting.Binds names (scope.mint base ty).2 :=
  h.insert (List.Subset.refl _) hty fun hstorable => Or.inr (hname hstorable)

theorem label (h : setting.Binds names scope) (base : String) :
    setting.Binds names (scope.mint base .label).2 :=
  h.mint base (fun _ hne => absurd rfl hne) (by rintro ⟨⟩)

theorem addConstant (h : setting.Binds names scope) (constant : Constant)
    (hname : setting.known (scope.newRegister constant.base)) :
    setting.Binds names (scope.mint constant.base constant.ty).2 :=
  h.mint constant.base (fun _ _ => setting.constantTy constant) fun _ => hname

theorem enter (h : setting.Binds names scope) {parameters : List (String × Ty)}
    (hparameters : ∀ parameter ∈ parameters, setting.value parameter.2)
    (hknown : ∀ parameter ∈ (scope.enter parameters).1,
      setting.known parameter.incoming.register) :
    setting.Binds (names ++ parameters.map Prod.fst) (scope.enter parameters).2 := by
  induction parameters generalizing scope names with
  | nil => simpa [Scope.enter] using h
  | cons parameter rest ih =>
    obtain ⟨name, ty⟩ := parameter
    have hty := hparameters _ List.mem_cons_self
    obtain ⟨hfirst, hrest⟩ := List.forall_mem_cons.mp hknown
    have hminted := h.mint (name ++ ".val") (fun _ _ => hty) fun _ => hfirst
    have hbound :
        setting.Binds (names ++ [name]) ((scope.mint (name ++ ".val") ty).2.bind name ty).2 :=
      hminted.insert (List.subset_append_left _ _) (fun _ _ => hty) fun _ => Or.inl (by simp)
    rw [List.map_cons, List.append_cons]
    exact ih hbound (fun parameter hmem => hparameters parameter (List.mem_cons_of_mem _ hmem)) hrest

end Setting.Binds

namespace Body.Sound

/-- A register that is in use is not taken for something new. -/
theorem newRegister_not_mem_kept (h : body.Sound setting names) (base : String) :
    body.scope.newRegister base ∉ setting.kept := by
  intro hmem
  exact body.scope.not_inUse_newRegister base (h.kept _ hmem)

theorem mint (h : body.Sound setting names) (base : String) {ty : Ty}
    (hty : ty.isConcrete → ty ≠ .label → setting.value ty)
    (hname : ty.isStorable → setting.known (body.scope.newRegister base)) :
    (body.mint base ty).Sound setting names where
  keyed := h.keyed.mint base ty
  stage := setting.grow (body.scope.not_inUse_newRegister base) h.stage
  kept register hmem := Body.inUse_mint.mpr (Or.inr (h.kept register hmem))
  binds := h.binds.mint base hty hname
  slots hchecked name hmem := by
    obtain ⟨var, hfound, hvar⟩ := h.slots hchecked name hmem
    exact ⟨var, h.keyed.find?_mint base ty hfound, hvar⟩

theorem label (h : body.Sound setting names) (base : String) :
    (body.mint base .label).Sound setting names :=
  h.mint base (fun _ hne => absurd rfl hne) (by rintro ⟨⟩)

theorem append (h : body.Sound setting names) (instruction : Instr) :
    (body.append instruction).Sound setting names := by
  refine ⟨h.keyed, h.stage, h.kept, h.binds, fun hchecked name hmem => ?_⟩
  rw [entry_append]
  exact h.slots hchecked name hmem

theorem reserve (h : body.Sound setting names) (slot : Var) :
    (body.reserve slot).Sound setting names := by
  refine ⟨h.keyed, h.stage, h.kept, h.binds, fun hchecked name hmem => ?_⟩
  obtain ⟨var, hfound, hentry, hkept⟩ := h.slots hchecked name hmem
  refine ⟨var, hfound, ?_, hkept⟩
  rw [entry_reserve]
  exact List.mem_append_left _ hentry

theorem addConstant (h : body.Sound setting names) (constant : Constant) :
    (body.addConstant constant).Sound setting names :=
  ⟨h.keyed, h.stage, h.kept, h.binds, h.slots⟩

/-- A declaration: a name bound to a stack slot of its own. -/
theorem declare (h : body.Sound setting names) (name : String) {ty : Ty} (hty : setting.value ty) :
    ((body.rebind name ty).reserve (.make (body.scope.newRegister name) ty)).Sound setting
      (names ++ [name]) where
  keyed := h.keyed.bind name ty
  stage := setting.grow (body.scope.not_inUse_newRegister name) h.stage
  kept register hmem := Body.inUse_rebind.mpr (Or.inr (h.kept register hmem))
  binds := h.binds.insert (List.subset_append_left _ _) (fun _ _ => hty) fun _ => Or.inl (by simp)
  slots hchecked other hmem := by
    rw [entry_reserve]
    by_cases heq : other = name
    · subst heq
      exact ⟨_, Scope.find?_insert_self _ _ _, by simp, fun _ => h.newRegister_not_mem_kept other⟩
    · obtain ⟨var, hfound, hentry, hkept⟩ := h.slots hchecked other (by simpa [heq] using hmem)
      exact ⟨var, (Scope.find?_insert_of_ne _ _ heq).trans hfound,
        List.mem_append_left _ hentry, hkept⟩

end Body.Sound

end ThreeAddress
