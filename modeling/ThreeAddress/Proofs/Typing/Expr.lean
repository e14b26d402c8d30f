import ThreeAddress.Proofs.Typing.Setting

/-!
# Expressions keep to a setting

Lowering an expression, or a part of one, takes a sound body to a sound body and adds only sound
instructions. The value that it yields has a known type, and its register is written at that type.

## Main definitions

* `Lowering.Delivers`: a way of lowering an expression that keeps to a setting.
* `Body.Supplies`: what a pass does that writes a given register.

## Main statements

* `Lowering.delivers_lowerExpr`: lowering an expression.
* `Lowering.supplies_call`: lowering a call.
* `Lowering.advances_lowerTarget`: lowering the target of an assignment.
-/

namespace ThreeAddress

variable {table : TypeTable} {setting : Setting table} {names : List String}
  {body middle last : Body}

-- ════════════════════════
-- The types of parts
-- ════════════════════════

namespace Ty

variable {name : String} {ty : Ty}

theorem eq_of_requireStruct {definition : StructTy} (h : ty.requireStruct name = .ok definition) :
    ty = .struct definition ∨ ty = .ref (.struct definition) := by
  unfold requireStruct at h
  split at h
  · next found =>
    cases h
    unfold struct? at found
    split at found <;> cases found
    · exact Or.inl rfl
    · exact Or.inr rfl
  · cases h

theorem eq_of_requireArray {member : Ty} (h : ty.requireArray name = .ok member) :
    ∃ extent, ty = .array member extent := by
  unfold requireArray at h
  split at h
  · next found =>
    cases h
    unfold member? at found
    split at found <;> cases found
    exact ⟨_, rfl⟩
  · cases h

end Ty

theorem TypeTable.mem_of_get {name : String} {definition : StructTy}
    (h : table.get name = .ok definition) : definition ∈ table.structs := by
  unfold TypeTable.get at h
  split at h
  · next found =>
    cases h
    exact List.mem_of_find?_eq_some found
  · cases h

-- ════════════════════════
-- Sound instructions
-- ════════════════════════

namespace Instr.Sound

/-- An instruction without operands that is neither a call nor a stack slot. -/
theorem of_control {instruction : Instr} (huses : instruction.typedUses = [])
    (hcall : ∀ target callee signature arguments,
      instruction ≠ .call target callee signature arguments)
    (hslot : instruction.slot? = none) : instruction.Sound setting body where
  types _ := by
    constructor
    · simp [huses]
    · cases instruction <;> simp_all [address?, typedUses]
    · cases instruction <;> simp_all [indices, typedUses]
    · rintro target ty slot rfl
      simp [typedUses] at huses
    · rintro value register rfl
      simp [typedUses] at huses
    · exact hslot
  calls heq := absurd heq (hcall _ _ _ _)
  stores := by
    rintro value address rfl
    simp [typedUses] at huses
  bases := by
    rintro target base address indices inbounds rfl
    simp [typedUses] at huses

theorem label (name : String) : (Instr.label name).Sound setting body :=
  of_control rfl (by simp) rfl

theorem branch (name : String) : (Instr.branch name).Sound setting body :=
  of_control rfl (by simp) rfl

theorem load (target : String) {place : Place} (hplace : place.Sound setting body) :
    (Instr.load target place.ty place.address).Sound setting body where
  types hchecked := by
    obtain ⟨register, haddress, hkept, hlocates⟩ := hplace.locates hchecked
    rw [haddress]
    refine ⟨?_, by simp [address?, Operand.isLocation], by simp [indices], ?_, by simp, rfl⟩
    · simpa [typedUses] using hlocates.produces
    · rintro _ _ _ ⟨⟩
      exact ⟨hlocates, hkept⟩
  calls := by simp
  stores := by simp
  bases := by simp

theorem store {value : Value} {place : Place} (hvalue : value.Sound setting body)
    (hplace : place.Sound setting body) : (Instr.store value place.address).Sound setting body where
  types hchecked := by
    obtain ⟨register, haddress, hkept, hlocates⟩ := hplace.locates hchecked
    rw [haddress]
    refine ⟨?_, by simp [address?, Operand.isLocation], by simp [indices], by simp, ?_, rfl⟩
    · intro register spelling hmem
      simp only [typedUses, List.mem_cons, Prod.mk.injEq, List.not_mem_nil, or_false] at hmem
      rcases hmem with ⟨heq, rfl⟩ | ⟨heq, rfl⟩
      · exact hvalue.produces hchecked register heq.symm
      · cases heq
        exact hlocates.produces
    · rintro _ _ ⟨⟩
      exact hkept
  calls := by simp
  stores := by
    rintro _ _ ⟨⟩
    exact hvalue.known
  bases := by simp

/-- An address computation. Its base is a place, or a symbol of the module. -/
theorem elementAddress {target : String} {base : Ty} {address : Operand} {indices : List Value}
    {inbounds : Bool}
    (haddress : (∃ ty, (Place.mk address ty).Sound setting body) ∨ ∃ symbol, address = .global symbol)
    (hbase : setting.value base ∧ (base.isObscure → ∃ extent, setting.value (.array base extent)))
    (hindices : ∀ index ∈ indices, index.Sound setting body ∧ index.ty.isInteger) :
    (Instr.elementAddress target base address indices inbounds).Sound setting body where
  types hchecked := by
    have hlocation : address.isLocation ∧
        ∀ register, address = .register register → body.Produces register "ptr" := by
      rcases haddress with ⟨ty, hplace⟩ | ⟨symbol, rfl⟩
      · obtain ⟨register, heq, -, hlocates⟩ := hplace.locates hchecked
        obtain rfl : address = .register register := heq
        exact ⟨rfl, by rintro _ ⟨⟩; exact hlocates.produces⟩
      · exact ⟨rfl, by simp⟩
    refine ⟨?_, by simpa [address?] using hlocation.1, fun index hmem => (hindices index hmem).2,
      by simp, by simp, rfl⟩
    intro register spelling hmem
    simp only [typedUses, List.mem_cons, Prod.mk.injEq, List.mem_map] at hmem
    rcases hmem with ⟨heq, rfl⟩ | ⟨index, hmem, heq, rfl⟩
    · exact hlocation.2 register heq.symm
    · exact (hindices index hmem).1.produces hchecked register heq
  calls := by simp
  stores := by simp
  bases := by
    rintro _ _ _ _ _ ⟨⟩
    exact hbase

theorem operator (operator : Operator) (target : String) {ty : Ty} {left right : Value}
    (hleft : left.Sound setting body) (hright : right.Sound setting body) (hleftTy : left.ty = ty)
    (hrightTy : right.ty = ty) :
    (operator.instruction target ty left.operand right.operand).Sound setting body where
  types hchecked := by
    have huses : (operator.instruction target ty left.operand right.operand).typedUses =
        [(left.operand, ty.spelling), (right.operand, ty.spelling)] := by
      cases operator <;> rfl
    constructor
    · intro register spelling hmem
      simp only [huses, List.mem_cons, Prod.mk.injEq, List.not_mem_nil, or_false] at hmem
      rcases hmem with ⟨heq, rfl⟩ | ⟨heq, rfl⟩
      · exact hleftTy ▸ hleft.produces hchecked register heq.symm
      · exact hrightTy ▸ hright.produces hchecked register heq.symm
    · cases operator <;> simp [Operator.instruction, address?]
    · cases operator <;> simp [Operator.instruction, indices]
    · cases operator <;> simp [Operator.instruction]
    · cases operator <;> simp [Operator.instruction]
    · cases operator <;> rfl
  calls := by cases operator <;> simp [Operator.instruction]
  stores := by cases operator <;> simp [Operator.instruction]
  bases := by cases operator <;> simp [Operator.instruction]

/-- A value that is widened or that a member is taken out of. -/
theorem of_value {instruction : Instr} {value : Value} (hvalue : value.Sound setting body)
    (hinstruction : (∃ extension target ty, instruction = .extend extension target value ty) ∨
      ∃ target position, instruction = .extractMember target value position) :
    instruction.Sound setting body where
  types hchecked := by
    have hproduces := hvalue.produces hchecked
    rcases hinstruction with ⟨extension, target, ty, rfl⟩ | ⟨target, position, rfl⟩ <;>
      refine ⟨?_, by simp [address?], by simp [indices], by simp, by simp, rfl⟩ <;>
      · intro register spelling hmem
        simp only [typedUses, List.mem_singleton, Prod.mk.injEq] at hmem
        obtain ⟨heq, rfl⟩ := hmem
        exact hproduces register heq.symm
  calls := by
    rcases hinstruction with ⟨extension, target, ty, rfl⟩ | ⟨target, position, rfl⟩ <;> simp
  stores := by
    rcases hinstruction with ⟨extension, target, ty, rfl⟩ | ⟨target, position, rfl⟩ <;> simp
  bases := by
    rcases hinstruction with ⟨extension, target, ty, rfl⟩ | ⟨target, position, rfl⟩ <;> simp

theorem call {target : Option String} {callee : String} {signature : Signature}
    {arguments : List Value} (hcallable : setting.callable callee signature)
    (haccepts : signature.accepts arguments.length)
    (harguments : ∀ argument ∈ arguments, argument.Sound setting body) :
    (Instr.call target callee signature arguments).Sound setting body where
  types hchecked := by
    refine ⟨?_, by simp [address?], by simp [indices], by simp, by simp, rfl⟩
    intro register spelling hmem
    simp only [typedUses, List.mem_map, Prod.mk.injEq] at hmem
    obtain ⟨argument, hmem, heq, rfl⟩ := hmem
    exact (harguments argument hmem).produces hchecked register heq
  calls := by
    rintro _ _ _ _ ⟨⟩
    exact ⟨hcallable, haccepts⟩
  stores := by simp
  bases := by simp

end Instr.Sound

-- ════════════════════════
-- Registers and instructions
-- ════════════════════════

theorem Body.Advances.append (h : body.Sound setting names) {instruction : Instr}
    (hinstruction : instruction.Sound setting body) :
    body.Advances setting names (body.append instruction) := by
  have hprecedes : body.Precedes (body.append instruction) :=
    ⟨by simp, by simp⟩
  exact ⟨h.append instruction, by simp, [instruction], Body.code_append _ _,
    by simpa using hprecedes.soundInstr hinstruction⟩

namespace Lowering

theorem advances_temporary {ty : Ty} {var : Var}
    (h : (temporary ty).eval body = .ok (var, last)) (hsound : body.Sound setting names)
    (hty : ty.isConcrete → setting.value ty) :
    body.Advances setting names last ∧ var.ty = ty ∧ var.register ∉ setting.kept := by
  obtain ⟨rfl, rfl⟩ := eval_temporary_eq_ok_iff.mp h
  refine ⟨.of_code_eq ?_ List.prefix_rfl rfl, rfl, hsound.newRegister_not_mem_kept _⟩
  exact hsound.mint _ (fun hconcrete _ => hty hconcrete) fun _ => setting.temporary hsound.stage

/-- Emitting an instruction changes a scope by the label of a dead block at most. -/
theorem sound_emit {instruction : Instr} {result : Unit}
    (h : (emit instruction).eval body = .ok (result, last)) (hsound : body.Sound setting names) :
    last.Sound setting names := by
  rcases eval_emit_cases h with ⟨-, rfl⟩ | ⟨name, rfl, -, rfl⟩ | ⟨-, -, rfl⟩
  · exact hsound.append _
  · exact (hsound.append _).append _
  · exact ((hsound.label "dead").append _).append _

theorem advances_emit {instruction : Instr} {result : Unit}
    (h : (emit instruction).eval body = .ok (result, last)) (hsound : body.Sound setting names)
    (hinstruction : instruction.Sound setting body) : body.Advances setting names last := by
  rcases eval_emit_cases h with ⟨-, rfl⟩ | ⟨name, rfl, -, rfl⟩ | ⟨-, -, rfl⟩
  · exact .append hsound hinstruction
  · exact (Body.Advances.append hsound (.branch name)).trans
      (.append (hsound.append _) (.label name))
  · have hminted : body.Advances setting names (body.mint "dead" .label) :=
      .of_code_eq (hsound.label "dead") List.prefix_rfl rfl
    have hopened := hminted.trans
      (.append (hsound.label "dead") (.label (body.scope.newRegister "dead")))
    exact hopened.trans (.append hopened.sound (hopened.precedes.soundInstr hinstruction))

theorem mem_code_of_emit {instruction : Instr} {result : Unit}
    (h : (emit instruction).eval body = .ok (result, last)) : instruction ∈ last.code := by
  obtain ⟨before, hcode⟩ := endsWith_of_eval_emit h
  simp [hcode]

/-- After an instruction its register is written at the type that it produces. -/
theorem produces_of_emit {instruction : Instr} {result : Unit} {register spelling : String}
    (h : (emit instruction).eval body = .ok (result, last))
    (htarget : instruction.target? = some register)
    (hproduces : instruction.produces = some spelling) : last.Produces register spelling :=
  ⟨instruction, List.mem_append_right _ (mem_code_of_emit h), htarget, hproduces⟩

/-- After an instruction that computes a pointer, its register locates memory for any type. -/
theorem place_of_emit {instruction : Instr} {result : Unit} {var : Var} {ty : Ty}
    (h : (emit instruction).eval body = .ok (result, last))
    (htarget : instruction.target? = some var.register)
    (hproduces : instruction.produces = some "ptr") (hkept : var.register ∉ setting.kept)
    (hty : setting.value ty) : (Place.mk var.operand ty).Sound setting last :=
  ⟨hty, fun _ => ⟨var.register, rfl, hkept,
    Or.inr ⟨instruction, mem_code_of_emit h, htarget, hproduces⟩⟩⟩

-- ════════════════════════
-- Places
-- ════════════════════════

/-- A variable that is found has a known type, and if it is declared, a stack slot. -/
theorem reserved_variable {name : String} {var : Var}
    (h : (variableNamed name).eval body = .ok (var, last)) (hsound : body.Sound setting names)
    (hname : setting.checked → name ∈ names) :
    body = last ∧ setting.value var.ty ∧ (setting.checked → .alloca var.register var.ty ∈ body.entry ∧
      (name ∉ setting.spared → var.register ∉ setting.kept)) := by
  obtain ⟨hfound, hstorable, rfl⟩ := eval_variableNamed_eq_ok_iff.mp h
  refine ⟨rfl, (hsound.binds.vars hfound hstorable).1, fun hchecked => ?_⟩
  obtain ⟨slot, hslot, hentry, hkept⟩ := hsound.slots hchecked name (hname hchecked)
  rw [hfound] at hslot
  cases hslot
  exact ⟨hentry, hkept⟩

/-- A variable that may be read stands for a place. -/
theorem sound_variable {name : String} {var : Var}
    (h : (variableNamed name).eval body = .ok (var, last)) (hsound : body.Sound setting names)
    (hname : setting.checked → name ∈ names) (hread : name ∉ setting.spared) :
    body = last ∧ var.place.Sound setting body := by
  obtain ⟨rfl, hknown, hreserved⟩ := reserved_variable h hsound hname
  refine ⟨rfl, hknown, fun hchecked => ?_⟩
  obtain ⟨hentry, hkept⟩ := hreserved hchecked
  exact ⟨var.register, rfl, hkept hread, Or.inl hentry⟩

theorem advances_loadInto {target : String} {place : Place} {ty : Ty}
    (h : (loadInto target place).eval body = .ok (ty, last)) (hsound : body.Sound setting names)
    (hplace : place.Sound setting body) :
    body.Advances setting names last ∧ setting.value ty ∧ last.Produces target ty.spelling := by
  simp only [loadInto, Pass.eval_bind_eq_ok_iff, Pass.eval_pure_eq_ok_iff] at h
  obtain ⟨_, _, hload, rfl, rfl⟩ := h
  exact ⟨advances_emit hload hsound (.load target hplace), hplace.known,
    produces_of_emit hload rfl rfl⟩

theorem spelling_of_isPointer {ty : Ty} (h : ty.isPointer) : ty.spelling = "ptr" := by
  cases ty <;> first | rfl | cases h

/-- Behind a pointer that is loaded is a place of what it points to. -/
theorem advances_follow {pointer ty : Ty} {address result : Operand}
    (h : (follow pointer address).eval body = .ok (result, last)) (hsound : body.Sound setting names)
    (haddress : (Place.mk address pointer).Sound setting body) (hpointer : pointer.isPointer)
    (hty : setting.value ty) :
    body.Advances setting names last ∧ (Place.mk result ty).Sound setting last := by
  simp only [follow, Pass.eval_bind_eq_ok_iff, Pass.eval_pure_eq_ok_iff] at h
  obtain ⟨register, made, hmade, _, _, hload, rfl, rfl⟩ := h
  obtain ⟨hgrown, -, hkept⟩ := advances_temporary hmade hsound fun _ => haddress.known
  have hloaded := advances_emit hload hgrown.sound (.load _ (hgrown.precedes.soundPlace haddress))
  exact ⟨hgrown.trans hloaded,
    place_of_emit hload rfl (congrArg some (spelling_of_isPointer hpointer)) hkept hty⟩

/-- Each reference that is followed leads to a place again. -/
theorem advances_followAll {depth : Nat} {place found : Place}
    (h : (followAll place depth).eval body = .ok (found, last)) (hsound : body.Sound setting names)
    (hplace : place.Sound setting body) :
    body.Advances setting names last ∧ found.Sound setting last := by
  induction depth generalizing place body with
  | zero =>
    obtain ⟨rfl, rfl⟩ := Pass.eval_pure_eq_ok_iff.mp h
    exact ⟨.refl hsound, hplace⟩
  | succ depth ih =>
    obtain ⟨target, address, middle, hty, hfollow, hrest⟩ := eval_followAll_succ h
    have hknown := hplace.known
    rw [hty] at hknown
    obtain ⟨hfollowed, htarget⟩ := advances_follow hfollow hsound hplace (by rw [hty]; rfl)
      (setting.target hknown)
    obtain ⟨hothers, hfound⟩ := ih hrest hfollowed.sound htarget
    exact ⟨hfollowed.trans hothers, hfound⟩

theorem advances_variablePlace {name : String} {place : Place}
    (h : (variablePlace name).eval body = .ok (place, last)) (hsound : body.Sound setting names)
    (hname : setting.checked → name ∈ names) (hread : name ∉ setting.spared) :
    body.Advances setting names last ∧ place.Sound setting last := by
  obtain ⟨var, hvar, rfl⟩ := Pass.eval_map_eq_ok_iff.mp h
  obtain ⟨rfl, hplace⟩ := sound_variable hvar hsound hname hread
  exact ⟨.refl hsound, hplace⟩

theorem advances_derefPlace {name : String} {depth : Nat} {place : Place}
    (h : (derefPlace name depth).eval body = .ok (place, last)) (hsound : body.Sound setting names)
    (hname : setting.checked → name ∈ names) (hread : name ∉ setting.spared) :
    body.Advances setting names last ∧ place.Sound setting last := by
  obtain ⟨var, _, hvar, -, hfollow⟩ := eval_derefPlace h
  obtain ⟨rfl, hplace⟩ := sound_variable hvar hsound hname hread
  exact advances_followAll hfollow hsound hplace

theorem sound_indices (first second : Nat) :
    ∀ index ∈ [Value.index first, Value.index second], index.Sound setting body ∧
      index.ty.isInteger := by
  intro index hmem
  rcases List.mem_pair.mp hmem with rfl | rfl <;> exact ⟨⟨setting.int _, by rintro _ _ ⟨⟩⟩, rfl⟩

theorem advances_memberPlace {definition : StructTy} {address : Operand} {position : Nat}
    {member : Member} {place : Place} {ty : Ty}
    (h : (memberPlace definition address position member).eval body = .ok (place, last))
    (hsound : body.Sound setting names) (haddress : (Place.mk address ty).Sound setting body)
    (hdefinition : setting.value (.struct definition)) (hmember : setting.value member.ty) :
    body.Advances setting names last ∧ place.Sound setting last := by
  simp only [memberPlace, Pass.eval_bind_eq_ok_iff, Pass.eval_pure_eq_ok_iff] at h
  obtain ⟨target, made, hmade, _, _, hemit, rfl, rfl⟩ := h
  obtain ⟨hgrown, -, hkept⟩ := advances_temporary hmade hsound fun _ => setting.ref hmember
  have hemitted := advances_emit hemit hgrown.sound
    (.elementAddress (Or.inl ⟨ty, hgrown.precedes.soundPlace haddress⟩) ⟨hdefinition, fun h => Bool.noConfusion h⟩
      (sound_indices 0 position))
  exact ⟨hgrown.trans hemitted, place_of_emit hemit rfl rfl hkept hmember⟩

theorem mem_of_field? {definition : StructTy} {name : String} {position : Nat} {member : Member}
    (h : definition.field? name = some (position, member)) : member ∈ definition.members := by
  have hgo (members : List Member) : ∀ start, StructTy.field?.go name start members =
      some (position, member) → member ∈ members := by
    induction members with
    | nil =>
      intro start hfound
      cases hfound
    | cons first rest ih =>
      intro start hfound
      rw [StructTy.field?.go] at hfound
      split_ifs at hfound
      · cases hfound
        exact List.mem_cons_self
      · exact List.mem_cons_of_mem _ (ih _ hfound)
  exact hgo _ _ h

theorem mem_of_memberNamed {definition : StructTy} {name : String} {found : Nat × Member}
    (h : definition.memberNamed name = .ok found) : found.2 ∈ definition.members := by
  unfold StructTy.memberNamed at h
  split at h
  · next hfound =>
    cases h
    exact mem_of_field? hfound
  · cases h

theorem advances_structAddress {var : Var} {definition : StructTy} {address : Operand} {base : String}
    (h : (structAddress var).eval body = .ok (address, last)) (hsound : body.Sound setting names)
    (hplace : var.place.Sound setting body) (hstruct : var.ty.requireStruct base = .ok definition) :
    body.Advances setting names last ∧ (Place.mk address (.struct definition)).Sound setting last := by
  have hknown : setting.value var.ty := hplace.known
  rcases Ty.eq_of_requireStruct hstruct with hty | hty
  · rw [structAddress, hty] at h
    obtain ⟨rfl, rfl⟩ := Pass.eval_pure_eq_ok_iff.mp h
    exact ⟨.refl hsound, hty ▸ hplace⟩
  · have hfollow : (follow var.ty var.operand).eval body = .ok (address, last) := by
      rw [structAddress, hty] at h
      rwa [hty]
    rw [hty] at hknown
    exact advances_follow hfollow hsound hplace (by rw [hty]; rfl) (setting.target hknown)

theorem advances_fieldPlace {base field : String} {place : Place}
    (h : (fieldPlace base field).eval body = .ok (place, last)) (hsound : body.Sound setting names)
    (hname : setting.checked → base ∈ names) (hread : base ∉ setting.spared) :
    body.Advances setting names last ∧ place.Sound setting last := by
  simp only [fieldPlace, Pass.eval_bind_eq_ok_iff, Pass.eval_ofExcept_eq_ok_iff] at h
  obtain ⟨var, _, hvar, definition, _, ⟨hstruct, rfl⟩, address, _, hfollow, _, _, ⟨hfield, rfl⟩,
    hmember⟩ := h
  obtain ⟨rfl, hplace⟩ := sound_variable hvar hsound hname hread
  obtain ⟨hfollowed, haddress⟩ := advances_structAddress hfollow hsound hplace hstruct
  have hvalue : setting.value (.struct definition) := haddress.known
  obtain ⟨hplaced, hplace⟩ := advances_memberPlace hmember hfollowed.sound haddress hvalue
    (setting.member hvalue _ (mem_of_memberNamed hfield))
  exact ⟨hfollowed.trans hplaced, hplace⟩

/-- A pass that keeps to a setting and yields a value that does. -/
def Delivers (setting : Setting table) (names : List String) (pass : Lowering Value) : Prop :=
  ∀ ⦃body value last⦄, pass.eval body = .ok (value, last) → body.Sound setting names →
    body.Advances setting names last ∧ value.Sound setting last

/-- A pass was run to its end, from some sound body. -/
def Reached (setting : Setting table) (names : List String) (pass : Lowering Value) : Prop :=
  ∃ body value last, body.Sound setting names ∧ pass.eval body = .ok (value, last)

theorem advances_elementPlace {array : String} {index : Lowering Value} {place : Place}
    (h : (elementPlace array index).eval body = .ok (place, last)) (hsound : body.Sound setting names)
    (hname : setting.checked → array ∈ names) (hread : array ∉ setting.spared)
    (hindex : Delivers setting names index) :
    (body.Advances setting names last ∧ place.Sound setting last) ∧
      Reached setting names index := by
  simp only [elementPlace, Pass.eval_bind_eq_ok_iff, Pass.eval_ofExcept_eq_ok_iff,
    Pass.eval_require_eq_ok_iff, Pass.eval_pure_eq_ok_iff] at h
  obtain ⟨var, _, hvar, member, _, ⟨harray, rfl⟩, address, _, hfollow, position, _, hlower, _, _,
    ⟨hinteger, rfl⟩, target, made, hmade, _, _, hemit, rfl, rfl⟩ := h
  obtain ⟨rfl, hplace⟩ := sound_variable hvar hsound hname hread
  obtain ⟨extent, hshape⟩ := Ty.eq_of_requireArray harray
  have hknown : setting.value var.ty := hplace.known
  rw [hshape] at hknown
  have hmember : setting.value member := setting.element hknown
  obtain ⟨hfollowed, haddress⟩ := advances_follow hfollow hsound hplace
    (by rw [hshape]; rfl) hmember
  obtain ⟨hlowered, hposition⟩ := hindex hlower hfollowed.sound
  obtain ⟨hgrown, -, hkept⟩ := advances_temporary hmade hlowered.sound fun _ => setting.ref hmember
  have hemitted := advances_emit hemit hgrown.sound
    (.elementAddress (Or.inl ⟨member, (hlowered.trans hgrown).precedes.soundPlace haddress⟩)
      ⟨hmember, fun _ => ⟨extent, hknown⟩⟩ (by simpa [hinteger] using hgrown.precedes.soundValue hposition))
  exact ⟨⟨hfollowed.trans (hlowered.trans (hgrown.trans hemitted)),
    place_of_emit hemit rfl rfl hkept hmember⟩, _, _, _, hfollowed.sound, hlower⟩

-- ════════════════════════
-- Arguments
-- ════════════════════════

/-- A way of lowering an expression that keeps to a setting whatever known type is asked for. -/
def DeliversAt (setting : Setting table) (names : List String)
    (lower : Option Ty → Lowering Value) : Prop :=
  ∀ expected, (∀ ty ∈ expected, setting.value ty) → Delivers setting names (lower expected)

/-- A way of lowering an expression was followed where a known type was asked for. -/
def Followed (setting : Setting table) (names : List String)
    (lower : Option Ty → Lowering Value) : Prop :=
  ∃ expected, (∀ ty ∈ expected, setting.value ty) ∧ Reached setting names (lower expected)

/-- An argument was lowered, unless it is a literal that is read as it is. -/
def Examined (setting : Setting table) (names : List String) (argument : Pending) : Prop :=
  (∃ size, argument.expression = .integer size) ∨ Followed setting names argument.lower

theorem advances_passArguments {arguments : List Pending} {parameters : List Ty}
    {values : List Value} (h : (passArguments arguments parameters).eval body = .ok (values, last))
    (hsound : body.Sound setting names)
    (harguments : ∀ argument ∈ arguments, DeliversAt setting names argument.lower)
    (hparameters : ∀ ty ∈ parameters, setting.value ty) :
    body.Advances setting names last ∧ (∀ value ∈ values, value.Sound setting last) ∧
      values.length = arguments.length ∧ ∀ argument ∈ arguments, Examined setting names argument := by
  induction arguments generalizing parameters body values with
  | nil =>
    obtain ⟨rfl, rfl⟩ := Pass.eval_pure_eq_ok_iff.mp h
    exact ⟨.refl hsound, by simp, rfl, by simp⟩
  | cons argument rest ih =>
    obtain ⟨value, lowered, others, hlower, hothers, rfl⟩ := eval_passArguments_cons h
    have hexpected : ∀ ty ∈ parameters.head?, setting.value ty :=
      fun ty hmem => hparameters ty (List.mem_of_mem_head? hmem)
    obtain ⟨hlowered, hvalue⟩ := harguments argument (by simp) _ hexpected hlower hsound
    obtain ⟨hpassed, hothers, hlength, hexamined⟩ := ih hothers hlowered.sound
      (fun argument hmem => harguments argument (List.mem_cons_of_mem _ hmem))
      fun ty hmem => hparameters ty (List.mem_of_mem_tail hmem)
    refine ⟨hlowered.trans hpassed, ?_, by simp [hlength], ?_⟩
    · intro found hmem
      rcases List.mem_cons.mp hmem with rfl | hmem
      · exact hpassed.precedes.soundValue hvalue
      · exact hothers found hmem
    · intro other hmem
      rcases List.mem_cons.mp hmem with rfl | hmem
      · exact Or.inr ⟨_, hexpected, body, value, lowered, hsound, hlower⟩
      · exact hexamined other hmem

theorem advances_promote {value promoted : Value}
    (h : (promote value).eval body = .ok (promoted, last)) (hsound : body.Sound setting names)
    (hvalue : value.Sound setting body) :
    body.Advances setting names last ∧ promoted.Sound setting last := by
  unfold promote at h
  split at h
  · simp only [Pass.eval_bind_eq_ok_iff, Pass.eval_pure_eq_ok_iff] at h
    obtain ⟨target, made, hmade, _, _, hemit, rfl, rfl⟩ := h
    obtain ⟨hgrown, -, -⟩ := advances_temporary hmade hsound fun _ => setting.int _
    have hemitted := advances_emit hemit hgrown.sound
      (.of_value (hgrown.precedes.soundValue hvalue) (Or.inl ⟨_, _, _, rfl⟩))
    refine ⟨hgrown.trans hemitted, setting.int _, ?_⟩
    rintro - _ ⟨⟩
    exact produces_of_emit hemit rfl rfl
  · obtain ⟨rfl, rfl⟩ := Pass.eval_pure_eq_ok_iff.mp h
    exact ⟨.refl hsound, hvalue⟩

theorem advances_passVariadic {arguments : List Pending} {values : List Value}
    (h : (passVariadic arguments).eval body = .ok (values, last)) (hsound : body.Sound setting names)
    (harguments : ∀ argument ∈ arguments, DeliversAt setting names argument.lower) :
    body.Advances setting names last ∧ (∀ value ∈ values, value.Sound setting last) ∧
      ∀ argument ∈ arguments, Examined setting names argument := by
  induction arguments generalizing body values with
  | nil =>
    obtain ⟨rfl, rfl⟩ := Pass.eval_pure_eq_ok_iff.mp h
    exact ⟨.refl hsound, by simp, by simp⟩
  | cons argument rest ih =>
    simp only [passVariadic, Pass.eval_bind_eq_ok_iff, Pass.eval_pure_eq_ok_iff] at h
    obtain ⟨value, lowered, hlower, promoted, _, hpromote, others, _, hothers, rfl, rfl⟩ := h
    obtain ⟨hlowered, hvalue⟩ := harguments argument (by simp) none (by simp) hlower hsound
    obtain ⟨hpromoted, hvalue⟩ := advances_promote hpromote hlowered.sound hvalue
    obtain ⟨hpassed, hothers, hexamined⟩ := ih hothers hpromoted.sound
      fun argument hmem => harguments argument (List.mem_cons_of_mem _ hmem)
    refine ⟨hlowered.trans (hpromoted.trans hpassed), ?_, ?_⟩
    · intro found hmem
      rcases List.mem_cons.mp hmem with rfl | hmem
      · exact hpassed.precedes.soundValue hvalue
      · exact hothers found hmem
    · intro other hmem
      rcases List.mem_cons.mp hmem with rfl | hmem
      · exact Or.inr ⟨none, by simp, body, value, lowered, hsound, hlower⟩
      · exact hexamined other hmem

/-- A size is a literal. -/
theorem sound_sizeArgument {builtin : Builtin} {argument : Pending} {value : Value}
    (h : sizeArgument builtin argument.expression = .ok value) :
    value.Sound setting body ∧ Examined setting names argument := by
  cases hexpression : argument.expression with
  | integer size =>
    rw [hexpression] at h
    simp only [sizeArgument] at h
    split at h
    · cases h
      exact ⟨⟨setting.int _, by rintro _ _ ⟨⟩⟩, Or.inl ⟨size, hexpression⟩⟩
    · cases h
  | _ =>
    rw [hexpression] at h
    cases h

-- ════════════════════════
-- Calls
-- ════════════════════════

end Lowering

/-- What a pass does that writes the register at hand, if there is one, with a value of a known type,
if it has a value. -/
structure Body.Supplies (setting : Setting table) (names : List String) (target : Option Var)
    (returned : Option Ty) (body last : Body) : Prop where
  advances : body.Advances setting names last
  known : ∀ ty ∈ returned, setting.value ty
  produces : ∀ ty ∈ returned, ∀ var ∈ target, last.Produces var.register ty.spelling

theorem Body.Supplies.after {target : Option Var} {returned : Option Ty}
    (h : middle.Supplies setting names target returned last)
    (hbefore : body.Advances setting names middle) :
    body.Supplies setting names target returned last :=
  ⟨hbefore.trans h.advances, h.known, h.produces⟩

namespace Lowering

theorem supplies_emit_call {target : Option Var} {callee : String} {signature : Signature}
    {arguments : List Value} {result : Unit}
    (h : (emit (.call (target.map Var.register) callee signature arguments)).eval body =
      .ok (result, last)) (hsound : body.Sound setting names)
    (hcallable : setting.callable callee signature) (haccepts : signature.accepts arguments.length)
    (harguments : ∀ argument ∈ arguments, argument.Sound setting body) :
    body.Supplies setting names target signature.returns last := by
  refine ⟨advances_emit h hsound (.call hcallable haccepts harguments), setting.returns hcallable, ?_⟩
  intro ty hty var hvar
  refine produces_of_emit h ?_ ?_
  · rw [Option.mem_def.mp hvar]
    rfl
  · rw [Instr.produces, Option.mem_def.mp hty]
    rfl

theorem supplies_printFormat {format : Pending} {values : List Pending} {target : Option Var}
    {result : Unit} (h : (printFormat format values target).eval body = .ok (result, last))
    (hsound : body.Sound setting names) (hformat : DeliversAt setting names format.lower)
    (hvalues : ∀ argument ∈ values, DeliversAt setting names argument.lower) :
    body.Supplies setting names target (some .i32) last ∧
      ∀ argument ∈ format :: values, Examined setting names argument := by
  simp only [printFormat, Pass.eval_bind_eq_ok_iff, Pass.eval_require_eq_ok_iff] at h
  obtain ⟨value, lowered, hlower, _, _, ⟨-, rfl⟩, others, _, hpass, hcall⟩ := h
  have hbytes : ∀ ty ∈ some Ty.bytes, setting.value ty := by
    simpa using setting.ref (setting.int _)
  obtain ⟨hlowered, hvalue⟩ := hformat _ hbytes hlower hsound
  obtain ⟨hpassed, hothers, hexamined⟩ := advances_passVariadic hpass hlowered.sound hvalues
  have hcalled := supplies_emit_call hcall hpassed.sound (setting.support .printf)
    (by simp [Signature.accepts, Support.signature])
    (by simpa [hpassed.precedes.soundValue hvalue] using hothers)
  refine ⟨hcalled.after (hlowered.trans hpassed), ?_⟩
  intro argument hmem
  rcases List.mem_cons.mp hmem with rfl | hmem
  · exact Or.inr ⟨_, hbytes, body, value, lowered, hsound, hlower⟩
  · exact hexamined argument hmem

theorem supplies_wrap {constructor : Support} {argument : Pending} {target : Option Var}
    {result : Unit} (h : (wrap constructor argument target).eval body = .ok (result, last))
    (hconstructor : constructor.signature = ⟨some .result, [.bytes], false⟩)
    (hsound : body.Sound setting names) (hargument : DeliversAt setting names argument.lower) :
    body.Supplies setting names target (some .result) last ∧ Examined setting names argument := by
  simp only [wrap, callSupport, Pass.eval_bind_eq_ok_iff, Pass.eval_ofExcept_eq_ok_iff] at h
  obtain ⟨value, lowered, hlower, _, _, ⟨-, rfl⟩, payload, made, hmade, _, allocated, hmalloc, _,
    stored, hstore, hcall⟩ := h
  obtain ⟨hlowered, hvalue⟩ := hargument none (by simp) hlower hsound
  obtain ⟨hgrown, hty, hkept⟩ := advances_temporary hmade hlowered.sound
    fun _ => setting.ref hvalue.known
  have hallocated := advances_emit hmalloc hgrown.sound
    (.call (setting.support .malloc) rfl (by
      simpa using ⟨setting.int _, by rintro _ _ ⟨⟩⟩))
  have hpointer : (Place.mk payload.operand value.ty).Sound setting allocated :=
    place_of_emit hmalloc rfl rfl hkept hvalue.known
  have hstored := advances_emit hstore hallocated.sound
    (.store ((hgrown.trans hallocated).precedes.soundValue hvalue) hpointer)
  have hpayload : payload.value.Sound setting stored := by
    rw [Var.value, hty]
    refine ⟨setting.ref hvalue.known, ?_⟩
    rintro - _ ⟨⟩
    exact hstored.precedes.produces (produces_of_emit hmalloc rfl rfl)
  have hcalled := supplies_emit_call hcall hstored.sound (setting.support constructor)
    (by rw [hconstructor]; rfl) (by simpa using hpayload)
  rw [hconstructor] at hcalled
  exact ⟨hcalled.after (hlowered.trans (hgrown.trans (hallocated.trans hstored))),
    Or.inr ⟨none, by simp, body, value, lowered, hsound, hlower⟩⟩

theorem supplies_allocate {size : Pending} {target : Option Var} {result : Unit}
    (h : (allocate size target).eval body = .ok (result, last)) (hsound : body.Sound setting names) :
    body.Supplies setting names target (some .bytes) last ∧ Examined setting names size := by
  simp only [allocate, Pass.eval_bind_eq_ok_iff, Pass.eval_ofExcept_eq_ok_iff] at h
  obtain ⟨value, _, ⟨hsize, rfl⟩, hcall⟩ := h
  obtain ⟨hvalue, hexamined⟩ := sound_sizeArgument hsize
  exact ⟨supplies_emit_call hcall hsound (setting.support .malloc) rfl (by simpa using hvalue),
    hexamined⟩

theorem supplies_reallocate {pointer size : Pending} {target : Option Var} {result : Unit}
    (h : (reallocate pointer size target).eval body = .ok (result, last))
    (hsound : body.Sound setting names) (hpointer : DeliversAt setting names pointer.lower) :
    body.Supplies setting names target (some .bytes) last ∧
      ∀ argument ∈ [pointer, size], Examined setting names argument := by
  simp only [reallocate, Pass.eval_bind_eq_ok_iff, Pass.eval_ofExcept_eq_ok_iff,
    Pass.eval_require_eq_ok_iff] at h
  obtain ⟨value, lowered, hlower, _, _, ⟨-, rfl⟩, bytes, _, ⟨hsize, rfl⟩, hcall⟩ := h
  have hbytes : ∀ ty ∈ some Ty.bytes, setting.value ty := by
    simpa using setting.ref (setting.int _)
  obtain ⟨hlowered, hvalue⟩ := hpointer _ hbytes hlower hsound
  obtain ⟨hcount, hexamined⟩ := sound_sizeArgument hsize
  have hcalled := supplies_emit_call hcall hlowered.sound (setting.support .realloc) rfl
    (by simpa [hvalue] using hcount)
  refine ⟨hcalled.after hlowered, ?_⟩
  intro argument hmem
  rcases List.mem_pair.mp hmem with rfl | rfl
  · exact Or.inr ⟨_, hbytes, body, value, lowered, hsound, hlower⟩
  · exact hexamined

theorem value_payloadTy {target : Option Var}
    (htarget : ∀ var ∈ target, var.ty.isConcrete → setting.value var.ty) :
    setting.value (payloadTy target) := by
  unfold payloadTy
  cases hfilter : target.filter fun var => !var.dynamic && var.ty.isStorable with
  | none => exact setting.int _
  | some var =>
    obtain ⟨hvar, hstorable⟩ := Option.filter_eq_some_iff.mp hfilter
    refine htarget var hvar ?_
    cases hty : var.ty <;> simp_all [Ty.isStorable, Ty.isConcrete]

theorem supplies_unwrap {argument : Pending} {target : Option Var} {ty : Ty}
    (h : (unwrap argument target).eval body = .ok (ty, last)) (hsound : body.Sound setting names)
    (hargument : DeliversAt setting names argument.lower)
    (htarget : ∀ var ∈ target, var.ty.isConcrete → setting.value var.ty) :
    body.Supplies setting names target (some ty) last ∧ Examined setting names argument := by
  obtain ⟨rfl, value, lowered, payload, made, extracted, written, before, hlower, hresult, hmade,
    hextract, hwritten, hload⟩ := eval_unwrap h
  have hty := value_payloadTy htarget
  have hexpected : ∀ ty ∈ some Ty.result, setting.value ty := by
    simpa using setting.result
  obtain ⟨hlowered, hvalue⟩ := hargument _ hexpected hlower hsound
  obtain ⟨hgrown, -, hkept⟩ := advances_temporary hmade hlowered.sound fun _ => setting.ref hty
  have hextracted := advances_emit hextract hgrown.sound
    (.of_value (hgrown.precedes.soundValue hvalue) (Or.inr ⟨_, _, rfl⟩))
  have hplace : (Place.mk payload.operand (payloadTy target)).Sound setting extracted :=
    place_of_emit hextract rfl rfl hkept hty
  have hready : extracted.Advances setting names before := by
    rcases hwritten with ⟨-, rfl⟩ | ⟨-, hscratch⟩
    · exact .refl hextracted.sound
    · exact (advances_temporary hscratch hextracted.sound fun _ => hty).1
  have hloaded := advances_emit hload hready.sound
    (.load written.register (hready.precedes.soundPlace hplace))
  refine ⟨⟨hlowered.trans (hgrown.trans (hextracted.trans (hready.trans hloaded))),
    by simpa using hty, ?_⟩, Or.inr ⟨_, hexpected, body, value, lowered, hsound, hlower⟩⟩
  rintro _ ⟨⟩ var hvar
  rcases hwritten with ⟨rfl, -⟩ | ⟨rfl, -⟩
  · cases hvar
    exact produces_of_emit hload rfl rfl
  · cases hvar

theorem supplies_callBuiltin {builtin : Builtin} {arguments : List Pending} {target : Option Var}
    {ty : Ty} (h : (callBuiltin builtin arguments target).eval body = .ok (ty, last))
    (hsound : body.Sound setting names)
    (harguments : ∀ argument ∈ arguments, DeliversAt setting names argument.lower)
    (htarget : ∀ var ∈ target, var.ty.isConcrete → setting.value var.ty) :
    body.Supplies setting names target (some ty) last ∧
      ∀ argument ∈ arguments, Examined setting names argument := by
  unfold callBuiltin at h
  split at h
  · cases h
  · obtain ⟨hrun, rfl⟩ := eval_andReturn h
    exact supplies_printFormat hrun hsound (harguments _ (by simp)) fun argument hmem =>
      harguments argument (List.mem_cons_of_mem _ hmem)
  · obtain ⟨hrun, rfl⟩ := eval_andReturn h
    simpa [Builtin.resultTy] using supplies_wrap hrun rfl hsound (harguments _ (by simp))
  · obtain ⟨hrun, rfl⟩ := eval_andReturn h
    simpa [Builtin.resultTy] using supplies_wrap hrun rfl hsound (harguments _ (by simp))
  · simpa using supplies_unwrap h hsound (harguments _ (by simp)) htarget
  · obtain ⟨hrun, rfl⟩ := eval_andReturn h
    simpa [Builtin.resultTy] using supplies_allocate hrun hsound
  · obtain ⟨hrun, rfl⟩ := eval_andReturn h
    exact supplies_reallocate hrun hsound (harguments _ (by simp))
  · cases h

theorem supplies_callFunction {callee : String} {arguments : List Pending} {target : Option Var}
    {returned : Option Ty}
    (h : (callFunction callee arguments target).eval body = .ok (returned, last))
    (hsound : body.Sound setting names)
    (harguments : ∀ argument ∈ arguments, DeliversAt setting names argument.lower) :
    body.Supplies setting names target returned last ∧
      ∀ argument ∈ arguments, Examined setting names argument := by
  obtain ⟨function, signature, values, before, hfound, hfunction, haccepts, hpass, hcall, -, rfl⟩ :=
    eval_callFunction h
  have hcallable := hsound.binds.functions hfound hfunction
  obtain ⟨hpassed, hvalues, hlength, hexamined⟩ :=
    advances_passArguments hpass hsound harguments (setting.parameters hcallable)
  have hcalled := supplies_emit_call hcall hpassed.sound hcallable (hlength ▸ haccepts) hvalues
  exact ⟨hcalled.after hpassed, hexamined⟩

/-- Lowering a call. -/
theorem supplies_call {callee : String} {arguments : List Pending} {target : Option Var}
    {returned : Option Ty} (h : (call callee arguments target).eval body = .ok (returned, last))
    (hsound : body.Sound setting names)
    (harguments : ∀ argument ∈ arguments, DeliversAt setting names argument.lower)
    (htarget : ∀ var ∈ target, var.ty.isConcrete → setting.value var.ty) :
    body.Supplies setting names target returned last ∧
      ∀ argument ∈ arguments, Examined setting names argument := by
  unfold call at h
  split at h
  · simp only [Pass.eval_bind_eq_ok_iff, Pass.eval_report_eq_ok_iff, Pass.eval_map_eq_ok_iff] at h
    obtain ⟨_, _, rfl, _, hcall, rfl⟩ := h
    exact supplies_callBuiltin hcall hsound harguments htarget
  · exact supplies_callFunction h hsound harguments

-- ════════════════════════
-- Compound expressions
-- ════════════════════════

/-- The register of a computed value has no type yet, or a known one. -/
theorem advances_compute {expected : Option Ty} {computation : Var → Lowering Ty} {value : Value}
    (h : (compute expected computation).eval body = .ok (value, last))
    (hsound : body.Sound setting names) (hexpected : ∀ ty ∈ expected, setting.value ty) :
    ∃ target made ty, body.Advances setting names made ∧
      (target.ty.isConcrete → setting.value target.ty) ∧
      (computation target).eval made = .ok (ty, last) ∧ value = ⟨target.operand, ty⟩ := by
  simp only [compute_eq, Pass.eval_bind_eq_ok_iff, Pass.eval_pure_eq_ok_iff] at h
  obtain ⟨target, made, hmade, ty, _, hcompute, rfl, rfl⟩ := h
  have hty : ((expected.filter Ty.isStorable).getD .dynamic).isConcrete →
      setting.value ((expected.filter Ty.isStorable).getD .dynamic) := by
    intro hconcrete
    cases hfilter : expected.filter Ty.isStorable with
    | none =>
      rw [hfilter] at hconcrete
      cases hconcrete
    | some asked => exact hexpected asked (Option.filter_eq_some_iff.mp hfilter).1
  obtain ⟨hgrown, htarget, -⟩ := advances_temporary hmade hsound hty
  exact ⟨target, made, ty, hgrown, htarget ▸ hty, hcompute, rfl⟩

/-- A value computed into a new register. -/
theorem delivers_compute {expected : Option Ty} {computation : Var → Lowering Ty}
    (hexpected : ∀ ty ∈ expected, setting.value ty)
    (h : ∀ ⦃target body ty last⦄, (computation target).eval body = .ok (ty, last) →
      body.Sound setting names → (target.ty.isConcrete → setting.value target.ty) →
        body.Supplies setting names (some target) (some ty) last) :
    Delivers setting names (compute expected computation) := by
  intro body value last hrun hsound
  obtain ⟨target, made, ty, hgrown, hty, hcompute, rfl⟩ := advances_compute hrun hsound hexpected
  have hcomputed := h hcompute hgrown.sound hty
  refine ⟨hgrown.trans hcomputed.advances, hcomputed.known ty rfl, ?_⟩
  rintro - _ ⟨⟩
  exact hcomputed.produces ty rfl target rfl

/-- A place that is loaded into the register at hand. -/
theorem supplies_loadPlace {pass : Lowering Place} {target : Var} {ty : Ty}
    (h : (do
      let place ← pass
      loadInto target.register place : Lowering Ty).eval body = .ok (ty, last))
    (hpass : ∀ ⦃place middle⦄, pass.eval body = .ok (place, middle) →
      body.Advances setting names middle ∧ place.Sound setting middle) :
    body.Supplies setting names (some target) (some ty) last := by
  simp only [Pass.eval_bind_eq_ok_iff] at h
  obtain ⟨place, _, hplace, hload⟩ := h
  obtain ⟨hplaced, hplace⟩ := hpass hplace
  obtain ⟨hloaded, hty, hproduces⟩ := advances_loadInto hload hplaced.sound hplace
  exact ⟨hplaced.trans hloaded, by simpa using hty, by simpa using hproduces⟩

theorem supplies_addressConstant {constant : Constant} {target : Var} {ty : Ty} {result : Unit}
    (h : (addressConstant constant target).eval body = .ok (result, last))
    (hsound : body.Sound setting names) (hty : setting.value ty) (hpointer : ty.isPointer) :
    body.Supplies setting names (some target) (some ty) last := by
  simp only [addressConstant, Pass.eval_bind_eq_ok_iff] at h
  obtain ⟨symbol, interned, hintern, hemit⟩ := h
  have hinterned : body.Advances setting names interned := by
    rcases eval_intern hintern with rfl | rfl
    · exact .refl hsound
    · exact .of_code_eq (hsound.addConstant constant) List.prefix_rfl rfl
  have hbase : constant.ty.isObscure = false := by cases constant <;> rfl
  have hemitted := advances_emit hemit hinterned.sound
    (.elementAddress (Or.inr ⟨symbol, rfl⟩) ⟨setting.constantTy constant, by simp [hbase]⟩
      (sound_indices 0 0))
  refine ⟨hinterned.trans hemitted, by simpa using hty, ?_⟩
  rintro _ ⟨⟩ _ ⟨⟩
  exact produces_of_emit hemit rfl (congrArg some (spelling_of_isPointer hpointer).symm)

theorem produces_operator (operator : Operator) (target : String) (ty : Ty) (lhs rhs : Operand) :
    (operator.instruction target ty lhs rhs).produces =
      some (if operator.isComparison then Ty.bool else ty).spelling := by
  cases operator <;> rfl

theorem value_of_supports (setting : Setting table) {ty : Ty} {operator : Operator}
    (h : ty.supports operator) :
    ∀ asked ∈ some ty, setting.value asked := by
  rintro _ ⟨⟩
  cases ty with
  | int width => exact setting.int width
  | _ => cases h

theorem supplies_applyOperator {frame : Frame} {operator : Operator} {lhs rhs : Expr} {target : Var}
    {ty : Ty} (h : (applyOperator frame operator ⟨lhs, lowerExpr frame lhs⟩
      ⟨rhs, lowerExpr frame rhs⟩ target).eval body = .ok (ty, last))
    (hsound : body.Sound setting names) (hlhs : DeliversAt setting names (lowerExpr frame lhs))
    (hrhs : DeliversAt setting names (lowerExpr frame rhs)) :
    body.Supplies setting names (some target) (some ty) last := by
  obtain ⟨common, left, middle, right, before, hcommon, hsupports, hlower, hlower', -, -, hsame, hemit,
    rfl⟩ := eval_applyOperator h
  have hint := value_of_supports setting hsupports
  obtain ⟨hleftTy, hrightTy⟩ := ty_operands hcommon hsupports hlower hlower' hsound.keyed hsame
  obtain ⟨hleft, hleftValue⟩ := hlhs _ hint hlower hsound
  obtain ⟨hright, hrightValue⟩ := hrhs _ hint hlower' hleft.sound
  have hemitted := advances_emit hemit hright.sound
    (.operator operator _ (hright.precedes.soundValue hleftValue) hrightValue hleftTy hrightTy)
  refine ⟨hleft.trans (hright.trans hemitted), ?_, ?_⟩
  · rintro _ ⟨⟩
    split
    · exact setting.int _
    · exact hint _ rfl
  · rintro _ ⟨⟩ _ ⟨⟩
    exact produces_of_emit hemit (target?_operatorInstruction _ _ _ _ _)
      (produces_operator _ _ _ _ _)

theorem advances_storeFields {definition : StructTy} {address : Operand} {ty : Ty}
    {fields : List PendingField} {result : Unit}
    (h : (storeFields definition address fields).eval body = .ok (result, last))
    (hsound : body.Sound setting names) (haddress : (Place.mk address ty).Sound setting body)
    (hdefinition : setting.value (.struct definition))
    (hfields : ∀ field ∈ fields, DeliversAt setting names field.lower) :
    body.Advances setting names last ∧ ∀ field ∈ fields, Followed setting names field.lower := by
  induction fields generalizing body with
  | nil =>
    obtain ⟨-, rfl⟩ := Pass.eval_pure_eq_ok_iff.mp h
    exact ⟨.refl hsound, by simp⟩
  | cons field rest ih =>
    simp only [storeFields, Pass.eval_bind_eq_ok_iff, Pass.eval_ofExcept_eq_ok_iff,
      eval_expectType_eq_ok_iff] at h
    obtain ⟨⟨position, member⟩, _, ⟨hfound, rfl⟩, value, lowered, hlower, _, _, ⟨-, rfl⟩, place, _,
      hmember, _, _, hstore, hrest⟩ := h
    have hknown : setting.value member.ty :=
      setting.member hdefinition member (mem_of_memberNamed hfound)
    have hexpected : ∀ ty ∈ some member.ty, setting.value ty := by
      simpa using hknown
    obtain ⟨hlowered, hvalue⟩ := hfields field (by simp) _ hexpected hlower hsound
    obtain ⟨hplaced, hplace⟩ := advances_memberPlace hmember hlowered.sound
      (hlowered.precedes.soundPlace haddress) hdefinition hknown
    have hstored := advances_emit hstore hplaced.sound
      (.store (hplaced.precedes.soundValue hvalue) hplace)
    have hbefore := hlowered.trans (hplaced.trans hstored)
    obtain ⟨hothers, hfollowed⟩ := ih hrest hstored.sound (hbefore.precedes.soundPlace haddress)
      fun field hmem => hfields field (List.mem_cons_of_mem _ hmem)
    refine ⟨hbefore.trans hothers, ?_⟩
    intro other hmem
    rcases List.mem_cons.mp hmem with rfl | hmem
    · exact ⟨_, hexpected, body, value, lowered, hsound, hlower⟩
    · exact hfollowed other hmem

theorem supplies_buildStruct {frame : Frame} {struct : String} {fields : List PendingField}
    {target : Var} {ty : Ty}
    (h : (buildStruct frame struct fields target).eval body = .ok (ty, last))
    (htable : frame.table = table) (hsound : body.Sound setting names)
    (hfields : ∀ field ∈ fields, DeliversAt setting names field.lower) :
    body.Supplies setting names (some target) (some ty) last ∧
      ∀ field ∈ fields, Followed setting names field.lower := by
  simp only [buildStruct, Pass.eval_bind_eq_ok_iff, Pass.eval_ofExcept_eq_ok_iff,
    eval_reserve_eq_ok_iff] at h
  obtain ⟨definition, _, ⟨hget, rfl⟩, slot, made, hmade, _, _, ⟨-, rfl⟩, _, stored, hstore, hload⟩ := h
  have hdefinition : setting.value (.struct definition) :=
    setting.struct (htable ▸ TypeTable.mem_of_get hget)
  obtain ⟨hgrown, hty, hkept⟩ := advances_temporary hmade hsound fun _ => hdefinition
  have hreserved : made.Advances setting names (made.reserve slot) :=
    .of_code_eq (hgrown.sound.reserve slot) (by simp) (made.code_reserve slot)
  have hslot : slot.place.Sound setting (made.reserve slot) := by
    have hknown : setting.value slot.ty := hty ▸ hdefinition
    refine ⟨hknown, fun _ => ⟨slot.register, rfl, hkept, Or.inl ?_⟩⟩
    simp [Var.place]
  obtain ⟨hstored, hfollowed⟩ :=
    advances_storeFields hstore hreserved.sound hslot hdefinition hfields
  obtain ⟨hloaded, hvalue, hproduces⟩ :=
    advances_loadInto hload hstored.sound (hstored.precedes.soundPlace hslot)
  exact ⟨⟨hgrown.trans (hreserved.trans (hstored.trans hloaded)), by simpa using hvalue,
    by simpa using hproduces⟩, hfollowed⟩

theorem supplies_constantArray {elements : List Expr} {target : Var} {ty : Ty}
    (h : (constantArray elements target).eval body = .ok (ty, last))
    (hsound : body.Sound setting names) :
    body.Supplies setting names (some target) (some ty) last := by
  simp only [constantArray_eq, Pass.eval_bind_eq_ok_iff, Pass.eval_ofExcept_eq_ok_iff,
    Pass.eval_pure_eq_ok_iff] at h
  obtain ⟨_, _, ⟨-, rfl⟩, _, _, haddress, rfl, rfl⟩ := h
  exact supplies_addressConstant haddress hsound (setting.constantTy (.array _ _)) rfl

-- ════════════════════════
-- Expressions
-- ════════════════════════

theorem delivers_pure {value : Value} (hty : setting.value value.ty)
    (hvalue : ∀ register, value.operand ≠ .register register) :
    Delivers setting names (pure value) := by
  intro body result last hrun hsound
  obtain ⟨rfl, rfl⟩ := Pass.eval_pure_eq_ok_iff.mp hrun
  exact ⟨.refl hsound, hty, fun _ register heq => absurd heq (hvalue register)⟩

mutual

/-- Lowering an expression. -/
theorem delivers_lowerExpr {frame : Frame} (htable : frame.table = table) : ∀ expression : Expr,
    (setting.checked → expression.mentions ⊆ names) →
      (∀ name ∈ expression.reads, name ∉ setting.spared) →
        DeliversAt setting names (lowerExpr frame expression)
  | .integer value, _, _, expected, _ => by
    rw [lowerExpr_integer]
    refine delivers_pure ?_ (by simp [Value.immediate])
    unfold Ty.ofLiteral Value.immediate
    split <;> exact setting.int _
  | .boolean value, _, _, _, _ => by
    rw [lowerExpr_boolean]
    exact delivers_pure (setting.int _) (by simp)
  | .address name, hnames, _, _, _ => by
    rw [lowerExpr_address]
    intro body value last hrun hsound
    simp only [Pass.eval_bind_eq_ok_iff, Pass.eval_pure_eq_ok_iff] at hrun
    obtain ⟨var, _, hvar, rfl, rfl⟩ := hrun
    obtain ⟨rfl, hknown, hreserved⟩ := reserved_variable hvar hsound
      fun hchecked => hnames hchecked (by simp [Expr.mentions])
    refine ⟨.refl hsound, setting.ref hknown, ?_⟩
    rintro hchecked _ ⟨⟩
    have hlocates : body.Locates var.register var.ty := Or.inl (hreserved hchecked).1
    exact hlocates.produces
  | .text value, _, _, _, hexpected => by
    rw [lowerExpr_text]
    refine delivers_compute hexpected fun target body ty last hrun hsound _ => ?_
    obtain ⟨haddress, rfl⟩ := eval_andReturn hrun
    exact supplies_addressConstant haddress hsound (setting.ref (setting.int _)) rfl
  | .variableRef name, hnames, hreads, _, hexpected => by
    rw [lowerExpr_variableRef]
    exact delivers_compute hexpected fun target body ty last hrun hsound _ =>
      supplies_loadPlace hrun fun _ _ hplace => advances_variablePlace hplace hsound
        (fun hchecked => hnames hchecked (by simp [Expr.mentions]))
        (hreads _ (by simp [Expr.reads]))
  | .binary operator lhs rhs, hnames, hreads, _, hexpected => by
    rw [lowerExpr_binary]
    simp only [Expr.mentions, List.append_subset] at hnames
    simp only [Expr.reads, List.forall_mem_append] at hreads
    exact delivers_compute hexpected fun target body ty last hrun hsound _ =>
      supplies_applyOperator hrun hsound
        (delivers_lowerExpr htable lhs (fun hchecked => (hnames hchecked).1) hreads.1)
        (delivers_lowerExpr htable rhs (fun hchecked => (hnames hchecked).2) hreads.2)
  | .call callee arguments, hnames, hreads, _, hexpected => by
    rw [lowerExpr_call]
    simp only [Expr.mentions] at hnames
    simp only [Expr.reads] at hreads
    exact delivers_compute hexpected fun target body ty last hrun hsound htarget =>
      (supplies_call (eval_callForValue hrun) hsound
        (delivers_pending htable arguments hnames hreads) (by simpa using htarget)).1
  | .deref name depth, hnames, hreads, _, hexpected => by
    rw [lowerExpr_deref]
    exact delivers_compute hexpected fun target body ty last hrun hsound _ =>
      supplies_loadPlace hrun fun _ _ hplace => advances_derefPlace hplace hsound
        (fun hchecked => hnames hchecked (by simp [Expr.mentions]))
        (hreads _ (by simp [Expr.reads]))
  | .field base field, hnames, hreads, _, hexpected => by
    rw [lowerExpr_field]
    exact delivers_compute hexpected fun target body ty last hrun hsound _ =>
      supplies_loadPlace hrun fun _ _ hplace => advances_fieldPlace hplace hsound
        (fun hchecked => hnames hchecked (by simp [Expr.mentions]))
        (hreads _ (by simp [Expr.reads]))
  | .element array index, hnames, hreads, _, hexpected => by
    rw [lowerExpr_element]
    simp only [Expr.mentions, List.cons_subset] at hnames
    simp only [Expr.reads, List.forall_mem_cons] at hreads
    exact delivers_compute hexpected fun target body ty last hrun hsound _ =>
      supplies_loadPlace hrun fun _ _ hplace => (advances_elementPlace hplace hsound
        (fun hchecked => (hnames hchecked).1) hreads.1
        (delivers_lowerExpr htable index (fun hchecked => (hnames hchecked).2) hreads.2 none
          (by simp))).1
  | .build struct fields, hnames, hreads, _, hexpected => by
    rw [lowerExpr_build]
    simp only [Expr.mentions] at hnames
    simp only [Expr.reads] at hreads
    exact delivers_compute hexpected fun target body ty last hrun hsound _ =>
      (supplies_buildStruct hrun htable hsound (delivers_pendingFields htable fields hnames hreads)).1
  | .array elements, _, _, _, hexpected => by
    rw [lowerExpr_array]
    exact delivers_compute hexpected fun target body ty last hrun hsound _ =>
      supplies_constantArray hrun hsound

theorem delivers_pending {frame : Frame} (htable : frame.table = table) :
    ∀ expressions : List Expr, (setting.checked → Expr.mentionsAll expressions ⊆ names) →
      (∀ name ∈ Expr.readsAll expressions, name ∉ setting.spared) →
      ∀ argument ∈ pending frame expressions, DeliversAt setting names argument.lower
  | [], _, _ => by simp [pending]
  | expression :: rest, hnames, hreads => by
    simp only [Expr.mentionsAll, List.append_subset] at hnames
    simp only [Expr.readsAll, List.forall_mem_append] at hreads
    intro argument hmem
    rw [pending] at hmem
    rcases List.mem_cons.mp hmem with rfl | hmem
    · exact delivers_lowerExpr htable expression (fun hchecked => (hnames hchecked).1) hreads.1
    · exact delivers_pending htable rest (fun hchecked => (hnames hchecked).2) hreads.2 argument hmem

theorem delivers_pendingFields {frame : Frame} (htable : frame.table = table) :
    ∀ fields : List FieldValue, (setting.checked → FieldValue.mentionsAll fields ⊆ names) →
      (∀ name ∈ FieldValue.readsAll fields, name ∉ setting.spared) →
      ∀ field ∈ pendingFields frame fields, DeliversAt setting names field.lower
  | [], _, _ => by simp [pendingFields]
  | ⟨name, value⟩ :: rest, hnames, hreads => by
    simp only [FieldValue.mentionsAll, List.append_subset] at hnames
    simp only [FieldValue.readsAll, List.forall_mem_append] at hreads
    intro field hmem
    rw [pendingFields] at hmem
    rcases List.mem_cons.mp hmem with rfl | hmem
    · exact delivers_lowerExpr htable value (fun hchecked => (hnames hchecked).1) hreads.1
    · exact delivers_pendingFields htable rest (fun hchecked => (hnames hchecked).2) hreads.2 field hmem

end

/-- Lowering the target of an assignment. -/
theorem advances_lowerTarget {frame : Frame} (htable : frame.table = table) {target : Expr}
    {place : Place} (h : (lowerTarget frame target).eval body = .ok (place, last))
    (hsound : body.Sound setting names) (hnames : setting.checked → target.mentions ⊆ names)
    (hreads : ∀ name ∈ target.reads, name ∉ setting.spared) :
    body.Advances setting names last ∧ place.Sound setting last := by
  cases target with
  | variableRef name =>
    exact advances_variablePlace h hsound (fun hchecked => hnames hchecked (by simp [Expr.mentions]))
      (hreads _ (by simp [Expr.reads]))
  | deref name depth =>
    exact advances_derefPlace h hsound (fun hchecked => hnames hchecked (by simp [Expr.mentions]))
      (hreads _ (by simp [Expr.reads]))
  | field base field =>
    exact advances_fieldPlace h hsound (fun hchecked => hnames hchecked (by simp [Expr.mentions]))
      (hreads _ (by simp [Expr.reads]))
  | element array index =>
    simp only [Expr.mentions, List.cons_subset] at hnames
    simp only [Expr.reads, List.forall_mem_cons] at hreads
    exact (advances_elementPlace h hsound (fun hchecked => (hnames hchecked).1) hreads.1
      (delivers_lowerExpr htable index (fun hchecked => (hnames hchecked).2) hreads.2 none
        (by simp))).1
  | _ => cases h

end Lowering

end ThreeAddress
