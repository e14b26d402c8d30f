import ThreeAddress.Proofs.Emission.Extends

/-!
# How a body grows

Whatever lowering does to a body is made of five kinds of changes. A change needs nothing and may come at
any time, so what holds of all bodies that changes lead to holds in every state of lowering a function.
Of most passages only two things matter later: the stack slots they reserve and the calls they emit.

## Main definitions

* `Body.Change`, `Body.Evolves`: one change, and changes in a row.
* `Body.Emits`: changes that reserve the given stack slots and emit the given calls.

## Main statements

* `Body.Evolves.keyed`: bound names stay in use.
* `Lowering.emits_emit`: emitting an instruction that reserves nothing.
-/

namespace ThreeAddress

/-- Whether an instruction is a call. -/
def Instr.isCall : Instr → Bool
  | call _ _ _ _ => true
  | _ => false

namespace Body

/-- One change to a body. -/
inductive Change : Body → Body → Prop
  | mint (body : Body) (base : String) (ty : Ty) : Change body (body.mint base ty)
  | rebind (body : Body) (name : String) (ty : Ty) : Change body (body.rebind name ty)
  | addConstant (body : Body) (constant : Constant) : Change body (body.addConstant constant)
  | reserve (body : Body) (slot : Var) : Change body (body.reserve slot)
  | append (body : Body) (instruction : Instr) : Change body (body.append instruction)

/-- Changes in a row. -/
abbrev Evolves : Body → Body → Prop := Relation.ReflTransGen Change

/-- Every step of lowering is a change. -/
theorem Step.change {permit : Permit} {body last : Body} (h : Step permit body last) :
    Change body last := by
  cases h with
  | mint base ty => exact .mint body base ty
  | rebind name ty => exact .rebind body name ty
  | addConstant constant => exact .addConstant body constant
  | reserve slot => exact .reserve body slot
  | append instruction => exact .append body instruction

theorem Steps.evolves {permit : Permit} {body last : Body} (h : Steps permit body last) :
    Evolves body last :=
  Relation.ReflTransGen.mono (fun _ _ => Step.change) body last h

/-- What one change keeps, changes in a row keep. -/
theorem Evolves.invariant {P : Body → Prop} (hchange : ∀ body last, Change body last → P body → P last)
    {body last : Body} (h : Evolves body last) (hbody : P body) : P last := by
  induction h with
  | refl => exact hbody
  | tail _ hlast ih => exact hchange _ _ hlast ih

/-- Bound names stay in use. -/
theorem Evolves.keyed {body last : Body} (h : Evolves body last) (hkeyed : body.scope.Keyed) :
    last.scope.Keyed := by
  refine h.invariant (P := fun body => body.scope.Keyed) ?_ hkeyed
  intro body last hchange hkeyed
  cases hchange with
  | mint base ty => exact hkeyed.mint base ty
  | rebind name ty => exact hkeyed.bind name ty
  | addConstant | reserve | append => exact hkeyed

/-- Changes that reserve the given stack slots and emit the given calls. Stack slots are reserved in the
entry only. -/
structure Emits (slots : List Var) (calls : List Instr) (body last : Body) : Prop where
  evolves : body.Evolves last
  entry : last.entry =
    body.entry ++ slots.map fun slot => .alloca slot.register slot.ty
  code : ∃ added, last.code = body.code ++ added ∧
    added.filter Instr.isCall = calls ∧ ∀ instruction ∈ added, instruction.slot? = none

namespace Emits

variable {slots more : List Var} {calls others : List Instr} {body middle last : Body}

theorem refl (body : Body) : body.Emits [] [] body :=
  ⟨.refl, by simp, [], by simp⟩

theorem trans (h : body.Emits slots calls middle) (h' : middle.Emits more others last) :
    body.Emits (slots ++ more) (calls ++ others) last := by
  obtain ⟨added, hcode, rfl, hadded⟩ := h.code
  obtain ⟨added', hcode', rfl, hadded'⟩ := h'.code
  refine ⟨h.evolves.trans h'.evolves, ?_, added ++ added', ?_, List.filter_append _ _,
    List.forall_mem_append.mpr ⟨hadded, hadded'⟩⟩
  · rw [h'.entry, h.entry, List.map_append, List.append_assoc]
  · rw [hcode', hcode, List.append_assoc]

theorem mint (body : Body) (base : String) (ty : Ty) : body.Emits [] [] (body.mint base ty) :=
  ⟨.single (.mint body base ty), (List.append_nil _).symm, [], (List.append_nil _).symm, by simp⟩

theorem rebind (body : Body) (name : String) (ty : Ty) : body.Emits [] [] (body.rebind name ty) :=
  ⟨.single (.rebind body name ty), (List.append_nil _).symm, [], (List.append_nil _).symm, by simp⟩

theorem addConstant (body : Body) (constant : Constant) :
    body.Emits [] [] (body.addConstant constant) :=
  ⟨.single (.addConstant body constant), (List.append_nil _).symm, [], (List.append_nil _).symm,
    by simp⟩

theorem reserve (body : Body) (slot : Var) : body.Emits [slot] [] (body.reserve slot) :=
  ⟨.single (.reserve body slot), entry_reserve .., [], by simp, by simp⟩

theorem append (body : Body) (instruction : Instr) (h : instruction.slot? = none) :
    body.Emits [] ([instruction].filter Instr.isCall) (body.append instruction) :=
  ⟨.single (.append body instruction), by simp, [instruction], code_append .., rfl,
    List.forall_mem_singleton.mpr h⟩

end Emits

end Body

namespace Lowering

variable {body last : Body}

/-- Emitting an instruction that reserves nothing. The blocks that it ends or starts hold no calls. -/
theorem emits_emit {instruction : Instr} {result : Unit}
    (hrun : (emit instruction).eval body = .ok (result, last)) (h : instruction.slot? = none) :
    body.Emits [] ([instruction].filter Instr.isCall) last := by
  rcases eval_emit_cases hrun with ⟨-, rfl⟩ | ⟨name, -, -, rfl⟩ | ⟨-, -, rfl⟩
  · exact .append body instruction h
  · exact (Body.Emits.append body (.branch name) rfl).trans (.append _ instruction h)
  · exact ((Body.Emits.mint body "dead" .label).trans (.append _ (.label _) rfl)).trans
      (.append _ instruction h)

theorem emits_temporary {ty : Ty} {var : Var} (hrun : (temporary ty).eval body = .ok (var, last)) :
    body.Emits [] [] last := by
  obtain ⟨-, rfl⟩ := eval_temporary_eq_ok_iff.mp hrun
  exact .mint body _ ty

theorem emits_callSupport {function : Support} {target : Option String} {arguments : List Value}
    {result : Unit} (hrun : (callSupport function target arguments).eval body = .ok (result, last)) :
    body.Emits [] [.call target function.name function.signature arguments] last :=
  emits_emit hrun rfl

end Lowering

end ThreeAddress
