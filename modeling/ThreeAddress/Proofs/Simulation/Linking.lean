import ThreeAddress.Proofs.Emission.Growth
import ThreeAddress.Proofs.Semantics.Source
import ThreeAddress.Proofs.Typing.Denotation

/-!
# Linking environments to scopes

While statements are lowered, the scope of the body says for every declared name what the
environment of the evaluator says, and a type that the evaluator knows is the type that lowering
finds.

## Main definitions

* `Shape.Describes`: a shape says the truth about a type.
* `Resolves`: the names of an environment stand for the variables of its cells.
* `Linked`: they do so in the scope of a body, and every variable has a stack slot of its own.

## Main statements

* `Linked.describes_lowerExpr`: the shape of an expression describes the type that it is lowered to.
-/

namespace ThreeAddress

def Ty.width? : Ty → Option Width
  | int width => some width
  | _ => none

namespace Shape

/-- A shape says the truth about a type. -/
def Describes : Shape → Ty → Prop
  | integer width, ty => ty = .int width
  | other, ty => ty.width? = none
  | unknown, _ => True

variable {shape : Shape} {ty : Ty}

theorem Describes.eq_int (h : shape.Describes ty) {width : Width} (hwidth : shape.width? = some width) :
    ty = .int width := by
  cases shape with
  | integer _ =>
    cases hwidth
    exact h
  | other | unknown => simp [width?] at hwidth

theorem Describes.hint_eq (h : shape.Describes ty) {hint : Option Width}
    (hhint : shape.hint? = some hint) : hint = ty.width? := by
  cases shape with
  | integer width =>
    cases hhint
    obtain rfl : ty = .int width := h
    rfl
  | other =>
    cases hhint
    exact h.symm
  | unknown => simp [hint?] at hhint

end Shape

/-- No primitive type name looks like a reference or an array. -/
theorem Width.head?_of_ofName? {name : String} {width : Width} (h : ofName? name = some width) :
    name.toList.head? ≠ some '&' ∧ name.toList.head? ≠ some '[' := by
  obtain ⟨before, after, hnames, -⟩ := List.lookup_eq_some_iff.mp h
  have hmem : (name, width) ∈ names := by simp [hnames]
  have hall : ∀ entry ∈ names,
      entry.1.toList.head? ≠ some '&' ∧ entry.1.toList.head? ≠ some '[' := by
    decide
  exact hall (name, width) hmem

/-- A text that starts like a reference or an array is no primitive type name. -/
theorem TypeText.ofName_eq_other {text : List Char}
    (h : ∀ name, TypeText.read text ≠ .name name) :
    Shape.ofName (String.ofList text) = .other := by
  cases hname : Width.ofName? (String.ofList text) with
  | none => rw [Shape.ofName, hname]
  | some width =>
    obtain ⟨href, harray⟩ := Width.head?_of_ofName? hname
    rw [String.toList_ofList] at href harray
    refine absurd ?_ (h (String.ofList text))
    unfold TypeText.read
    split
    · simp at href
    · simp at harray
    · rfl

theorem TypeText.eq_of_read_name {text : List Char} {name : String}
    (h : TypeText.read text = .name name) : name = String.ofList text := by
  unfold TypeText.read at h
  split at h
  · simp at h
  · split at h <;> simp at h
  · cases h
    rfl

theorem TypeTable.describes_ofName {table : TypeTable} {name : String} {ty : Ty}
    (h : table.Names name ty) : (Shape.ofName name).Describes ty := by
  cases h with
  | int hwidth =>
    rw [Shape.ofName, hwidth]
    rfl
  | result => rfl
  | struct hprimitive hresult hfound =>
    rw [Shape.ofName, hprimitive]
    rfl

/-- The text of a type says the truth about the type that it denotes. -/
theorem TypeTable.describes_ofText {table : TypeTable} {text : String} {ty : Ty}
    (h : table.denote text = .ok ty) : (Shape.ofText text).Describes ty := by
  rw [Shape.ofText]
  cases denoteChars_eq_ok_iff.mp h with
  | name hread hname =>
    obtain rfl := TypeText.eq_of_read_name hread
    exact describes_ofName hname
  | ref hread _ =>
    rw [TypeText.ofName_eq_other (by simp [hread])]
    rfl
  | array hread _ =>
    rw [TypeText.ofName_eq_other (by simp [hread])]
    rfl

/-- A type that is written down is what its text denotes. -/
theorem TypeTable.exists_denote_of_mapM {table : TypeTable} {text : String} {ty : Option Ty}
    (h : (some text).mapM table.denote = .ok ty) :
    ∃ found, table.denote text = .ok found ∧ ty = some found := by
  cases hfound : table.denote text with
  | error diagnostic =>
    simp only [Option.mapM_some, hfound] at h
    cases h
  | ok found =>
    simp only [Option.mapM_some, hfound] at h
    cases h
    exact ⟨found, rfl, rfl⟩

namespace Lowering

variable {body last : Body}

/-- A variable is loaded from its stack slot. -/
theorem eval_loadVariable {name target : String} {ty : Ty}
    (h : (do
      let place ← variablePlace name
      loadInto target place : Lowering Ty).eval body = .ok (ty, last)) :
    ∃ var, body.scope.find? name = some var ∧ ty = var.ty ∧
      (emit (.load target var.ty var.operand)).eval body = .ok ((), last) := by
  simp only [loadInto, Pass.eval_bind_eq_ok_iff, Pass.eval_pure_eq_ok_iff] at h
  obtain ⟨place, _, hplace, _, _, hload, rfl, rfl⟩ := h
  obtain ⟨var, hfound, rfl, rfl⟩ := eval_variablePlace hplace
  exact ⟨var, hfound, rfl, hload⟩

end Lowering

-- ════════════════════════
-- Links
-- ════════════════════════

/-- The names of an environment stand for the variables of its cells. -/
structure Resolves (env : Env) (vars : List Var) (scope : Scope) : Prop where
  size : env.size = vars.length
  resolve : ∀ {name cell shape}, env.resolve name = some (cell, shape) →
    ∃ var, vars[cell]? = some var ∧ scope.find? name = some var ∧ shape.Describes var.ty

namespace Resolves

variable {env : Env} {vars : List Var} {scope : Scope}

theorem empty (scope : Scope) : Resolves [] [] scope :=
  ⟨rfl, by simp [Env.resolve]⟩

theorem of_find? (h : Resolves env vars scope) {later : Scope}
    (hfind : ∀ name var, scope.find? name = some var → later.find? name = some var) :
    Resolves env vars later := by
  refine ⟨h.size, fun {name _ _} hname => ?_⟩
  obtain ⟨var, hvar, hfound, hshape⟩ := h.resolve hname
  exact ⟨var, hvar, hfind name var hfound, hshape⟩

/-- A declaration adds one cell. -/
theorem insert (h : Resolves env vars scope) (name : String) {shape : Shape} {var : Var}
    (hshape : shape.Describes var.ty) :
    Resolves (env.declare name shape) (vars ++ [var]) (scope.insert name var) := by
  refine ⟨by simp [h.size], fun {other cell found} hresolve => ?_⟩
  rw [Env.resolve_declare] at hresolve
  split_ifs at hresolve with heq
  · subst heq
    cases hresolve
    exact ⟨var, by simp [h.size], scope.find?_insert_self _ _, hshape⟩
  · obtain ⟨var', hvar, hfound, hdescribes⟩ := h.resolve hresolve
    refine ⟨var', ?_, (scope.find?_insert_of_ne _ (Ne.symm heq)).trans hfound, hdescribes⟩
    rw [List.getElem?_append_left (List.getElem?_eq_some_iff.mp hvar).1]
    exact hvar

theorem describes_name (h : Resolves env vars scope) {name : String} {var : Var}
    (hfound : scope.find? name = some var) : (env.shape name).Describes var.ty := by
  rw [Env.shape]
  cases hname : env.resolve name with
  | none => trivial
  | some found =>
    obtain ⟨cell, shape⟩ := found
    obtain ⟨var', -, hfound', hshape⟩ := h.resolve hname
    rw [hfound] at hfound'
    cases hfound'
    exact hshape

end Resolves

/-- A body in which the names of an environment stand for the variables of its cells, each with a
stack slot of its own. -/
structure Linked (env : Env) (vars : List Var) (body : Body) : Prop
    extends Resolves env vars body.scope where
  keyed : body.Keyed
  defined : ∀ name ∈ body.defined, body.scope.inUse name
  inUse : ∀ var ∈ vars, body.scope.inUse var.register
  reserved : ∀ var ∈ vars, var.register ∈ body.slots
  nodup : (vars.map Var.register).Nodup

namespace Linked

variable {env : Env} {vars : List Var} {body last : Body}

theorem ready (h : Linked env vars body) : body.Ready True [] :=
  ⟨h.defined, Or.inl trivial⟩

theorem keeps (h : Linked env vars body) (hkeeps : body.Keeps last) : Linked env vars last where
  toResolves := h.toResolves.of_find? (hkeeps.find? h.keyed)
  keyed := hkeeps.keyed h.keyed
  defined := hkeeps.defined h.defined
  inUse var hmem := hkeeps.inUse (h.inUse var hmem)
  reserved var hmem := hkeeps.slots (h.reserved var hmem)
  nodup := h.nodup

theorem keeps_lowerExpr (h : Linked env vars body) {frame : Frame} {expression : Expr}
    {expected : Option Ty} {value : Value}
    (hlower : (Lowering.lowerExpr frame expression expected).eval body = .ok (value, last)) :
    body.Keeps last :=
  (Lowering.extends_lowerExpr hlower h.ready (Or.inl trivial)).1.steps.keeps fun h => h

theorem describes_literals (lhs : Expr) (expected : Option Ty) :
    (Shape.integer (literalsWidth lhs (expected.bind Ty.width?))).Describes
      (literalsType lhs expected) := by
  change literalsType lhs expected = .int _
  rcases expected with _ | ty
  · cases lhs <;> rfl
  · cases ty with
    | int width => cases lhs <;> cases width <;> rfl
    | _ => cases lhs <;> rfl

theorem describes_variable (h : Linked env vars body) {name : String} {var : Var}
    (hvar : body.scope.variableNamed name = .ok var) : (env.shape name).Describes var.ty := by
  unfold Scope.variableNamed at hvar
  split at hvar
  · simp at hvar
  · next hfound =>
    split at hvar
    · cases hvar
      exact h.toResolves.describes_name hfound
    · simp at hvar

/-- The shape of an expression describes its type where none is asked for. -/
theorem describes_typeIn (h : Linked env vars body) {table : TypeTable} :
    ∀ {expression : Expr} {ty : Ty}, expression.typeIn table body.scope = .ok ty →
      (expression.shape env none).Describes ty
  | .integer _, ty, hty => by
    cases hty
    rfl
  | .boolean _, ty, hty => by
    cases hty
    rfl
  | .variableRef name, ty, hty => by
    rw [Expr.typeIn] at hty
    cases hvar : body.scope.variableNamed name with
    | error diagnostic => simp [hvar, Except.map] at hty
    | ok var =>
      simp only [hvar, Except.map, Except.ok.injEq] at hty
      exact hty ▸ h.describes_variable hvar
  | .binary operator lhs rhs, ty, hty => by
    rw [Expr.typeIn] at hty
    rw [Expr.shape, operandShape]
    split_ifs at hty ⊢
    · cases hty
      rfl
    · exact describes_typeIn h hty
    · exact describes_typeIn h hty
    · cases hty
      exact describes_literals lhs none
  | .text _, _, _ | .call _ _, _, _ | .address _, _, _ | .deref _ _, _, _ | .field _ _, _, _
  | .build _ _, _, _ | .array _, _, _ | .element _ _, _, _ => trivial

theorem describes_commonType (h : Linked env vars body) {table : TypeTable} {lhs rhs : Expr}
    {expected : Option Ty} {ty : Ty} (hty : commonType table body.scope lhs rhs expected = .ok ty) :
    (operandShape lhs rhs (lhs.shape env none) (rhs.shape env none)
      (expected.bind Ty.width?)).Describes ty := by
  unfold commonType at hty
  unfold operandShape
  split_ifs at hty ⊢
  · exact h.describes_typeIn hty
  · exact h.describes_typeIn hty
  · cases hty
    exact describes_literals lhs expected

/-- What is asked of the operands of an operator is what is asked of its result, unless it is a
comparison. -/
theorem width?_expected (expected : Option Ty) (register : String) (comparison : Bool) {target : Var}
    (htarget : target = Var.make register ((expected.filter Ty.isStorable).getD .dynamic)) :
    (if target.dynamic || comparison then none else some target.ty : Option Ty).bind Ty.width? =
      if comparison then none else expected.bind Ty.width? := by
  subst htarget
  cases comparison with
  | true => simp
  | false =>
    rcases expected with _ | ty
    · rfl
    · cases ty <;> rfl

/-- The shape of an expression describes the type that it is lowered to. -/
theorem describes_lowerExpr (h : Linked env vars body) {frame : Frame} {expression : Expr}
    {expected : Option Ty} {value : Value}
    (hlower : (Lowering.lowerExpr frame expression expected).eval body = .ok (value, last)) :
    (expression.shape env (expected.bind Ty.width?)).Describes value.ty := by
  cases expression with
  | integer number =>
    obtain ⟨rfl, -⟩ := Pass.eval_pure_eq_ok_iff.mp hlower
    rcases expected with _ | ty
    · rfl
    · cases ty <;> rfl
  | boolean truth =>
    obtain ⟨rfl, -⟩ := Pass.eval_pure_eq_ok_iff.mp hlower
    rfl
  | variableRef name =>
    rw [Lowering.lowerExpr_variableRef] at hlower
    obtain ⟨base, target, ty, -, hload, rfl⟩ := Lowering.eval_compute hlower
    obtain ⟨var, hfound, rfl, -⟩ := Lowering.eval_loadVariable hload
    exact (h.keeps (Body.keeps_mint base target.ty)).toResolves.describes_name hfound
  | binary operator lhs rhs =>
    rw [Lowering.lowerExpr_binary] at hlower
    obtain ⟨base, target, ty, htarget, happly, rfl⟩ := Lowering.eval_compute hlower
    obtain ⟨common, left, middle, right, before, hcommon, -, -, -, -, -, -, -, rfl⟩ :=
      Lowering.eval_applyOperator happly
    have hcommon := (h.keeps (Body.keeps_mint base target.ty)).describes_commonType hcommon
    rw [width?_expected expected _ _ htarget] at hcommon
    rw [Expr.shape]
    split_ifs at hcommon ⊢
    · rfl
    · exact hcommon
  | text | call | address | deref | field | build | array | element => trivial

/-- A declaration adds one cell. -/
theorem declare (h : Linked env vars body) (name : String) {shape : Shape} {ty : Ty}
    (hshape : shape.Describes ty) :
    Linked (env.declare name shape) (vars ++ [Var.make (body.scope.newRegister name) ty])
      ((body.rebind name ty).reserve (Var.make (body.scope.newRegister name) ty)) := by
  have hgrows := body.grows_declare name ty
  have hnew : (body.rebind name ty).scope.inUse (body.scope.newRegister name) :=
    Body.inUse_rebind.mpr (Or.inl rfl)
  refine ⟨h.toResolves.insert name hshape, ⟨h.keyed.scope.bind name ty, h.keyed.root⟩, ?_, ?_, ?_, ?_⟩
  · intro introduced hmem
    rcases Body.mem_defined_reserve.mp hmem with hmem | hname
    · exact hgrows.inUse (h.defined introduced hmem)
    · cases hname
      exact hnew
  · intro var hmem
    rcases List.mem_append.mp hmem with hmem | hmem
    · exact hgrows.inUse (h.inUse var hmem)
    · obtain rfl := List.mem_singleton.mp hmem
      exact hnew
  · intro var hmem
    rcases List.mem_append.mp hmem with hmem | hmem
    · exact hgrows.slots (h.reserved var hmem)
    · obtain rfl := List.mem_singleton.mp hmem
      simp
  · rw [List.map_append, List.nodup_append]
    refine ⟨h.nodup, by simp, ?_⟩
    rintro register hmem _ hother rfl
    obtain ⟨var, hvar, rfl⟩ := List.mem_map.mp hmem
    obtain heq : var.register = body.scope.newRegister name := by simpa [Var.make] using hother
    exact body.scope.not_inUse_newRegister name (heq ▸ h.inUse var hvar)

end Linked

end ThreeAddress
