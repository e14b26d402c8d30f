import ThreeAddress.Lower.Module
import ThreeAddress.Proofs.Guards

/-!
# Results without faults

A fault is a broken invariant of the lowering. Looking up names, members and types only ever finds
mistakes in the program, and so do the rounds of a module in front of its functions.

## Main definitions

* `Flawless`: a result that is no fault.

## Main statements

* `flawless_commonType`: the type of a binary operator is found or denied without a fault.
* `flawless_denoteChars`: so is the type of a text.
* `flawless_defineStructs`, `flawless_bindFunctions`: so are the structs and the functions of a module.
-/

namespace ThreeAddress

variable {α β : Type}

/-- A result that is not a broken invariant of the lowering. -/
def Flawless (result : Except Diagnostic α) : Prop :=
  ∀ fault, result ≠ .error (.internal fault)

theorem Flawless.ok (value : α) : Flawless (.ok value) := by
  intro fault h
  cases h

theorem Flawless.map {result : Except Diagnostic α} (h : Flawless result) (change : α → β) :
    Flawless (result.map change) := by
  cases result with
  | ok value => exact .ok _
  | error diagnostic =>
    intro fault heq
    cases heq
    exact h fault rfl

theorem Flawless.bind {result : Except Diagnostic α} {next : α → Except Diagnostic β}
    (h : Flawless result) (h' : ∀ value, Flawless (next value)) : Flawless (result.bind next) := by
  cases result with
  | ok value => exact h' value
  | error diagnostic =>
    intro fault heq
    cases heq
    exact h fault rfl

variable (scope : Scope) (table : TypeTable)

theorem flawless_variableNamed (name : String) : Flawless (scope.variableNamed name) := by
  unfold Scope.variableNamed
  split
  · simp [Flawless]
  · split <;> simp [Flawless]

theorem flawless_functionNamed (name : String) : Flawless (scope.functionNamed name) := by
  unfold Scope.functionNamed
  split
  · simp [Flawless]
  · split <;> simp [Flawless]

theorem flawless_memberNamed (definition : StructTy) (name : String) :
    Flawless (definition.memberNamed name) := by
  unfold StructTy.memberNamed
  split <;> simp [Flawless]

/-- The references are counted before they are taken off. -/
theorem flawless_dereferenced (name : String) (ty : Ty) (depth : Nat) :
    Flawless (ty.dereferenced name depth) := by
  by_cases h : ty.refDepth < depth
  · rw [Ty.dereferenced_of_lt name h]
    simp [Flawless]
  · have hle := Nat.not_lt.mp h
    obtain ⟨final, hwalk⟩ := Ty.exists_walk hle
    rw [Ty.dereferenced_of_le name hle, hwalk]
    exact .ok _

theorem flawless_requireStruct (name : String) (ty : Ty) : Flawless (ty.requireStruct name) := by
  unfold Ty.requireStruct
  split <;> simp [Flawless]

theorem flawless_requireArray (name : String) (ty : Ty) : Flawless (ty.requireArray name) := by
  unfold Ty.requireArray
  split <;> simp [Flawless]

theorem flawless_get (name : String) : Flawless (table.get name) := by
  unfold TypeTable.get
  split <;> simp [Flawless]

theorem flawless_typeIn : ∀ expression : Expr, Flawless (expression.typeIn table scope)
  | .integer _ | .boolean _ | .text _ | .array _ => by
    rw [Expr.typeIn]
    exact .ok _
  | .variableRef name | .address name => by
    rw [Expr.typeIn]
    exact (flawless_variableNamed scope name).map _
  | .binary operator lhs rhs => by
    rw [Expr.typeIn]
    split
    · exact .ok _
    split
    · exact flawless_typeIn lhs
    split
    · exact flawless_typeIn rhs
    · exact .ok _
  | .call callee _ => by
    rw [Expr.typeIn]
    split
    · exact .ok _
    · refine (flawless_functionNamed scope callee).bind fun (_, signature) => ?_
      cases hreturns : signature.returns <;> simp [hreturns, Flawless]
  | .deref name depth => by
    rw [Expr.typeIn]
    exact (flawless_variableNamed scope name).bind fun var =>
      flawless_dereferenced name var.ty depth
  | .field base name => by
    rw [Expr.typeIn]
    exact (flawless_variableNamed scope base).bind fun var =>
      (flawless_requireStruct base var.ty).bind fun definition =>
        (flawless_memberNamed definition name).bind fun _ => .ok _
  | .build struct _ => by
    rw [Expr.typeIn]
    exact (flawless_get table struct).map _
  | .element name _ => by
    rw [Expr.typeIn]
    exact (flawless_variableNamed scope name).bind fun var => flawless_requireArray name var.ty

theorem flawless_commonType (lhs rhs : Expr) (expected : Option Ty) :
    Flawless (commonType table scope lhs rhs expected) := by
  unfold commonType
  split
  · exact flawless_typeIn scope table lhs
  split
  · exact flawless_typeIn scope table rhs
  · exact .ok _

theorem flawless_sizeArgument (builtin : Builtin) (size : Expr) :
    Flawless (sizeArgument builtin size) := by
  unfold sizeArgument
  split
  · split <;> simp [Flawless]
  · simp [Flawless]

theorem flawless_constantElement (width : Width) (element : Expr) :
    Flawless (constantElement width element) := by
  unfold constantElement
  split
  · exact .ok _
  · split <;> simp [Flawless]
  · simp [Flawless]

theorem flawless_constantElements (width : Width) (elements : List Expr) :
    Flawless (constantElements width elements) := by
  induction elements with
  | nil => exact .ok _
  | cons element rest ih =>
    exact (flawless_constantElement width element).bind fun _ => ih.bind fun _ => .ok _

theorem flawless_named (name : String) : Flawless (table.named name) := by
  unfold TypeTable.named
  split
  · exact .ok _
  split
  · exact .ok _
  split
  · exact .ok _
  · split <;> simp [Flawless]

theorem flawless_denoteChars (text : List Char) : Flawless (table.denoteChars text) := by
  rw [TypeTable.denoteChars]
  split
  · next target hread =>
    have hshorter := TypeText.length_of_read_ref hread
    have htrimmed := Text.length_trim_le text
    exact (flawless_denoteChars target).map _
  · next member extent hread =>
    have hshorter := TypeText.length_of_read_array hread
    have htrimmed := Text.length_trim_le text
    exact (flawless_denoteChars member).map _
  · exact flawless_named table _
  · simp [Flawless]
termination_by text.length
decreasing_by all_goals omega

theorem flawless_mapM_denote (text : Option String) : Flawless (text.mapM table.denote) := by
  cases text with
  | none => exact .ok _
  | some text =>
    rw [Option.mapM_some]
    exact (flawless_denoteChars table text.toList).map _

theorem flawless_denoteMembers (fields : List TypedName) :
    Flawless (table.denoteMembers fields) := by
  induction fields with
  | nil => exact .ok _
  | cons field rest ih =>
    exact (flawless_denoteChars table field.ty.toList).bind fun _ => ih.bind fun _ => .ok _

theorem flawless_define (definition : StructDef) :
    Flawless ((TypeTable.define definition).eval table) := by
  intro fault h
  simp only [TypeTable.define, Pass.eval_bind_eq_error_iff, Pass.eval_get_eq_ok_iff,
    Pass.eval_require_eq_error_iff, Pass.eval_ofExcept_eq_error_iff] at h
  obtain h | ⟨_, _, ⟨rfl, -⟩, ⟨-, h⟩ | ⟨_, _, -, h | ⟨_, _, -, h | ⟨_, _, -, h | ⟨_, _, -, h⟩⟩⟩⟩⟩ := h
  case inr.inr.inl => exact flawless_denoteMembers table definition.fields fault h
  all_goals cases h

theorem flawless_denoteSignature (definition : FunctionDef) :
    Flawless (table.denoteSignature definition) :=
  (flawless_denoteMembers table definition.parameters).bind fun _ =>
    (flawless_mapM_denote table definition.returns).bind fun _ => .ok _

variable {globals : Globals}

theorem flawless_declareSupport (functions : List Support) :
    Flawless ((declareSupport functions).eval globals) := by
  induction functions generalizing globals with
  | nil => exact .ok _
  | cons function rest ih =>
    intro fault h
    rw [declareSupport, Pass.eval_bind, Pass.eval_get] at h
    by_cases hhas : globals.root.hasFunction function.name
    · simp only [Except.bind, hhas, if_true] at h
      exact ih fault h
    · simp only [Except.bind, hhas] at h
      rcases Pass.eval_bind_eq_error_iff.mp h with hbind | ⟨_, _, -, h⟩
      · cases hbind
      rcases Pass.eval_bind_eq_error_iff.mp h with hrest | ⟨_, _, -, h⟩
      · exact ih fault hrest
      · cases h

theorem flawless_defineStructs (items : List Item) :
    Flawless ((defineStructs table items).eval globals) := by
  induction items generalizing table globals with
  | nil => exact .ok _
  | cons item rest ih =>
    intro fault h
    cases item with
    | function definition => exact ih table fault h
    | struct definition =>
      simp only [defineStructs, Pass.eval_bind_eq_error_iff, Pass.eval_within_eq_error_iff] at h
      rcases h with h | ⟨_, _, -, h⟩
      · exact flawless_define table definition fault h
      · exact ih _ fault h
    | directive text =>
      rcases Pass.eval_bind_eq_error_iff.mp h with h | ⟨_, _, -, h⟩
      · cases h
      · exact ih table fault h

theorem flawless_bindFunctions (seen : List String)
    (definitions : List FunctionDef) :
    Flawless ((bindFunctions table seen definitions).eval globals) := by
  induction definitions generalizing seen globals with
  | nil => exact .ok _
  | cons definition rest ih =>
    intro fault h
    simp only [bindFunctions, Pass.eval_bind_eq_error_iff, Pass.eval_ofExcept_eq_error_iff,
      Pass.eval_require_eq_error_iff] at h
    rcases h with ⟨-, h⟩ | ⟨_, _, -, h | ⟨_, _, -, h | ⟨_, _, -, h | ⟨_, _, -, h⟩⟩⟩⟩
    · cases h
    · exact flawless_denoteSignature table definition fault h
    · cases h
    · exact ih _ fault h
    · cases h

end ThreeAddress
