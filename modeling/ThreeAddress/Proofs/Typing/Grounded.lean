import ThreeAddress.Proofs.Typing.Function

/-!
# Types with a runtime representation

The types that programs can write down are built from integers, success or error values and structs
by references and arrays. All of them have a size, and no instruction is refused because it mentions
one of them. Every value of a lowered module has such a type.

## Main definitions

* `Ty.Grounded`: a type with a runtime representation, down to the parts it is made of.
* `Setting.grounded`: the setting in which all values have such types.

## Main statements

* `Ty.Grounded.isConcrete`, `Ty.Grounded.exists_size`: such a type can be mentioned and has a size.
* `grounded_of_eval_defineStructs`: the structs of a module are made of such types.
* `Setting.grounded_binds_named`: the module scope keeps to the setting.
-/

namespace ThreeAddress

/-- A type with a runtime representation, down to the parts it is made of. -/
inductive Ty.Grounded : Ty → Prop where
  | int (width : Width) : Grounded (.int width)
  | result : Grounded .result
  | ref {ty : Ty} : Grounded ty → Grounded (.ref ty)
  | array {ty : Ty} (extent : Extent) : Grounded ty → Grounded (.array ty extent)
  | struct {definition : StructTy} : (∀ member ∈ definition.members, Grounded member.ty) →
      Grounded (.struct definition)

namespace Ty.Grounded

variable {ty : Ty}

theorem isStorable (h : ty.Grounded) : ty.isStorable := by
  cases h <;> rfl

theorem isConcrete (h : ty.Grounded) : ty.isConcrete := by
  cases h <;> rfl

theorem ne_function (h : ty.Grounded) (signature : Signature) : ty ≠ .function signature := by
  rintro rfl
  cases h

/-- The members of a struct have a layout if each of their types does. -/
theorem isSome_layouts? {members : List Member}
    (h : ∀ member ∈ members, member.ty.layout?.isSome) : (Member.layouts? members).isSome := by
  induction members with
  | nil => rfl
  | cons member rest ih =>
    obtain ⟨name, ty⟩ := member
    obtain ⟨layout, hlayout⟩ := Option.isSome_iff_exists.mp (h _ List.mem_cons_self)
    obtain ⟨layouts, hlayouts⟩ := Option.isSome_iff_exists.mp
      (ih fun member hmem => h member (List.mem_cons_of_mem _ hmem))
    simp [Member.layouts?, hlayout, hlayouts]

theorem isSome_layout? (h : ty.Grounded) : ty.layout?.isSome := by
  induction h with
  | int | result | ref | array => rfl
  | @struct definition _ ih =>
    obtain ⟨name, members⟩ := definition
    rw [Ty.layout?, StructTy.layout?, Option.isSome_map]
    exact isSome_layouts? ih

theorem exists_size (h : ty.Grounded) : ∃ size, ty.size = .ok size := by
  obtain ⟨layout, hlayout⟩ := Option.isSome_iff_exists.mp h.isSome_layout?
  exact ⟨layout.size, by rw [Ty.size, hlayout]⟩

end Ty.Grounded

/-- A function whose parameters and value have a runtime representation. -/
structure Signature.Grounded (signature : Signature) : Prop where
  returns : ∀ ty ∈ signature.returns, ty.Grounded
  parameters : ∀ ty ∈ signature.parameters, ty.Grounded

theorem Support.grounded (function : Support) : function.signature.Grounded := by
  constructor <;> intro ty hmem <;> cases function <;>
    simp only [Support.signature, Option.mem_some_iff, List.mem_cons, List.not_mem_nil, or_false]
      at hmem
  case returns.malloc | returns.realloc | parameters.printf | parameters.makeOk |
      parameters.makeErr =>
    subst hmem
    exact .ref (.int _)
  case returns.printf | parameters.malloc =>
    subst hmem
    exact .int _
  case returns.makeOk | returns.makeErr =>
    subst hmem
    exact .result
  case parameters.realloc =>
    rcases hmem with rfl | rfl
    · exact .ref (.int _)
    · exact .int _

/-- A table of structs whose members have a runtime representation. -/
def TypeTable.Grounded (table : TypeTable) : Prop :=
  ∀ definition ∈ table.structs, (Ty.struct definition).Grounded

variable {table : TypeTable}

/-- The setting in which all values have a runtime representation. Nothing is asked of names. -/
def Setting.grounded (htable : table.Grounded) : Setting table where
  checked := False
  value := Ty.Grounded
  known _ := True
  callable _ signature := signature.Grounded
  kept := []
  stage _ := True
  int := .int
  result := .result
  ref := .ref
  array extent _ := .array extent
  struct := htable _
  target h := by
    cases h
    assumption
  element h := by
    cases h
    assumption
  member h := by
    cases h
    assumption
  function h := by cases h
  returns h := h.returns
  parameters h := h.parameters
  support := Support.grounded
  grow _ _ := trivial
  temporary _ := trivial

/-- A text denotes a type with a runtime representation. -/
theorem TypeTable.Grounded.denote (htable : table.Grounded) {text : String} {ty : Ty}
    (h : table.denote text = .ok ty) : ty.Grounded := by
  have hvalue : (Setting.grounded htable).value ty := Lowering.value_of_denoteChars h
  exact hvalue

theorem TypeTable.Grounded.denoteSignature (htable : table.Grounded) {definition : FunctionDef}
    {signature : Signature} (h : table.denoteSignature definition = .ok signature) :
    signature.Grounded :=
  have hvalues := value_of_denoteSignature (.grounded htable) h
  ⟨hvalues.2, hvalues.1⟩

theorem TypeTable.Grounded.define (htable : table.Grounded) {definition : StructDef}
    {struct : StructTy} {extended : TypeTable}
    (h : (TypeTable.define definition).eval table = .ok (struct, extended)) : extended.Grounded := by
  obtain ⟨-, -, hmembers, rfl⟩ := TypeTable.define_eq_ok_iff.mp h
  intro other hmem
  rcases List.mem_append.mp hmem with hmem | hmem
  · exact htable other hmem
  · rw [List.mem_singleton.mp hmem]
    refine .struct fun member hmember => ?_
    obtain ⟨text, htext⟩ := TypeTable.exists_denote_of_mem hmembers hmember
    exact htable.denote htext

theorem TypeTable.grounded_empty : TypeTable.Grounded {} := by simp [TypeTable.Grounded]

theorem TypeTable.Grounded.defineAll {table' : TypeTable} {definitions : List StructDef}
    (htable : table.Grounded) (h : table.defineAll definitions = .ok table') : table'.Grounded := by
  induction definitions generalizing table with
  | nil =>
    cases h
    exact htable
  | cons definition rest ih =>
    rw [TypeTable.defineAll] at h
    cases hdefine : (TypeTable.define definition).eval table with
    | error diagnostic =>
      rw [hdefine] at h
      cases h
    | ok pair =>
      rw [hdefine] at h
      exact ih (htable.define hdefine) h

theorem grounded_of_eval_defineStructs {items : List Item} {globals last : Globals}
    (h : (defineStructs {} items).eval globals = .ok (table, last)) : table.Grounded := by
  rw [eval_defineStructs] at h
  cases hdefine : TypeTable.defineAll {} (items.filterMap Item.struct?) with
  | error diagnostic =>
    rw [hdefine] at h
    cases h
  | ok found =>
    rw [hdefine] at h
    cases h
    exact TypeTable.grounded_empty.defineAll hdefine

variable {htable : table.Grounded}

/-- The functions of a module are bound in a scope of types with a runtime representation. -/
theorem Setting.grounded_binds_named {support : List (String × Signature)} {declared named : Globals}
    {definitions : List FunctionDef} {bound : List BoundFunction}
    (hsupport : (declareSupport Support.all).eval { root := Scope.nest {} } = .ok (support, declared))
    (hbind : (bindFunctions table [] definitions).eval declared = .ok (bound, named)) :
    (Setting.grounded htable).Binds [] named.root := by
  have hdeclared : (Setting.grounded htable).Binds [] declared.root :=
    (Setting.grounded htable).binds_empty.declareSupport hsupport fun function _ _ => function.grounded
  refine hdeclared.bindFunctions hbind fun function hmem => ?_
  exact htable.denoteSignature ((eval_bindFunctions hbind).2.1 function hmem)

end ThreeAddress
