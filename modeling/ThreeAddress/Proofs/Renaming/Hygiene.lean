import ThreeAddress.Proofs.Contract.Module
import ThreeAddress.Proofs.Emission.Sheet
import ThreeAddress.Proofs.Renaming.Function

/-!
# Hygiene of local names

Which names a function gives to its parameters and variables does not matter, as long as they differ
from each other and from the functions it calls. They may be the names that registers and labels get
on their own, such as `cr`, `retptr` or `sym5`: a name that is taken gets a number.

## Main definitions

* `FunctionDef.Hygienic`: new names for the locals of a function that are none of its callees.
* `ReplacedAt`: two lists that differ in one place.

## Main statements

* `agree_lower_rename`: renaming locals changes the registers and labels of one function, and nothing
  else in the program.
-/

namespace ThreeAddress

/-- Two lists that differ at one position, where they have related elements. -/
inductive ReplacedAt {α : Type} (R : α → α → Prop) : Nat → List α → List α → Prop
  | head {element other : α} (h : R element other) (rest : List α) :
    ReplacedAt R 0 (element :: rest) (other :: rest)
  | cons (element : α) {position : Nat} {elements others : List α}
    (h : ReplacedAt R position elements others) :
    ReplacedAt R (position + 1) (element :: elements) (element :: others)

/-- New names for the locals of a function. They differ if the old ones do, and none of the names,
old or new, is called in the function. -/
structure FunctionDef.Hygienic (definition : FunctionDef) (change : String → String) : Prop where
  injOn : ∀ name ∈ definition.locals, ∀ other ∈ definition.locals,
    change name = change other → name = other
  not_called : ∀ name ∈ definition.locals, name ∉ Block.called definition.body
  not_called' : ∀ name ∈ definition.locals, change name ∉ Block.called definition.body

/-- The renaming of locals, within one module. -/
def FunctionDef.Hygienic.naming {definition : FunctionDef} {change : String → String}
    (h : definition.Hygienic change) : Renaming where
  change := change
  locals := definition.locals
  callees := Block.called definition.body
  links := Eq
  injOn := h.injOn
  apart callee hcallee name hname := by
    refine ⟨fun heq => ?_, fun heq => ?_⟩
    · exact absurd (heq ▸ hcallee) (h.not_called name hname)
    · exact absurd (heq ▸ hcallee) (h.not_called' name hname)
  support _ := rfl

variable {table : TypeTable} {globals : Globals} {definition renamed : FunctionDef}
  {change : String → String}

theorem TypeTable.denoteMembers_rename (table : TypeTable) (change : String → String)
    (parameters : List TypedName) :
    table.denoteMembers (parameters.map (TypedName.rename change)) =
      (table.denoteMembers parameters).map
        (List.map fun member => { member with name := change member.name }) := by
  induction parameters with
  | nil => rfl
  | cons parameter rest ih =>
    rw [List.map_cons, TypedName.rename, denoteMembers, denoteMembers, ih]
    cases table.denote parameter.ty with
    | error diagnostic => rfl
    | ok ty => cases table.denoteMembers rest <;> rfl

/-- The signature of a function does not depend on the names of its parameters. -/
theorem TypeTable.denoteSignature_rename (table : TypeTable) (change : String → String)
    (definition : FunctionDef) :
    table.denoteSignature (definition.rename change) = table.denoteSignature definition := by
  rw [denoteSignature, denoteSignature, FunctionDef.rename, denoteMembers_rename]
  cases table.denoteMembers definition.parameters with
  | error diagnostic => rfl
  | ok members =>
    have htypes : (members.map fun member : Member =>
        { member with name := change member.name }).map Member.ty = members.map Member.ty := by
      rw [List.map_map]
      rfl
    simp only [Except.map, bind, Except.bind, htypes]

/-- Two bound functions that differ in their definitions. -/
structure BoundFunction.Replaces (definition renamed : FunctionDef)
    (function function' : BoundFunction) : Prop where
  definition_eq : function.definition = definition
  replaced : function' = { function with definition := renamed }

/-- Functions are bound to symbols by their names and signatures. -/
theorem agree_bindFunctions_replace (hname : renamed.name = definition.name)
    (hsignature : table.denoteSignature renamed = table.denoteSignature definition)
    (front back : List FunctionDef) (seen : List String) :
    Agree (fun result result' => ReplacedAt (BoundFunction.Replaces definition renamed)
        front.length result.1 result'.1 ∧ result.2 = result'.2)
      ((bindFunctions table seen (front ++ definition :: back)).eval globals)
      ((bindFunctions table seen (front ++ renamed :: back)).eval globals) := by
  induction front generalizing seen globals with
  | nil =>
    rw [List.nil_append, List.nil_append, bindFunctions, bindFunctions, hname, hsignature]
    refine .eval_bind_same fun _ _ _ => .eval_bind_same fun signature _ _ => ?_
    refine .eval_bind_same fun var _ _ => .eval_bind_same fun functions _ _ => ?_
    exact .ok ⟨.head ⟨rfl, rfl⟩ functions, rfl⟩
  | cons first front ih =>
    refine .eval_bind_same fun _ _ _ => .eval_bind_same fun signature _ _ => ?_
    refine .eval_bind_same fun var middle _ => (ih (first.name :: seen)).eval_bind ?_
    rintro functions last functions' _ - ⟨hreplaced, rfl⟩
    exact .ok ⟨.cons _ hreplaced, rfl⟩

/-- Two functions that are the same up to registers and labels. -/
def FunctionCode.Renames (function function' : FunctionCode) : Prop :=
  ∃ registers : Equiv.Perm String, function' = function.rename registers id

/-- Lowering a function only adds constants to the module scope. -/
theorem Scope.Upholds.lower {contract : Contract table} {function : BoundFunction} {code : FunctionCode}
    {last : Globals} (h : globals.root.Upholds contract)
    (hsignature : table.denoteSignature function.definition = .ok function.signature)
    (hrun : (function.lower table).eval globals = .ok (code, last)) : last.root.Upholds contract := by
  have hview : (function.lower table).eval globals =
      ((lowerFunction table function).eval { globals }).map (Prod.map id Draft.globals) :=
    function.eval_lower { globals }
  rw [hview] at hrun
  cases hlower : (lowerFunction table function).eval { globals } with
  | error diagnostic => simp [hlower, Except.map] at hrun
  | ok pair =>
    obtain ⟨_, final⟩ := pair
    obtain ⟨rfl, rfl⟩ : _ = code ∧ final.globals = last := by simpa [hlower, Except.map] using hrun
    exact invariant_lowerFunction (P := fun globals => globals.root.Upholds contract)
      (fun _ constant hroot => hroot.addConstant constant) hsignature hlower h

/-- A renamed function takes the same constants into the module, so the other functions do not
change. -/
theorem agree_lowerCodes_replace (hscoped : definition.isScoped)
    (hhygienic : definition.Hygienic change) {position : Nat}
    {functions functions' : List BoundFunction}
    (hreplaced : ReplacedAt (BoundFunction.Replaces definition (definition.rename change)) position
      functions functions')
    (hsignatures : ∀ function ∈ functions,
      table.denoteSignature function.definition = .ok function.signature ∧
        function.requireSignature = .ok function.signature)
    {htable : table.Grounded} {symbols : String → String}
    (hroot : globals.root.Upholds (Contract.calling htable symbols)) :
    Agree (fun result result' =>
        ReplacedAt FunctionCode.Renames position result.1 result'.1 ∧ result.2 = result'.2)
      ((lowerCodes table functions).eval globals)
      ((lowerCodes table functions').eval globals) := by
  induction hreplaced generalizing globals with
  | @head function _ hreplaces rest =>
    obtain ⟨rfl, rfl⟩ := hreplaces
    obtain ⟨hsignature, hbound⟩ := hsignatures function List.mem_cons_self
    have hfunctions : ∀ callee ∈ hhygienic.naming.callees, Agree
        (fun found found' => found.1.register = found'.1.register ∧ found.2 = found'.2)
        (globals.root.functionNamed callee) (globals.root.functionNamed callee) := fun callee _ =>
      (Agree.refl _).imp fun _ _ heq => by rw [heq]; exact ⟨rfl, rfl⟩
    let function' : BoundFunction := { function with definition := function.definition.rename change }
    have hrename : function'.definition = function.definition.rename hhygienic.naming.change := rfl
    have hbound' : function'.requireSignature = .ok function.signature := hbound
    have hlinks : hhygienic.naming.links function.symbol function'.symbol := rfl
    have hlower := agree_lower hscoped (List.Subset.refl _) (List.Subset.refl _) hrename hsignature
      hbound hbound' hlinks hroot hroot.keyed hfunctions
    refine hlower.eval_bind ?_
    rintro code middle code' middle' - ⟨⟨constants, rfl, rfl⟩, hcode⟩
    obtain ⟨registers, rfl⟩ := hcode id (fun _ _ heq => heq) fun constant symbol other h h' =>
      Option.some.inj (h.symm.trans h')
    refine .eval_bind_same fun codes _ _ => ?_
    exact .ok ⟨.head ⟨registers, rfl⟩ codes, rfl⟩
  | cons function _ ih =>
    rw [List.forall_mem_cons] at hsignatures
    refine .eval_bind_same fun code _ hrun => ?_
    have hupholds := hroot.lower hsignatures.1.1 hrun
    refine (ih hsignatures.2 hupholds).eval_bind ?_
    rintro codes last codes' _ - ⟨hreplaced, rfl⟩
    exact .ok ⟨.cons code hreplaced, rfl⟩

/-- A module is accepted under other names for the locals of a function if and only if it is accepted
as it is. Then the function has the same instructions, up to its registers and labels, the lines are those
of the functions, and nothing else in the program changes. -/
theorem agree_lower_rename (front back : List Item) (hscoped : definition.isScoped)
    (hhygienic : definition.Hygienic change) :
    Agree (fun program renamed =>
        ReplacedAt FunctionCode.Renames (front.filterMap Item.function?).length program.functions
          renamed.functions ∧
        renamed = { program with
          functions := renamed.functions
          lines := renamed.functions.flatMap FunctionCode.sheetLines })
      (lower ⟨front ++ .function definition :: back⟩).result
      (lower ⟨front ++ .function (definition.rename change) :: back⟩).result := by
  have hstructs (definition : FunctionDef) :
      Module.structs ⟨front ++ .function definition :: back⟩ =
        front.filterMap Item.struct? ++ back.filterMap Item.struct? := by
    rw [Module.structs, List.filterMap_append]
    rfl
  have hfunctions (definition : FunctionDef) :
      Module.functions ⟨front ++ .function definition :: back⟩ =
        front.filterMap Item.function? ++ definition :: back.filterMap Item.function? := by
    rw [Module.functions, List.filterMap_append]
    rfl
  rw [result_lowerCodes, result_lowerCodes, hstructs, hstructs, hfunctions, hfunctions]
  refine (Agree.refl _).bind ?_
  rintro table _ htable rfl
  have hsignature := table.denoteSignature_rename change definition
  refine (agree_bindFunctions_replace (by rfl) hsignature _ _ []).bind ?_
  rintro ⟨bound, named⟩ ⟨bound', _⟩ hbind ⟨hreplaced, rfl⟩
  have hgrounded : table.Grounded := TypeTable.grounded_empty.defineAll htable
  have hroot : named.root.Upholds (Contract.calling hgrounded (symbolIn (symbolsOf bound))) :=
    Scope.upholds_named hbind rfl
  have hsignatures := fun function hmem => And.intro ((eval_bindFunctions hbind).2.1 function hmem)
    (requireSignature_of_bindFunctions hbind function hmem)
  refine (agree_lowerCodes_replace hscoped hhygienic hreplaced hsignatures hroot).map ?_
  rintro ⟨codes, last⟩ ⟨codes', _⟩ ⟨hcodes, rfl⟩
  exact ⟨hcodes, rfl⟩

/-- A function that prints a number, halves it and takes steps down from there. -/
def halving : FunctionDef where
  name := "halve"
  parameters := [⟨"number", "i32"⟩, ⟨"step", "i32"⟩]
  returns := some "i32"
  body := [
    .bind "format" none (.text "%d"),
    .eval (.call "printf" [.variableRef "format", .variableRef "number"]),
    .bind "half" (some "i32") (.binary .divide (.variableRef "number") (.integer 2)),
    .ite (.binary .less (.variableRef "half") (.integer 0))
      [.ret (some (.variableRef "step")), .bind "unused" none (.boolean true)] [],
    .loop (.binary .greater (.variableRef "half") (.integer 9)) [
      .bind "next" none (.binary .subtract (.variableRef "half") (.variableRef "step")),
      .assign (.variableRef "half") (.variableRef "next")],
    .ret (some (.variableRef "half"))]

/-- Names for the locals of `halving` that registers, labels and constants get on their own. -/
def synthesized (name : String) : String :=
  ([("number", "cr"), ("step", "retptr"), ("format", "str"), ("half", "sym5"), ("unused", "dead"),
    ("next", "cr.val")].lookup name).getD name

theorem agree_lower_rename_synthesized :
    (lower ⟨[.function halving]⟩).result.isOk ∧
    Agree (fun program renamed =>
        ReplacedAt FunctionCode.Renames 0 program.functions renamed.functions ∧
          renamed = { program with
            functions := renamed.functions
            lines := renamed.functions.flatMap FunctionCode.sheetLines })
      (lower ⟨[.function halving]⟩).result
      (lower ⟨[.function (halving.rename synthesized)]⟩).result := by
  have hhygienic : halving.Hygienic synthesized :=
    ⟨by decide +kernel, by decide +kernel, by decide +kernel⟩
  have hscoped : halving.isScoped := by decide +kernel
  have hlower : (lower ⟨[.function halving]⟩).result.isOk := by decide +kernel
  exact ⟨hlower, agree_lower_rename [] [] hscoped hhygienic⟩

end ThreeAddress
