import ThreeAddress.Proofs.Tally.Function

/-!
# What lowering writes down

All code behind the entry of a function is made of a few kinds of passages. Most instructions take
their numbers from the literals of the source. The others address the members of a struct by their
positions, make room for a value of a size, or take the address of a constant.

## Main definitions

* `Written`: code that is made of such passages.
* `Body.Records`: what a body shows for the statements that were lowered: such code, one stack slot for
  each variable and each struct value, and constants whose numbers are literals.
* `Record.ledger`: that is a ledger.

## Main statements

* `Stages.Of.records`: what a function shows for its body.
* `drawn_of_lowerFunctions`: the numbers in the constants of a program are literals.
-/

namespace ThreeAddress

/-- The stack slots among the things that lowering meets, each with the name of its variable, if it
has one. -/
def Tally.slots : Tally (Option String) where
  text _ := []
  array _ := []
  bind name := [some name]
  build _ := [none]

theorem Tally.bind_slots (name : String) : Tally.slots.bind name = [some name] := rfl

/-- Code as lowering writes it. Its numbers are literals, positions of members and sizes of values. -/
inductive Written (literal : Int → Prop) : List Instr → Prop where
  | nil : Written literal []
  | append {code more : List Instr} :
      Written literal code → Written literal more → Written literal (code ++ more)
  | drawn {instruction : Instr} : instruction.Drawn literal → Written literal [instruction]
  | member (target : String) {definition : StructTy} (register : String) {position : Nat} :
      position < definition.members.length →
        Written literal [.elementAddress target (.struct definition) (.register register)
          [.index 0, .index position] true]
  /-- Room for a value, and the value stored there. -/
  | allocation (target : String) (address : Operand) {value : Value} {size : UInt64} :
      value.ty.size = .ok size → (Instr.store value address).Drawn literal →
        Written literal [.allocation target size, .store value address]
  | constant (target symbol : String) (constant : Constant) :
      Written literal [.elementAddress target constant.ty (.global symbol) [.index 0, .index 0] true]

/-- A constant whose numbers are literals or stand for truth values. -/
def Constant.Drawn (literal : Int → Prop) : Constant → Prop
  | .text _ => True
  | .array _ values => ∀ value ∈ values, literal value ∨ value = 0 ∨ value = 1

/-- Stack slots were reserved, each with the name of its variable, if it has one. Such a name stands for
the last of its slots from then on, and other names keep their meaning. -/
structure Body.Reserves (slots : List (Var × Option String)) (body last : Body) : Prop where
  entry : last.entry =
    body.entry ++ slots.map fun slot => .alloca slot.1.register slot.1.ty
  concrete : ∀ slot ∈ slots, slot.1.ty.isConcrete
  keyed : body.scope.Keyed → last.scope.Keyed
  kept : body.scope.Keyed → ∀ {name var}, some name ∉ slots.map Prod.snd →
    body.scope.find? name = some var → last.scope.find? name = some var
  bound : body.scope.Keyed → ∀ {name}, some name ∈ slots.map Prod.snd →
    ∃ before slot after, slots = before ++ (slot, some name) :: after ∧
      some name ∉ after.map Prod.snd ∧ last.scope.find? name = some slot

/-- What a body shows for the statements that were lowered, given the names of their stack slots. -/
structure Body.Records (literal : Int → Prop) (names : List (Option String)) (body last : Body) :
    Prop where
  code : ∃ added, last.code = body.code ++ added ∧ Written literal added
  slots : ∃ slots, slots.map Prod.snd = names ∧ body.Reserves slots last
  constants : ∀ entry ∈ last.globals.constants,
    entry ∈ body.globals.constants ∨ entry.1.Drawn literal

namespace Body.Reserves

variable {slots more : List (Var × Option String)} {body middle last : Body}

/-- A pass that reserves no stack slot. -/
theorem of_entry (hentry : last.entry = body.entry) (hkeyed : body.scope.Keyed → last.scope.Keyed)
    (hkept : body.scope.Keyed → ∀ {name var}, body.scope.find? name = some var →
      last.scope.find? name = some var) : body.Reserves [] last :=
  ⟨by simp [hentry], by simp, hkeyed, fun h _ _ _ => hkept h, by simp⟩

theorem refl (body : Body) : body.Reserves [] body :=
  of_entry rfl id fun _ _ _ => id

theorem mint (body : Body) (base : String) (ty : Ty) : body.Reserves [] (body.mint base ty) :=
  of_entry rfl (fun h => h.mint base ty) fun h _ _ => h.find?_mint base ty

theorem trans (h : body.Reserves slots middle) (h' : middle.Reserves more last) :
    body.Reserves (slots ++ more) last where
  entry := by rw [h'.entry, h.entry, List.map_append, List.append_assoc]
  concrete := List.forall_mem_append.mpr ⟨h.concrete, h'.concrete⟩
  keyed hkeyed := h'.keyed (h.keyed hkeyed)
  kept hkeyed _ _ hname hfound := by
    rw [List.map_append, List.mem_append, not_or] at hname
    exact h'.kept (h.keyed hkeyed) hname.2 (h.kept hkeyed hname.1 hfound)
  bound hkeyed name hname := by
    by_cases hlater : some name ∈ more.map Prod.snd
    · obtain ⟨before, slot, after, rfl, hlast, hfound⟩ := h'.bound (h.keyed hkeyed) hlater
      exact ⟨slots ++ before, slot, after, (List.append_assoc ..).symm, hlast, hfound⟩
    · rw [List.map_append, List.mem_append] at hname
      obtain ⟨before, slot, after, rfl, hlast, hfound⟩ :=
        h.bound hkeyed (hname.resolve_right hlater)
      refine ⟨before, slot, after ++ more, by simp, ?_, h'.kept (h.keyed hkeyed) hlater hfound⟩
      rw [List.map_append, List.mem_append, not_or]
      exact ⟨hlast, hlater⟩

theorem append (h : body.Reserves slots last) (instruction : Instr) :
    body.Reserves slots (last.append instruction) :=
  ⟨(Body.entry_append _ _).trans h.entry, h.concrete, h.keyed, h.kept, h.bound⟩

/-- The stack slot of a variable. -/
theorem bind (body : Body) (name : String) {ty : Ty} (h : ty.isConcrete) :
    body.Reserves [(.make (body.scope.newRegister name) ty, some name)]
      ((body.rebind name ty).reserve (.make (body.scope.newRegister name) ty)) where
  entry := entry_reserve ..
  concrete := List.forall_mem_singleton.mpr h
  keyed hkeyed := hkeyed.bind name ty
  kept _ other var hother hfound := by
    have hne : other ≠ name := by simpa using hother
    exact (Scope.find?_insert_of_ne _ _ hne).trans hfound
  bound _ other hother := by
    obtain rfl : other = name := by simpa using hother
    exact ⟨[], _, [], rfl, by simp, Scope.find?_insert_self _ _ _⟩

/-- The stack slot of a struct value. -/
theorem build (body : Body) {slot : Var} (h : slot.ty.isConcrete) :
    body.Reserves [(slot, none)] (body.reserve slot) where
  entry := entry_reserve ..
  concrete := List.forall_mem_singleton.mpr h
  keyed := id
  kept _ _ _ _ := id
  bound := by simp

end Body.Reserves

namespace Body.Records

variable {literal : Int → Prop} {names more : List (Option String)} {body middle last : Body}

/-- A pass that needs no constant. -/
theorem of_globals (hglobals : last.globals = body.globals)
    (hcode : ∃ added, last.code = body.code ++ added ∧ Written literal added)
    (hslots : ∃ slots, slots.map Prod.snd = names ∧ body.Reserves slots last) :
    body.Records literal names last :=
  ⟨hcode, hslots, fun _ hmem => Or.inl (hglobals ▸ hmem)⟩

/-- A pass that only reserves stack slots. -/
theorem of_reserves {slots : List (Var × Option String)} (h : body.Reserves slots last)
    (hnames : slots.map Prod.snd = names) (hglobals : last.globals = body.globals)
    (hcode : last.code = body.code) : body.Records literal names last :=
  of_globals hglobals ⟨[], by rw [hcode, List.append_nil], .nil⟩ ⟨slots, hnames, h⟩

theorem refl (body : Body) : body.Records literal [] body :=
  of_reserves (.refl body) rfl rfl rfl

theorem mint (body : Body) (base : String) (ty : Ty) :
    body.Records literal [] (body.mint base ty) :=
  of_reserves (.mint body base ty) rfl rfl rfl

theorem trans (h : body.Records literal names middle) (h' : middle.Records literal more last) :
    body.Records literal (names ++ more) last := by
  obtain ⟨added, hcode, hadded⟩ := h.code
  obtain ⟨added', hcode', hadded'⟩ := h'.code
  obtain ⟨slots, rfl, hslots⟩ := h.slots
  obtain ⟨slots', rfl, hslots'⟩ := h'.slots
  refine ⟨⟨added ++ added', ?_, hadded.append hadded'⟩,
    ⟨slots ++ slots', List.map_append, hslots.trans hslots'⟩, ?_⟩
  · rw [hcode', hcode, List.append_assoc]
  · intro entry hmem
    exact (h'.constants entry hmem).elim (h.constants entry) Or.inr

theorem code_isPrefix (h : body.Records literal names last) : body.code <+: last.code := by
  obtain ⟨added, hcode, -⟩ := h.code
  exact hcode ▸ List.prefix_append _ _

theorem finish (h : body.Records literal names middle) (h' : middle.Records literal [] last) :
    body.Records literal names last := by
  rw [← List.append_nil names]
  exact h.trans h'

theorem append (body : Body) {instruction : Instr} (h : Written literal [instruction]) :
    body.Records literal [] (body.append instruction) :=
  of_globals rfl ⟨_, code_append .., h⟩ ⟨[], rfl, (Reserves.refl body).append instruction⟩

theorem addConstant (body : Body) {constant : Constant} (h : constant.Drawn literal) :
    body.Records literal [] (body.addConstant constant) := by
  refine ⟨⟨[], (List.append_nil _).symm, .nil⟩, ⟨[], rfl, .of_entry rfl id fun _ _ _ => id⟩, ?_⟩
  intro entry hmem
  rcases List.mem_append.mp hmem with hmem | hmem
  · exact Or.inl hmem
  · rw [List.mem_singleton.mp hmem]
    exact Or.inr h

end Body.Records

namespace Lowering

variable {literal : Int → Prop} {body last : Body}

theorem records_emit {instruction : Instr} {result : Unit}
    (hrun : (emit instruction).eval body = .ok (result, last)) (h : Written literal [instruction]) :
    body.Records literal [] last := by
  have hsilent (name : String) : Written literal [.label name] :=
    .drawn ⟨rfl, rfl, by simp [Instr.readings]⟩
  have hjump (name : String) : Written literal [.branch name] :=
    .drawn ⟨rfl, rfl, by simp [Instr.readings]⟩
  rcases eval_emit_cases hrun with ⟨-, rfl⟩ | ⟨name, -, -, rfl⟩ | ⟨-, -, rfl⟩
  · exact .append body h
  · exact (Body.Records.append body (hjump name)).trans (.append _ h)
  · exact ((Body.Records.mint body "dead" .label).trans (.append _ (hsilent _))).trans (.append _ h)

/-- Taking the address of a constant. -/
theorem records_addressConstant {constant : Constant} {target : Var} {result : Unit}
    (hrun : (addressConstant constant target).eval body = .ok (result, last))
    (h : constant.Drawn literal) : body.Records literal [] last := by
  obtain ⟨symbol, middle, hintern, hemit⟩ := Pass.eval_bind_eq_ok_iff.mp hrun
  have hmiddle : body.Records literal [] middle := by
    rcases eval_intern hintern with rfl | rfl
    · exact .refl body
    · exact .addConstant body h
  exact hmiddle.trans (records_emit hemit (.constant _ symbol constant))

end Lowering

/-- The values of an array literal are literals or stand for truth values. -/
theorem drawn_of_constantElements {literal : Int → Prop} {width : Width} {elements : List Expr}
    {values : List Int} (h : constantElements width elements = .ok values)
    (hliteral : ∀ number ∈ Expr.integersAll elements, literal number) :
    (Constant.array width values).Drawn literal := by
  have hall := forall₂_constantElements h
  clear h
  induction hall with
  | nil => simp [Constant.Drawn]
  | @cons element value elements values helement _ ih =>
    rw [Expr.integersAll, List.forall_mem_append] at hliteral
    refine List.forall_mem_cons.mpr ⟨?_, ih hliteral.2⟩
    cases element with
    | integer =>
      cases helement
      exact Or.inl (hliteral.1 _ (List.mem_singleton_self _))
    | boolean truth =>
      rw [constantElement] at helement
      split at helement
      · cases helement
        cases truth <;> simp
      · cases helement
    | _ => cases helement

/-- What a body shows for the statements that were lowered is a ledger. -/
def Record.ledger (literal : Int → Prop) : Ledger Tally.slots where
  Booked := Body.Records literal
  literal := literal
  refl := .refl
  trans := .trans
  mint := .mint
  append body _ h := .append body (.drawn h)
  member body target _ register _ h := .append body (.member target register h)
  allocate body target address _ _ hsize hstore := by
    refine .of_globals rfl ⟨_, ?_, .allocation target address hsize hstore⟩
      ⟨[], rfl, ((Body.Reserves.refl body).append _).append _⟩
    rw [Body.code_append, Body.code_append, List.append_assoc]
    rfl
  bind body name _ h := .of_reserves (.bind body name h) rfl rfl (Body.code_reserve _ _)
  build body _ _ h := .of_reserves (.build body h) rfl rfl (Body.code_reserve _ _)
  text h := Lowering.records_addressConstant h trivial
  array hliteral helements h :=
    Lowering.records_addressConstant h (drawn_of_constantElements helements hliteral)

/-- From its prologue to its end, a function shows the stack slots of its body and code whose numbers
are literals. -/
theorem Stages.Of.records {unchecked : Prop} {function : FunctionCode}
    {stages : Stages unchecked function} {globals : Globals} {table : TypeTable}
    {definition : FunctionDef} {signature : Signature} {literal : Int → Prop}
    (h : stages.Of globals table definition signature)
    (hliteral : ∀ number ∈ Block.integers definition.body, literal number) :
    stages.start.Records literal (Block.tally Tally.slots definition.body)
      (stages.ending.append (.ret stages.value)) := by
  have hlowered : stages.start.Records literal _ stages.finished :=
    Lowering.books_lowerStmts (Record.ledger literal) _ _ hliteral h.lowered
  have hleft : stages.finished.Records literal [] (stages.ending.append (.ret stages.value)) :=
    (Lowering.books_leave : Lowering.Books (Record.ledger literal) [] _) h.left
  exact hlowered.finish hleft

/-- The code behind the entry of a function, and the stack slots behind its prologue. -/
theorem Stages.Of.written {unchecked : Prop} {function : FunctionCode}
    {stages : Stages unchecked function} {globals : Globals} {table : TypeTable}
    {definition : FunctionDef} {signature : Signature} {literal : Int → Prop}
    (h : stages.Of globals table definition signature)
    (hliteral : ∀ number ∈ Block.integers definition.body, literal number) :
    Written literal function.code := by
  obtain ⟨added, hcode, hadded⟩ := (h.records hliteral).code
  rw [stages.code_start, List.nil_append, Body.code_append, ← stages.code_eq] at hcode
  rwa [hcode]

/-- The numbers in the constants of a program are literals. -/
theorem drawn_of_lowerFunctions {table : TypeTable} {draft final : Draft} {literal : Int → Prop}
    {functions : List BoundFunction} {codes : List FunctionCode}
    (h : (lowerFunctions table functions).eval draft = .ok (codes, final))
    (hliteral : ∀ function ∈ functions,
      ∀ number ∈ Block.integers function.definition.body, literal number)
    (hglobals : ∀ entry ∈ draft.globals.constants, entry.1.Drawn literal) :
    ∀ entry ∈ final.globals.constants, entry.1.Drawn literal := by
  induction functions generalizing draft codes with
  | nil =>
    obtain ⟨-, rfl⟩ := Pass.eval_pure_eq_ok_iff.mp h
    exact hglobals
  | cons function rest ih =>
    obtain ⟨code, middle, codes, hfirst, hrest, rfl⟩ := eval_lowerFunctions_cons.mp h
    rw [List.forall_mem_cons] at hliteral
    obtain ⟨prologue, body, hbooked, -, hglobals'⟩ :=
      booked_lowerFunction (Record.ledger literal) hfirst hliteral.1
    refine ih hrest hliteral.2 fun entry hmem => ?_
    rw [hglobals'] at hmem
    refine (hbooked.constants entry hmem).elim (fun hmem => hglobals entry ?_) id
    rwa [Body.globals_begin] at hmem

end ThreeAddress
