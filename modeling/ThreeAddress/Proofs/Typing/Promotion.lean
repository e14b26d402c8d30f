import ThreeAddress.Proofs.Requests.Function
import ThreeAddress.Proofs.Typing.Supply

/-!
# The arguments behind the parameters of a variadic function

A variadic function takes its further arguments at no type narrower than 32 bits. The built-in that prints
widens its arguments; a call of a function that the prelude provides does not. There is no other way to a
variadic function: those of a module are not variadic, built-ins win over functions, and a variable only
holds a function if its type comes from the prelude. So a narrow argument is passed to a function that the
prelude offers, in a call that the source spells out.

## Main definitions

* `Scope.Offers`: a function that can be had from a prelude.
* `Setting.promoted`: the setting in which all variadic functions have a known origin, but for a few
  registers.

## Main statements

* `Request.Called.exists_ordinary`: narrow arguments are not those of built-ins.
* `Setting.promoted_binds`: the module scope keeps to the setting.
* `exists_offer_of_narrow`: narrow arguments are passed to functions of the prelude only.
* `narrow_logging`: there they are passed.
-/

namespace ThreeAddress

/-- A function that can be had from a prelude: it stands in the type of a name. Where it is all of the
type, the name is not that of a built-in, since calls of that name are calls of the built-in. -/
def Scope.Offers (prelude : Scope) (signature : Signature) : Prop :=
  ∃ name var, prelude.find? name = some var ∧ var.ty.Holds (.function signature) ∧
    (var.ty = .function signature → Builtin.ofName? name = none)

theorem Scope.Stores.offers {prelude : Scope} {signature : Signature} (h : prelude.Stores signature) :
    prelude.Offers signature := by
  obtain ⟨name, var, hfound, hholds, hne⟩ := h
  exact ⟨name, var, hfound, hholds, fun hty => absurd hty hne⟩

variable {table : TypeTable}

theorem Support.eq_printf_of_variadic {function : Support} (h : function.signature.variadic) :
    function = .printf := by
  cases function <;> simp_all [Support.signature]

/-- The setting in which variadic functions have a known origin, unless they are called by one of the
given registers. -/
def Setting.promoted (htable : table.Grounded) (origin : Signature → Prop) (guarded : String → Prop)
    (hprintf : guarded Support.printf.name) : Setting table :=
  .supplied htable (fun signature => signature.variadic → origin signature)
    (fun register signature => signature.variadic → origin signature ∨ guarded register)
    (fun _ h _ hvariadic => Or.inl (h hvariadic))
    fun _ hvariadic => Or.inr (Support.eq_printf_of_variadic hvariadic ▸ hprintf)

/-- With the support functions declared, the module scope keeps to the setting. A function under the name
of a built-in has a register that no other name has. -/
theorem Setting.promoted_binds {prelude : Scope} {support : List (String × Signature)}
    {declared : Globals}
    (hsupport : (declareSupport Support.all).eval { root := prelude.nest } = .ok (support, declared))
    (hapart : declared.root.Apart) (htable : table.Grounded) :
    (Setting.promoted htable prelude.Offers declared.root.Guards hapart.guards_printf).Binds []
      declared.root := by
  refine Setting.supplied_binds hsupport htable (fun _ hstores _ => hstores.offers) ?_
  intro name var signature hfound hty hvariadic
  cases hname : Builtin.ofName? name with
  | some builtin => exact Or.inr (hapart.guards hfound (Option.isSome_of_eq_some hname))
  | none =>
    rcases find?_declareSupport hsupport hfound with hprelude | ⟨function, rfl, hty', -⟩
    · rw [Scope.find?_nest] at hprelude
      exact Or.inl ⟨name, var, hprelude, hty ▸ .here _, fun _ => hname⟩
    · obtain rfl : function.signature = signature := Ty.function.inj (hty'.symm.trans hty)
      obtain rfl := Support.eq_printf_of_variadic hvariadic
      cases hname

theorem Ty.promotion?_eq_none_iff {width : Width} :
    (Ty.int width).promotion? = none ↔ 32 ≤ width.bits := by
  cases width <;> decide

/-- A call with an argument that would be widened is not that of a built-in. -/
theorem Request.Called.exists_ordinary {body : Body} {request : Request} {calls : List Instr}
    (h : request.Called body calls) {target : Option String} {callee : String} {signature : Signature}
    {arguments : List Value} (hcall : .call target callee signature arguments ∈ calls)
    {argument : Value} (hargument : argument ∈ arguments.drop signature.parameters.length)
    (hnarrow : argument.ty.promotion? ≠ none) :
    ∃ name expressions before function, request = .call name expressions ∧
      Builtin.ofName? name = none ∧ expressions.length = arguments.length ∧ body.Evolves before ∧
      before.scope.find? name = some function ∧ function.register = callee := by
  cases h with
  | builtin found called =>
    obtain ⟨function, -, _, _, heq, hwide⟩ := exists_mem_of_forall₂ called hcall
    cases heq
    exact absurd (hwide argument hargument) hnarrow
  | @function name expressions before function _ _ values missing reached found typed passed =>
    cases List.mem_singleton.mp hcall
    exact ⟨name, expressions, before, function, rfl, missing, passed.symm, reached, found, rfl⟩

/-- A call in a function with an argument that would be widened is one that the body spells out. -/
theorem Stages.Of.exists_ordinary {unchecked : Prop} {function : FunctionCode}
    {stages : Stages unchecked function} {globals : Globals} {definition : FunctionDef}
    {declared : Signature} (h : stages.Of globals table definition declared) {target : Option String}
    {callee : String} {signature : Signature} {arguments : List Value}
    (hcall : .call target callee signature arguments ∈ function.instructions) {argument : Value}
    (hargument : argument ∈ arguments.drop signature.parameters.length)
    (hnarrow : argument.ty.promotion? ≠ none) :
    ∃ name expressions before var, .call name expressions ∈ Block.requests definition.body ∧
      Builtin.ofName? name = none ∧ expressions.length = arguments.length ∧
      stages.start.Evolves before ∧ before.scope.find? name = some var ∧ var.register = callee := by
  obtain ⟨request, hrequest, calls, hcalled, hmem⟩ := h.exists_request hcall rfl
  obtain ⟨name, expressions, before, var, rfl, hordinary⟩ :=
    hcalled.exists_ordinary hmem hargument hnarrow
  exact ⟨name, expressions, before, var, hrequest, hordinary⟩

/-- A variadic function that takes a narrow argument has a known origin. The registers without one stay with
built-ins, from the module scope on. -/
theorem Stages.Of.exists_origin_of_narrow {unchecked : Prop} {function : FunctionCode}
    {stages : Stages unchecked function} {globals : Globals} {definition : FunctionDef}
    {declared : Signature} (h : stages.Of globals table definition declared)
    (hsignature : table.denoteSignature definition = .ok declared) {htable : table.Grounded}
    {origin : Signature → Prop} {guarded : String → Prop} {hprintf : guarded Support.printf.name}
    (hadmits : (Setting.promoted htable origin guarded hprintf).Admits globals.root stages.prologue)
    (hguarded : ∀ register, guarded register → globals.root.Guards register)
    {target : Option String} {callee : String} {signature : Signature} {arguments : List Value}
    (hcall : .call target callee signature arguments ∈ function.instructions)
    (hvariadic : signature.variadic) {argument : Value}
    (hargument : argument ∈ arguments.drop signature.parameters.length)
    (hnarrow : argument.ty.promotion? ≠ none) :
    origin signature ∧ ∃ name expressions, .call name expressions ∈ Block.requests definition.body ∧
      Builtin.ofName? name = none ∧ expressions.length = arguments.length := by
  obtain ⟨name, expressions, before, var, hrequest, hname, hlength, hbefore, hfound, rfl⟩ :=
    h.exists_ordinary hcall hargument hnarrow
  refine ⟨?_, name, expressions, hrequest, hname, hlength⟩
  have hsound := h.sound_code hsignature hadmits False.elim _ (stages.mem_code_of_isCall hcall rfl)
  rcases (hsound.calls rfl).1.2 hvariadic with horigin | hregister
  · exact horigin
  · exfalso
    have hinherited := Scope.inherited_guards var.register
    have hstart : stages.start.scope.Guards var.register := by
      rw [h.scope_start, ← h.prologue_eq]
      exact hinherited.prologue _ _ (hguarded _ hregister)
    have hbuiltin := (hinherited.evolves hbefore hstart).isBuiltin hfound rfl
    rw [hname] at hbuiltin
    cases hbuiltin

/-- The functions of a module are not variadic. -/
theorem TypeTable.variadic_denoteSignature {definition : FunctionDef} {signature : Signature}
    (h : table.denoteSignature definition = .ok signature) : signature.variadic = false := by
  simp only [denoteSignature, bind, Except.bind, pure, Except.pure] at h
  split at h
  · cases h
  · split at h
    · cases h
    · cases h
      rfl

/-- An argument behind the parameters of a variadic function is narrower than 32 bits only if the function
is had from the prelude, and the call is one in the source that is not of a built-in. Whatever the prelude
is, built-ins widen their arguments, and the functions of the module are not variadic. -/
theorem exists_offer_of_narrow {actions : List Scope.Action} {module : Module} {program : Program}
    (h : (lowerWith (Scope.performAll {} actions) module).result = .ok program) {position : Nat}
    {function : FunctionCode} (hfunction : program.functions[position]? = some function)
    {target : Option String} {callee : String} {signature : Signature} {arguments : List Value}
    (hcall : .call target callee signature arguments ∈ function.instructions)
    (hvariadic : signature.variadic) {argument : Value}
    (hargument : argument ∈ arguments.drop signature.parameters.length) {width : Width}
    (hty : argument.ty = .int width) (hnarrow : width.bits < 32) :
    (Scope.performAll {} actions).Offers signature ∧
    ∃ definition name expressions, module.functions[position]? = some definition ∧
      .call name expressions ∈ Block.requests definition.body ∧ Builtin.ofName? name = none ∧
      expressions.length = arguments.length := by
  obtain ⟨support, declared, table, bound, named, last, hsupport, hstructs, hbind, hcodes, -⟩ :=
    eval_lowerWith h
  obtain ⟨hdefinitions, hsignatures, hkeyed⟩ := eval_bindFunctions hbind
  have htable := grounded_of_eval_defineStructs hstructs
  have hapart : declared.root.Apart :=
    Scope.inherited_apart.declareSupport hsupport (Scope.apart_performAll actions).nest
  let setting := Setting.promoted htable (Scope.performAll {} actions).Offers declared.root.Guards
    hapart.guards_printf
  have hbinds : setting.Binds [] named.root := by
    refine (Setting.promoted_binds hsupport hapart htable).bindFunctions hbind fun function hmem => ?_
    refine ⟨(htable.denoteSignature (hsignatures function hmem)).supplied _, fun hvariadic => ?_⟩
    rw [TypeTable.variadic_denoteSignature (hsignatures function hmem)] at hvariadic
    cases hvariadic
  let rooted (root : Scope) : Prop := root.Keyed ∧ setting.Binds [] root ∧
    ∀ register, declared.root.Guards register → root.Guards register
  have hnamed : rooted named.root := by
    refine ⟨hkeyed (keyed_declareSupport hsupport ?_), hbinds, fun register hguards => ?_⟩
    · exact (Scope.Recorded.empty.performAll actions).keyed.nest
    · exact (Scope.inherited_guards register).bindFunctions hbind hguards
  have hconstant (root : Scope) (constant : Constant) (hroot : rooted root) :
      rooted (root.mint constant.base constant.ty).2 := by
    obtain ⟨hkeyed, hbinds, hguards⟩ := hroot
    exact ⟨hkeyed.mint _ _, hbinds.addConstant constant trivial, fun register hguarded =>
      (Scope.inherited_guards register).mint _ _ (hguards register hguarded)⟩
  have hall := forall₂_loweredIn rooted hconstant hcodes hsignatures hnamed
  obtain ⟨hlt, rfl⟩ := List.getElem?_eq_some_iff.mp hfunction
  have hlt' : position < bound.length := hall.length_eq ▸ hlt
  obtain ⟨globals, stages, hstages, hkeyed, hbinds, hguards⟩ := (hall.get hlt' hlt).exists_stages
  have hadmits : setting.Admits globals.root stages.prologue :=
    ⟨hkeyed, hbinds, fun _ _ => trivial, fun _ _ => trivial, trivial, rfl, List.forall_mem_nil _⟩
  have hpromoted : argument.ty.promotion? ≠ none := by
    rw [hty, Ne, Ty.promotion?_eq_none_iff]
    omega
  obtain ⟨hoffers, name, expressions, hordinary⟩ := hstages.exists_origin_of_narrow
    (hsignatures _ (List.getElem_mem hlt')) hadmits hguards hcall hvariadic hargument hpromoted
  refine ⟨hoffers, bound[position].definition, name, expressions, ?_, hordinary⟩
  rw [← hdefinitions, List.getElem?_map, List.getElem?_eq_getElem hlt']
  rfl

/-- A prelude in which the name of a built-in is that of a function, and a variable refers to a function of
the same type. -/
def sunken : List Scope.Action := [
  .declare "printf" Support.printf.signature,
  .nest,
  .bind "sink" (.ref (.function Support.printf.signature))]

/-- A module that prints by the built-in and through the variable. -/
def sinking : Module where
  items := [.function {
    name := "main"
    parameters := [⟨"x", "i8"⟩]
    returns := none
    body := [
      .bind "f" none (.deref "sink" 1),
      .eval (.call "printf" [.text "%d", .variableRef "x"]),
      .eval (.call "f" [.text "%d", .variableRef "x", .integer 1])] }]

theorem exists_offer_sinking : ∃ program function,
    (lowerWith (Scope.performAll {} sunken) sinking).result = .ok program ∧
    program.functions[0]? = some function ∧
    .call none "printf" Support.printf.signature
      [⟨.register "sym11", .bytes⟩, ⟨.register "sym13", .i32⟩] ∈ function.instructions ∧
    .call none "f" Support.printf.signature
      [⟨.register "sym14", .bytes⟩, ⟨.register "sym15", .i8⟩, ⟨.immediate 1, .i32⟩] ∈
        function.instructions ∧
    (Scope.performAll {} sunken).Offers Support.printf.signature ∧
    ∃ definition name expressions, sinking.functions[0]? = some definition ∧
      .call name expressions ∈ Block.requests definition.body ∧ Builtin.ofName? name = none ∧
      expressions.length = 3 := by
  obtain ⟨program, h, hprogram⟩ := exists_program_of_any (Scope.performAll {} sunken) sinking
    (P := fun program => program.functions[0]?.any fun (function : FunctionCode) => decide (
      .call none "printf" Support.printf.signature
        [⟨.register "sym11", .bytes⟩, ⟨.register "sym13", .i32⟩] ∈ function.instructions ∧
      .call none "f" Support.printf.signature
        [⟨.register "sym14", .bytes⟩, ⟨.register "sym15", .i8⟩, ⟨.immediate 1, .i32⟩] ∈
          function.instructions)) (by decide +kernel)
  cases hfunction : program.functions[0]? with
  | none =>
    rw [hfunction] at hprogram
    cases hprogram
  | some function =>
    rw [hfunction, Option.any_some] at hprogram
    obtain ⟨hprintf, hcall⟩ := of_decide_eq_true hprogram
    obtain ⟨hoffers, hsource⟩ :=
      exists_offer_of_narrow h hfunction hcall rfl List.mem_cons_self rfl (by decide)
    exact ⟨program, function, h, hfunction, hprintf, hcall, hoffers, hsource⟩

/-- A module that passes a truth value to a variadic function. -/
def logging : Module where
  items := [.function {
    name := "main"
    parameters := []
    returns := none
    body := [.eval (.call "log" [.text "%d", .boolean true])] }]

/-- A function of the prelude takes a truth value behind its parameters as it is. -/
theorem narrow_logging : ∃ program,
    (lowerWith (Scope.performAll {} [.declare "log" ⟨none, [.bytes], true⟩]) logging).result =
      .ok program ∧
    (∃ function ∈ program.functions,
      .call none "log" ⟨none, [.bytes], true⟩ [⟨.register "sym7", .bytes⟩, ⟨.boolean true, .bool⟩] ∈
        function.instructions) ∧
    "    call void (ptr, ...) @log(ptr %sym7, i1 true)" ∈ program.listing.lines ∧
    Width.i1.bits < 32 := by
  obtain ⟨program, h, hprogram⟩ := exists_program_of_any
    (Scope.performAll {} [.declare "log" ⟨none, [.bytes], true⟩]) logging
    (P := fun program => decide ((∃ function ∈ program.functions,
      .call none "log" ⟨none, [.bytes], true⟩ [⟨.register "sym7", .bytes⟩, ⟨.boolean true, .bool⟩] ∈
        function.instructions) ∧
      "    call void (ptr, ...) @log(ptr %sym7, i1 true)" ∈ program.listing.lines)) (by decide +kernel)
  obtain ⟨hcall, hline⟩ := of_decide_eq_true hprogram
  exact ⟨program, h, hcall, hline, by decide⟩

end ThreeAddress
