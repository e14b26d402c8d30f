import ThreeAddress.Lower.Function

/-!
# Modules

A module is lowered in three rounds. Structs are defined in source order. Then every function is
bound to a symbol, so that functions can call each other whatever their order. Then the functions
are lowered one by one.

## Main definitions

* `assemble`: the rounds in order.
* `lowerWith`: a module in a prelude, which is a scope of functions from elsewhere.
* `lower`: a module on its own.
* `Scope.ofPrelude`: the scope of a prelude that is given name by name.
-/

namespace ThreeAddress

namespace Scope

/-- Binds names in order, with what that reports. -/
def bindAll (scope : Scope) : List (String × Ty) → Scope × Trace
  | [] => (scope, [])
  | (name, ty) :: rest =>
    let (var, scope) := scope.bind name ty
    let (scope, trace) := scope.bindAll rest
    (scope, .bound (some name) var.register :: trace)

/-- Nests scopes with the given bindings in a scope, the outermost first. -/
def nestAll (scope : Scope) : List (List (String × Ty)) → Scope × Trace
  | [] => (scope, [])
  | bindings :: rest =>
    let (scope, trace) := scope.nest.bindAll bindings
    let (scope, more) := scope.nestAll rest
    (scope, trace ++ more)

/-- The scope of a prelude, given as the bindings of its scopes, the outermost first. -/
def ofPrelude : List (List (String × Ty)) → Scope × Trace
  | [] => ({}, [])
  | bindings :: rest =>
    let (scope, trace) := ({} : Scope).bindAll bindings
    let (scope, more) := scope.nestAll rest
    (scope, trace ++ more)

/-- Whether a name is bound to a function. -/
def hasFunction (scope : Scope) (name : String) : Bool :=
  (scope.find? name).any fun var => var.ty.signature?.isSome

end Scope

/-- Binds a name of the module. -/
def bindGlobal (name : String) (ty : Ty) : Pass Globals Var := do
  let var ← Pass.modifyGet fun globals =>
    let (var, root) := globals.root.bind name ty
    (var, { globals with root })
  Pass.report [.bound (some name) var.register]
  return var

/-- Declares the support functions that are not there yet, and yields those it declared with their
symbols. -/
def declareSupport : List Support → Pass Globals (List (String × Signature))
  | [] => pure []
  | function :: rest => do
    let globals ← Pass.get
    if globals.root.hasFunction function.name then
      declareSupport rest
    else
      let var ← bindGlobal function.name (.function function.signature)
      let declared ← declareSupport rest
      return (var.register, function.signature) :: declared

/-- Defines the structs of a module in order. -/
def defineStructs (table : TypeTable) : List Item → Pass Globals TypeTable
  | [] => pure table
  | .struct definition :: rest => do
    let (_, table) ← Pass.within table (TypeTable.define definition)
    defineStructs table rest
  | .directive text :: rest => do
    Pass.report [.directiveSkipped text]
    defineStructs table rest
  | .function _ :: rest => defineStructs table rest

/-- The signature of a function. -/
def TypeTable.denoteSignature (table : TypeTable) (definition : FunctionDef) :
    Except Diagnostic Signature := do
  let parameters ← table.denoteMembers definition.parameters
  let returns ← definition.returns.mapM table.denote
  return ⟨returns, parameters.map Member.ty, false⟩

/-- Binds the functions of a module in order. No two have one name; `seen` holds the names before
these. -/
def bindFunctions (table : TypeTable) (seen : List String) :
    List FunctionDef → Pass Globals (List BoundFunction)
  | [] => pure []
  | definition :: rest => do
    Pass.require (!seen.contains definition.name) (.repeatedFunction definition.name)
    let signature ← Pass.ofExcept (table.denoteSignature definition)
    let var ← bindGlobal definition.name (.function signature)
    let functions ← bindFunctions table (definition.name :: seen) rest
    return ⟨definition, var⟩ :: functions

/-- Lowers functions in order. The lines of each follow those of the ones before it. -/
def lowerFunctions (table : TypeTable) : List BoundFunction → Pass Draft (List FunctionCode)
  | [] => pure []
  | function :: rest => do
    let code ← lowerFunction table function
    let codes ← lowerFunctions table rest
    return code :: codes

/-- Lowers all functions of a module, and yields their lines as well. -/
def writeFunctions (table : TypeTable) (functions : List BoundFunction) :
    Pass Globals (List FunctionCode × List Line) :=
  Pass.focus (fun globals => { globals }) Draft.globals do
    let codes ← lowerFunctions table functions
    let draft ← Pass.get
    return (codes, draft.lines)

/-- Lowers a module. `provided` are the functions of the prelude, which are declared in front of the
support functions. -/
def assemble (provided : List (String × Signature)) (module : Module) :
    Pass Globals Program := do
  let support ← declareSupport Support.all
  Pass.report [.moduleStarted module.items.length]
  let table ← defineStructs {} module.items
  let bound ← bindFunctions table [] module.functions
  let (functions, lines) ← writeFunctions table bound
  let globals ← Pass.get
  return {
    structs := table.structs
    constants := globals.constants
    functions
    lines
    externals := provided ++ support }

/-- Lowers a module whose functions may call those of a prelude. The functions bound in the
innermost scope of the prelude are declared as external. -/
def lowerWith (prelude : Scope) (module : Module) : Outcome Program :=
  (assemble prelude.ownFunctions module { root := prelude.nest }).outcome

/-- Lowers a module on its own. -/
def lower (module : Module) : Outcome Program :=
  lowerWith {} module

end ThreeAddress
