import ThreeAddress.Lower.Module

/-!
# Directives

A directive is a line for other tools. Lowering reports that it skips one and does nothing else, so a
module can be freed of its directives before it is lowered. Neither the program nor the diagnostic nor the
warnings change: directives open no block, use up no name and close no path.

## Main definitions

* `Module.withoutDirectives`: a module without the directives in it, at any depth.
* `Pass.plain`: a pass whose trace leaves out what shows the directives of a module.

## Main statements

* `Pass.plain_bind`: leaving events out commutes with doing one pass after another.
* `Lowering.plain_lowerStmts`: a block is lowered as it is without its directives.
* `plain_assemble`: so is a module, whether or not that succeeds.
* `lowerWith_withoutDirectives`: program, diagnostic and warnings do not depend on directives.
-/

namespace ThreeAddress

-- ════════════════════════
-- Modules without directives
-- ════════════════════════

mutual

/-- The directives in a statement, in order. -/
def Stmt.directives : Stmt → List String
  | .directive text => [text]
  | .ite _ positive negative => Block.directives positive ++ Block.directives negative
  | .loop _ body => Block.directives body
  | .bind _ _ _ | .assign _ _ | .eval _ | .ret _ => []

/-- The directives in a block, in order. -/
def Block.directives : List Stmt → List String
  | [] => []
  | statement :: rest => statement.directives ++ Block.directives rest

end

mutual

/-- What is left of a statement without its directives. Nothing is left of a directive. -/
def Stmt.withoutDirectives : Stmt → List Stmt
  | .directive _ => []
  | .ite condition positive negative =>
    [.ite condition (Block.withoutDirectives positive) (Block.withoutDirectives negative)]
  | .loop condition body => [.loop condition (Block.withoutDirectives body)]
  | .bind name ty value => [.bind name ty value]
  | .assign target value => [.assign target value]
  | .eval expression => [.eval expression]
  | .ret value => [.ret value]

/-- A block without its directives. -/
def Block.withoutDirectives : List Stmt → List Stmt
  | [] => []
  | statement :: rest => statement.withoutDirectives ++ Block.withoutDirectives rest

end

/-- A function without the directives in its body. -/
def FunctionDef.withoutDirectives (definition : FunctionDef) : FunctionDef :=
  { definition with body := Block.withoutDirectives definition.body }

namespace Item

/-- The directives in an item, in order. -/
def directives : Item → List String
  | function definition => Block.directives definition.body
  | struct _ => []
  | directive text => [text]

/-- What is left of an item without its directives. -/
def withoutDirectives : Item → List Item
  | function definition => [.function definition.withoutDirectives]
  | struct definition => [.struct definition]
  | directive _ => []

end Item

namespace Module

/-- The directives in a module, in order. -/
def directives (module : Module) : List String :=
  module.items.flatMap Item.directives

/-- A module without its directives. -/
def withoutDirectives (module : Module) : Module :=
  ⟨module.items.flatMap Item.withoutDirectives⟩

end Module

theorem Block.directives_append (first second : List Stmt) :
    Block.directives (first ++ second) = Block.directives first ++ Block.directives second := by
  induction first with
  | nil => rfl
  | cons statement rest ih =>
    rw [List.cons_append, Block.directives, ih, Block.directives, List.append_assoc]

mutual

theorem Stmt.directives_withoutDirectives : ∀ statement : Stmt,
    Block.directives statement.withoutDirectives = []
  | .directive _ | .bind _ _ _ | .assign _ _ | .eval _ | .ret _ => by
    simp [Stmt.withoutDirectives, Block.directives, Stmt.directives]
  | .ite _ positive negative => by
    simp [Stmt.withoutDirectives, Block.directives, Stmt.directives,
      Block.directives_withoutDirectives positive, Block.directives_withoutDirectives negative]
  | .loop _ body => by
    simp [Stmt.withoutDirectives, Block.directives, Stmt.directives,
      Block.directives_withoutDirectives body]

/-- No directive is left, at any depth. -/
theorem Block.directives_withoutDirectives : ∀ statements : List Stmt,
    Block.directives (Block.withoutDirectives statements) = []
  | [] => rfl
  | statement :: rest => by
    rw [Block.withoutDirectives, Block.directives_append, statement.directives_withoutDirectives,
      Block.directives_withoutDirectives rest, List.append_nil]

end

theorem Module.directives_withoutDirectives (module : Module) :
    module.withoutDirectives.directives = [] := by
  refine List.flatMap_eq_nil_iff.mpr fun item hmem => ?_
  obtain ⟨original, -, hleft⟩ := List.mem_flatMap.mp hmem
  cases original with
  | function definition =>
    rw [List.mem_singleton.mp hleft]
    exact Block.directives_withoutDirectives definition.body
  | struct definition =>
    rw [List.mem_singleton.mp hleft]
    rfl
  | directive text => cases hleft

/-- The functions of a module are still there, in the same order. -/
theorem Module.functions_withoutDirectives (module : Module) :
    module.withoutDirectives.functions = module.functions.map FunctionDef.withoutDirectives := by
  obtain ⟨items⟩ := module
  show (items.flatMap Item.withoutDirectives).filterMap Item.function? =
    (items.filterMap Item.function?).map FunctionDef.withoutDirectives
  induction items with
  | nil => rfl
  | cons item rest ih =>
    rw [List.flatMap_cons, List.filterMap_append, ih]
    cases item <;> rfl

-- ════════════════════════
-- Traces that do not show directives
-- ════════════════════════

/-- Whether an event shows the directives of a module: one was skipped, or items were counted. -/
def Event.showsDirectives : Event → Bool
  | directiveSkipped _ | moduleStarted _ => true
  | _ => false

namespace Trace

/-- A trace without the events that show directives. -/
def plain (trace : Trace) : Trace :=
  trace.filter fun event => !event.showsDirectives

theorem plain_append (first second : Trace) : (first ++ second).plain = first.plain ++ second.plain :=
  List.filter_append ..

/-- No warning is among the events left out. -/
@[simp] theorem warnings_plain (trace : Trace) : trace.plain.warnings = trace.warnings := by
  rw [plain, warnings, List.filterMap_filter, warnings]
  congr 1
  funext event
  cases event <;> rfl

end Trace

namespace Pass

variable {σ τ α β : Type}

/-- A pass whose trace leaves out what shows directives. -/
def plain (pass : Pass σ α) : Pass σ α := fun state =>
  { pass state with trace := (pass state).trace.plain }

/-- Leaving events out commutes with doing one pass after another. -/
theorem plain_bind (first : Pass σ α) (next : α → Pass σ β) :
    (first >>= next).plain = first.plain >>= fun value => (next value).plain := by
  funext state
  show Pass.plain (Pass.bind first next) state =
    Pass.bind first.plain (fun value => (next value).plain) state
  simp only [Pass.plain, Pass.bind]
  cases first state with
  | mk result middle trace =>
    cases result with
    | error diagnostic => rfl
    | ok value => simp only [Trace.plain_append]

/-- Sequences are alike if their parts are. -/
theorem plain_bind_congr {first first' : Pass σ α} {next next' : α → Pass σ β}
    (hfirst : first.plain = first'.plain) (hnext : ∀ value, (next value).plain = (next' value).plain) :
    (first >>= next).plain = (first' >>= next').plain := by
  rw [plain_bind, plain_bind, hfirst, funext hnext]

theorem plain_focus (enter : σ → τ) (leave : τ → σ) (inner : Pass τ α) :
    (focus enter leave inner).plain = focus enter leave inner.plain := rfl

/-- Events that show directives leave nothing behind. -/
theorem plain_report {events : Trace} (h : events.plain = []) :
    (report events : Pass σ Unit).plain = pure () := by
  funext state
  show Run.mk _ _ events.plain = _
  rw [h]
  rfl

end Pass

-- ════════════════════════
-- Function bodies
-- ════════════════════════

namespace Lowering

theorem lowerStmts_singleton (frame : Frame) (statement : Stmt) :
    lowerStmts frame [statement] = lowerStmt frame statement := by
  simp only [lowerStmts, bind_pure_unit]

theorem lowerStmts_append (frame : Frame) (first second : List Stmt) :
    lowerStmts frame (first ++ second) =
      (do lowerStmts frame first; lowerStmts frame second) := by
  induction first with
  | nil => simp only [List.nil_append, lowerStmts, pure_bind]
  | cons statement rest ih => simp only [List.cons_append, lowerStmts, ih, bind_assoc]

mutual

theorem plain_lowerStmt (frame : Frame) : ∀ statement : Stmt,
    (lowerStmts frame statement.withoutDirectives).plain = (lowerStmt frame statement).plain
  | .directive text => by
    rw [Stmt.withoutDirectives, lowerStmts, lowerStmt, Pass.plain_report rfl]
    rfl
  | .bind _ _ _ | .assign _ _ | .eval _ | .ret _ => by
    rw [Stmt.withoutDirectives, lowerStmts_singleton]
  | .ite condition positive negative => by
    rw [Stmt.withoutDirectives, lowerStmts_singleton]
    simp only [lowerStmt, Pass.plain_bind, plain_lowerStmts frame positive,
      plain_lowerStmts frame negative]
  | .loop condition body => by
    rw [Stmt.withoutDirectives, lowerStmts_singleton]
    simp only [lowerStmt, Pass.plain_bind, plain_lowerStmts frame body]

/-- A block is lowered as it is without its directives. -/
theorem plain_lowerStmts (frame : Frame) : ∀ statements : List Stmt,
    (lowerStmts frame (Block.withoutDirectives statements)).plain = (lowerStmts frame statements).plain
  | [] => rfl
  | statement :: rest => by
    rw [Block.withoutDirectives, lowerStmts_append, lowerStmts, Pass.plain_bind, Pass.plain_bind,
      plain_lowerStmt frame statement, plain_lowerStmts frame rest]

end

end Lowering

theorem Block.mustReturn_append (first second : List Stmt) :
    Block.mustReturn (first ++ second) = (Block.mustReturn first || Block.mustReturn second) := by
  induction first with
  | nil => rfl
  | cons statement rest ih =>
    rw [List.cons_append, Block.mustReturn, ih, Block.mustReturn, Bool.or_assoc]

mutual

theorem Stmt.mustReturn_withoutDirectives : ∀ statement : Stmt,
    Block.mustReturn statement.withoutDirectives = statement.mustReturn
  | .directive _ | .bind _ _ _ | .assign _ _ | .eval _ | .ret _ | .loop _ _ => by
    simp [Stmt.withoutDirectives, Block.mustReturn, Stmt.mustReturn]
  | .ite _ positive negative => by
    simp [Stmt.withoutDirectives, Block.mustReturn, Stmt.mustReturn,
      Block.mustReturn_withoutDirectives positive, Block.mustReturn_withoutDirectives negative]

/-- Control leaves a block at its end as it does without directives. -/
theorem Block.mustReturn_withoutDirectives : ∀ statements : List Stmt,
    Block.mustReturn (Block.withoutDirectives statements) = Block.mustReturn statements
  | [] => rfl
  | statement :: rest => by
    rw [Block.withoutDirectives, Block.mustReturn_append, statement.mustReturn_withoutDirectives,
      Block.mustReturn_withoutDirectives rest, Block.mustReturn]

end

/-- A function is lowered as it is without its directives. -/
theorem Lowering.plain_lowerDefinition (table : TypeTable) (definition : FunctionDef) (symbol : String)
    (signature : Signature) :
    (lowerDefinition table definition.withoutDirectives symbol signature).plain =
      (lowerDefinition table definition symbol signature).plain := by
  unfold lowerDefinition
  -- The header and the prologue come from the head of a function, and directives stand in its body.
  refine Pass.plain_bind_congr rfl fun (frame, registers) => ?_
  simp only [FunctionDef.withoutDirectives, Block.mustReturn_withoutDirectives, Pass.plain_bind,
    plain_lowerStmts]

/-- A function with its symbol, without the directives in its body. -/
def BoundFunction.withoutDirectives (function : BoundFunction) : BoundFunction :=
  { function with definition := function.definition.withoutDirectives }

theorem plain_lowerFunction (table : TypeTable) (function : BoundFunction) :
    (lowerFunction table function.withoutDirectives).plain = (lowerFunction table function).plain := by
  refine Pass.plain_bind_congr rfl fun _ => Pass.plain_bind_congr rfl fun signature => ?_
  rw [Pass.plain_focus, Pass.plain_focus]
  exact congrArg _ (Lowering.plain_lowerDefinition _ _ _ _)

theorem plain_lowerFunctions (table : TypeTable) (functions : List BoundFunction) :
    (lowerFunctions table (functions.map BoundFunction.withoutDirectives)).plain =
      (lowerFunctions table functions).plain := by
  induction functions with
  | nil => rfl
  | cons function rest ih =>
    simp only [List.map_cons, lowerFunctions, Pass.plain_bind, plain_lowerFunction, ih]

theorem plain_writeFunctions (table : TypeTable) (functions : List BoundFunction) :
    (writeFunctions table (functions.map BoundFunction.withoutDirectives)).plain =
      (writeFunctions table functions).plain := by
  simp only [writeFunctions, Pass.plain_focus, Pass.plain_bind, plain_lowerFunctions]

-- ════════════════════════
-- Modules
-- ════════════════════════

theorem plain_defineStructs (table : TypeTable) (items : List Item) :
    (defineStructs table (items.flatMap Item.withoutDirectives)).plain =
      (defineStructs table items).plain := by
  induction items generalizing table with
  | nil => rfl
  | cons item rest ih =>
    cases item with
    | function definition => exact ih table
    | struct definition =>
      simp only [List.flatMap_cons, Item.withoutDirectives, List.singleton_append, defineStructs,
        Pass.plain_bind, ih]
    | directive text =>
      rw [List.flatMap_cons, Item.withoutDirectives, List.nil_append, defineStructs, Pass.plain_bind,
        Pass.plain_report rfl, pure_bind, ih]

/-- Functions are bound to the same symbols without their directives. -/
theorem bindFunctions_withoutDirectives (table : TypeTable) (seen : List String)
    (definitions : List FunctionDef) :
    bindFunctions table seen (definitions.map FunctionDef.withoutDirectives) =
      List.map BoundFunction.withoutDirectives <$> bindFunctions table seen definitions := by
  induction definitions generalizing seen with
  | nil => rfl
  | cons definition rest ih =>
    -- The symbol and the signature come from the head of a function, and directives stand in its body.
    have hsignature : table.denoteSignature definition.withoutDirectives =
        table.denoteSignature definition := rfl
    simp only [List.map_cons, bindFunctions, ih, hsignature, map_bind, bind_map_left, map_pure]
    rfl

/-- A module is lowered as it is without its directives, whether or not that succeeds. -/
theorem plain_assemble (provided : List (String × Signature)) (module : Module) :
    (assemble provided module.withoutDirectives).plain = (assemble provided module).plain := by
  refine Pass.plain_bind_congr rfl fun support => Pass.plain_bind_congr ?_ fun _ =>
    Pass.plain_bind_congr (plain_defineStructs {} module.items) fun table => ?_
  · exact (Pass.plain_report rfl).trans (Pass.plain_report rfl).symm
  · rw [module.functions_withoutDirectives, bindFunctions_withoutDirectives, bind_map_left]
    exact Pass.plain_bind_congr rfl fun bound =>
      Pass.plain_bind_congr (plain_writeFunctions table bound) fun functions => rfl

/-- Directives can be deleted, wherever they stand. The module that is left has none. It is lowered to the
same program, and so to the same text, or it fails with the same diagnostic. Either way the same warnings
come in the same order. -/
theorem lowerWith_withoutDirectives (prelude : Scope) (module : Module) :
    module.withoutDirectives.directives = [] ∧
    (lowerWith prelude module.withoutDirectives).result = (lowerWith prelude module).result ∧
    (lowerWith prelude module.withoutDirectives).trace.warnings =
      (lowerWith prelude module).trace.warnings := by
  have halike := congrFun (plain_assemble prelude.ownFunctions module) { root := prelude.nest }
  have hresult := congrArg Run.result halike
  have hwarnings := congrArg (fun run => run.trace.warnings) halike
  simp only [Pass.plain, Trace.warnings_plain] at hwarnings
  exact ⟨module.directives_withoutDirectives, hresult, hwarnings⟩

end ThreeAddress
