import ThreeAddress.Syntax.Basic

/-!
# Declared variables

Blocks open no scope: a variable can be used behind its declaration, in the order in which
statements are written.

## Main definitions

* `Expr.mentions`: the variables that an expression mentions.
* `Expr.reads`: those whose values it reads.
* `Stmt.declares`, `Block.declares`: the names that statements declare, in the order they are
  written.
* `Stmt.isScoped`, `Block.isScoped`: every variable is declared before it is mentioned.
* `FunctionDef.isScoped`, `Module.isScoped`: the same for a function, whose parameters are declared
  from the start, and for all functions of a module.
* `Stmt.strays`, `Block.strays`, `FunctionDef.strays`: the variables that are mentioned without being
  declared before.

## Main statements

* `FunctionDef.isScoped_iff`: every variable is declared if there are no strays.
-/

namespace ThreeAddress

mutual

/-- The variables that an expression mentions: by value or address, through references, as a struct
or as an array. -/
def Expr.mentions : Expr → List String
  | .integer _ | .boolean _ | .text _ => []
  | .variableRef name | .address name | .deref name _ | .field name _ => [name]
  | .binary _ lhs rhs => lhs.mentions ++ rhs.mentions
  | .call _ arguments => Expr.mentionsAll arguments
  | .build _ fields => FieldValue.mentionsAll fields
  | .array elements => Expr.mentionsAll elements
  | .element array index => array :: index.mentions

/-- The variables that some expressions mention. -/
def Expr.mentionsAll : List Expr → List String
  | [] => []
  | expression :: rest => expression.mentions ++ Expr.mentionsAll rest

/-- The variables that the members of a struct value mention. -/
def FieldValue.mentionsAll : List FieldValue → List String
  | [] => []
  | ⟨_, value⟩ :: rest => value.mentions ++ FieldValue.mentionsAll rest

end

mutual

/-- The variables whose values an expression reads. Where the address of a variable is taken, nothing
is read. -/
def Expr.reads : Expr → List String
  | .integer _ | .boolean _ | .text _ | .address _ => []
  | .variableRef name | .deref name _ | .field name _ => [name]
  | .binary _ lhs rhs => lhs.reads ++ rhs.reads
  | .call _ arguments => Expr.readsAll arguments
  | .build _ fields => FieldValue.readsAll fields
  | .array elements => Expr.readsAll elements
  | .element array index => array :: index.reads

/-- The variables whose values some expressions read. -/
def Expr.readsAll : List Expr → List String
  | [] => []
  | expression :: rest => expression.reads ++ Expr.readsAll rest

/-- The variables whose values the members of a struct value read. -/
def FieldValue.readsAll : List FieldValue → List String
  | [] => []
  | ⟨_, value⟩ :: rest => value.reads ++ FieldValue.readsAll rest

end

mutual

/-- The names that a statement declares, in the order they are written. -/
def Stmt.declares : Stmt → List String
  | .bind name _ _ => [name]
  | .ite _ positive negative => Block.declares positive ++ Block.declares negative
  | .loop _ body => Block.declares body
  | .assign _ _ | .eval _ | .ret _ | .directive _ => []

/-- The names that some statements declare. -/
def Block.declares : List Stmt → List String
  | [] => []
  | statement :: rest => statement.declares ++ Block.declares rest

end

/-- Whether all variables that an expression mentions are among the given names. -/
def Expr.isScoped (names : List String) (expression : Expr) : Bool :=
  expression.mentions.all fun name => name ∈ names

mutual

/-- Whether a statement mentions only the given names and what it declares itself before. The value
of a declaration does not see the name it is bound to. -/
def Stmt.isScoped : List String → Stmt → Bool
  | names, .bind _ _ value => value.isScoped names
  | names, .assign target value => target.isScoped names && value.isScoped names
  | names, .eval expression => expression.isScoped names
  | names, .ret value => value.all (Expr.isScoped names)
  | names, .ite condition positive negative =>
    condition.isScoped names && Block.isScoped names positive &&
      Block.isScoped (names ++ Block.declares positive) negative
  | names, .loop condition body => condition.isScoped names && Block.isScoped names body
  | _, .directive _ => true

/-- Whether statements mention only the given names and what they declare themselves before. -/
def Block.isScoped : List String → List Stmt → Bool
  | _, [] => true
  | names, statement :: rest =>
    statement.isScoped names && Block.isScoped (names ++ statement.declares) rest

end

/-- Whether a function mentions only its parameters and what it declares before. -/
def FunctionDef.isScoped (definition : FunctionDef) : Bool :=
  Block.isScoped (definition.parameters.map TypedName.name) definition.body

/-- Whether all functions of a module mention only what they declare. -/
def Module.isScoped (module : Module) : Bool :=
  module.functions.all FunctionDef.isScoped

theorem Expr.isScoped_iff {names : List String} {expression : Expr} :
    expression.isScoped names ↔ expression.mentions ⊆ names := by
  simp [Expr.isScoped, List.subset_def]

/-- The variables that an expression mentions and that are not among the given names. -/
def Expr.strays (names : List String) (expression : Expr) : List String :=
  expression.mentions.filter fun name => name ∉ names

mutual

/-- The variables that a statement mentions and that are neither among the given names nor declared
by the statement itself before. -/
def Stmt.strays : List String → Stmt → List String
  | names, .bind _ _ value => value.strays names
  | names, .assign target value => target.strays names ++ value.strays names
  | names, .eval expression => expression.strays names
  | names, .ret value => value.toList.flatMap (Expr.strays names)
  | names, .ite condition positive negative =>
    condition.strays names ++ Block.strays names positive ++
      Block.strays (names ++ Block.declares positive) negative
  | names, .loop condition body => condition.strays names ++ Block.strays names body
  | _, .directive _ => []

/-- The variables that statements mention and that are neither among the given names nor declared by
the statements before. -/
def Block.strays : List String → List Stmt → List String
  | _, [] => []
  | names, statement :: rest =>
    statement.strays names ++ Block.strays (names ++ statement.declares) rest

end

/-- The variables that a function mentions without declaring them before. -/
def FunctionDef.strays (definition : FunctionDef) : List String :=
  Block.strays (definition.parameters.map TypedName.name) definition.body

theorem Expr.strays_eq_nil_iff {names : List String} {expression : Expr} :
    expression.strays names = [] ↔ expression.isScoped names := by
  simp [Expr.strays, Expr.isScoped]

mutual

theorem Stmt.strays_eq_nil_iff : ∀ {names : List String} (statement : Stmt),
    statement.strays names = [] ↔ statement.isScoped names
  | names, .bind _ _ value => by
    rw [Stmt.strays, Stmt.isScoped, Expr.strays_eq_nil_iff]
  | names, .assign target value => by
    rw [Stmt.strays, Stmt.isScoped, List.append_eq_nil_iff, Expr.strays_eq_nil_iff,
      Expr.strays_eq_nil_iff, Bool.and_eq_true]
  | names, .eval expression => by
    rw [Stmt.strays, Stmt.isScoped, Expr.strays_eq_nil_iff]
  | names, .ret value => by
    cases value <;> simp [Stmt.strays, Stmt.isScoped, Expr.strays_eq_nil_iff]
  | names, .ite condition positive negative => by
    rw [Stmt.strays, Stmt.isScoped, List.append_eq_nil_iff, List.append_eq_nil_iff,
      Expr.strays_eq_nil_iff, Block.strays_eq_nil_iff positive, Block.strays_eq_nil_iff negative,
      Bool.and_eq_true, Bool.and_eq_true]
  | names, .loop condition body => by
    rw [Stmt.strays, Stmt.isScoped, List.append_eq_nil_iff, Expr.strays_eq_nil_iff,
      Block.strays_eq_nil_iff body, Bool.and_eq_true]
  | _, .directive _ => by simp [Stmt.strays, Stmt.isScoped]

theorem Block.strays_eq_nil_iff : ∀ {names : List String} (statements : List Stmt),
    Block.strays names statements = [] ↔ Block.isScoped names statements
  | _, [] => by simp [Block.strays, Block.isScoped]
  | names, statement :: rest => by
    rw [Block.strays, Block.isScoped, List.append_eq_nil_iff, Stmt.strays_eq_nil_iff statement,
      Block.strays_eq_nil_iff rest, Bool.and_eq_true]

end

/-- A function mentions only what it declares exactly if it has no strays. -/
theorem FunctionDef.isScoped_iff {definition : FunctionDef} :
    definition.isScoped ↔ definition.strays = [] :=
  (Block.strays_eq_nil_iff definition.body).symm

end ThreeAddress
