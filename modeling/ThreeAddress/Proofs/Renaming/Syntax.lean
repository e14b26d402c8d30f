import ThreeAddress.Lower.Value
import ThreeAddress.Proofs.Scoping

/-!
# Renaming the locals of a function

New names for the parameters and the variables of a function, wherever they occur. The names of
functions, structs and members stay as they are.

## Main definitions

* `Expr.rename`, `Stmt.rename`, `FunctionDef.rename`: programs with other local names.
* `Expr.called`, `Block.called`: the names that a program calls.
* `FunctionDef.locals`: the parameters and variables of a function.

## Main statements

* `Expr.rename_id`, `FunctionDef.rename_id`: keeping all names changes nothing.
* `Block.mustReturn_rename`: renaming does not change where control goes.
-/

namespace ThreeAddress

mutual

/-- An expression with other names for its variables. -/
def Expr.rename (change : String → String) : Expr → Expr
  | .integer value => .integer value
  | .boolean value => .boolean value
  | .text value => .text value
  | .variableRef name => .variableRef (change name)
  | .binary operator lhs rhs => .binary operator (lhs.rename change) (rhs.rename change)
  | .call callee arguments => .call callee (Expr.renameAll change arguments)
  | .address name => .address (change name)
  | .deref name depth => .deref (change name) depth
  | .field base field => .field (change base) field
  | .build struct fields => .build struct (FieldValue.renameAll change fields)
  | .array elements => .array (Expr.renameAll change elements)
  | .element array index => .element (change array) (index.rename change)

/-- Expressions with other names for their variables. -/
def Expr.renameAll (change : String → String) : List Expr → List Expr
  | [] => []
  | expression :: rest => expression.rename change :: Expr.renameAll change rest

/-- The members of a struct value with other names for their variables. -/
def FieldValue.renameAll (change : String → String) : List FieldValue → List FieldValue
  | [] => []
  | ⟨field, value⟩ :: rest => ⟨field, value.rename change⟩ :: FieldValue.renameAll change rest

end

mutual

/-- A statement with other names for the variables that it declares or mentions. -/
def Stmt.rename (change : String → String) : Stmt → Stmt
  | .bind name ty value => .bind (change name) ty (value.rename change)
  | .assign target value => .assign (target.rename change) (value.rename change)
  | .eval expression => .eval (expression.rename change)
  | .ret value => .ret (value.map (Expr.rename change))
  | .ite condition positive negative =>
    .ite (condition.rename change) (Block.rename change positive) (Block.rename change negative)
  | .loop condition body => .loop (condition.rename change) (Block.rename change body)
  | .directive text => .directive text

/-- Statements with other names for the variables that they declare or mention. -/
def Block.rename (change : String → String) : List Stmt → List Stmt
  | [] => []
  | statement :: rest => statement.rename change :: Block.rename change rest

end

/-- A typed name under another name. -/
def TypedName.rename (change : String → String) (typed : TypedName) : TypedName :=
  { typed with name := change typed.name }

/-- A function with other names for its parameters and variables. -/
def FunctionDef.rename (change : String → String) (definition : FunctionDef) : FunctionDef :=
  { definition with
    parameters := definition.parameters.map (TypedName.rename change)
    body := Block.rename change definition.body }

/-- The parameters of a function and the variables that it declares. -/
def FunctionDef.locals (definition : FunctionDef) : List String :=
  definition.parameters.map TypedName.name ++ Block.declares definition.body

mutual

/-- The names that an expression calls. -/
def Expr.called : Expr → List String
  | .binary _ lhs rhs => lhs.called ++ rhs.called
  | .call callee arguments => callee :: Expr.calledAll arguments
  | .build _ fields => FieldValue.calledAll fields
  | .array elements => Expr.calledAll elements
  | .element _ index => index.called
  | .integer _ | .boolean _ | .text _ | .variableRef _ | .address _ | .deref _ _ | .field _ _ => []

/-- The names that some expressions call. -/
def Expr.calledAll : List Expr → List String
  | [] => []
  | expression :: rest => expression.called ++ Expr.calledAll rest

/-- The names that the members of a struct value call. -/
def FieldValue.calledAll : List FieldValue → List String
  | [] => []
  | ⟨_, value⟩ :: rest => value.called ++ FieldValue.calledAll rest

end

mutual

/-- The names that a statement calls. -/
def Stmt.called : Stmt → List String
  | .bind _ _ value => value.called
  | .assign target value => target.called ++ value.called
  | .eval expression => expression.called
  | .ret value => value.toList.flatMap Expr.called
  | .ite condition positive negative =>
    condition.called ++ (Block.called positive ++ Block.called negative)
  | .loop condition body => condition.called ++ Block.called body
  | .directive _ => []

/-- The names that some statements call. -/
def Block.called : List Stmt → List String
  | [] => []
  | statement :: rest => statement.called ++ Block.called rest

end

mutual

theorem Expr.rename_id : ∀ expression : Expr, expression.rename id = expression
  | .integer _ | .boolean _ | .text _ | .variableRef _ | .address _ | .deref _ _ | .field _ _ => by
    simp [Expr.rename]
  | .binary _ lhs rhs => by rw [Expr.rename, lhs.rename_id, rhs.rename_id]
  | .call _ arguments => by rw [Expr.rename, Expr.renameAll_id arguments]
  | .build _ fields => by rw [Expr.rename, FieldValue.renameAll_id fields]
  | .array elements => by rw [Expr.rename, Expr.renameAll_id elements]
  | .element _ index => by rw [Expr.rename, index.rename_id, id]

theorem Expr.renameAll_id : ∀ expressions : List Expr, Expr.renameAll id expressions = expressions
  | [] => by rw [Expr.renameAll]
  | expression :: rest => by rw [Expr.renameAll, expression.rename_id, Expr.renameAll_id rest]

theorem FieldValue.renameAll_id : ∀ fields : List FieldValue,
    FieldValue.renameAll id fields = fields
  | [] => by rw [FieldValue.renameAll]
  | ⟨_, value⟩ :: rest => by
    rw [FieldValue.renameAll, value.rename_id, FieldValue.renameAll_id rest]

end

mutual

theorem Stmt.rename_id : ∀ statement : Stmt, statement.rename id = statement
  | .bind _ _ value => by rw [Stmt.rename, value.rename_id, id]
  | .assign target value => by rw [Stmt.rename, target.rename_id, value.rename_id]
  | .eval expression => by rw [Stmt.rename, expression.rename_id]
  | .ret value => by
    have hid : Expr.rename id = id := funext Expr.rename_id
    rw [Stmt.rename, hid, Option.map_id, id]
  | .ite condition positive negative => by
    rw [Stmt.rename, condition.rename_id, Block.rename_id positive, Block.rename_id negative]
  | .loop condition body => by rw [Stmt.rename, condition.rename_id, Block.rename_id body]
  | .directive _ => by rw [Stmt.rename]

theorem Block.rename_id : ∀ statements : List Stmt, Block.rename id statements = statements
  | [] => by rw [Block.rename]
  | statement :: rest => by rw [Block.rename, statement.rename_id, Block.rename_id rest]

end

theorem FunctionDef.rename_id (definition : FunctionDef) : definition.rename id = definition := by
  have hid : TypedName.rename id = id := rfl
  rw [FunctionDef.rename, Block.rename_id, hid, List.map_id]

variable (change : String → String)

@[simp] theorem Expr.isLiteral_rename (expression : Expr) :
    (expression.rename change).isLiteral = expression.isLiteral := by
  cases expression <;> simp [Expr.rename, Expr.isLiteral]

theorem Expr.rename_of_isLiteral {literal : Expr} (h : literal.isLiteral) :
    literal.rename change = literal := by
  cases literal with
  | integer | boolean => rw [Expr.rename]
  | _ => cases h

@[simp] theorem Expr.length_renameAll (expressions : List Expr) :
    (Expr.renameAll change expressions).length = expressions.length := by
  induction expressions with
  | nil => simp [Expr.renameAll]
  | cons expression rest ih => rw [Expr.renameAll, List.length_cons, ih, List.length_cons]

@[simp] theorem sizeArgument_rename (builtin : Builtin) (size : Expr) :
    sizeArgument builtin (size.rename change) = sizeArgument builtin size := by
  cases size <;> simp [Expr.rename, sizeArgument]

@[simp] theorem constantElement_rename (width : Width) (element : Expr) :
    constantElement width (element.rename change) = constantElement width element := by
  cases element <;> simp [Expr.rename, constantElement]

@[simp] theorem constantElements_rename (width : Width) (elements : List Expr) :
    constantElements width (Expr.renameAll change elements) = constantElements width elements := by
  induction elements with
  | nil => rw [Expr.renameAll]
  | cons element rest ih =>
    rw [Expr.renameAll, constantElements, constantElements, ih, constantElement_rename]

mutual

theorem Stmt.mustReturn_rename : ∀ statement : Stmt,
    (statement.rename change).mustReturn = statement.mustReturn
  | .bind _ _ _ | .assign _ _ | .eval _ | .ret _ | .loop _ _ | .directive _ => by
    simp [Stmt.rename, Stmt.mustReturn]
  | .ite _ positive negative => by
    rw [Stmt.rename, Stmt.mustReturn, Block.mustReturn_rename positive,
      Block.mustReturn_rename negative, Stmt.mustReturn]

theorem Block.mustReturn_rename : ∀ statements : List Stmt,
    Block.mustReturn (Block.rename change statements) = Block.mustReturn statements
  | [] => by rw [Block.rename]
  | statement :: rest => by
    rw [Block.rename, Block.mustReturn, statement.mustReturn_rename, Block.mustReturn_rename rest,
      Block.mustReturn]

end

end ThreeAddress
