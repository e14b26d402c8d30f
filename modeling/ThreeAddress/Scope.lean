import ThreeAddress.Diagnostic

/-!
# Scopes

A scope binds names to registers. No register is given out twice in a scope and the scopes around
it, so shadowing never confuses two variables.

## Main definitions

* `Var`: a register with the type of what it stands for.
* `Scope`: the bindings of a scope and of the scopes around it.
* `Scope.find?`, `Scope.inUse`: what a name is bound to, and which registers are in use.
* `Scope.bind`: binds a source name to a new register.
* `Scope.mint`, `Scope.temporary`: bind a new register under its own name.
* `Scope.enter`: the scope of a function body, with its parameters bound.

## Design notes

A register is called like the name it is made for, or like that name with the least number behind
it that makes it new. The search stops in time because the candidates differ from each other: one
of them is new once there are more candidates than registers in use.
-/

namespace ThreeAddress

/-- A register with the type of what it stands for. Source variables are kept in memory, and their
register holds the address. -/
structure Var where
  register : String
  ty : Ty
  /-- Whether the type is still to be taken from the first value. -/
  dynamic : Bool
  deriving DecidableEq

namespace Var

/-- A register for something of the given type. -/
def make (register : String) (ty : Ty) : Var := ⟨register, ty, ty.isDynamic⟩

/-- The register as an operand. -/
def operand (var : Var) : Operand := .register var.register

/-- The register as a value of its own type. -/
def value (var : Var) : Value := ⟨var.operand, var.ty⟩

/-- Fills in a type that was still open. That happens at most once. -/
def giveType (var : Var) (ty : Ty) : Except Diagnostic Var :=
  if var.dynamic then
    .ok ⟨var.register, ty, false⟩
  else
    .error (.internal (.typeAlreadyKnown var.register var.ty ty))

end Var

/-- The bindings of one scope alone, newest first and one for each name, and the registers given out
in it. -/
structure Level where
  bindings : List (String × Var) := []
  registers : List String := []
  deriving DecidableEq

namespace Level

/-- Binds a name. It replaces an older binding of the same name. -/
def insert (level : Level) (name : String) (var : Var) : Level :=
  { bindings := (name, var) :: level.bindings.filter fun binding => binding.1 ≠ name
    registers := var.register :: level.registers }

@[simp] theorem lookup_insert_self (level : Level) (name : String) (var : Var) :
    (level.insert name var).bindings.lookup name = some var := by
  simp [insert]

theorem lookup_insert_of_ne (level : Level) {name other : String} (var : Var)
    (h : other ≠ name) :
    (level.insert name var).bindings.lookup other = level.bindings.lookup other := by
  have kept : ∀ bindings : List (String × Var),
      (bindings.filter fun binding => binding.1 ≠ name).lookup other = bindings.lookup other := by
    intro bindings
    induction bindings with
    | nil => rfl
    | cons binding rest ih =>
      obtain ⟨key, value⟩ := binding
      by_cases same : key = name
      · have differs : (other == key) = false := by simpa [same] using h
        rw [List.filter_cons_of_neg (by simp [same]), List.lookup_cons, differs]
        exact ih
      · rw [List.filter_cons_of_pos (by simp [same]), List.lookup_cons, List.lookup_cons, ih]
  have differs : (other == name) = false := by simpa using h
  simp only [insert, List.lookup_cons, differs]
  exact kept level.bindings

end Level

/-- A scope and the scopes around it, from the inside out. -/
structure Scope where
  inner : Level := {}
  outer : List Level := []
  deriving DecidableEq

/-- A parameter of a function: the register that holds the value passed in, and the one that holds
the address of its stack slot. -/
structure Parameter where
  name : String
  incoming : Var
  slot : Var
  deriving DecidableEq

namespace Scope

/-- The scope itself and those around it, from the inside out. -/
def levels (scope : Scope) : List Level := scope.inner :: scope.outer

/-- A scope without bindings inside another. -/
def nest (parent : Scope) : Scope := { outer := parent.levels }

/-- What a name is bound to. Inner bindings win. -/
def find? (scope : Scope) (name : String) : Option Var :=
  scope.levels.findSome? fun level => level.bindings.lookup name

/-- Whether a register is in use here or in a scope around. -/
def inUse (scope : Scope) (register : String) : Bool :=
  scope.levels.any fun level => level.registers.contains register

/-- All registers in use, here and around. -/
def registers (scope : Scope) : List String :=
  scope.levels.flatMap Level.registers

/-- The number of names bound in this scope alone. -/
def size (scope : Scope) : Nat := scope.inner.bindings.length

/-- The first of `fuel + 1` numbered candidates, from `suffix` on, that is not in use. The last one
is not looked at. Suffixes are natural numbers, so that the search never runs out of them; a counter of 32
bits with a sign would, once 2 ^ 31 registers of one base are in use. -/
def firstFree (scope : Scope) (base : String) : (fuel suffix : Nat) → String
  | 0, suffix => base ++ toString suffix
  | fuel + 1, suffix =>
    if scope.inUse (base ++ toString suffix) then
      scope.firstFree base fuel (suffix + 1)
    else
      base ++ toString suffix

/-- A register that is not in use: the base itself, or the base with the least number behind it. -/
def newRegister (scope : Scope) (base : String) : String :=
  if scope.inUse base then scope.firstFree base scope.registers.length 0 else base

/-- Binds a name in this scope. -/
def insert (scope : Scope) (name : String) (var : Var) : Scope :=
  { scope with inner := scope.inner.insert name var }

@[simp] theorem find?_insert_self (scope : Scope) (name : String) (var : Var) :
    (scope.insert name var).find? name = some var := by
  simp [insert, find?, levels]

theorem find?_insert_of_ne (scope : Scope) {name other : String} (var : Var) (h : other ≠ name) :
    (scope.insert name var).find? other = scope.find? other := by
  simp only [insert, find?, levels, List.findSome?_cons, Level.lookup_insert_of_ne _ _ h]

/-- Binding a name puts one more register in use. -/
theorem inUse_insert (scope : Scope) (name : String) (var : Var) (register : String) :
    (scope.insert name var).inUse register ↔ register = var.register ∨ scope.inUse register := by
  simp [insert, inUse, levels, Level.insert, or_assoc]

/-- Binds a source name to a new register. -/
def bind (scope : Scope) (name : String) (ty : Ty) : Var × Scope :=
  let var := Var.make (scope.newRegister name) ty
  (var, scope.insert name var)

/-- Binds a new register under its own name. -/
def mint (scope : Scope) (base : String) (ty : Ty) : Var × Scope :=
  let var := Var.make (scope.newRegister base) ty
  (var, scope.insert var.register var)

/-- A new register for an intermediate value, numbered by the bindings of this scope. -/
def temporary (scope : Scope) (ty : Ty) : Var × Scope :=
  scope.mint ("sym" ++ toString scope.size) ty

/-- Binds the parameters of a function, in order. -/
def enter (scope : Scope) : List (String × Ty) → List Parameter × Scope
  | [] => ([], scope)
  | (name, ty) :: rest =>
    let (incoming, scope) := scope.mint (name ++ ".val") ty
    let (slot, scope) := scope.bind name ty
    let (parameters, scope) := scope.enter rest
    (⟨name, incoming, slot⟩ :: parameters, scope)

/-- Puts a function in front of the first one whose register is not before its own. -/
def insertSorted (entry : String × Signature) :
    List (String × Signature) → List (String × Signature)
  | [] => [entry]
  | next :: rest =>
    if entry.1 ≤ next.1 then entry :: next :: rest else next :: insertSorted entry rest

/-- The functions bound in this scope alone, by their registers in ascending order. -/
def ownFunctions (scope : Scope) : List (String × Signature) :=
  (scope.inner.bindings.filterMap fun (_, var) =>
    var.ty.signature?.map fun signature => (var.register, signature)).foldr insertSorted []

end Scope

end ThreeAddress
