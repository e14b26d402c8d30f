import ThreeAddress.Ty.Width

/-!
# Types

The closed set of types that lowering works with.

## Main definitions

* `Ty`, with `Member`, `StructTy` and `Signature`: a type, a struct's member, a struct, and the type
  of a function.
* `Ty.isStorable`, `Ty.isConcrete`, `Ty.isPointer`: the classes that lowering tells apart.
* `Ty.target?`, `Ty.refDepth`: what a reference points to, and how many references there are.

## Design notes

A type holds the structs it names in full, so it can be read without a table of definitions.
Equality is decided by structural recursion, which the kernel can evaluate.
-/

namespace ThreeAddress

/-- How many members an array has. -/
inductive Extent where
  | sized (length : Nat)
  | unsized
  deriving DecidableEq, Repr

mutual

/-- A type. -/
inductive Ty where
  /-- An integer; the one of one bit is the truth value. -/
  | int (width : Width)
  /-- A pointer to one value. -/
  | ref (target : Ty)
  /-- An array, held as a pointer to its first member except in file scope constants. -/
  | array (member : Ty) (extent : Extent)
  /-- A struct. -/
  | struct (definition : StructTy)
  /-- The tagged success or error value: a truth value and a pointer to the payload. -/
  | result
  /-- The type of a name that is bound to a function. -/
  | function (signature : Signature)
  /-- The type of a name that is bound to a basic block. -/
  | label
  /-- A type still to be taken from the first value written. -/
  | dynamic
  /-- A type that could not be computed. -/
  | unknown

/-- A named member of a struct. -/
structure Member where
  name : String
  ty : Ty

/-- A struct: its name and its members, which are addressed by position. -/
structure StructTy where
  name : String
  members : List Member

/-- The type of a function. One that returns nothing has no `returns`; a variadic one takes further
arguments after its parameters. -/
structure Signature where
  returns : Option Ty
  parameters : List Ty
  variadic : Bool

end

mutual

/-- Structural equality of types. -/
def Ty.beq : Ty → Ty → Bool
  | .int v, .int w => v == w
  | .ref s, .ref t => s.beq t
  | .array s m, .array t n => s.beq t && m == n
  | .struct s, .struct t => s.beq t
  | .result, .result => true
  | .function s, .function t => s.beq t
  | .label, .label => true
  | .dynamic, .dynamic => true
  | .unknown, .unknown => true
  | _, _ => false

/-- Structural equality of members. -/
def Member.beq : Member → Member → Bool
  | ⟨m, s⟩, ⟨n, t⟩ => m == n && s.beq t

/-- Structural equality of member lists. -/
def Member.beqList : List Member → List Member → Bool
  | [], [] => true
  | m :: ms, n :: ns => m.beq n && Member.beqList ms ns
  | _, _ => false

/-- Structural equality of structs. -/
def StructTy.beq : StructTy → StructTy → Bool
  | ⟨m, ms⟩, ⟨n, ns⟩ => m == n && Member.beqList ms ns

/-- Structural equality of signatures. -/
def Signature.beq : Signature → Signature → Bool
  | ⟨r, ps, v⟩, ⟨s, qs, w⟩ => Ty.beqOption r s && Ty.beqList ps qs && v == w

/-- Structural equality of type lists. -/
def Ty.beqList : List Ty → List Ty → Bool
  | [], [] => true
  | s :: ss, t :: ts => s.beq t && Ty.beqList ss ts
  | _, _ => false

/-- Structural equality of optional types. -/
def Ty.beqOption : Option Ty → Option Ty → Bool
  | none, none => true
  | some s, some t => s.beq t
  | _, _ => false

end

mutual

theorem Ty.beq_iff_eq : ∀ s t : Ty, s.beq t = true ↔ s = t
  | .int v, t => by cases t <;> simp [Ty.beq]
  | .ref s, t => by cases t <;> simp [Ty.beq, Ty.beq_iff_eq s]
  | .array s _, t => by cases t <;> simp [Ty.beq, Ty.beq_iff_eq s]
  | .struct s, t => by cases t <;> simp [Ty.beq, StructTy.beq_iff_eq s]
  | .result, t => by cases t <;> simp [Ty.beq]
  | .function s, t => by cases t <;> simp [Ty.beq, Signature.beq_iff_eq s]
  | .label, t => by cases t <;> simp [Ty.beq]
  | .dynamic, t => by cases t <;> simp [Ty.beq]
  | .unknown, t => by cases t <;> simp [Ty.beq]

theorem Member.beq_iff_eq : ∀ m n : Member, m.beq n = true ↔ m = n
  | ⟨_, s⟩, ⟨_, _⟩ => by simp [Member.beq, Ty.beq_iff_eq s]

theorem Member.beqList_iff_eq : ∀ ms ns : List Member, Member.beqList ms ns = true ↔ ms = ns
  | [], ns => by cases ns <;> simp [Member.beqList]
  | m :: ms, ns => by
    cases ns <;> simp [Member.beqList, Member.beq_iff_eq m, Member.beqList_iff_eq ms]

theorem StructTy.beq_iff_eq : ∀ s t : StructTy, s.beq t = true ↔ s = t
  | ⟨_, ms⟩, ⟨_, _⟩ => by simp [StructTy.beq, Member.beqList_iff_eq ms]

theorem Signature.beq_iff_eq : ∀ s t : Signature, s.beq t = true ↔ s = t
  | ⟨r, ps, _⟩, ⟨_, _, _⟩ => by
    simp [Signature.beq, Ty.beqOption_iff_eq r, Ty.beqList_iff_eq ps, and_assoc]

theorem Ty.beqList_iff_eq : ∀ ss ts : List Ty, Ty.beqList ss ts = true ↔ ss = ts
  | [], ts => by cases ts <;> simp [Ty.beqList]
  | s :: ss, ts => by cases ts <;> simp [Ty.beqList, Ty.beq_iff_eq s, Ty.beqList_iff_eq ss]

theorem Ty.beqOption_iff_eq : ∀ s t : Option Ty, Ty.beqOption s t = true ↔ s = t
  | none, t => by cases t <;> simp [Ty.beqOption]
  | some s, t => by cases t <;> simp [Ty.beqOption, Ty.beq_iff_eq s]

end

instance : DecidableEq Ty := fun s t => decidable_of_iff _ (Ty.beq_iff_eq s t)

instance : DecidableEq Member := fun m n => decidable_of_iff _ (Member.beq_iff_eq m n)

instance : DecidableEq StructTy := fun s t => decidable_of_iff _ (StructTy.beq_iff_eq s t)

instance : DecidableEq Signature := fun s t => decidable_of_iff _ (Signature.beq_iff_eq s t)

namespace StructTy

/-- The first member with the given name, and its position. -/
def field? (definition : StructTy) (name : String) : Option (Nat × Member) :=
  go 0 definition.members
where
  /-- Looks through the members from the given position on. -/
  go (position : Nat) : List Member → Option (Nat × Member)
    | [] => none
    | member :: rest =>
      if member.name = name then some (position, member) else go (position + 1) rest

end StructTy

namespace Signature

/-- Whether a function can be called with the given number of arguments. -/
def accepts (signature : Signature) (count : Nat) : Bool :=
  if signature.variadic then
    signature.parameters.length ≤ count
  else
    signature.parameters.length = count

end Signature

namespace Ty

/-- Truth values. -/
abbrev bool : Ty := .int .i1

/-- Bytes. -/
abbrev i8 : Ty := .int .i8

/-- The integers that literals denote when nothing else is known. -/
abbrev i32 : Ty := .int .i32

/-- A pointer to bytes, the type of texts and of untyped memory. -/
abbrev bytes : Ty := .ref .i8

def isInteger : Ty → Bool
  | .int _ => true
  | _ => false

def isReference : Ty → Bool
  | .ref _ => true
  | _ => false

def isDynamic : Ty → Bool
  | .dynamic => true
  | _ => false

/-- References, and arrays, which are held by their first member. -/
def isPointer : Ty → Bool
  | .ref _ | .array _ _ => true
  | _ => false

/-- Whether a value of this type can live in a register and in a stack slot. -/
def isStorable : Ty → Bool
  | .int _ | .ref _ | .array _ _ | .struct _ | .result => true
  | .function _ | .label | .dynamic | .unknown => false

/-- Whether an instruction may use this type. -/
def isConcrete : Ty → Bool
  | .dynamic | .unknown => false
  | _ => true

/-- The type a reference points to. -/
def target? : Ty → Option Ty
  | .ref target => some target
  | _ => none

/-- The signature of a function type. -/
def signature? : Ty → Option Signature
  | .function signature => some signature
  | _ => none

/-- The struct that a struct type or a reference to one names. -/
def struct? : Ty → Option StructTy
  | .struct definition | .ref (.struct definition) => some definition
  | _ => none

/-- The type of an array's members. -/
def member? : Ty → Option Ty
  | .array member _ => some member
  | _ => none

/-- The number of references around a type that is no reference. -/
def refDepth : Ty → Nat
  | .ref target => target.refDepth + 1
  | _ => 0

end Ty

end ThreeAddress
