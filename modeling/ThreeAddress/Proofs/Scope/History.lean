import ThreeAddress.Proofs.Scope.Fresh

/-!
# What names stand for

A scope keeps one table for the names of the source and for those that lowering makes up. Here the
table is compared with a history of everything that was made, in which the two kinds are told apart. A
name stands for the variable that the source last gave it, in the nearest scope that has one. Only a
name that the source never gave stands for a register of that very name.

## Main definitions

* `Scope.Action`: one operation on a scope.
* `History`: what was made in a scope and in the scopes around it.
* `History.resolve`: what a name stands for, read off a history.

## Main statements

* `Scope.Recorded.perform`: every operation keeps a scope in step with its history.
* `find?_performAll`: names stand for what the history says.
-/

namespace ThreeAddress

-- ════════════════════════
-- Operations
-- ════════════════════════

namespace Scope

/-- One operation on a scope. -/
inductive Action where
  /-- Binds a source name. -/
  | bind (name : String) (ty : Ty)
  /-- Binds the name of a function from elsewhere. -/
  | declare (name : String) (signature : Signature)
  | mint (base : String) (ty : Ty)
  | temporary (ty : Ty)
  /-- Goes into a new scope inside this one. -/
  | nest
  /-- Binds the parameters of a function. -/
  | enter (parameters : List (String × Ty))

/-- The scope after an operation. -/
def perform (scope : Scope) : Action → Scope
  | .bind name ty => (scope.bind name ty).2
  | .declare name signature => (scope.bind name (.function signature)).2
  | .mint base ty => (scope.mint base ty).2
  | .temporary ty => (scope.temporary ty).2
  | .nest => scope.nest
  | .enter parameters => (scope.enter parameters).2

/-- The scope after some operations. -/
def performAll (scope : Scope) (actions : List Action) : Scope :=
  actions.foldl perform scope

end Scope

-- ════════════════════════
-- Histories
-- ════════════════════════

/-- A variable that was made in a scope: for a source name, or for lowering itself. -/
inductive Entry where
  | source (name : String) (var : Var)
  | synthesized (var : Var)

namespace Entry

def var : Entry → Var
  | source _ var | synthesized var => var

/-- The name that the variable is bound under. -/
def key : Entry → String
  | source name _ => name
  | synthesized var => var.register

/-- The variable, if it was made for the given source name. -/
def source? (name : String) : Entry → Option Var
  | source other var => if other = name then some var else none
  | synthesized _ => none

/-- The variable, if it was made for lowering itself. -/
def synthesized? : Entry → Option Var
  | source _ _ => none
  | synthesized var => some var

end Entry

/-- What was made in a scope and in those around it, from the inside out. The newest comes first. -/
structure History where
  inner : List Entry := []
  outer : List (List Entry) := []

namespace History

/-- What was made in the scope itself and in each of those around it. -/
def levels (history : History) : List (List Entry) := history.inner :: history.outer

/-- Everything that was made. -/
def entries (history : History) : List Entry := history.levels.flatten

/-- The registers that were given out. -/
def registers (history : History) : List String :=
  history.entries.map fun entry => entry.var.register

def push (history : History) (entry : Entry) : History :=
  { history with inner := entry :: history.inner }

def nest (history : History) : History := { outer := history.levels }

/-- Adds the two variables of each parameter. -/
def enter (history : History) : List Parameter → History
  | [] => history
  | parameter :: rest =>
    ((history.push (.synthesized parameter.incoming)).push
      (.source parameter.name parameter.slot)).enter rest

/-- The history after an operation on the given scope. -/
def note (history : History) (scope : Scope) : Scope.Action → History
  | .bind name ty => history.push (.source name (scope.bind name ty).1)
  | .declare name signature => history.push (.source name (scope.bind name (.function signature)).1)
  | .mint base ty => history.push (.synthesized (scope.mint base ty).1)
  | .temporary ty => history.push (.synthesized (scope.temporary ty).1)
  | .nest => history.nest
  | .enter parameters => history.enter (scope.enter parameters).1

/-- The history after some operations on the given scope. -/
def noteAll (history : History) (scope : Scope) : List Scope.Action → History
  | [] => history
  | action :: rest => (history.note scope action).noteAll (scope.perform action) rest

/-- The variable that the source last gave a name in the nearest scope that has one. -/
def declared? (history : History) (name : String) : Option Var :=
  history.levels.findSome? fun level => level.findSome? (Entry.source? name)

/-- The variable that was made for lowering itself and whose register has the given name. -/
def synthesized? (history : History) (register : String) : Option Var :=
  (history.entries.filterMap Entry.synthesized?).find? fun var => var.register = register

/-- What a name stands for. -/
def resolve (history : History) (name : String) : Option Var :=
  (history.declared? name).or (history.synthesized? name)

variable (history : History)

@[simp] theorem resolve_nest (name : String) : history.nest.resolve name = history.resolve name := rfl

@[simp] theorem registers_nest : history.nest.registers = history.registers := rfl

@[simp] theorem registers_push (entry : Entry) :
    (history.push entry).registers = entry.var.register :: history.registers := rfl

theorem resolve_push_source (name : String) (var : Var) (other : String) :
    (history.push (.source name var)).resolve other =
      if other = name then some var else history.resolve other := by
  have hdeclared : (history.push (.source name var)).declared? other =
      if other = name then some var else history.declared? other := by
    simp only [declared?, levels, push, List.findSome?_cons, Entry.source?]
    by_cases hname : other = name
    · simp [hname]
    · simp [hname, Ne.symm hname]
  rw [resolve, hdeclared]
  split
  · rfl
  · rfl

/-- A variable that lowering makes for itself stands for its register, unless that name is given. -/
theorem resolve_push_synthesized (var : Var) (h : history.resolve var.register = none) (name : String) :
    (history.push (.synthesized var)).resolve name =
      if name = var.register then some var else history.resolve name := by
  have hsynthesized : (history.push (.synthesized var)).synthesized? name =
      if name = var.register then some var else history.synthesized? name := by
    show List.find? _ (var :: history.entries.filterMap Entry.synthesized?) = _
    by_cases hname : name = var.register
    · simp [hname]
    · simp [hname, Ne.symm hname, synthesized?]
  have hdeclared : (history.push (.synthesized var)).declared? name = history.declared? name := rfl
  rw [resolve, hdeclared, hsynthesized]
  split
  · next hname =>
    rw [hname, (Option.or_eq_none_iff.mp h).1]
    rfl
  · rfl

end History

-- ════════════════════════
-- Scopes in step with their histories
-- ════════════════════════

namespace Scope

/-- A scope in step with a history. -/
structure Recorded (scope : Scope) (history : History) : Prop where
  keyed : scope.Keyed
  find?_eq : ∀ name, scope.find? name = history.resolve name
  /-- What is bound in the scope itself was made in it. -/
  bindings : (scope.inner.bindings.map Prod.snd).Sublist (history.inner.map Entry.var)
  nodup : history.registers.Nodup
  inUse : ∀ register ∈ history.registers, scope.inUse register

namespace Recorded

variable {scope : Scope} {history : History}

theorem empty : Recorded {} {} where
  keyed := Keyed.empty
  find?_eq _ := rfl
  bindings := .slnil
  nodup := List.nodup_nil
  inUse := by simp [History.registers, History.entries, History.levels]

theorem nest (h : scope.Recorded history) : scope.nest.Recorded history.nest where
  keyed := h.keyed.nest
  find?_eq name := by rw [find?_nest, h.find?_eq, History.resolve_nest]
  bindings := .slnil
  nodup := h.nodup
  inUse register hmem := by
    rw [inUse_nest]
    exact h.inUse register hmem

/-- A name that is not in use as a register stands for nothing. -/
theorem resolve_eq_none (h : scope.Recorded history) {name : String} (hunused : ¬scope.inUse name) :
    history.resolve name = none := by
  rw [← h.find?_eq, ← Option.not_isSome_iff_eq_none]
  exact fun hbound => hunused (h.keyed name hbound)

theorem push (h : scope.Recorded history) (entry : Entry) (hnew : ¬scope.inUse entry.var.register)
    (hkey : entry.key = entry.var.register ∨ scope.inUse entry.key) :
    (scope.insert entry.key entry.var).Recorded (history.push entry) where
  keyed := h.keyed.insert hkey
  find?_eq name := by
    have hresolve : (history.push entry).resolve name =
        if name = entry.key then some entry.var else history.resolve name := by
      cases entry with
      | source name' var => exact history.resolve_push_source name' var name
      | synthesized var => exact history.resolve_push_synthesized var (h.resolve_eq_none hnew) name
    rw [hresolve]
    split
    · next hname =>
      rw [hname]
      exact find?_insert_self _ _ _
    · next hname =>
      rw [← h.find?_eq]
      exact find?_insert_of_ne _ _ hname
  bindings := (List.filter_sublist.map _).trans h.bindings |>.cons_cons _
  nodup := by
    rw [History.registers_push, List.nodup_cons]
    exact ⟨fun hmem => hnew (h.inUse _ hmem), h.nodup⟩
  inUse register hmem := by
    rw [History.registers_push, List.mem_cons] at hmem
    exact (inUse_insert _ _ _ _).mpr (hmem.imp_right (h.inUse register))

theorem bind (h : scope.Recorded history) (name : String) (ty : Ty) :
    (scope.bind name ty).2.Recorded (history.push (.source name (scope.bind name ty).1)) :=
  h.push (.source name (scope.bind name ty).1) (scope.not_inUse_newRegister name)
    (scope.eq_newRegister_or_inUse name)

theorem mint (h : scope.Recorded history) (base : String) (ty : Ty) :
    (scope.mint base ty).2.Recorded (history.push (.synthesized (scope.mint base ty).1)) :=
  h.push (.synthesized (scope.mint base ty).1) (scope.not_inUse_newRegister base) (Or.inl rfl)

theorem enter (h : scope.Recorded history) (parameters : List (String × Ty)) :
    (scope.enter parameters).2.Recorded (history.enter (scope.enter parameters).1) := by
  induction parameters generalizing scope history with
  | nil => exact h
  | cons parameter rest ih => exact ih ((h.mint (parameter.1 ++ ".val") parameter.2).bind _ _)

theorem perform (h : scope.Recorded history) (action : Action) :
    (scope.perform action).Recorded (history.note scope action) := by
  cases action with
  | bind name ty => exact h.bind name ty
  | declare name signature => exact h.bind name _
  | mint base ty => exact h.mint base ty
  | temporary ty => exact h.mint _ ty
  | nest => exact h.nest
  | enter parameters => exact h.enter parameters

theorem performAll (h : scope.Recorded history) (actions : List Action) :
    (scope.performAll actions).Recorded (history.noteAll scope actions) := by
  induction actions generalizing scope history with
  | nil => exact h
  | cons action rest ih => exact ih (h.perform action)

end Recorded

end Scope

/-- In every scope that operations lead to, a name stands for what the history of the operations says:
for the variable that the source last gave it in the nearest scope that has one, else for the one
register of that name that was made for lowering itself, else for nothing. No register is given out
twice, and a new register for lowering itself changes nothing about a name that stands for something. -/
theorem find?_performAll (actions : List Scope.Action) :
    (∀ name, (Scope.performAll {} actions).find? name =
      (History.noteAll {} {} actions).resolve name) ∧
    (History.noteAll {} {} actions).registers.Nodup ∧
    ∀ name var, (Scope.performAll {} actions).find? name = some var → ∀ base ty,
      ((Scope.performAll {} actions).mint base ty).2.find? name = some var ∧
      ((Scope.performAll {} actions).temporary ty).2.find? name = some var := by
  have hrecorded := Scope.Recorded.empty.performAll actions
  refine ⟨hrecorded.find?_eq, hrecorded.nodup, fun name var hfound base ty => ?_⟩
  exact ⟨hrecorded.keyed.find?_mint base ty hfound, hrecorded.keyed.find?_mint _ ty hfound⟩

/-- Operations in which names of the source and names of lowering get in each other's way. -/
def colliding : List Scope.Action := [
  .bind "x" .i32,
  .mint "x" .bool,
  .declare "sym2" ⟨none, [], false⟩,
  .nest,
  .bind "x0" .i8,
  .temporary .i32,
  .enter [("x", .i8), ("x", .bytes)]]

theorem find?_performAll_colliding :
    (Scope.performAll {} colliding).find? "x" = some ⟨"x2", .bytes, false⟩ ∧
    (Scope.performAll {} colliding).find? "x0" = some ⟨"x00", .i8, false⟩ ∧
    (Scope.performAll {} colliding).find? "x1" = none ∧
    (Scope.performAll {} colliding).find? "x.val0" = some ⟨"x.val0", .bytes, false⟩ ∧
    ((Scope.performAll {} colliding).mint "x" .label).2.find? "x" = some ⟨"x2", .bytes, false⟩ := by
  have hx : (Scope.performAll {} colliding).find? "x" = some ⟨"x2", .bytes, false⟩ := by
    decide +kernel
  obtain ⟨-, -, hkept⟩ := find?_performAll colliding
  refine ⟨hx, ?_, ?_, ?_, (hkept "x" _ hx "x" .label).1⟩ <;> decide +kernel

end ThreeAddress
