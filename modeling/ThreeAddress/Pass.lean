import ThreeAddress.Trace

/-!
# Passes

A pass works on a state, may stop at a diagnostic, and reports events on its way.

## Main definitions

* `Run`: what a pass leaves behind.
* `Pass`: a pass over a state, as a monad.
* `Pass.fail`, `Pass.require`, `Pass.get`, `Pass.modify`, `Pass.report`: its primitive steps.
* `Pass.eval`: the result of a pass without its trace.
* `Outcome`: what is left of a run for those who do not know its state.

## Design notes

A pass adds to the trace and cannot read it, so what a pass does never depends on the events before
it. A pass changes its state in place: if it fails, the state is that in which it stopped, and
nothing is taken back.
-/

namespace ThreeAddress

/-- What a pass leaves behind: its result, or why it failed, the state in which it stopped, and what
it reported. -/
structure Run (σ α : Type) where
  result : Except Diagnostic α
  state : σ
  trace : Trace

/-- The result of a run, or why it failed, and what was reported. -/
structure Outcome (α : Type) where
  result : Except Diagnostic α
  trace : Trace

/-- The outcome of a run. -/
def Run.outcome {σ α : Type} (run : Run σ α) : Outcome α := ⟨run.result, run.trace⟩

/-- A pass over a state. -/
def Pass (σ α : Type) : Type := σ → Run σ α

namespace Pass

variable {σ α β : Type}

/-- Does nothing and yields a value. -/
protected def pure (value : α) : Pass σ α := fun state => ⟨.ok value, state, []⟩

/-- Goes on with what a pass yields, unless it failed. -/
protected def bind (first : Pass σ α) (next : α → Pass σ β) : Pass σ β := fun state =>
  match first state with
  | ⟨.error diagnostic, middle, trace⟩ => ⟨.error diagnostic, middle, trace⟩
  | ⟨.ok value, middle, trace⟩ =>
    let rest := next value middle
    ⟨rest.result, rest.state, trace ++ rest.trace⟩

instance : Monad (Pass σ) where
  pure := Pass.pure
  bind := Pass.bind

/-- Stops at a diagnostic. -/
def fail (diagnostic : Diagnostic) : Pass σ α := fun state => ⟨.error diagnostic, state, []⟩

/-- Goes on with a value, or stops at a diagnostic. -/
def ofExcept (result : Except Diagnostic α) : Pass σ α := fun state => ⟨result, state, []⟩

/-- Stops at a diagnostic unless a condition holds. -/
def require (condition : Bool) (diagnostic : Diagnostic) : Pass σ Unit :=
  if condition then pure () else fail diagnostic

/-- The current state. -/
def get : Pass σ σ := fun state => ⟨.ok state, state, []⟩

/-- Changes the state. -/
def modify (change : σ → σ) : Pass σ Unit := fun state => ⟨.ok (), change state, []⟩

/-- Changes the state and yields a value. -/
def modifyGet (change : σ → α × σ) : Pass σ α := fun state =>
  ⟨.ok (change state).1, (change state).2, []⟩

/-- Reports events. -/
def report (events : Trace) : Pass σ Unit := fun state => ⟨.ok (), state, events⟩

/-- A pass over one state, run as a part of a pass over another. -/
def focus {τ : Type} (enter : σ → τ) (leave : τ → σ) (inner : Pass τ α) : Pass σ α := fun state =>
  let run := inner (enter state)
  ⟨run.result, leave run.state, run.trace⟩

/-- A pass over a state of its own, with its last state. -/
def within {τ : Type} (start : τ) (inner : Pass τ α) : Pass σ (α × τ) := fun state =>
  let run := inner start
  ⟨run.result.map fun value => (value, run.state), state, run.trace⟩

/-- The result of a pass and its last state, without the trace. -/
def eval (pass : Pass σ α) (state : σ) : Except Diagnostic (α × σ) :=
  let run := pass state
  run.result.map fun value => (value, run.state)

@[simp] theorem map_fst_eval (pass : Pass σ α) (state : σ) :
    (pass.eval state).map Prod.fst = (pass state).result := by
  rw [eval]
  cases (pass state).result <;> rfl

@[simp] theorem eval_pure (value : α) (state : σ) :
    (pure value : Pass σ α).eval state = .ok (value, state) := rfl

@[simp] theorem eval_bind (first : Pass σ α) (next : α → Pass σ β) (state : σ) :
    (first >>= next).eval state =
      (first.eval state).bind fun (value, state) => (next value).eval state := by
  show Pass.eval (Pass.bind first next) state = _
  simp only [eval, Pass.bind]
  obtain ⟨result, middle, trace⟩ := first state
  cases result <;> rfl

@[simp] theorem eval_fail (diagnostic : Diagnostic) (state : σ) :
    (fail diagnostic : Pass σ α).eval state = .error diagnostic := rfl

@[simp] theorem eval_ofExcept (result : Except Diagnostic α) (state : σ) :
    (ofExcept result : Pass σ α).eval state = result.map fun value => (value, state) := rfl

@[simp] theorem eval_require (condition : Bool) (diagnostic : Diagnostic) (state : σ) :
    (require condition diagnostic : Pass σ Unit).eval state =
      if condition then .ok ((), state) else .error diagnostic := by
  cases condition <;> rfl

@[simp] theorem eval_get (state : σ) : (get : Pass σ σ).eval state = .ok (state, state) := rfl

@[simp] theorem eval_modify (change : σ → σ) (state : σ) :
    (modify change).eval state = .ok ((), change state) := rfl

@[simp] theorem eval_modifyGet (change : σ → α × σ) (state : σ) :
    (modifyGet change).eval state = .ok (change state) := rfl

@[simp] theorem eval_report (events : Trace) (state : σ) :
    (report events : Pass σ Unit).eval state = .ok ((), state) := rfl

@[simp] theorem eval_focus {τ : Type} (enter : σ → τ) (leave : τ → σ) (inner : Pass τ α)
    (state : σ) :
    (focus enter leave inner).eval state =
      (inner.eval (enter state)).map fun (value, last) => (value, leave last) := by
  simp only [focus, eval]
  cases (inner (enter state)).result <;> rfl

@[simp] theorem eval_within {τ : Type} (start : τ) (inner : Pass τ α) (state : σ) :
    (within start inner : Pass σ (α × τ)).eval state =
      (inner.eval start).map fun pair => (pair, state) := rfl

/-- A sequence succeeds exactly when both of its parts do. -/
theorem eval_bind_eq_ok_iff {first : Pass σ α} {next : α → Pass σ β} {state last : σ} {value : β} :
    (first >>= next).eval state = .ok (value, last) ↔
      ∃ between middle, first.eval state = .ok (between, middle) ∧
        (next between).eval middle = .ok (value, last) := by
  rw [eval_bind]
  cases first.eval state with
  | error diagnostic => simp [Except.bind]
  | ok pair =>
    constructor
    · intro h
      exact ⟨pair.1, pair.2, rfl, h⟩
    · rintro ⟨between, middle, found, h⟩
      cases found
      exact h

instance : LawfulMonad (Pass σ) := LawfulMonad.mk' (Pass σ)
  (by
    intro α pass
    funext state
    show Pass.bind pass _ state = _
    unfold Pass.bind
    split <;> simp_all [Pass.pure])
  (by
    intro α β value next
    funext state
    show Pass.bind (Pass.pure value) next state = _
    simp [Pass.bind, Pass.pure])
  (by
    intro α β γ pass next last
    funext state
    show Pass.bind (Pass.bind pass next) last state =
      Pass.bind pass (fun value => Pass.bind (next value) last) state
    unfold Pass.bind
    cases h : pass state with
    | mk result middle trace =>
      cases result with
      | error diagnostic => simp
      | ok value =>
        cases h' : next value middle with
        | mk result' middle' trace' => cases result' <;> simp [h'])

end Pass

end ThreeAddress
