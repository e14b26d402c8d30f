import ThreeAddress.Pass

/-!
# Runs of passes, taken apart

A pass succeeds exactly when its parts do. Together with `Pass.eval_bind_eq_ok_iff` the lemmas here
take a successful run apart into the runs of the primitive steps, and a failed one into the part
that failed and the successful run before it.
-/

namespace ThreeAddress

namespace Pass

variable {σ α : Type}

theorem eval_eq_ok_iff {pass : Pass σ α} {state last : σ} {value : α} :
    pass.eval state = .ok (value, last) ↔
      (pass state).result = .ok value ∧ (pass state).state = last := by
  rw [eval]
  cases (pass state).result <;> simp [Except.map]

theorem eval_eq_error_iff {pass : Pass σ α} {state : σ} {diagnostic : Diagnostic} :
    pass.eval state = .error diagnostic ↔ (pass state).result = .error diagnostic := by
  rw [eval]
  cases (pass state).result <;> simp [Except.map]

theorem eval_pure_eq_ok_iff {value result : α} {state last : σ} :
    (pure value : Pass σ α).eval state = .ok (result, last) ↔ value = result ∧ state = last := by
  simp

theorem eval_get_eq_ok_iff {state found last : σ} :
    (get : Pass σ σ).eval state = .ok (found, last) ↔ state = found ∧ state = last := by
  simp

theorem eval_ofExcept_eq_ok_iff {source : Except Diagnostic α} {result : α} {state last : σ} :
    (ofExcept source : Pass σ α).eval state = .ok (result, last) ↔
      source = .ok result ∧ state = last := by
  cases source <;> simp [Except.map]

theorem eval_require_eq_ok_iff {condition : Bool} {diagnostic : Diagnostic} {result : Unit}
    {state last : σ} :
    (require condition diagnostic : Pass σ Unit).eval state = .ok (result, last) ↔
      condition = true ∧ state = last := by
  cases condition <;> simp

theorem eval_report_eq_ok_iff {events : Trace} {result : Unit} {state last : σ} :
    (report events : Pass σ Unit).eval state = .ok (result, last) ↔ state = last := by
  simp

theorem eval_map_eq_ok_iff {β : Type} {change : α → β} {pass : Pass σ α} {result : β}
    {state last : σ} :
    (change <$> pass).eval state = .ok (result, last) ↔
      ∃ value, pass.eval state = .ok (value, last) ∧ result = change value := by
  rw [map_eq_pure_bind, eval_bind_eq_ok_iff]
  constructor
  · rintro ⟨value, middle, hrun, hpure⟩
    obtain ⟨rfl, rfl⟩ := eval_pure_eq_ok_iff.mp hpure
    exact ⟨value, hrun, rfl⟩
  · rintro ⟨value, hrun, rfl⟩
    exact ⟨value, last, hrun, rfl⟩

/-- A sequence fails if its first part does, or if its second part does where the first one ended. -/
theorem eval_bind_eq_error_iff {β : Type} {first : Pass σ α} {next : α → Pass σ β} {state : σ}
    {diagnostic : Diagnostic} :
    (first >>= next).eval state = .error diagnostic ↔
      first.eval state = .error diagnostic ∨ ∃ between middle,
        first.eval state = .ok (between, middle) ∧ (next between).eval middle = .error diagnostic := by
  rw [eval_bind]
  cases first.eval state with
  | error other => simp [Except.bind]
  | ok pair =>
    constructor
    · intro h
      exact Or.inr ⟨pair.1, pair.2, rfl, h⟩
    · rintro (h | ⟨between, middle, found, h⟩)
      · cases h
      · cases found
        exact h

/-- A pass stops at a diagnostic and leaves the given state behind. -/
def Stops (pass : Pass σ α) (state : σ) (diagnostic : Diagnostic) (last : σ) : Prop :=
  (pass state).result = .error diagnostic ∧ (pass state).state = last

theorem Stops.eval {pass : Pass σ α} {state last : σ} {diagnostic : Diagnostic}
    (h : pass.Stops state diagnostic last) : pass.eval state = .error diagnostic :=
  eval_eq_error_iff.mpr h.1

theorem stops_of_eval {pass : Pass σ α} {state : σ} {diagnostic : Diagnostic}
    (h : pass.eval state = .error diagnostic) : pass.Stops state diagnostic (pass state).state :=
  ⟨eval_eq_error_iff.mp h, rfl⟩

/-- A sequence stops in its first part, or behind it. -/
theorem stops_bind_iff {β : Type} {first : Pass σ α} {next : α → Pass σ β} {state last : σ}
    {diagnostic : Diagnostic} :
    (first >>= next).Stops state diagnostic last ↔
      first.Stops state diagnostic last ∨ ∃ between middle,
        first.eval state = .ok (between, middle) ∧ (next between).Stops middle diagnostic last := by
  have hbind : (first >>= next) state = Pass.bind first next state := rfl
  rw [Stops, Stops, hbind, Pass.bind, Pass.eval]
  obtain ⟨result, middle, trace⟩ := first state
  cases result with
  | error found => simp [Except.map]
  | ok value =>
    simp only [Except.map, Except.ok.injEq, Prod.mk.injEq, reduceCtorEq, false_and, false_or]
    constructor
    · intro h
      exact ⟨value, middle, ⟨rfl, rfl⟩, h⟩
    · rintro ⟨_, _, ⟨rfl, rfl⟩, h⟩
      exact h

theorem stops_focus_iff {τ : Type} {enter : σ → τ} {leave : τ → σ} {inner : Pass τ α} {state last : σ}
    {diagnostic : Diagnostic} :
    (focus enter leave inner).Stops state diagnostic last ↔
      ∃ inside, inner.Stops (enter state) diagnostic inside ∧ leave inside = last := by
  constructor
  · rintro ⟨hresult, hstate⟩
    exact ⟨_, ⟨hresult, rfl⟩, hstate⟩
  · rintro ⟨_, ⟨hresult, rfl⟩, hstate⟩
    exact ⟨hresult, hstate⟩

/-- The passes that running a pass is made of, with the states that they are run from. -/
inductive Runs (pass : Pass σ α) (state : σ) : {τ β : Type} → Pass τ β → τ → Prop
  | self : Runs pass state pass state
  | first {τ β γ : Type} {first : Pass τ β} {next : β → Pass τ γ} {found : τ}
      (h : Runs pass state (first >>= next) found) : Runs pass state first found
  | next {τ β γ : Type} {first : Pass τ β} {next : β → Pass τ γ} {found middle : τ} {between : β}
      (h : Runs pass state (first >>= next) found)
      (hfirst : first.eval found = .ok (between, middle)) : Runs pass state (next between) middle
  | focus {ρ τ β : Type} {enter : ρ → τ} {leave : τ → ρ} {inner : Pass τ β} {found : ρ}
      (h : Runs pass state (focus enter leave inner) found) : Runs pass state inner (enter found)

theorem eval_ofExcept_eq_error_iff {source : Except Diagnostic α} {state : σ}
    {diagnostic : Diagnostic} :
    (ofExcept source : Pass σ α).eval state = .error diagnostic ↔ source = .error diagnostic := by
  cases source <;> simp [Except.map]

theorem eval_require_eq_error_iff {condition : Bool} {diagnostic found : Diagnostic} {state : σ} :
    (require condition diagnostic : Pass σ Unit).eval state = .error found ↔
      condition = false ∧ diagnostic = found := by
  cases condition <;> simp

variable {τ : Type} {start : τ} {inner : Pass τ α} {state : σ}

theorem eval_within_eq_ok_iff {found : α × τ} {last : σ} :
    (within start inner : Pass σ (α × τ)).eval state = .ok (found, last) ↔
      inner.eval start = .ok found ∧ state = last := by
  rw [eval_within]
  cases inner.eval start <;> simp [Except.map]

theorem eval_within_eq_error_iff {diagnostic : Diagnostic} :
    (within start inner : Pass σ (α × τ)).eval state = .error diagnostic ↔
      inner.eval start = .error diagnostic := by
  rw [eval_within]
  cases inner.eval start <;> simp [Except.map]

end Pass

end ThreeAddress
