namespace Runs
variable {S A : Type}

-- A finite run of a labelled step relation. The last step is the outermost
-- constructor, so a property of every reached state is one induction.
inductive Run (step : S → A → S → Prop) : S → List A → S → Prop where
  | nil : Run step s [] s
  | step : Run step origin earlier middle → step middle action after →
      Run step origin (earlier++[action]) after

theorem Run.single {step : S → A → S → Prop} (taken : step s action next) : Run step s [action] next :=
  .step .nil taken

theorem Run.append {step : S → A → S → Prop} (left : Run step before earlier middle)
    (right : Run step middle later after) : Run step before (earlier++later) after := by
  induction right with
  | nil => rw [List.append_nil]; exact left
  | step prior taken ih =>
    rw [← List.append_assoc]
    exact .step ih taken

theorem Run.cons {step : S → A → S → Prop} (taken : step before action middle)
    (rest : Run step middle later after) : Run step before (action::later) after :=
  (Run.single taken).append rest

-- The package every safety result uses: the property holds at the start and
-- one step keeps it.
theorem Run.invariant {step : S → A → S → Prop} (valid : S → Prop)
    (kept : ∀ s action next, valid s → step s action next → valid next)
    (path : Run step origin actions after) (start : valid origin) : valid after := by
  induction path with
  | nil => exact start
  | step prior taken ih => exact kept _ _ _ ih taken

theorem Run.history {step : S → A → S → Prop} {valid : List A → S → Prop}
    (kept : ∀ earlier s action next, valid earlier s → step s action next → valid (earlier++[action]) next)
    (path : Run step origin actions after) (start : valid [] origin) : valid actions after := by
  induction path with
  | nil => exact start
  | step prior taken ih => exact kept _ _ _ _ ih taken

theorem Run.weaken {strong weak : S → A → S → Prop}
    (implied : ∀ s action next, strong s action next → weak s action next)
    (path : Run strong origin actions after) : Run weak origin actions after := by
  induction path with
  | nil => exact .nil
  | step prior taken ih => exact .step ih (implied _ _ _ taken)

-- The same runs as an executable fold of a partial step function.
def exec (next : S → A → Option S) : S → List A → Option S
  | s,[] => some s
  | s,action::rest => (next s action).bind (exec next · rest)

theorem exec_run {next : S → A → Option S} (ran : exec next before actions = some after) :
    Run (fun s action t => next s action = some t) before actions after := by
  induction actions generalizing before with
  | nil => simp only [exec,Option.some.injEq] at ran; subst ran; exact .nil
  | cons action rest ih =>
    obtain ⟨middle,first,tail⟩ := Option.bind_eq_some_iff.mp ran
    exact .cons first (ih tail)

end Runs
