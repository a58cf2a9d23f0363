import Mathlib.Data.List.Basic
import Mathlib.Tactic

/-!
# Runs of partial machines

A machine is a partial step function from a state and a label to the next
state.  A run feeds it a list of labels and stops at the first label that has
no successor.  The rules below are the only inductions over runs that the
developments of the single components need.  A machine that stops with an
error is treated in the same way.
-/

namespace SeekOs.Lib

variable {σ ι ε : Type*}
variable {final state : σ} {invariant accepts : σ → Prop} {ops : List ι}
  {first second condition : σ → ι → Prop} {result : Except ε σ} {τ : Type*}
  {tolerates : ε → Prop} {step : σ → ι → Except ε σ}

/-- The state a machine is in after a list of labels, if every step of the
list is defined. -/
def runOps (step : σ → ι → Option σ) (state : σ) (ops : List ι) : Option σ :=
  ops.foldlM step state

@[simp] theorem runOps_nil (step : σ → ι → Option σ) (state : σ) :
    runOps step state [] = some state := rfl

@[simp] theorem runOps_cons (step : σ → ι → Option σ) (state : σ) (op : ι) (ops : List ι) :
    runOps step state (op :: ops) = (step state op).bind fun next => runOps step next ops := rfl

/-- An invariant that every step preserves holds at the end of every run. -/
theorem runOps_invariant
    {step : σ → ι → Option σ} {invariant : σ → Prop}
    (preserved : ∀ state op next, invariant state → step state op = some next → invariant next)
    {state final : σ} {ops : List ι}
    (initial : invariant state)
    (run : runOps step state ops = some final) :
    invariant final := by
  induction ops generalizing state with
  | nil =>
    cases run
    exact initial
  | cons op ops induction =>
    obtain ⟨next, stepped, rest⟩ := Option.bind_eq_some_iff.mp run
    exact induction (preserved state op next initial stepped) rest

/-- Every label of the list meets a condition in the state it is fed in. -/
def AlongOps (step : σ → ι → Option σ) (condition : σ → ι → Prop) :
    σ → List ι → Prop
  | _, [] => True
  | state, op :: ops =>
    condition state op ∧ ∀ next, step state op = some next → AlongOps step condition next ops

instance AlongOps.decidable (step : σ → ι → Option σ)
    (condition : σ → ι → Prop) [∀ state, DecidablePred (condition state)] :
    (state : σ) → (ops : List ι) → Decidable (AlongOps step condition state ops)
  | _, [] => .isTrue trivial
  | state, op :: ops =>
    have : DecidablePred fun next => AlongOps step condition next ops :=
      fun next => AlongOps.decidable step condition next ops
    inferInstanceAs (Decidable (condition state op ∧
      ∀ next ∈ step state op, AlongOps step condition next ops))

theorem AlongOps.and {step : σ → ι → Option σ} (left : AlongOps step first state ops)
    (right : AlongOps step second state ops) :
    AlongOps step (fun state op => first state op ∧ second state op) state
      ops := by
  induction ops generalizing state with
  | nil => trivial
  | cons op ops induction =>
    refine ⟨⟨left.1, right.1⟩, ?_⟩
    intro next stepped
    exact induction (left.2 next stepped) (right.2 next stepped)

theorem AlongOps.mono {step : σ → ι → Option σ} (along : AlongOps step first state ops)
    (implies : ∀ state op, first state op → second state op) :
    AlongOps step second state ops := by
  induction ops generalizing state with
  | nil => trivial
  | cons op ops induction =>
    refine ⟨implies state op along.1, ?_⟩
    intro next stepped
    exact induction (along.2 next stepped)

/-- An invariant that every step meeting the condition preserves holds at the
end of every run whose steps all meet it. -/
theorem runOps_invariant_along
    {step : σ → ι → Option σ} {condition : σ → ι → Prop}
    {invariant : σ → Prop}
    (preserved : ∀ state op next, invariant state → condition state op →
      step state op = some next → invariant next)
    {state final : σ} {ops : List ι}
    (initial : invariant state)
    (along : AlongOps step condition state ops)
    (run : runOps step state ops = some final) :
    invariant final := by
  induction ops generalizing state with
  | nil =>
    cases run
    exact initial
  | cons op ops induction =>
    obtain ⟨next, stepped, rest⟩ := Option.bind_eq_some_iff.mp run
    apply induction _ (along.2 next stepped) rest
    exact preserved state op next initial along.1 stepped

/-- What is known about the result of a step that can fail. -/
def Outcome (accepts : σ → Prop) (tolerates : ε → Prop) :
    Except ε σ → Prop
  | .ok state => accepts state
  | .error failure => tolerates failure

instance Outcome.decidable (accepts : σ → Prop) (tolerates : ε → Prop)
    [DecidablePred accepts] [DecidablePred tolerates] :
    (result : Except ε σ) → Decidable (Outcome accepts tolerates result)
  | .ok state => inferInstanceAs (Decidable (accepts state))
  | .error failure => inferInstanceAs (Decidable (tolerates failure))

theorem Outcome.exists_ok (outcome : Outcome accepts (fun _ => False) result) :
    ∃ state, result = .ok state ∧ accepts state := by
  cases result with
  | ok state => exact ⟨state, rfl, outcome⟩
  | error failure => exact absurd outcome id

theorem Outcome.self (result : Except ε σ) :
    Outcome (fun state => result = .ok state) (fun _ => True) result := by
  cases result with
  | ok state => rfl
  | error failure => trivial

theorem Outcome.map {accepts : τ → Prop} {convert : σ → τ}
    (outcome : Outcome (fun state => accepts (convert state)) tolerates result) :
    Outcome accepts tolerates (result.map convert) := by
  cases result with
  | ok state => exact outcome
  | error failure => exact outcome

section

variable (outcome : Outcome accepts tolerates result)
include outcome

theorem Outcome.bind {reaches : τ → Prop} {next : σ → Except ε τ}
    (onward : ∀ state, accepts state → Outcome reaches tolerates (next state)) :
    Outcome reaches tolerates (result.bind next) := by
  cases result with
  | ok state => exact onward state outcome
  | error failure => exact outcome

theorem Outcome.imp {weaker : σ → Prop} {allows : ε → Prop}
    (states : ∀ state, accepts state → weaker state)
    (failures : ∀ failure, tolerates failure → allows failure) :
    Outcome weaker allows result := by
  cases result with
  | ok state => exact states state outcome
  | error failure => exact failures failure outcome

theorem Outcome.mono {weaker : σ → Prop}
    (implies : ∀ state, accepts state → weaker state) :
    Outcome weaker tolerates result :=
  outcome.imp implies fun _ tolerated => tolerated

end

theorem exists_of_bind_ok {next : σ → Except ε τ} {final : τ} (ok : result.bind next = .ok final) :
    ∃ state, result = .ok state ∧ next state = .ok final := by
  cases result with
  | ok state => exact ⟨state, rfl, ok⟩
  | error failure => cases ok

theorem exists_of_map_ok {convert : σ → τ} {final : τ} (ok : result.map convert = .ok final) :
    ∃ state, result = .ok state ∧ convert state = final := by
  cases result with
  | ok state =>
    cases ok
    exact ⟨state, rfl, rfl⟩
  | error failure => cases ok

theorem Outcome.not_of_failure {failure : ε}
    (fails : Outcome (fun _ => False) (· = failure) result) :
    ¬Outcome accepts (· ≠ failure) result := by
  cases result with
  | ok state => exact fun _ => fails
  | error other => exact fun outcome => outcome fails

/-- The run of a machine whose steps can fail. -/
def runExcept (step : σ → ι → Except ε σ) (state : σ) (ops : List ι) :
    Except ε σ :=
  ops.foldlM step state

@[simp] theorem runExcept_cons (step : σ → ι → Except ε σ) (state : σ) (op : ι) (ops : List ι) :
    runExcept step state (op :: ops) =
      (step state op).bind fun next => runExcept step next ops := rfl

/-- Every label of the list meets a condition in the state it is fed in. -/
def Along (step : σ → ι → Except ε σ) (condition : σ → ι → Prop) :
    σ → List ι → Prop
  | _, [] => True
  | state, op :: ops =>
    condition state op ∧ ∀ next, step state op = .ok next → Along step condition next ops

private theorem along_cons_iff {op : ι} :
    Along step condition state (op :: ops) ↔
      condition state op ∧
        Outcome (fun next => Along step condition next ops) (fun _ => True) (step state op) := by
  rw [Along]
  cases step state op with
  | ok next => simp [Outcome]
  | error failure => simp [Outcome]

instance Along.decidable (step : σ → ι → Except ε σ)
    (condition : σ → ι → Prop) [∀ state, DecidablePred (condition state)] :
    (state : σ) → (ops : List ι) → Decidable (Along step condition state ops)
  | _, [] => .isTrue trivial
  | state, op :: ops =>
    have : DecidablePred fun next => Along step condition next ops :=
      fun next => Along.decidable step condition next ops
    decidable_of_iff
      (condition state op ∧
        Outcome (fun next => Along step condition next ops) (fun _ => True) (step state op))
      along_cons_iff.symm

theorem Along.of_prefix {done : List ι} (along : Along step condition state ops)
    (isPrefix : done <+: ops) :
    Along step condition state done := by
  obtain ⟨rest, rfl⟩ := isPrefix
  induction done generalizing state with
  | nil => trivial
  | cons op done induction =>
    refine ⟨along.1, ?_⟩
    intro next stepped
    exact induction (along.2 next stepped)

theorem Along.and (left : Along step first state ops) (right : Along step second state ops) :
    Along step (fun state op => first state op ∧ second state op) state
      ops := by
  induction ops generalizing state with
  | nil => trivial
  | cons op ops induction =>
    refine ⟨⟨left.1, right.1⟩, ?_⟩
    intro next stepped
    exact induction (left.2 next stepped) (right.2 next stepped)

/-- What every step that succeeds preserves holds at the end of every run that
succeeds. -/
theorem runExcept_invariant
    {step : σ → ι → Except ε σ} {invariant : σ → Prop}
    (preserved : ∀ state op next, invariant state → step state op = .ok next → invariant next)
    {state final : σ} {ops : List ι} (initial : invariant state)
    (reached : runExcept step state ops = .ok final) :
    invariant final := by
  induction ops generalizing state with
  | nil =>
    cases reached
    exact initial
  | cons op ops induction =>
    rw [runExcept_cons] at reached
    cases result : step state op with
    | ok next =>
      rw [result] at reached
      exact induction (preserved state op next initial result) reached
    | error failure =>
      rw [result] at reached
      cases reached

/-- An invariant that every step meeting the condition preserves, with only
tolerated errors, holds at the end of every run whose steps all meet it. -/
theorem runExcept_outcome
    {step : σ → ι → Except ε σ} {condition : σ → ι → Prop}
    {invariant : σ → Prop} {tolerates : ε → Prop}
    (preserved : ∀ state op, invariant state → condition state op →
      Outcome invariant tolerates (step state op))
    {state : σ} {ops : List ι}
    (initial : invariant state)
    (along : Along step condition state ops) :
    Outcome invariant tolerates (runExcept step state ops) := by
  induction ops generalizing state with
  | nil => exact initial
  | cons op ops induction =>
    have stepped := preserved state op initial along.1
    have rest := along.2
    rw [runExcept_cons]
    cases result : step state op with
    | ok next =>
      rw [result] at stepped
      exact induction stepped (rest next result)
    | error failure =>
      rw [result] at stepped
      exact stepped

end SeekOs.Lib
