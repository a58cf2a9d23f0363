import Mathlib.Tactic

/-!
# Actions that may fail or never return

An action changes a state and returns a value or an error; the state is kept
when an error is returned.  It may also never return.  `Meets` is its
specification from a given state, and the rules below take it apart along the
structure of an action.
-/

namespace SeekOs.Lib

/-- There is no outcome when the action never returns. -/
def Action (σ ε α : Type) : Type :=
  σ → Option (Except ε α × σ)

namespace Action

variable {σ τ ε α β : Type}

instance : Monad (Action σ ε) where
  pure value := fun state => some (.ok value, state)
  bind act next := fun state =>
    match act state with
    | none => none
    | some (.error error, after) => some (.error error, after)
    | some (.ok value, after) => next value after

def fail (error : ε) : Action σ ε α :=
  fun state => some (.error error, state)

def hang : Action σ ε α :=
  fun _ => none

def get : Action σ ε σ :=
  fun state => some (.ok state, state)

def modify (change : σ → σ) : Action σ ε Unit :=
  fun state => some (.ok (), change state)

/-- The outcome of an action as a value. -/
def outcome (act : Action σ ε α) : Action σ ε (Except ε α) :=
  fun state => (act state).map fun (result, after) => (.ok result, after)

/-- An action on the first part of a larger state. -/
def onFst (act : Action σ ε α) : Action (σ × τ) ε α :=
  fun state =>
    (act state.1).map fun (result, after) => (result, (after, state.2))

/-- An action with a local second part of the state: its outcome, and what it
leaves there. -/
def withSnd (act : Action (σ × τ) ε α) (rest : τ) :
    Action σ ε (Except ε α × τ) :=
  fun state =>
    (act (state, rest)).map fun (result, after) =>
      (.ok (result, after.2), after.1)

/-- From the given state, a value and an error are returned only as described,
and the action returns unless `hangs`. -/
def Meets (act : Action σ ε α) (state : σ) (hangs : Prop)
    (returns : α → σ → Prop) (fails : ε → σ → Prop) : Prop :=
  match act state with
  | none => hangs
  | some (.error error, after) => fails error after
  | some (.ok value, after) => returns value after

variable {state : σ} {hangs : Prop} {returns : α → σ → Prop} {fails : ε → σ → Prop}
  {next : α → Action σ ε β} {rest : τ} {result : Except ε α} {condition : Prop}
  {other : Action σ ε α}

@[simp] theorem meets_pure (value : α) :
    Meets (pure value : Action σ ε α) state hangs returns fails ↔ returns value state := Iff.rfl

@[simp] theorem meets_fail (error : ε) :
    Meets (fail error : Action σ ε α) state hangs returns fails ↔ fails error state := Iff.rfl

@[simp] theorem meets_hang :
    Meets (hang : Action σ ε α) state hangs returns fails ↔ hangs := Iff.rfl

@[simp] theorem meets_get {returns : σ → σ → Prop} :
    Meets (get : Action σ ε σ) state hangs returns fails ↔ returns state state := Iff.rfl

@[simp] theorem meets_modify (change : σ → σ) {returns : Unit → σ → Prop} :
    Meets (modify change : Action σ ε Unit) state hangs returns fails ↔
      returns () (change state) := Iff.rfl

theorem meets_bind (act : Action σ ε α) (next : α → Action σ ε β) {returns : β → σ → Prop} :
    Meets (act >>= next) state hangs returns fails ↔
      Meets act state hangs (fun value after => Meets (next value) after hangs returns fails)
        fails := by
  have unfolded : (act >>= next) state =
      match act state with
      | none => none
      | some (.error error, after) => some (.error error, after)
      | some (.ok value, after) => next value after := rfl
  unfold Meets
  rw [unfolded]
  rcases act state with _ | ⟨_ | _, _⟩ <;> rfl

theorem bind_returned {act : Action σ ε α} {value : β} {after : σ}
    (returned : (act >>= next) state = some (.ok value, after)) :
    ∃ first middle, act state = some (.ok first, middle) ∧
      next first middle = some (.ok value, after) := by
  have unfolded : (act >>= next) state =
      match act state with
      | none => none
      | some (.error error, after) => some (.error error, after)
      | some (.ok value, after) => next value after := rfl
  rw [unfolded] at returned
  rcases ran : act state with _ | ⟨_ | first, middle⟩
  · rw [ran] at returned
    cases returned
  · rw [ran] at returned
    cases returned
  · rw [ran] at returned
    exact ⟨first, middle, rfl, returned⟩

theorem meets_outcome (act : Action σ ε α) {returns : Except ε α → σ → Prop} :
    Meets act.outcome state hangs returns fails ↔
      Meets act state hangs (fun value => returns (.ok value))
        (fun error => returns (.error error)) := by
  unfold Meets outcome
  rcases act state with _ | ⟨_ | _, _⟩ <;> rfl

theorem meets_onFst (act : Action σ ε α) {returns : α → σ × τ → Prop} {fails : ε → σ × τ → Prop} :
    Meets act.onFst (state, rest) hangs returns fails ↔
      Meets act state hangs (fun value after => returns value (after, rest))
        (fun error after => fails error (after, rest)) := by
  unfold Meets onFst
  rcases act state with _ | ⟨_ | _, _⟩ <;> rfl

theorem meets_withSnd (act : Action (σ × τ) ε α) {returns : Except ε α × τ → σ → Prop} :
    Meets (act.withSnd rest) state hangs returns fails ↔
      Meets act (state, rest) hangs (fun value after => returns (.ok value, after.2) after.1)
        (fun error after => returns (.error error, after.2) after.1) := by
  unfold Meets withSnd
  rcases act (state, rest) with _ | ⟨_ | _, _⟩ <;> rfl

namespace Meets

theorem any (act : Action σ ε α) (state : σ) :
    Meets act state True (fun _ _ => True) (fun _ _ => True) := by
  unfold Meets
  rcases act state with _ | ⟨_ | _, _⟩ <;> trivial

variable {act : Action σ ε α} {returns' : α → σ → Prop} {fails' : ε → σ → Prop}

theorem imp {hangs' : Prop} (meets : Meets act state hangs returns fails) (onHang : hangs → hangs')
    (onReturn : ∀ value after, returns value after → returns' value after)
    (onFail : ∀ error after, fails error after → fails' error after) :
    Meets act state hangs' returns' fails' := by
  revert meets
  unfold Meets
  rcases act state with _ | ⟨error | value, after⟩
  · exact onHang
  · exact onFail error after
  · exact onReturn value after

/-- What is returned may be described more weakly. -/
theorem mono (meets : Meets act state hangs returns fails)
    (onReturn : ∀ value after, returns value after → returns' value after) :
    Meets act state hangs returns' fails :=
  meets.imp id onReturn fun _ _ failed => failed

/-- An action that always returns a value. -/
theorem returning (meets : Meets act state False returns fun _ _ => False)
    (onReturn : ∀ value after, returns value after → returns' value after) :
    Meets act state hangs returns' fails :=
  meets.imp False.elim onReturn fun _ _ failed => failed.elim

/-- The rule of composition: the second action is looked at in the states that
the first one may leave. -/
theorem bind {between : α → σ → Prop}
    {returns : β → σ → Prop} (first : Meets act state hangs between fails)
    (second : ∀ value after, between value after → Meets (next value) after hangs returns fails) :
    Meets (act >>= next) state hangs returns fails :=
  (meets_bind act next).mpr (first.mono second)

instance decidable {act : Action σ ε α} [Decidable hangs]
    [∀ value after, Decidable (returns value after)]
    [∀ error after, Decidable (fails error after)] :
    Decidable (Meets act state hangs returns fails) :=
  match outcome : act state with
  | none => decidable_of_iff hangs (by rw [Meets, outcome])
  | some (.error error, after) =>
    decidable_of_iff (fails error after) (by rw [Meets, outcome])
  | some (.ok value, after) =>
    decidable_of_iff (returns value after) (by rw [Meets, outcome])

theorem exists_returned (meets : Meets act state False returns fun _ _ => False) :
    ∃ value after, act state = some (.ok value, after) ∧ returns value after := by
  unfold Meets at meets
  split at meets
  · exact meets.elim
  · exact meets.elim
  · rename_i value after returned
    exact ⟨value, after, returned, meets⟩

variable {after : σ} {value : α}

theorem of_returned (meets : Meets act state hangs returns fails)
    (returned : act state = some (.ok value, after)) :
    returns value after := by
  rw [Meets, returned] at meets
  exact meets

/-- An action has one outcome: two descriptions of it that exclude each other
cannot both hold. -/
theorem clash (meets : Meets act state False returns fails)
    (meets' : Meets act state True returns' fails')
    (onReturn : ∀ value after, returns value after → ¬returns' value after)
    (onFail : ∀ error after, fails error after → ¬fails' error after) :
    False := by
  revert meets meets'
  unfold Meets
  rcases act state with _ | ⟨error | value, after⟩
  · exact fun hung _ => hung
  · exact fun failed failed' => onFail error after failed failed'
  · exact fun returned returned' => onReturn value after returned returned'

theorem eq_some (meets : Meets act state False
      (fun value' after' => value' = value ∧ after' = after)
      (fun _ _ => False)) :
    act state = some (.ok value, after) := by
  obtain ⟨value', after', returned, rfl, rfl⟩ := meets.exists_returned
  exact returned

theorem of_outcome {leaves : σ → Prop}
    (meets : Meets act state hangs (fun _ => leaves) (fun _ => leaves))
    (returned : act state = some (result, after)) :
    leaves after := by
  rw [Meets, returned] at meets
  cases result with
  | error error => exact meets
  | ok value => exact meets

end Meets

/-- The action, if it returns, keeps a property of the state, whether or not it
fails. -/
def Keeps (act : Action σ ε α) (holds : σ → Prop) : Prop :=
  ∀ state, holds state → Meets act state True (fun _ => holds) (fun _ => holds)

namespace Keeps

variable {holds : σ → Prop}
variable {act : Action σ ε α}

theorem pure (value : α) : Keeps (Pure.pure value : Action σ ε α) holds := fun _ held => held

theorem fail (error : ε) : Keeps (fail error : Action σ ε α) holds := fun _ held => held

theorem fail_bind (error : ε) (next : α → Action σ ε β) :
    Keeps (Action.fail error >>= next) holds :=
  fun _ held => held

theorem hang : Keeps (hang : Action σ ε α) holds := fun _ _ => trivial

theorem get : Keeps (get : Action σ ε σ) holds := fun _ held => held

theorem modify {change : σ → σ} (changed : ∀ state, holds state → holds (change state)) :
    Keeps (modify change : Action σ ε Unit) holds :=
  changed

theorem bind (first : Keeps act holds) (second : ∀ value, Keeps (next value) holds) :
    Keeps (act >>= next) holds := fun state held =>
  (first state held).bind fun value after heldAfter =>
    second value after heldAfter

theorem outcome (kept : Keeps act holds) : Keeps act.outcome holds := fun state held =>
  (meets_outcome act).mpr (kept state held)

theorem ite [Decidable condition] (onTrue : Keeps act holds) (onFalse : Keeps other holds) :
    Keeps (if condition then act else other) holds := by
  split
  · exact onTrue
  · exact onFalse

theorem onFst (kept : Keeps act holds) (second : τ → Prop) :
    Keeps act.onFst fun state => holds state.1 ∧ second state.2 := by
  rintro ⟨state, rest⟩ ⟨held, heldRest⟩
  rw [meets_onFst]
  apply (kept state held).imp id
  · intro value after heldAfter
    exact ⟨heldAfter, heldRest⟩
  · intro error after heldAfter
    exact ⟨heldAfter, heldRest⟩

theorem fst (kept : Keeps act holds) :
    Keeps (act.onFst : Action (σ × τ) ε α) fun state => holds state.1 := by
  rintro ⟨state, rest⟩ held
  rw [meets_onFst]
  exact kept state held

theorem of_outcome (kept : Keeps act holds) {state after : σ} (held : holds state)
    (returned : act state = some (result, after)) :
    holds after :=
  (kept state held).of_outcome returned

end Keeps

/-- Whatever the state, the action fails only with errors as described. -/
def FailsOnly (act : Action σ ε α) (errors : ε → Prop) : Prop :=
  ∀ state, Meets act state True (fun _ _ => True) (fun error _ => errors error)

namespace FailsOnly

variable {errors : ε → Prop}
variable {act : Action σ ε α}

theorem pure (value : α) : FailsOnly (Pure.pure value : Action σ ε α) errors := fun _ => trivial

theorem fail {error : ε} (described : errors error) :
    FailsOnly (fail error : Action σ ε α) errors :=
  fun _ => described

theorem hang : FailsOnly (hang : Action σ ε α) errors := fun _ => trivial

theorem get : FailsOnly (get : Action σ ε σ) errors := fun _ => trivial

theorem modify (change : σ → σ) : FailsOnly (modify change : Action σ ε Unit) errors :=
  fun _ => trivial

theorem bind (first : FailsOnly act errors) (second : ∀ value, FailsOnly (next value) errors) :
    FailsOnly (act >>= next) errors := fun state =>
  (first state).bind fun value after _ => second value after

theorem ite [Decidable condition]
    (onTrue : FailsOnly act errors) (onFalse : FailsOnly other errors) :
    FailsOnly (if condition then act else other) errors := by
  split
  · exact onTrue
  · exact onFalse

theorem onFst (fails : FailsOnly act errors) :
    FailsOnly (act.onFst : Action (σ × τ) ε α) errors := by
  rintro ⟨state, rest⟩
  rw [meets_onFst]
  exact fails state

end FailsOnly

end Action

end SeekOs.Lib
