import SeekOs.Lib.Runs

/-!
# Endless runs

An endless run gives a state and a label for every moment.  What happens
infinitely often in it is the form in which fairness is assumed, and a rank
that helpful moments decrease is the form in which progress is proved.
-/

namespace SeekOs.Lib

open List

variable {σ ι : Type*} {start : Nat}

structure EndlessRun (step : σ → ι → Option σ) where
  states : Nat → σ
  ops : Nat → ι
  steps : ∀ moment, step (states moment) (ops moment) = some (states (moment + 1))

def InfinitelyOften (happens : Nat → Prop) : Prop :=
  ∀ moment, ∃ later, moment ≤ later ∧ happens later

theorem lasts_until {phase goal : Nat → Prop}
    (keeps : ∀ moment, phase moment → goal (moment + 1) ∨ phase (moment + 1))
    (initial : phase start)
    (never : ∀ later, start < later → ¬goal later) :
    ∀ moment, start ≤ moment → phase moment := by
  intro moment after
  induction moment, after using Nat.le_induction with
  | base => exact initial
  | succ moment after induction =>
    rcases keeps moment induction with reached | stays
    · exact absurd reached (never (moment + 1) (Nat.lt_succ_of_le after))
    · exact stays

/-- A phase ends when its rank never grows and helpful moments, which come
again and again, decrease it. -/
theorem reaches_of_rank (phase goal : Nat → Prop) (rank : Nat → Nat)
    {helpful : Nat → Prop} (often : InfinitelyOften helpful)
    (keeps : ∀ moment, phase moment → goal (moment + 1) ∨
      phase (moment + 1) ∧ rank (moment + 1) ≤ rank moment)
    (helps : ∀ moment, phase moment → helpful moment →
      goal (moment + 1) ∨ rank (moment + 1) < rank moment)
    (initial : phase start) :
    ∃ later, start < later ∧ goal later := by
  by_contra unreached
  push Not at unreached
  have lasts := lasts_until (fun moment isPhase => (keeps moment isPhase).imp_right And.left)
    initial unreached
  have falls : ∀ moment, start ≤ moment → rank (moment + 1) ≤ rank moment := by
    intro moment after
    rcases keeps moment (lasts moment after) with reached | ⟨_, small⟩
    · exact absurd reached (unreached (moment + 1) (Nat.lt_succ_of_le after))
    · exact small
  have monotone : ∀ earlier, start ≤ earlier → ∀ later, earlier ≤ later →
      rank later ≤ rank earlier := by
    intro earlier after later order
    induction later, order using Nat.le_induction with
    | base => exact le_refl _
    | succ later order induction =>
      exact (falls later (after.trans order)).trans induction
  -- below every bound, since each helpful moment lowers the rank once more
  have bounded : ∀ bound, ∃ moment, start ≤ moment ∧ rank moment + bound ≤ rank start := by
    intro bound
    induction bound with
    | zero => exact ⟨start, le_refl _, le_refl _⟩
    | succ bound induction =>
      obtain ⟨moment, after, small⟩ := induction
      obtain ⟨later, order, isHelpful⟩ := often moment
      have afterLater := after.trans order
      refine ⟨later + 1, afterLater.trans (Nat.le_succ later), ?_⟩
      rcases helps later (lasts later afterLater) isHelpful with
        reached | smaller
      · exact absurd reached (unreached (later + 1) (Nat.lt_succ_of_le afterLater))
      · have before := monotone moment after later order
        omega
  obtain ⟨moment, _, small⟩ := bounded (rank start + 1)
  omega

namespace EndlessRun

variable {step : σ → ι → Option σ} {loop : Nat → ι} {turn : Nat → σ → Prop}

/-- An invariant that every step preserves holds from its first moment on. -/
theorem invariant (run : EndlessRun step) (holds : σ → Prop)
    (preserved : ∀ state op next, holds state → step state op = some next → holds next)
    (initial : holds (run.states 0)) (moment : Nat) :
    holds (run.states moment) := by
  induction moment with
  | zero => exact initial
  | succ moment induction =>
    exact preserved _ _ _ induction (run.steps moment)

/-- One more step in front of a run. -/
def after (run : EndlessRun step) (state : σ) (op : ι)
    (first : step state op = some (run.states 0)) : EndlessRun step where
  states
    | 0 => state
    | moment + 1 => run.states moment
  ops
    | 0 => op
    | moment + 1 => run.ops moment
  steps
    | 0 => first
    | moment + 1 => run.steps moment

section

variable (turns : ∀ moment state, turn moment state → ∃ next, step state (loop moment) = some next ∧ turn (moment + 1) next)
include turns

theorem exists_of_turns {state : σ} (entry : turn 0 state) :
    ∃ run : EndlessRun step, run.states 0 = state ∧
      ∀ moment, run.ops moment = loop moment ∧ turn moment (run.states moment) := by
  choose next stepped stays using turns
  let visits : (moment : Nat) → { state // turn moment state } := fun moment =>
    Nat.rec (motive := fun moment => { state // turn moment state }) ⟨state, entry⟩
      (fun moment visited =>
        ⟨next moment visited.1 visited.2, stays moment visited.1 visited.2⟩)
      moment
  refine ⟨⟨fun moment => (visits moment).1, loop, ?_⟩, rfl, ?_⟩
  · intro moment
    exact stepped moment (visits moment).1 (visits moment).2
  · intro moment
    exact ⟨rfl, (visits moment).2⟩

theorem exists_of_runOps {ops : List ι} {start final : σ}
    (finite : runOps step start ops = some final) (entry : turn 0 final) :
    ∃ run : EndlessRun step, run.states 0 = start ∧
      (∀ moment, moment ≤ ops.length →
        runOps step start (ops.take moment) = some (run.states moment)) ∧
      (∀ moment op, ops[moment]? = some op → run.ops moment = op) ∧
      ∀ moment, run.ops (ops.length + moment) = loop moment ∧
        turn moment (run.states (ops.length + moment)) := by
  induction ops generalizing start with
  | nil =>
    cases finite
    obtain ⟨run, first, goesOn⟩ := exists_of_turns turns entry
    refine ⟨run, first, ?_, ?_, ?_⟩
    · intro moment atStart
      rw [Nat.le_zero.mp atStart, first]
      rfl
    · intro moment op isOp
      cases isOp
    · intro moment
      rw [length_nil, Nat.zero_add]
      exact goesOn moment
  | cons op ops induction =>
    obtain ⟨next, stepped, rest⟩ := Option.bind_eq_some_iff.mp finite
    obtain ⟨run, first, states, labels, goesOn⟩ := induction rest
    refine ⟨run.after start op (first ▸ stepped), rfl, ?_, ?_, ?_⟩
    · intro moment within
      cases moment with
      | zero => rfl
      | succ moment =>
        exact Option.bind_eq_some_iff.mpr ⟨next, stepped,
          states moment (Nat.le_of_succ_le_succ within)⟩
    · intro moment label isLabel
      cases moment with
      | zero => exact Option.some.inj isLabel
      | succ moment => exact labels moment label isLabel
    · intro moment
      rw [length_cons, Nat.succ_add]
      exact goesOn moment

end

end EndlessRun

end SeekOs.Lib
