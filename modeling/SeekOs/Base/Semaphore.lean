import SeekOs.Lib.MachineInt
import SeekOs.Lib.Runs

/-!
# Semaphores

`ksemaphore.c` keeps its permits in two places: a free permit is counted by
`counter`, and `wakeups` counts the permits handed to tasks that wait.  A task
that finds neither sleeps and looks again at `wakeups`.

Every section between taking and leaving the lock is one step.  The permits are
counted once as long as no release adds to both places.
-/

namespace SeekOs.Base

open SeekOs.Lib List

structure Ksemaphore where
  counter : Int
  max : Int
  waiters : Int
  wakeups : Int
  deriving DecidableEq

namespace Ksemaphore

def ksemaporeInit (new max : Int) : Ksemaphore :=
  ⟨new, max, 0, 0⟩

variable (semaphore : Ksemaphore)

/-- The test of the waiting loop: the semaphore after a permit was taken from
`wakeups`, or nothing when the task has to sleep. -/
def takeWakeup : Option Ksemaphore :=
  if semaphore.wakeups = 0 then
    none
  else
    some { semaphore with
      waiters := toInt32 (semaphore.waiters - 1)
      wakeups := toInt32 (semaphore.wakeups - 1) }

/-- `ksemapore_acquire` up to its return or its first sleep, and whether it
returns. -/
def ksemaporeAcquire : Ksemaphore × Bool :=
  if 0 < semaphore.counter then
    ({ semaphore with counter := toInt32 (semaphore.counter - 1) }, true)
  else
    let waiting := { semaphore with waiters := toInt32 (semaphore.waiters + 1) }
    match waiting.takeWakeup with
    | some taken => (taken, true)
    | none => (waiting, false)

def ksemaporeRelease : Ksemaphore :=
  let counted :=
    if semaphore.counter < semaphore.max then
      { semaphore with counter := toInt32 (semaphore.counter + 1) }
    else
      semaphore
  if 0 < counted.waiters then
    { counted with wakeups := toInt32 (counted.wakeups + 1) }
  else
    counted

end Ksemaphore

/-- A semaphore and the tasks that use it: the tasks asleep in the waiting
loop, and the tasks of the completed calls, the last call first. -/
structure SemaphoreUse where
  semaphore : Ksemaphore
  asleep : List Nat
  acquired : List Nat
  released : List Nat

inductive SemaphoreOp where
  | acquire (task : Nat)
  | wake (task : Nat)
  | release (task : Nat)
  deriving DecidableEq

namespace SemaphoreUse

def initial (new max : Int) : SemaphoreUse :=
  ⟨.ksemaporeInit new max, [], [], []⟩

section

variable (use : SemaphoreUse)

/-- One locked section; a task that sleeps makes no other call, and only a task
that sleeps is woken. -/
def step : SemaphoreOp → Option SemaphoreUse
  | .acquire task =>
    if task ∈ use.asleep then
      none
    else
      match use.semaphore.ksemaporeAcquire with
      | (semaphore, true) =>
        some { use with
          semaphore := semaphore, acquired := task :: use.acquired }
      | (semaphore, false) =>
        some { use with
          semaphore := semaphore, asleep := task :: use.asleep }
  | .wake task =>
    if task ∈ use.asleep then
      match use.semaphore.takeWakeup with
      | some semaphore =>
        some { use with
          semaphore := semaphore
          asleep := use.asleep.erase task
          acquired := task :: use.acquired }
      | none => some use
    else
      none
  | .release task =>
    if task ∈ use.asleep then
      none
    else
      some { use with
        semaphore := use.semaphore.ksemaporeRelease
        released := task :: use.released }

/-- A task is between an acquire and its release. -/
def Holds (task : Nat) : Prop :=
  use.released.count task < use.acquired.count task

instance  : DecidablePred use.Holds :=
  fun task => inferInstanceAs (Decidable (use.released.count task < use.acquired.count task))

/-- Only tasks that hold a permit release one. -/
def ReleasesHeld : SemaphoreOp → Prop
  | .release task => use.Holds task
  | _ => True

instance  : DecidablePred use.ReleasesHeld
  | .release task => inferInstanceAs (Decidable (use.Holds task))
  | .acquire _ => inferInstanceAs (Decidable True)
  | .wake _ => inferInstanceAs (Decidable True)

/-- A release finds no waiter, or the counter at its maximum. -/
def ReleasesOnce : SemaphoreOp → Prop
  | .release _ =>
    use.semaphore.waiters ≤ 0 ∨ use.semaphore.max ≤ use.semaphore.counter
  | _ => True

instance  : DecidablePred use.ReleasesOnce
  | .release _ => inferInstanceAs (Decidable (_ ∨ _))
  | .acquire _ => inferInstanceAs (Decidable True)
  | .wake _ => inferInstanceAs (Decidable True)

end

/-- The permits that can still be taken.  `wakeups` is read without its sign,
so that it counts even when the releases have carried it past the largest
`int`. -/
def permits (semaphore : Ksemaphore) : Int :=
  semaphore.counter + semaphore.wakeups % 2 ^ 32

/-- What the locked sections keep: `counter` stays in its range, `wakeups` is
an `int`, and the permits taken and left are no more than those given. -/
structure Counted (new max : Int) (use : SemaphoreUse) : Prop where
  bound : use.semaphore.max = max
  counter_nonneg : 0 ≤ use.semaphore.counter
  counter_le : use.semaphore.counter ≤ max
  wakeups_int : toInt32 use.semaphore.wakeups = use.semaphore.wakeups
  permits_le : use.acquired.length + permits use.semaphore ≤ new + use.released.length

variable {new max : Int} {use next : SemaphoreUse}

theorem counted_initial (nonneg : 0 ≤ new) (le : new ≤ max) :
    Counted new max (initial new max) := by
  refine ⟨rfl, nonneg, le, rfl, ?_⟩
  simp [initial, Ksemaphore.ksemaporeInit, permits]

variable {semaphore : Ksemaphore} {taken : Ksemaphore}

/-- A permit taken from `wakeups` is one permit less. -/
private theorem takeWakeup_spec (isInt : toInt32 semaphore.wakeups = semaphore.wakeups)
    (found : semaphore.takeWakeup = some taken) :
    taken.counter = semaphore.counter ∧ taken.max = semaphore.max ∧
      toInt32 taken.wakeups = taken.wakeups ∧
      permits taken + 1 = permits semaphore := by
  by_cases empty : semaphore.wakeups = 0
  · rw [Ksemaphore.takeWakeup, if_pos empty] at found
    cases found
  · rw [Ksemaphore.takeWakeup, if_neg empty] at found
    cases found
    refine ⟨rfl, rfl, toInt32_toInt32 _, ?_⟩
    simp only [permits, toInt32] at isInt ⊢
    omega

variable {task : Nat} {op : SemaphoreOp}

private theorem counted_taken {asleep : List Nat}
    (counted : Counted new max { use with semaphore := semaphore })
    (found : semaphore.takeWakeup = some taken) :
    Counted new max
      { use with
        semaphore := taken
        asleep := asleep
        acquired := task :: use.acquired } := by
  obtain ⟨counter, bound, isInt, fewer⟩ :
      taken.counter = semaphore.counter ∧ taken.max = semaphore.max ∧
        toInt32 taken.wakeups = taken.wakeups ∧
        permits taken + 1 = permits semaphore :=
    takeWakeup_spec counted.wakeups_int found
  refine ⟨bound.trans counted.bound, ?_, ?_, isInt, ?_⟩
  · rw [counter]
    exact counted.counter_nonneg
  · rw [counter]
    exact counted.counter_le
  · have given : use.acquired.length + permits semaphore ≤
        new + use.released.length := counted.permits_le
    simp only [length_cons, Nat.cast_add, Nat.cast_one]
    omega

private theorem counted_waiting (counted : Counted new max use) : Counted new max { use with
        semaphore := { use.semaphore with
          waiters := toInt32 (use.semaphore.waiters + 1) } } :=
  ⟨counted.bound, counted.counter_nonneg, counted.counter_le,
    counted.wakeups_int, counted.permits_le⟩

private theorem counted_acquire (fits : max < 2 ^ 31) (counted : Counted new max use)
    (stepped : use.step (.acquire task) = some next) :
    Counted new max next := by
  by_cases sleeping : task ∈ use.asleep
  · simp [step, sleeping] at stepped
  rw [step, if_neg sleeping] at stepped
  by_cases free : 0 < use.semaphore.counter
  · rw [Ksemaphore.ksemaporeAcquire, if_pos free] at stepped
    cases stepped
    have given := counted.permits_le
    have upper := counted.counter_le
    have lowered : toInt32 (use.semaphore.counter - 1) = use.semaphore.counter - 1 :=
      toInt32_of_range (by omega) (by omega)
    refine ⟨counted.bound, ?_, ?_, counted.wakeups_int, ?_⟩
    · simp only [lowered]
      omega
    · simp only [lowered]
      omega
    · simp only [permits, lowered, length_cons, Nat.cast_add, Nat.cast_one] at given ⊢
      omega
  · rw [Ksemaphore.ksemaporeAcquire, if_neg free] at stepped
    have waiting := counted_waiting counted
    cases found : Ksemaphore.takeWakeup
        { use.semaphore with
          waiters := toInt32 (use.semaphore.waiters + 1) } with
    | some taken =>
      simp only [found] at stepped
      cases stepped
      exact counted_taken waiting found
    | none =>
      simp only [found] at stepped
      cases stepped
      exact ⟨waiting.bound, waiting.counter_nonneg, waiting.counter_le,
        waiting.wakeups_int, waiting.permits_le⟩

private theorem counted_wake (counted : Counted new max use)
    (stepped : use.step (.wake task) = some next) :
    Counted new max next := by
  by_cases sleeping : task ∈ use.asleep
  · rw [step, if_pos sleeping] at stepped
    cases found : use.semaphore.takeWakeup with
    | some taken =>
      rw [found] at stepped
      cases stepped
      exact counted_taken counted found
    | none =>
      rw [found] at stepped
      cases stepped
      exact counted
  · simp [step, sleeping] at stepped

/-- A release that does not give to both places adds at most one permit. -/
private theorem counted_release (fits : max < 2 ^ 31)
    (counted : Counted new max use) (once : use.ReleasesOnce (.release task))
    (stepped : use.step (.release task) = some next) :
    Counted new max next := by
  by_cases sleeping : task ∈ use.asleep
  · simp [step, sleeping] at stepped
  rw [step, if_neg sleeping] at stepped
  cases stepped
  have bound := counted.bound
  have nonneg := counted.counter_nonneg
  have isInt := counted.wakeups_int
  have given := counted.permits_le
  by_cases room : use.semaphore.counter < use.semaphore.max
  · have unawaited : ¬0 < use.semaphore.waiters := by
      rcases once with none | full
      · omega
      · omega
    have raised : toInt32 (use.semaphore.counter + 1) = use.semaphore.counter + 1 :=
      toInt32_of_range (by omega) (by omega)
    simp only [Ksemaphore.ksemaporeRelease, if_pos room, if_neg unawaited, raised]
    refine ⟨bound, ?_, ?_, isInt, ?_⟩
    · change 0 ≤ use.semaphore.counter + 1
      omega
    · change use.semaphore.counter + 1 ≤ max
      omega
    · simp only [permits, length_cons, Nat.cast_add, Nat.cast_one] at given ⊢
      omega
  · simp only [Ksemaphore.ksemaporeRelease, if_neg room]
    by_cases awaited : 0 < use.semaphore.waiters
    · rw [if_pos awaited]
      refine ⟨bound, nonneg, counted.counter_le, toInt32_toInt32 _, ?_⟩
      simp only [permits, toInt32, length_cons, Nat.cast_add, Nat.cast_one] at given ⊢
      omega
    · rw [if_neg awaited]
      refine ⟨bound, nonneg, counted.counter_le, isInt, ?_⟩
      simp only [length_cons, Nat.cast_add, Nat.cast_one]
      omega

theorem counted_step (fits : max < 2 ^ 31)
    (counted : Counted new max use) (once : use.ReleasesOnce op)
    (stepped : use.step op = some next) :
    Counted new max next := by
  cases op with
  | acquire task => exact counted_acquire fits counted stepped
  | wake task => exact counted_wake counted stepped
  | release task => exact counted_release fits counted once stepped

/-- Every release was preceded by an acquire of the same task. -/
def Paired (use : SemaphoreUse) : Prop :=
  ∀ task, use.released.count task ≤ use.acquired.count task

private theorem paired_acquired {asleep : List Nat} (paired : use.Paired) : Paired { use with
        semaphore := semaphore
        asleep := asleep
        acquired := task :: use.acquired } := by
  intro other
  exact (paired other).trans count_le_count_cons

theorem paired_step (paired : use.Paired)
    (held : use.ReleasesHeld op) (stepped : use.step op = some next) :
    next.Paired := by
  cases op with
  | acquire task =>
    by_cases sleeping : task ∈ use.asleep
    · simp [step, sleeping] at stepped
    rw [step, if_neg sleeping] at stepped
    cases tried : use.semaphore.ksemaporeAcquire with
    | mk semaphore returns =>
      rw [tried] at stepped
      cases returns with
      | true =>
        cases stepped
        exact paired_acquired paired
      | false =>
        cases stepped
        exact paired
  | wake task =>
    by_cases sleeping : task ∈ use.asleep
    · rw [step, if_pos sleeping] at stepped
      cases found : use.semaphore.takeWakeup with
      | some taken =>
        rw [found] at stepped
        cases stepped
        exact paired_acquired paired
      | none =>
        rw [found] at stepped
        cases stepped
        exact paired
    · simp [step, sleeping] at stepped
  | release task =>
    by_cases sleeping : task ∈ use.asleep
    · simp [step, sleeping] at stepped
    rw [step, if_neg sleeping] at stepped
    cases stepped
    intro other
    by_cases same : other = task
    · subst other
      simp only [count_cons_self]
      exact held
    · simp only [count_cons_of_ne (Ne.symm same)]
      exact paired other

/-- With at most one more acquire than releases, only one task can be between
the two. -/
theorem Paired.holder_unique (paired : use.Paired)
    (one : use.acquired.length ≤ use.released.length + 1)
    {first second : Nat} (left : use.Holds first)
    (right : use.Holds second) :
    first = second := by
  by_contra differ
  let taken : Multiset Nat := use.acquired
  let given : Multiset Nat := use.released
  have within : given ≤ taken := by
    rw [Multiset.le_iff_count]
    intro task
    simpa [taken, given] using paired task
  have mem : ∀ {task}, use.Holds task → 1 ≤ (taken - given).count task := by
    intro task holds
    rw [Multiset.count_sub]
    simp only [taken, given, Multiset.coe_count]
    exact Nat.le_sub_of_add_le' holds
  have both : ({first, second} : Multiset Nat) ≤ taken - given := by
    rw [Multiset.le_iff_subset (by simpa using differ)]
    intro task listed
    have either : task = first ∨ task = second := by
      simpa using listed
    rw [← Multiset.one_le_count_iff_mem]
    rcases either with rfl | rfl
    · exact mem left
    · exact mem right
  have size := Multiset.card_le_card both
  rw [Multiset.card_sub within] at size
  simp [taken, given] at size
  omega

/-- In every run whose releases add to one place only, the completed acquires
never exceed the initial permits and the completed releases; and a semaphore
with one permit, released only by tasks that hold it, is held by at most one
task. -/
theorem acquires_bounded_of_run (new max : Int) {final : SemaphoreUse} {ops : List SemaphoreOp}
    (nonneg : 0 ≤ new) (le : new ≤ max) (fits : max < 2 ^ 31)
    (once : AlongOps step ReleasesOnce (initial new max) ops)
    (run : runOps step (initial new max) ops = some final) :
    (final.acquired.length : Int) ≤ new + final.released.length ∧
      (new = 1 → max = 1 → AlongOps step ReleasesHeld (initial new max) ops →
        ∀ first second, final.Holds first → final.Holds second → first = second) := by
  have counted : Counted new max final :=
    runOps_invariant_along
      (fun _ _ _ counted once stepped => counted_step fits counted once stepped)
      (counted_initial nonneg le) once run
  have bounded : (final.acquired.length : Int) ≤ new + final.released.length := by
    have given := counted.permits_le
    have left := counted.counter_nonneg
    simp only [permits] at given
    omega
  refine ⟨bounded, ?_⟩
  intro single _ held first second left right
  have paired : final.Paired :=
    runOps_invariant_along (fun _ _ _ paired held stepped => paired_step paired held stepped)
      (fun _ => le_refl _) held run
  apply paired.holder_unique _ left right
  omega

theorem acquires_bounded_of_run_two :
    ∃ final, runOps step (initial 1 1) [.acquire 1, .release 1, .acquire 2] = some final ∧
      (final.acquired.length : Int) ≤ 1 + final.released.length ∧
      (∀ first second, final.Holds first → final.Holds second → first = second) := by
  refine ⟨_, rfl, ?_⟩
  have once : AlongOps step ReleasesOnce (initial 1 1) [.acquire 1, .release 1, .acquire 2] := by
    decide
  have bounded := acquires_bounded_of_run 1 1 (by decide) (by decide) (by decide) once rfl
  exact ⟨bounded.1, bounded.2 rfl rfl (by decide)⟩

/-- A release while a task waits gives its permit twice: the task that comes
later takes it from `counter`, and the task that waits from `wakeups`. -/
theorem two_holders_after_release : AlongOps step ReleasesHeld (initial 1 1)
        [.acquire 1, .acquire 2, .release 1, .acquire 3, .wake 2] ∧
      ∃ final,
        runOps step (initial 1 1) [.acquire 1, .acquire 2, .release 1, .acquire 3, .wake 2] =
          some final ∧
        ¬(final.acquired.length : Int) ≤ 1 + final.released.length ∧
        final.Holds 2 ∧ final.Holds 3 := by
  refine ⟨by decide, _, rfl, ?_⟩
  decide

end SemaphoreUse

end SeekOs.Base
