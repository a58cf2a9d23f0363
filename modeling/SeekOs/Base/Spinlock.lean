import SeekOs.Lib.Runs

/-!
# Spin locks

The models of the kernel take a section under a lock as one step.  Here the
processors interleave: a try of the lock is an `atomic_cmpxchg`, and the holder
goes through its section one instruction at a time.
-/

namespace SeekOs.Base

open SeekOs.Lib Function Relation Option

/-- The counter after `lock cmpxchg`, and its value before. -/
def atomicCmpxchg (counter oldval newval : Int) : Int × Int :=
  (if counter = oldval then newval else counter, counter)

def spinTryAcquire (counter : Int) : Int × Bool :=
  let (counter, oldval) := atomicCmpxchg counter 0 1
  (counter, oldval == 0)

/-- A lock and the memory under it.  A processor in a section has its call and
the instruction that it has come to; `left` has the calls whose sections were
left, the last one first. -/
structure Spinlock (cpus ξ σ : Type) where
  counter : Int
  sections : cpus → Option (ξ × ξ)
  shared : σ
  left : List ξ

inductive LockOp (cpus ξ : Type) where
  | tryAcquire (cpu : cpus) (call : ξ)
  | work (cpu : cpus)
  | release (cpu : cpus)

namespace Spinlock

variable {cpus ξ σ : Type} [DecidableEq cpus] (body : ξ → σ → Option (ξ × σ))

def spinInit (shared : σ) : Spinlock cpus ξ σ :=
  ⟨0, fun _ => none, shared, []⟩

/-- One instruction of one processor; at the release `body` has none left. -/
def step (lock : Spinlock cpus ξ σ) : LockOp cpus ξ → Option (Spinlock cpus ξ σ)
  | .tryAcquire cpu call =>
    match lock.sections cpu, spinTryAcquire lock.counter with
    | some _, _ => none
    | none, (counter, acquired) =>
      let inside := update lock.sections cpu (some (call, call))
      some { lock with
        counter := counter, sections := if acquired then inside else lock.sections }
  | .work cpu =>
    (lock.sections cpu).bind fun (call, now) =>
      (body now lock.shared).map fun (later, shared) =>
        { lock with sections := update lock.sections cpu (some (call, later)), shared := shared }
  | .release cpu =>
    (lock.sections cpu).bind fun (call, now) =>
      if (body now lock.shared).isSome then
        none
      else
        some ⟨0, update lock.sections cpu none, lock.shared, call :: lock.left⟩

/-- From one instruction of a section to a later one, nobody interfering. -/
def Works : ξ × σ → ξ × σ → Prop :=
  ReflTransGen fun before after => body before.1 before.2 = some after

/-- The sections of the calls run one after the other, the last call first. -/
inductive Serial (start : σ) : List ξ → σ → Prop where
  | nil : Serial start [] start
  | cons {calls call now before after} (rest : Serial start calls before)
      (works : Works body (call, before) (now, after)) (ended : body now after = none) :
      Serial start (call :: calls) after

/-- The lock is free and nobody in a section, or it is taken and one processor
has worked alone since the last release. -/
inductive Exclusive (start : σ) : Spinlock cpus ξ σ → Prop where
  | free {shared left} (serial : Serial body start left shared) :
      Exclusive start ⟨0, fun _ => none, shared, left⟩
  | held {cpu call now before shared left} (serial : Serial body start left before)
      (works : Works body (call, before) (now, shared)) :
      Exclusive start ⟨1, update (fun _ => none) cpu (some (call, now)), shared, left⟩

variable {body} {start : σ} {lock next : Spinlock cpus ξ σ}

theorem step_exclusive (exclusive : Exclusive body start lock) {op : LockOp cpus ξ}
    (done : lock.step body op = some next) : Exclusive body start next := by
  cases exclusive with
  | free serial =>
    cases op with
    | tryAcquire cpu call =>
      cases done
      exact .held serial .refl
    | work cpu => cases done
    | release cpu => cases done
  | @held holder call now before shared left serial works =>
    cases op with
    | tryAcquire cpu other =>
      by_cases isHolder : cpu = holder
      · simp [step, isHolder] at done
      · obtain rfl : _ = next := by
          simpa [step, isHolder, spinTryAcquire, atomicCmpxchg] using done
        exact .held serial works
    | work cpu =>
      by_cases isHolder : cpu = holder
      · simp only [step, isHolder, update_self, update_idem, bind_some, map_eq_some_iff] at done
        obtain ⟨⟨later, after⟩, moved, rfl⟩ := done
        exact .held serial (works.tail moved)
      · simp [step, isHolder] at done
    | release cpu =>
      by_cases isHolder : cpu = holder
      · simp only [step, isHolder, update_self, update_idem, update_eq_self, bind_some,
          ite_none_left_eq_some, not_isSome_iff_eq_none, Option.some.injEq] at done
        obtain ⟨ended, rfl⟩ := done
        exact .free (serial.cons works ended)
      · simp [step, isHolder] at done

/-- Whatever the interleaving, at most one processor is in a section, and the
memory is what the sections make of it one after the other. -/
theorem exclusive_of_run {ops : List (LockOp cpus ξ)}
    (run : runOps (step body) (spinInit start) ops = some lock) : Exclusive body start lock :=
  runOps_invariant (fun _ _ _ exclusive done => step_exclusive exclusive done) (.free .nil) run

/-- A call is its number of instructions, each of which reads and writes. -/
def doubleUp (now shared : Nat) : Option (Nat × Nat) :=
  if now = 0 then none else some (now - 1, 2 * shared + now)

theorem exclusive_of_run_two :
    ∃ lock : Spinlock Bool _ _, lock.shared = 35 ∧ Exclusive doubleUp 3 lock := by
  have run : runOps (step doubleUp) (spinInit 3) [.tryAcquire true 2, .work true,
      .tryAcquire false 1, .work true, .release true, .tryAcquire false 1, .work false,
      .release false] = some _ := rfl
  exact ⟨_, rfl, exclusive_of_run run⟩

end Spinlock

end SeekOs.Base
