import SeekOs.Proc.Kevent
import SeekOs.Proc.SchedSteps

/-!
# Waking tasks

`sched_resume_event` goes through the active list and wakes tasks one by one.
Waking one task does not decide about another, and so the whole call is
described by the state in front of it.
-/

namespace SeekOs.Proc

open List

namespace Sched

variable {cpus : Type} {sched : Sched cpus} {published : Kevent} {task : Nat}

theorem isResumed_iff : sched.isResumed published task = true ↔ sched.stateOf task = .waiting ∧
        ∃ event, (sched.tasks task).wakeupEvent = some event ∧
          (sched.events event).type = published.type := by
  rw [isResumed, stateOf]
  cases state : (sched.tasks task).state with
  | waiting =>
    cases wakeup : (sched.tasks task).wakeupEvent with
    | none => simp
    | some event => simp
  | ready => simp
  | running => simp
  | stopped => simp
  | zombie => simp
  | dead => simp

theorem resumeTask_eq_self (notResumed : sched.isResumed published task = false) :
    resumeTask published sched task = sched := by
  rw [isResumed] at notResumed
  rw [resumeTask]
  split
  · rename_i event state wakeup
    rw [state, wakeup] at notResumed
    exact if_neg (by simpa using notResumed)
  · rfl

theorem resumeTask_eq {task event : Nat} (resumed : sched.isResumed published task = true)
    (wakeup : (sched.tasks task).wakeupEvent = some event) :
    resumeTask published sched task =
      (sched.updateEvent event fun record =>
        { record with data := published.data }).setState task .ready := by
  obtain ⟨state, other, otherWakeup, type⟩ := isResumed_iff.mp resumed
  rw [wakeup, Option.some.injEq] at otherWakeup
  subst other
  have isWaiting : (sched.tasks task).state = .waiting := state
  rw [resumeTask, isWaiting, wakeup]
  exact if_pos type

variable (published)

theorem resumeTask_spec (sched : Sched cpus) (task : Nat) :
    (∀ other, ((resumeTask published sched task).tasks other).wakeupEvent =
        (sched.tasks other).wakeupEvent) ∧
      (∀ other, (resumeTask published sched task).stateOf other =
        if other = task ∧ sched.isResumed published task then .ready
        else sched.stateOf other) ∧
      ∀ event, (resumeTask published sched task).events event =
        if sched.isResumed published task ∧ (sched.tasks task).wakeupEvent = some event then
          { sched.events event with data := published.data }
        else sched.events event := by
  cases resumed : sched.isResumed published task with
  | false =>
    rw [resumeTask_eq_self resumed]
    simp
  | true =>
    obtain ⟨_, own, wakeup, _⟩ := isResumed_iff.mp resumed
    rw [resumeTask_eq resumed wakeup]
    refine ⟨?_, ?_, ?_⟩
    · intro other
      by_cases same : other = task
      · subst other
        simp [setState, updateTask, updateEvent]
      · simp [setState, updateTask, updateEvent, same]
    · intro other
      by_cases same : other = task
      · subst other
        simp [stateOf, setState, updateTask]
      · simp [stateOf, setState, updateTask, updateEvent, same]
    · intro event
      by_cases same : event = own
      · subst event
        simp [setState, updateTask, updateEvent, wakeup]
      · have other : own ≠ event := Ne.symm same
        simp [setState, updateTask, updateEvent, wakeup, same, other]

theorem isResumed_resumeTask (sched : Sched cpus) (task other : Nat) :
    (resumeTask published sched task).isResumed published other =
      (sched.isResumed published other && decide (other ≠ task)) := by
  obtain ⟨wakeups, states, events⟩ := resumeTask_spec published sched task
  have types : ∀ event, ((resumeTask published sched task).events
      event).type = (sched.events event).type := by
    intro event
    rw [events]
    split
    · rfl
    · rfl
  rw [Bool.eq_iff_iff, Bool.and_eq_true, isResumed_iff, isResumed_iff]
  simp only [states, wakeups, types, decide_eq_true_eq]
  by_cases same : other = task
  · subst other
    cases resumed : sched.isResumed published task with
    | true => simp
    | false =>
      have notResumed : ¬(sched.isResumed published task = true) := by
        rw [resumed]
        exact Bool.false_ne_true
      rw [isResumed_iff] at notResumed
      simpa using notResumed
  · simp [same]

/-- What `sched_resume_event` changes: the tasks of the list that it wakes are
ready, and their events have the data. -/
theorem resume_spec (queue : List Nat) (sched : Sched cpus) :
    (∀ task, ((queue.foldl (resumeTask published) sched).tasks
        task).wakeupEvent = (sched.tasks task).wakeupEvent) ∧
      (∀ task, (queue.foldl (resumeTask published) sched).stateOf task =
        if task ∈ queue ∧ sched.isResumed published task then .ready
        else sched.stateOf task) ∧
      ∀ event, (queue.foldl (resumeTask published) sched).events event =
        if ∃ task ∈ queue, sched.isResumed published task ∧
            (sched.tasks task).wakeupEvent = some event then
          { sched.events event with data := published.data }
        else sched.events event := by
  induction queue generalizing sched with
  | nil => simp
  | cons head rest induction =>
    obtain ⟨wakeups, states, events⟩ := resumeTask_spec published sched head
    obtain ⟨laterWakeups, laterStates, laterEvents⟩ := induction (resumeTask published sched head)
    refine ⟨?_, ?_, ?_⟩
    · intro task
      exact (laterWakeups task).trans (wakeups task)
    · intro task
      rw [foldl_cons, laterStates, isResumed_resumeTask, states]
      by_cases same : task = head
      · subst task
        simp
      · simp [same]
    · intro event
      rw [foldl_cons, laterEvents, events]
      simp only [isResumed_resumeTask, wakeups, mem_cons, exists_eq_or_imp]
      by_cases atHead : sched.isResumed published head = true ∧
          (sched.tasks head).wakeupEvent = some event
      · simp [atHead]
      · simp only [atHead, if_false, false_or]
        have same : (∃ task ∈ rest, (sched.isResumed published task &&
            decide (task ≠ head)) = true ∧ (sched.tasks task).wakeupEvent = some event) ↔
            ∃ task ∈ rest, sched.isResumed published task = true ∧
              (sched.tasks task).wakeupEvent = some event := by
          constructor
          · rintro ⟨task, member, resumed, wakeup⟩
            exact ⟨task, member, (Bool.and_eq_true _ _ ▸ resumed).1, wakeup⟩
          · rintro ⟨task, member, resumed, wakeup⟩
            have different : task ≠ head := by
              rintro rfl
              exact atHead ⟨resumed, wakeup⟩
            exact ⟨task, member, by simp [resumed, different], wakeup⟩
        rw [if_congr same rfl rfl]

/-- Waking tasks leaves everything but the records of tasks and events. -/
theorem resume_eq (queue : List Nat) (sched : Sched cpus) :
    ∃ tasks events, queue.foldl (resumeTask published) sched =
      { sched with tasks := tasks, events := events } := by
  induction queue generalizing sched with
  | nil => exact ⟨sched.tasks, sched.events, rfl⟩
  | cons head rest induction =>
    obtain ⟨tasks, events, same⟩ := induction (resumeTask published sched head)
    refine ⟨tasks, events, ?_⟩
    rw [foldl_cons, same]
    cases resumed : sched.isResumed published head with
    | false => rw [resumeTask_eq_self resumed]
    | true =>
      obtain ⟨_, own, wakeup, _⟩ := isResumed_iff.mp resumed
      rw [resumeTask_eq resumed wakeup]
      rfl

variable {published}

theorem resume_activeTasks (sched : Sched cpus) (published : Kevent) :
    (sched.schedResumeEvent published).activeTasks = sched.activeTasks := by
  obtain ⟨tasks, events, same⟩ := resume_eq published sched.activeTasks sched
  rw [schedResumeEvent, same]

theorem current_congr {next : Sched cpus} {cpu : cpus}
    (running : next.runningTasks cpu = sched.runningTasks cpu)
    (idle : next.idleTasks = sched.idleTasks) :
    next.current cpu = sched.current cpu := by
  rw [current, current, running, idle]

end Sched

end SeekOs.Proc
