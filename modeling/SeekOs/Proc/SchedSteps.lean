import SeekOs.Proc.SchedPlaces

/-!
# What the steps of the scheduler change

Most steps move tasks and change their states, and leave the rest of the
records alone.  `sched_again` changes the states of two tasks at most, clears
the event of a sleeper that it takes, and keeps the order of the active list.
-/

namespace SeekOs.Proc.Sched

open SeekOs.Base SeekOs.Lib Function List Option

variable {now task : Nat}

section Moves

variable {cpus : Type} {sched middle next : Sched cpus} {cpu : cpus} {tid zombie : Nat}

/-- Tasks were moved between the lists and the processors and changed their
state, and nobody became a zombie. -/
structure Moved (sched next : Sched cpus) : Prop where
  live : next.live = sched.live
  tid : ∀ task, (next.tasks task).tid = (sched.tasks task).tid
  tgid : ∀ task, (next.tasks task).tgid = (sched.tasks task).tgid
  exitcode : ∀ task, (next.tasks task).exitcode = (sched.tasks task).exitcode
  zombie : ∀ task, next.stateOf task = .zombie → sched.stateOf task = .zombie

theorem Moved.refl (sched : Sched cpus) : Moved sched sched :=
  ⟨rfl, fun _ => rfl, fun _ => rfl, fun _ => rfl, fun _ zombie => zombie⟩

theorem Moved.trans (first : Moved sched middle) (second : Moved middle next) : Moved sched next :=
  ⟨second.live.trans first.live, fun task => (second.tid task).trans (first.tid task),
    fun task => (second.tgid task).trans (first.tgid task),
    fun task => (second.exitcode task).trans (first.exitcode task),
    fun task zombie => first.zombie task (second.zombie task zombie)⟩

theorem Moved.of_tasks (tasks : next.tasks = sched.tasks)
    (live : next.live = sched.live) : Moved sched next := by
  refine ⟨live, ?_, ?_, ?_, ?_⟩
  · intro task
    rw [tasks]
  · intro task
    rw [tasks]
  · intro task
    rw [tasks]
  · intro task
    rw [stateOf, stateOf, tasks]
    exact id

theorem moved_updateTask (sched : Sched cpus) (task : Nat) {change : Task → Task}
    (identity : ∀ record, (change record).tid = record.tid ∧ (change record).tgid = record.tgid ∧
      (change record).exitcode = record.exitcode)
    (state : ∀ record, (change record).state = .zombie → record.state = .zombie) :
    Moved sched (sched.updateTask task change) := by
  have cases : ∀ other, (sched.updateTask task change).tasks other =
      sched.tasks other ∨
        (sched.updateTask task change).tasks other = change (sched.tasks other) := by
    intro other
    by_cases same : other = task
    · subst other
      exact .inr (update_self _ _ _)
    · exact .inl (update_of_ne same _ _)
  refine ⟨rfl, ?_, ?_, ?_, ?_⟩
  · intro other
    rcases cases other with same | changed
    · rw [same]
    · rw [changed, (identity _).1]
  · intro other
    rcases cases other with same | changed
    · rw [same]
    · rw [changed, (identity _).2.1]
  · intro other
    rcases cases other with same | changed
    · rw [same]
    · rw [changed, (identity _).2.2]
  · intro other zombie
    rw [stateOf] at zombie ⊢
    rcases cases other with same | changed
    · rw [same] at zombie
      exact zombie
    · rw [changed] at zombie
      exact state _ zombie

theorem moved_setState (sched : Sched cpus) (task : Nat) {state : TaskState}
    (alive : state ≠ .zombie) : Moved sched (sched.setState task state) := by
  apply moved_updateTask
  · exact fun _ => ⟨rfl, rfl, rfl⟩
  · exact fun _ zombie => absurd zombie alive

theorem moved_updateEvent (sched : Sched cpus) (event : Nat)
    (change : Kevent → Kevent) : Moved sched (sched.updateEvent event change) :=
  .of_tasks rfl rfl

theorem moved_resumeTask (published : Kevent) (sched : Sched cpus)
    (task : Nat) : Moved sched (resumeTask published sched task) := by
  rw [resumeTask]
  split
  · split
    · apply Moved.trans (moved_updateEvent sched _ _)
      apply moved_setState
      decide
    · exact .refl sched
  · exact .refl sched

theorem moved_resumeEvent (published : Kevent) (queue : List Nat) (sched : Sched cpus) :
    Moved sched (queue.foldl (resumeTask published) sched) := by
  induction queue generalizing sched with
  | nil => exact .refl sched
  | cons task rest induction =>
    exact (moved_resumeTask published sched task).trans (induction _)

private theorem moved_switchTo [DecidableEq cpus] (moved : Moved sched middle) (chosen : Nat) :
    Moved sched (sched.switchTo middle cpu chosen) := by
  apply moved.trans
  apply Moved.trans (moved_setState middle chosen _)
  · exact .of_tasks rfl rfl
  · decide

theorem moved_execve {event : Nat} (executed : sched.schedExecve task event = some next) :
    Moved sched next := by
  rw [schedExecve] at executed
  cases mode : (sched.tasks task).mode with
  | kernel =>
    rw [mode] at executed
    cases executed
  | user =>
    rw [mode] at executed
    cases executed
    apply Moved.trans (moved_updateEvent sched event _)
    apply moved_updateTask
    · exact fun _ => ⟨rfl, rfl, rfl⟩
    · exact fun _ zombie => by cases zombie

theorem findZombie_congr (tgid tid : Nat)
    (same : ∀ task, (next.tasks task).state = (sched.tasks task).state ∧
      (next.tasks task).tgid = (sched.tasks task).tgid ∧
      (next.tasks task).tid = (sched.tasks task).tid) (queue : List Nat) :
    next.findZombie tgid tid queue = sched.findZombie tgid tid queue := by
  induction queue with
  | nil => rfl
  | cons task rest induction =>
    obtain ⟨state, group, id⟩ := same task
    rw [findZombie, findZombie, state, group, id, induction]

theorem findZombie_cleared (task tid zombie : Nat) (queue : List Nat) :
    (sched.updateTask zombie fun record =>
        { record with wakeupEvent := none }).findZombie
      ((sched.updateTask zombie fun record =>
        { record with wakeupEvent := none }).tasks task).tgid tid queue =
      sched.findZombie (sched.tasks task).tgid tid queue := by
  have same : ∀ other,
      ((sched.updateTask zombie fun record =>
        { record with wakeupEvent := none }).tasks other).state = (sched.tasks other).state ∧
      ((sched.updateTask zombie fun record =>
        { record with wakeupEvent := none }).tasks other).tgid = (sched.tasks other).tgid ∧
      ((sched.updateTask zombie fun record =>
        { record with wakeupEvent := none }).tasks other).tid = (sched.tasks other).tid := by
    intro other
    by_cases isZombie : other = zombie
    · subst other
      simp [updateTask]
    · simp [updateTask, isZombie]
  rw [(same task).2.1]
  exact findZombie_congr (sched.tasks task).tgid tid same queue

section

variable (search : sched.findZombie (sched.tasks task).tgid tid sched.cleanupTasks = some (some zombie))
include search

/-- `sched_wait` takes the zombie that it has found out of the list, also when
its event record is gone. -/
theorem schedWait_reaps : (sched.updateTask zombie fun record =>
      { record with wakeupEvent := none }).schedWait task tid =
        some { sched.updateTask zombie fun record =>
            { record with wakeupEvent := none } with
          cleanupTasks := dlistRemoveEntry sched.cleanupTasks zombie
          live := sched.live.erase zombie } := by
  have listed : (sched.updateTask zombie fun record =>
      { record with wakeupEvent := none }).cleanupTasks = sched.cleanupTasks := rfl
  rw [schedWait, findZombie_cleared, listed, search]
  rfl

theorem schedWait_found {reaped : Sched cpus} (waited : (sched.updateTask zombie fun record =>
      { record with wakeupEvent := none }).schedWait task tid = some reaped) :
    reaped = { sched.updateTask zombie fun record =>
        { record with wakeupEvent := none } with
      cleanupTasks := dlistRemoveEntry sched.cleanupTasks zombie
      live := sched.live.erase zombie } :=
  Option.some.inj (waited.symm.trans (schedWait_reaps search))

end

theorem moved_again [DecidableEq cpus] (result : sched.schedAgain cpu now = some next) :
    Moved sched next := by
  obtain ⟨searched, found, branch⟩ := schedAgain_cases result
  rcases branch with ⟨_, search, rfl⟩ | ⟨curr, _, _, search, rfl⟩
  · obtain ⟨tasks, _, live, _⟩ := activeTaskNextAvailable_spec search
    have moved : Moved sched searched := .of_tasks tasks live
    exact moved_switchTo moved _
  · obtain ⟨tasks, _, live, _⟩ := activeTaskNextAvailable_spec search
    cases found with
    | none => exact moved_switchTo (.of_tasks tasks live) _
    | some task =>
      apply moved_switchTo
      apply (Moved.of_tasks tasks live).trans
      apply Moved.trans (moved_setState searched curr _)
      · exact .of_tasks rfl rfl
      · decide

variable [Fintype cpus]

/-- `sched_add` puts a free record at the end of the active list. -/
theorem schedAdd_spec {record : Task} (added : sched.schedAdd task record = some next) :
    task ∉ sched.live ∧ record.state = .ready ∧ next.live = insert task sched.live ∧
      next.activeTasks = sched.activeTasks ++ [task] ∧
      next.tasks = update sched.tasks task record := by
  rw [schedAdd] at added
  by_cases fresh : task ∉ sched.live ∧ ¬sched.Idle task ∧ record.state = .ready
  · rw [if_pos fresh] at added
    cases added
    exact ⟨fresh.1, fresh.2.2, rfl, rfl, rfl⟩
  · rw [if_neg fresh] at added
    cases added

theorem Sound.running_unique (sound : sched.Sound) {first second : cpus}
    (onFirst : sched.runningTasks first = some task)
    (onSecond : sched.runningTasks second = some task)
    (busy : ¬sched.Idle task) :
    first = second := by
  have counted := sound.counted task busy
  rw [if_pos (sound.running_places onFirst busy).2.2, places] at counted
  have positive := slotCount_pos onFirst
  have once : slotCount sched.runningTasks task = 1 := by omega
  obtain ⟨cpu, _, only⟩ := slotCount_eq_one_iff.mp once
  rw [only first onFirst, only second onSecond]

theorem Sound.updateEvent (sound : sched.Sound) (event : Nat)
    (change : Kevent → Kevent) : (sched.updateEvent event change).Sound :=
  ⟨sound.counted, sound.idleActive, sound.idleCleanup, sound.idleLive, sound.idleOwn,
    sound.activeState, sound.cleanupState, sound.runningState⟩

theorem Sound.updateWakeup (sound : sched.Sound) (task : Nat) (wakeup : Option Nat) :
    (sched.updateTask task fun record =>
      { record with wakeupEvent := wakeup }).Sound := by
  have same : ∀ other,
      (sched.updateTask task fun record =>
        { record with wakeupEvent := wakeup }).stateOf other = sched.stateOf other := by
    intro other
    by_cases isTask : other = task
    · subst other
      simp [stateOf, updateTask]
    · simp [stateOf, updateTask, isTask]
  refine ⟨sound.counted, sound.idleActive, sound.idleCleanup, sound.idleLive,
    sound.idleOwn, ?_, ?_, ?_⟩
  · intro other
    rw [same]
    exact sound.activeState other
  · intro other
    rw [same]
    exact sound.cleanupState other
  · intro cpu other
    rw [same]
    exact sound.runningState cpu other

end Moves

variable {cpus : Type} {sched next : Sched cpus} {cpu : cpus} {queue : List Nat}

private theorem idxOf_erase_lt {other : Nat} (taskMember : task ∈ queue)
    (otherMember : other ∈ queue) (different : other ≠ task)
    (ahead : queue.idxOf task ≤ queue.idxOf other) :
    (queue.erase task).idxOf other < queue.idxOf other := by
  induction queue with
  | nil => cases taskMember
  | cons head rest induction =>
    by_cases isTask : head = task
    · subst head
      rw [erase_cons_head, idxOf_cons_ne _ (Ne.symm different)]
      exact Nat.lt_succ_self _
    · by_cases isOther : head = other
      · subst head
        rw [idxOf_cons_self, idxOf_cons_ne _ isTask] at ahead
        omega
      · have inTask : task ∈ rest := mem_of_ne_of_mem (Ne.symm isTask) taskMember
        have inOther : other ∈ rest := mem_of_ne_of_mem (Ne.symm isOther) otherMember
        rw [idxOf_cons_ne _ isTask, idxOf_cons_ne _ isOther] at ahead
        rw [erase_cons_tail (by simpa using isTask),
          idxOf_cons_ne _ isOther, idxOf_cons_ne _ isOther]
        exact Nat.succ_lt_succ (induction inTask inOther (Nat.le_of_succ_le_succ ahead))

/-- A task that is taken although it does not run: it is ready, or its sleep
is over. -/
def Wakes (sched : Sched cpus) (task : Nat) : Prop :=
  sched.stateOf task = .ready ∨
    sched.stateOf task = .waiting ∧
      ∃ event, (sched.tasks task).wakeupEvent = some event ∧ (sched.events event).type = .sleep

theorem wakes_of_isAvailable (available : sched.isAvailable now task = some true) :
    sched.Wakes task := by
  rw [isAvailable] at available
  cases state : (sched.tasks task).state with
  | ready => exact .inl state
  | waiting =>
    rw [state] at available
    obtain ⟨event, wakeup, due⟩ := map_eq_some_iff.mp available
    simp only [Bool.and_eq_true, decide_eq_true_eq] at due
    exact .inr ⟨state, event, wakeup, due.1.1⟩
  | running => simp [state] at available
  | stopped => simp [state] at available
  | zombie => simp [state] at available
  | dead => simp [state] at available

theorem findAvailable_isSome (now : Nat) (events : ∀ task ∈ queue, sched.stateOf task = .waiting →
      (sched.tasks task).wakeupEvent ≠ none) :
    ∃ found, sched.findAvailable now queue = some found := by
  induction queue with
  | nil => exact ⟨none, rfl⟩
  | cons head rest induction =>
    rw [findAvailable]
    cases available : sched.isAvailable now head with
    | none =>
      exfalso
      rw [isAvailable] at available
      cases state : (sched.tasks head).state with
      | waiting =>
        rw [state] at available
        exact events head mem_cons_self state (map_eq_none_iff.mp available)
      | ready => simp [state] at available
      | running => simp [state] at available
      | stopped => simp [state] at available
      | zombie => simp [state] at available
      | dead => simp [state] at available
    | some answer =>
      cases answer with
      | true => exact ⟨some head, rfl⟩
      | false =>
        exact induction fun task member =>
          events task (mem_cons_of_mem head member)

/-- The event of a sleeper that is taken is cleared, and nothing else. -/
theorem clearSleep_spec (sched : Sched cpus) (task : Nat) :
    (sched.clearSleep task).tasks = sched.tasks ∧
      (sched.clearSleep task).activeTasks = sched.activeTasks ∧
      ∀ event, (sched.clearSleep task).events event = sched.events event ∨
        sched.stateOf task = .waiting ∧ (sched.tasks task).wakeupEvent = some event ∧
          (sched.clearSleep task).events event =
            { sched.events event with type := .unknown, timestamp := 0 } := by
  rw [clearSleep]
  split
  · rename_i event state wakeup
    refine ⟨rfl, rfl, ?_⟩
    intro other
    by_cases same : other = event
    · subst other
      right
      exact ⟨state, wakeup, update_self _ _ _⟩
    · left
      exact update_of_ne same _ _
  · exact ⟨rfl, rfl, fun event => .inl rfl⟩

/-- What the search of `sched_again` has found. -/
structure Takes (sched searched : Sched cpus) (task : Nat) : Prop where
  member : task ∈ sched.activeTasks
  wakes : sched.Wakes task
  tasks : searched.tasks = sched.tasks
  queue : searched.activeTasks = sched.activeTasks.erase task
  events : ∀ event, searched.events event = sched.events event ∨
    sched.stateOf task = .waiting ∧ (sched.tasks task).wakeupEvent = some event ∧
      searched.events event = { sched.events event with type := .unknown, timestamp := 0 }
  order : ∀ other ∈ sched.activeTasks, sched.stateOf other = .ready →
    other ≠ task → searched.activeTasks.idxOf other < sched.activeTasks.idxOf other

theorem isAvailable_of_ready (ready : sched.stateOf task = .ready) :
    sched.isAvailable now task = some true := by
  have state : (sched.tasks task).state = .ready := ready
  rw [isAvailable, state]

variable {searched : Sched cpus}

theorem takes_of_search (search : sched.activeTaskNextAvailable now = some (searched, some task)) :
    Takes sched searched task := by
  rcases activeTaskNextAvailable_cases search with
    ⟨isNone, _⟩ | ⟨taken, passed, rest, same, isQueue, rfl, available, skipped⟩
  · cases isNone
  · cases same
    obtain ⟨tasks, active, events⟩ := clearSleep_spec sched task
    have member : task ∈ sched.activeTasks := by simp [isQueue]
    have behind : ∀ {other}, sched.isAvailable now other = some true → other ∉ passed := by
      intro other isAvailable inPassed
      rw [skipped other inPassed] at isAvailable
      cases isAvailable
    have queue : dlistRemoveEntry (sched.clearSleep task).activeTasks
        task = sched.activeTasks.erase task := by
      rw [active]
      rfl
    refine ⟨member, wakes_of_isAvailable available, tasks, queue, events, ?_⟩
    intro other otherMember ready different
    rw [queue]
    apply idxOf_erase_lt member otherMember different
    rw [isQueue, idxOf_append, idxOf_append, if_neg (behind available),
      if_neg (behind (isAvailable_of_ready ready)), idxOf_cons_self]
    exact Nat.add_le_add_right (Nat.zero_le _) _

theorem none_of_search (search : sched.activeTaskNextAvailable now = some (searched, none)) :
    searched = sched ∧ ∀ task ∈ sched.activeTasks, sched.stateOf task ≠ .ready := by
  rcases activeTaskNextAvailable_cases search with ⟨_, same, passed⟩ | ⟨taken, _, _, same, _⟩
  · refine ⟨same, ?_⟩
    intro task member ready
    have available := passed task member
    rw [isAvailable_of_ready ready] at available
    cases available
  · cases same

/-- What a switch on a processor to a chosen task does. -/
structure Resched (sched next : Sched cpus) (cpu : cpus) (chosen : Nat) :
    Prop where
  wakeups : ∀ task, (next.tasks task).wakeupEvent = (sched.tasks task).wakeupEvent
  chosenState : next.stateOf chosen = .running
  others : ∀ task, task ≠ chosen → next.stateOf task = sched.stateOf task ∨
    sched.current cpu = some task ∧ sched.stateOf task = .running ∧ next.stateOf task = .ready
  active : ∀ task ∈ next.activeTasks, task ∈ sched.activeTasks ∨ sched.current cpu = some task
  origin : chosen = sched.idleTasks cpu ∨
    sched.current cpu = some chosen ∧ sched.stateOf chosen = .running ∨
    (chosen ∈ sched.activeTasks ∨ sched.current cpu = some chosen) ∧ sched.Wakes chosen
  events : ∀ event, next.events event = sched.events event ∨
    (chosen ∈ sched.activeTasks ∨ sched.current cpu = some chosen) ∧
      sched.stateOf chosen = .waiting ∧
      (sched.tasks chosen).wakeupEvent = some event ∧
      next.events event = { sched.events event with type := .unknown, timestamp := 0 }
  kept : ∀ task ∈ sched.activeTasks, task ≠ chosen → task ∈ next.activeTasks
  order : ∀ task ∈ sched.activeTasks, sched.stateOf task = .ready →
    task ≠ chosen → next.activeTasks.idxOf task < sched.activeTasks.idxOf task
  running : next.runningTasks cpu = some chosen

variable [DecidableEq cpus]

private theorem resched_state (sched switched : Sched cpus) (cpu : cpus) (chosen : Nat) :
    (∀ task, ((sched.switchTo switched cpu chosen).tasks task).wakeupEvent =
        (switched.tasks task).wakeupEvent) ∧
      (sched.switchTo switched cpu chosen).stateOf chosen = .running ∧
      ∀ task, task ≠ chosen →
        (sched.switchTo switched cpu chosen).stateOf task = switched.stateOf task := by
  refine ⟨?_, ?_, ?_⟩
  · intro task
    by_cases same : task = chosen
    · subst task
      simp [switchTo, setState, updateTask]
    · simp [switchTo, setState, updateTask, same]
  · simp [switchTo, stateOf, setState, updateTask]
  · intro task different
    simp [switchTo, stateOf, setState, updateTask, different]

/-- A task from the active list, or the current task that was put there. -/
private theorem resched_of_takes {pushed : Option Nat}
    (current : ∀ other ∈ pushed, sched.current cpu = some other)
    (takes : Takes (sched.pushedBack pushed) searched task) :
    Resched sched (sched.switchTo searched cpu task) cpu task := by
  obtain ⟨wakeups, chosenState, others⟩ := resched_state sched searched cpu task
  have sameState : ∀ other, searched.stateOf other = sched.stateOf other := by
    intro other
    rw [stateOf, takes.tasks]
    rfl
  have inQueue : ∀ other ∈ (sched.pushedBack pushed).activeTasks,
      other ∈ sched.activeTasks ∨ sched.current cpu = some other := by
    intro other member
    rcases mem_append.mp member with before | isPushed
    · exact .inl before
    · exact .inr (current other (mem_toList.mp isPushed))
  refine ⟨?_, chosenState, ?_, ?_, ?_, ?_, ?_, ?_, update_self _ _ _⟩
  · intro other
    rw [wakeups, takes.tasks]
    rfl
  · intro other different
    exact .inl ((others other different).trans (sameState other))
  · intro other member
    have before : other ∈ searched.activeTasks := member
    rw [takes.queue] at before
    exact inQueue other (mem_of_mem_erase before)
  · exact .inr (.inr ⟨inQueue task takes.member, takes.wakes⟩)
  · intro event
    rcases takes.events event with same | cleared
    · exact .inl same
    · exact .inr ⟨inQueue task takes.member, cleared⟩
  · intro other member different
    change other ∈ searched.activeTasks
    rw [takes.queue, mem_erase_of_ne different]
    exact mem_append_left _ member
  · intro other member ready different
    have before := takes.order other (mem_append_left _ member) ready different
    rw [pushedBack, idxOf_append_of_mem member] at before
    exact before

private theorem Resched.pushed {curr : Nat} (isCurrent : sched.current cpu = some curr)
    (isRunning : sched.stateOf curr = .running)
    (resched : Resched sched (sched.switchTo searched cpu task) cpu task) :
    Resched sched
      (sched.switchTo ((searched.setState curr .ready).activeTaskFifoPush curr) cpu task) cpu
      task := by
  obtain ⟨wakeups, chosenState, others⟩ := resched_state sched
    ((searched.setState curr .ready).activeTaskFifoPush curr) cpu task
  have before := resched_state sched searched cpu task
  refine ⟨?_, chosenState, ?_, ?_, resched.origin, resched.events, ?_, ?_, resched.running⟩
  · intro other
    rw [wakeups, ← resched.wakeups, before.1]
    by_cases same : other = curr
    · subst other
      simp [activeTaskFifoPush, setState, updateTask]
    · simp [activeTaskFifoPush, setState, updateTask, same]
  · intro other different
    rw [others other different]
    by_cases same : other = curr
    · subst other
      right
      refine ⟨isCurrent, isRunning, ?_⟩
      simp [stateOf, activeTaskFifoPush, setState, updateTask]
    · have unchanged : ((searched.setState curr .ready).activeTaskFifoPush
          curr).stateOf other = searched.stateOf other := by
        simp [stateOf, activeTaskFifoPush, setState, updateTask, same]
      rw [unchanged, ← before.2.2 other different]
      exact resched.others other different
  · intro other member
    have inList : other ∈ searched.activeTasks ++ [curr] := member
    rcases mem_append.mp inList with inSearched | isCurr
    · exact resched.active other inSearched
    · rw [mem_singleton] at isCurr
      subst other
      exact .inr isCurrent
  · intro other member different
    exact mem_append_left [curr] (resched.kept other member different)
  · intro other member ready different
    have inList : other ∈ searched.activeTasks := resched.kept other member different
    change (searched.activeTasks ++ [curr]).idxOf other < _
    rw [idxOf_append_of_mem inList]
    exact resched.order other member ready different

/-- Nobody was found: the current task goes on, or the idle task runs. -/
private theorem resched_of_none {pushed : Option Nat} {chosen : Nat}
    (current : ∀ other ∈ pushed, sched.current cpu = some other)
    (nobody : ∀ task ∈ (sched.pushedBack pushed).activeTasks, sched.stateOf task ≠ .ready)
    (origin : chosen = sched.idleTasks cpu ∨
      sched.current cpu = some chosen ∧ sched.stateOf chosen = .running) :
    Resched sched (sched.switchTo (sched.pushedBack pushed) cpu chosen) cpu chosen := by
  obtain ⟨wakeups, chosenState, others⟩ := resched_state sched (sched.pushedBack pushed) cpu chosen
  refine ⟨wakeups, chosenState, ?_, ?_, ?_, ?_, ?_, ?_, update_self _ _ _⟩
  · intro other different
    exact .inl (others other different)
  · intro other member
    rcases mem_append.mp member with before | isPushed
    · exact .inl before
    · exact .inr (current other (mem_toList.mp isPushed))
  · rcases origin with isIdle | isCurrent
    · exact .inl isIdle
    · exact .inr (.inl isCurrent)
  · exact fun event => .inl rfl
  · exact fun other member _ => mem_append_left _ member
  · intro other member ready
    exact absurd ready (nobody other (mem_append_left _ member))

/-- Every branch of `sched_again` is such a switch. -/
theorem schedAgain_resched (result : sched.schedAgain cpu now = some next) :
    ∃ chosen, Resched sched next cpu chosen := by
  obtain ⟨searched, found, branch⟩ := schedAgain_cases result
  rcases branch with ⟨_, search, rfl⟩ | ⟨curr, isCurrent, isRunning, search, rfl⟩
  · cases found with
    | none =>
      obtain ⟨rfl, nobody⟩ := none_of_search search
      exact ⟨_, resched_of_none (fun _ isCurrent => isCurrent) nobody (.inl rfl)⟩
    | some task =>
      exact ⟨task, resched_of_takes (fun _ isCurrent => isCurrent) (takes_of_search search)⟩
  · have nothing : sched.pushedBack none = sched := by simp [pushedBack]
    rw [← nothing] at search
    cases found with
    | none =>
      obtain ⟨rfl, nobody⟩ := none_of_search search
      exact ⟨curr, resched_of_none (by simp) nobody (.inr ⟨isCurrent, isRunning⟩)⟩
    | some task =>
      exact ⟨task, Resched.pushed isCurrent isRunning
        (resched_of_takes (by simp) (takes_of_search search))⟩

/-- A switch follows no null event when nobody waits without one. -/
theorem schedAgain_isSome (now : Nat) (events : ∀ task, task ∈ sched.activeTasks ∨
      sched.current cpu = some task → sched.stateOf task = .waiting →
        (sched.tasks task).wakeupEvent ≠ none) :
    ∃ next, sched.schedAgain cpu now = some next := by
  have searches : ∀ returned : Sched cpus, returned.tasks = sched.tasks →
      (∀ task ∈ returned.activeTasks, task ∈ sched.activeTasks ∨ sched.current cpu = some task) →
      ∃ result, returned.activeTaskNextAvailable now = some result := by
    intro returned tasks members
    have each : ∀ task ∈ returned.activeTasks,
        returned.stateOf task = .waiting → (returned.tasks task).wakeupEvent ≠ none := by
      intro task member waiting
      rw [stateOf, tasks] at waiting
      rw [tasks]
      exact events task (members task member) waiting
    obtain ⟨found, search⟩ := findAvailable_isSome now each
    rw [activeTaskNextAvailable, search]
    cases found with
    | none => exact ⟨_, rfl⟩
    | some task => exact ⟨_, rfl⟩
  rw [schedAgain]
  cases isCurrent : sched.current cpu with
  | none =>
    obtain ⟨result, search⟩ := searches sched rfl fun _ member =>
      .inl member
    simp only [search, map_some]
    exact ⟨_, rfl⟩
  | some curr =>
    by_cases isRunning : (sched.tasks curr).state = .running
    · obtain ⟨result, search⟩ := searches sched rfl fun _ member =>
        .inl member
      simp only [isRunning, decide_true, if_true, search, map_some]
      exact ⟨_, rfl⟩
    · obtain ⟨result, search⟩ := searches (sched.activeTaskFifoPush curr)
        rfl (by
          intro task member
          rcases mem_append.mp member with before | isCurr
          · exact .inl before
          · rw [mem_singleton] at isCurr
            rw [isCurr]
            exact .inr isCurrent)
      simp only [isRunning, decide_false, Bool.false_eq_true, if_false, search, map_some]
      exact ⟨_, rfl⟩

end SeekOs.Proc.Sched
