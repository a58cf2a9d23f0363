import SeekOs.Proc.Sched

/-!
# Every task is in exactly one place

The places of a task are the processors that run it, its entries in the active
list and its entries in the cleanup list.  Each step moves a task from one
place to another, so the number of places of a live task stays one.
-/

namespace SeekOs.Proc.Sched

open SeekOs.Base SeekOs.Lib Function List Option

variable {cpus : Type} {sched next : Sched cpus}
variable {task now : Nat} {cpu : cpus} {queue : List Nat}

def places [Fintype cpus] (sched : Sched cpus) (task : Nat) : Nat :=
  slotCount sched.runningTasks task + sched.activeTasks.count task + sched.cleanupTasks.count task

def stateOf (sched : Sched cpus) (task : Nat) : TaskState :=
  (sched.tasks task).state

def Runnable (state : TaskState) : Prop :=
  state = .ready ∨ state = .running ∨ state = .waiting

def Queued (state : TaskState) : Prop :=
  state = .ready ∨ state = .waiting

structure Sound [Fintype cpus] (sched : Sched cpus) : Prop where
  counted : ∀ task, ¬sched.Idle task → sched.places task = if task ∈ sched.live then 1 else 0
  idleActive : ∀ task, sched.Idle task → task ∉ sched.activeTasks
  idleCleanup : ∀ task, sched.Idle task → task ∉ sched.cleanupTasks
  idleLive : ∀ task, sched.Idle task → task ∉ sched.live
  idleOwn : ∀ cpu task, sched.runningTasks cpu = some task →
    sched.Idle task → task = sched.idleTasks cpu
  activeState : ∀ task ∈ sched.activeTasks, Queued (sched.stateOf task)
  cleanupState : ∀ task ∈ sched.cleanupTasks, sched.stateOf task = .zombie
  runningState : ∀ cpu task, sched.runningTasks cpu = some task →
    ¬sched.Idle task → Runnable (sched.stateOf task)

theorem current_eq_some (isCurrent : sched.current cpu = some task) :
    sched.runningTasks cpu = some task ∧ task ≠ sched.idleTasks cpu := by
  unfold current at isCurrent
  cases running : sched.runningTasks cpu with
  | none => simp [running] at isCurrent
  | some found =>
    by_cases idle : found = sched.idleTasks cpu
    · simp [running, idle] at isCurrent
    · simp only [running, idle, if_false, Option.some.injEq] at isCurrent
      subst isCurrent
      exact ⟨rfl, idle⟩

theorem current_eq_none (isCurrent : sched.current cpu = none) :
    sched.runningTasks cpu = none ∨ sched.runningTasks cpu = some (sched.idleTasks cpu) := by
  unfold current at isCurrent
  cases running : sched.runningTasks cpu with
  | none => exact .inl rfl
  | some found =>
    by_cases idle : found = sched.idleTasks cpu
    · exact .inr (by rw [idle])
    · simp [running, idle] at isCurrent

namespace Sound

variable [Fintype cpus]
variable {task : Nat} {cpu : cpus}

section

variable (sound : sched.Sound)

include sound

/-- A busy task that is somewhere was added, and is nowhere else. -/
theorem only_place (busy : ¬sched.Idle task) (somewhere : slotCount sched.runningTasks task +
      sched.activeTasks.count task + sched.cleanupTasks.count task ≠ 0) :
    task ∈ sched.live ∧ slotCount sched.runningTasks task +
      sched.activeTasks.count task + sched.cleanupTasks.count task = 1 := by
  have counted := sound.counted task busy
  by_cases isLive : task ∈ sched.live
  · rw [if_pos isLive] at counted
    exact ⟨isLive, counted⟩
  · rw [if_neg isLive] at counted
    exact absurd counted somewhere

theorem running_places (running : sched.runningTasks cpu = some task) (busy : ¬sched.Idle task) :
    task ∉ sched.activeTasks ∧ task ∉ sched.cleanupTasks ∧ task ∈ sched.live := by
  have positive := slotCount_pos running
  obtain ⟨isLive, once⟩ := sound.only_place busy (by omega)
  refine ⟨?_, ?_, isLive⟩
  · apply count_eq_zero.mp
    omega
  · apply count_eq_zero.mp
    omega

theorem active_places (member : task ∈ sched.activeTasks) :
    ¬sched.Idle task ∧ sched.activeTasks.count task = 1 ∧ task ∉ sched.cleanupTasks ∧
      ∀ cpu, sched.runningTasks cpu ≠ some task := by
  have busy : ¬sched.Idle task := fun idle => sound.idleActive task idle member
  have positive := count_pos_iff.mpr member
  obtain ⟨isLive, once⟩ := sound.only_place busy (by omega)
  refine ⟨busy, by omega, ?_, ?_⟩
  · apply count_eq_zero.mp
    omega
  · exact slotCount_eq_zero_iff.mp (by omega)

theorem active_live (member : task ∈ sched.activeTasks) : task ∈ sched.live := by
  have busy : ¬sched.Idle task := fun idle => sound.idleActive task idle member
  have positive := count_pos_iff.mpr member
  exact (sound.only_place busy (by omega)).1

theorem live_place (isLive : task ∈ sched.live) :
    task ∈ sched.activeTasks ∨ task ∈ sched.cleanupTasks ∨
      ∃ cpu, sched.current cpu = some task := by
  have busy : ¬sched.Idle task := fun idle => sound.idleLive task idle isLive
  have counted := sound.counted task busy
  rw [if_pos isLive] at counted
  unfold places at counted
  by_contra nowhere
  push Not at nowhere
  obtain ⟨notActive, notCleanup, notCurrent⟩ := nowhere
  have notRunning : ∀ cpu, sched.runningTasks cpu ≠ some task := by
    intro cpu running
    apply notCurrent cpu
    rw [current, running]
    exact if_neg fun isIdle => busy ⟨cpu, isIdle.symm⟩
  rw [count_eq_zero.mpr notActive, count_eq_zero.mpr notCleanup,
    slotCount_eq_zero_iff.mpr notRunning] at counted
  cases counted

theorem cleanup_places (member : task ∈ sched.cleanupTasks) :
    ¬sched.Idle task ∧ sched.cleanupTasks.count task = 1 ∧
      task ∈ sched.live ∧ task ∉ sched.activeTasks ∧
      ∀ cpu, sched.runningTasks cpu ≠ some task := by
  have busy : ¬sched.Idle task := fun idle => sound.idleCleanup task idle member
  have positive := count_pos_iff.mpr member
  obtain ⟨isLive, once⟩ := sound.only_place busy (by omega)
  refine ⟨busy, by omega, isLive, ?_, ?_⟩
  · apply count_eq_zero.mp
    omega
  · exact slotCount_eq_zero_iff.mp (by omega)

/-- A running task that is not idle on its own processor is busy. -/
theorem current_busy (isCurrent : sched.current cpu = some task) :
    sched.runningTasks cpu = some task ∧ ¬sched.Idle task := by
  obtain ⟨running, notOwn⟩ := current_eq_some isCurrent
  refine ⟨running, ?_⟩
  intro idle
  exact notOwn (sound.idleOwn cpu task running idle)

theorem current_alive (isCurrent : sched.current cpu = some task) :
    task ∈ sched.live ∧ sched.stateOf task ≠ .zombie := by
  obtain ⟨running, busy⟩ := sound.current_busy isCurrent
  refine ⟨(sound.running_places running busy).2.2, ?_⟩
  intro zombie
  have state := sound.runningState cpu task running busy
  rw [zombie] at state
  rcases state with ready | isRunning | waiting
  · cases ready
  · cases isRunning
  · cases waiting

theorem mem_cleanup_iff :
    task ∈ sched.cleanupTasks ↔ task ∈ sched.live ∧ sched.stateOf task = .zombie := by
  constructor
  · intro member
    exact ⟨(sound.cleanup_places member).2.2.1, sound.cleanupState task member⟩
  · rintro ⟨isLive, zombie⟩
    rcases sound.live_place isLive with active | member | ⟨cpu, isCurrent⟩
    · have queued := sound.activeState task active
      rw [zombie] at queued
      rcases queued with ready | waiting
      · cases ready
      · cases waiting
    · exact member
    · exact absurd zombie (sound.current_alive isCurrent).2

end

end Sound

/-- A task is where it was, in the same state. -/
structure Stays (sched next : Sched cpus) (task : Nat) : Prop where
  running : ∀ cpu, next.runningTasks cpu = some task ↔ sched.runningTasks cpu = some task
  active : next.activeTasks.count task = sched.activeTasks.count task
  cleanup : next.cleanupTasks.count task = sched.cleanupTasks.count task
  live : task ∈ next.live ↔ task ∈ sched.live
  state : next.stateOf task = sched.stateOf task

theorem Stays.of_lists (running : next.runningTasks = sched.runningTasks)
    (active : next.activeTasks = sched.activeTasks)
    (cleanup : next.cleanupTasks = sched.cleanupTasks)
    (live : next.live = sched.live)
    (state : next.stateOf task = sched.stateOf task) : Stays sched next task := by
  constructor
  · intro cpu
    rw [running]
  · rw [active]
  · rw [cleanup]
  · rw [live]
  · exact state

theorem Stays.mem_active (stays : Stays sched next task) :
    task ∈ next.activeTasks ↔ task ∈ sched.activeTasks := by
  rw [← count_pos_iff, stays.active, count_pos_iff]

theorem Stays.mem_cleanup (stays : Stays sched next task) :
    task ∈ next.cleanupTasks ↔ task ∈ sched.cleanupTasks := by
  rw [← count_pos_iff, stays.cleanup, count_pos_iff]

namespace Sound

variable [Fintype cpus]

/-- A step that moves one busy task, or changes its state, keeps the invariant
if it holds of that task. -/
theorem move (sound : sched.Sound) (busy : ¬sched.Idle task)
    (idle : next.idleTasks = sched.idleTasks)
    (others : ∀ other, other ≠ task → Stays sched next other)
    (counted : next.places task = if task ∈ next.live then 1 else 0)
    (activeState : task ∈ next.activeTasks → Queued (next.stateOf task))
    (cleanupState : task ∈ next.cleanupTasks → next.stateOf task = .zombie)
    (runningState : ∀ cpu, next.runningTasks cpu = some task → Runnable (next.stateOf task)) :
    next.Sound := by
  have sameIdle : ∀ other, next.Idle other ↔ sched.Idle other := by
    intro other
    unfold Idle
    rw [idle]
  have idleStays : ∀ other, next.Idle other → sched.Idle other ∧ Stays sched next other := by
    intro other isIdle
    rw [sameIdle] at isIdle
    refine ⟨isIdle, others other ?_⟩
    rintro rfl
    exact busy isIdle
  constructor
  · intro other otherBusy
    rw [sameIdle] at otherBusy
    by_cases same : other = task
    · rw [same]
      exact counted
    · obtain ⟨running, active, cleanup, live, _⟩ := others other same
      have before := sound.counted other otherBusy
      simp only [places, slotCount, running, active, cleanup, live]
      exact before
  · intro other isIdle
    obtain ⟨wasIdle, stays⟩ := idleStays other isIdle
    rw [stays.mem_active]
    exact sound.idleActive other wasIdle
  · intro other isIdle
    obtain ⟨wasIdle, stays⟩ := idleStays other isIdle
    rw [stays.mem_cleanup]
    exact sound.idleCleanup other wasIdle
  · intro other isIdle
    obtain ⟨wasIdle, stays⟩ := idleStays other isIdle
    rw [stays.live]
    exact sound.idleLive other wasIdle
  · intro cpu other isRunning isIdle
    obtain ⟨wasIdle, stays⟩ := idleStays other isIdle
    rw [idle]
    exact sound.idleOwn cpu other ((stays.running cpu).mp isRunning) wasIdle
  · intro other member
    by_cases same : other = task
    · subst other
      exact activeState member
    · have stays := others other same
      rw [stays.state]
      exact sound.activeState other (stays.mem_active.mp member)
  · intro other member
    by_cases same : other = task
    · subst other
      exact cleanupState member
    · have stays := others other same
      rw [stays.state]
      exact sound.cleanupState other (stays.mem_cleanup.mp member)
  · intro cpu other isRunning otherBusy
    rw [sameIdle] at otherBusy
    by_cases same : other = task
    · subst other
      exact runningState cpu isRunning
    · have stays := others other same
      rw [stays.state]
      exact sound.runningState cpu other ((stays.running cpu).mp isRunning) otherBusy

theorem of_running_state (sound : sched.Sound) (isCurrent : sched.current cpu = some task)
    (idle : next.idleTasks = sched.idleTasks)
    (running : next.runningTasks = sched.runningTasks)
    (active : next.activeTasks = sched.activeTasks)
    (cleanup : next.cleanupTasks = sched.cleanupTasks)
    (live : next.live = sched.live) (others : ∀ other, other ≠ task →
      next.stateOf other = sched.stateOf other)
    (runnable : Runnable (next.stateOf task)) : next.Sound := by
  obtain ⟨isRunning, busy⟩ := sound.current_busy isCurrent
  obtain ⟨notActive, notCleanup, _⟩ := sound.running_places isRunning busy
  apply sound.move busy idle
  · intro other different
    exact .of_lists running active cleanup live (others other different)
  · rw [places, running, active, cleanup, live]
    exact sound.counted task busy
  · intro member
    exact absurd (active ▸ member) notActive
  · intro member
    exact absurd (cleanup ▸ member) notCleanup
  · exact fun _ _ => runnable

end Sound

section Again

/-- The search goes past the tasks that are not available. -/
theorem findAvailable_spec {found : Option Nat}
    (search : sched.findAvailable now queue = some found) :
    ∃ passed rest, queue = passed ++ rest ∧ found = rest.head? ∧
      (∀ other ∈ passed, sched.isAvailable now other = some false) ∧
      ∀ task ∈ rest.head?, sched.isAvailable now task = some true := by
  induction queue with
  | nil =>
    cases search
    exact ⟨[], [], rfl, rfl, by simp, by simp⟩
  | cons head rest induction =>
    rw [findAvailable] at search
    cases available : sched.isAvailable now head with
    | none => simp [available] at search
    | some answer =>
      simp only [available] at search
      cases answer with
      | true =>
        cases search
        exact ⟨[], head :: rest, rfl, rfl, by simp, by simpa using available⟩
      | false =>
        obtain ⟨passed, later, rfl, same, skipped, first⟩ := induction search
        exact ⟨head :: passed, later, rfl, same, forall_mem_cons.mpr ⟨available, skipped⟩, first⟩

theorem clearSleep_eq (sched : Sched cpus) (task : Nat) :
    ∃ events, sched.clearSleep task = { sched with events := events } := by
  unfold clearSleep
  split
  · exact ⟨_, rfl⟩
  · exact ⟨_, rfl⟩

section

variable {searched : Sched cpus} {found : Option Nat}
  (result : sched.activeTaskNextAvailable now = some (searched, found))
include result

theorem activeTaskNextAvailable_cases :
    (found = none ∧ searched = sched ∧
      ∀ task ∈ sched.activeTasks, sched.isAvailable now task = some false) ∨
    ∃ task passed rest, found = some task ∧ sched.activeTasks = passed ++ task :: rest ∧
      searched = { sched.clearSleep task with
        activeTasks := dlistRemoveEntry (sched.clearSleep task).activeTasks task } ∧
      sched.isAvailable now task = some true ∧
      ∀ other ∈ passed, sched.isAvailable now other = some false := by
  unfold activeTaskNextAvailable at result
  cases search : sched.findAvailable now sched.activeTasks with
  | none => simp [search] at result
  | some answer =>
    obtain ⟨passed, rest, isQueue, rfl, skipped, available⟩ := findAvailable_spec search
    simp only [search] at result
    cases rest with
    | nil =>
      cases result
      rw [append_nil] at isQueue
      exact .inl ⟨rfl, rfl, isQueue ▸ skipped⟩
    | cons task rest =>
      cases result
      exact .inr ⟨task, passed, rest, rfl, isQueue, rfl, available task rfl, skipped⟩

theorem activeTaskNextAvailable_spec :
    searched.tasks = sched.tasks ∧ searched.cleanupTasks = sched.cleanupTasks ∧
      searched.live = sched.live ∧ searched.idleTasks = sched.idleTasks ∧
      (∀ task, searched.activeTasks.count task + holds found task = sched.activeTasks.count task) ∧
      ∀ task, found = some task → task ∈ sched.activeTasks := by
  rcases activeTaskNextAvailable_cases result with
    ⟨rfl, rfl, _⟩ | ⟨task, passed, rest, rfl, isQueue, rfl, _⟩
  · exact ⟨rfl, rfl, rfl, rfl, fun _ => rfl, fun _ same => by cases same⟩
  · obtain ⟨events, cleared⟩ := clearSleep_eq sched task
    have member : task ∈ sched.activeTasks := by simp [isQueue]
    rw [cleared]
    refine ⟨rfl, rfl, rfl, rfl, count_erase_token member, ?_⟩
    intro other same
    cases same
    exact member

end

theorem holds_current (busy : ¬sched.Idle task) :
    holds (sched.runningTasks cpu) task = holds (sched.current cpu) task := by
  cases isCurrent : sched.current cpu with
  | some curr => rw [(current_eq_some isCurrent).1]
  | none =>
    apply holds_of_ne
    intro running
    rcases current_eq_none isCurrent with nothing | idle
    · rw [nothing] at running
      cases running
    · rw [idle] at running
      exact busy ⟨cpu, Option.some.inj running⟩

theorem holds_idle (busy : ¬sched.Idle task) : holds (some (sched.idleTasks cpu)) task = 0 := by
  apply holds_of_ne
  intro same
  exact busy ⟨cpu, Option.some.inj same⟩

variable [DecidableEq cpus] {pushed taken : Option Nat} {chosen : Nat}

/-- What the locked section of `sched_again` does: it may push the current
task, may take a task from the active list, and switches to a chosen task. -/
structure Switched (sched next : Sched cpus) (cpu : cpus)
    (pushed taken : Option Nat) (chosen : Nat) : Prop where
  idle : next.idleTasks = sched.idleTasks
  cleanup : next.cleanupTasks = sched.cleanupTasks
  live : next.live = sched.live
  running : next.runningTasks = update sched.runningTasks cpu (some chosen)
  active : ∀ task, next.activeTasks.count task + holds taken task =
    sched.activeTasks.count task + holds pushed task
  balance : ∀ task, ¬sched.Idle task →
    holds (sched.runningTasks cpu) task + holds taken task =
      holds (some chosen) task + holds pushed task
  chosenState : next.stateOf chosen = .running
  pushedState : ∀ task, pushed = some task → task ≠ chosen →
    next.stateOf task = .ready ∨
      (next.stateOf task = sched.stateOf task ∧ sched.stateOf task ≠ .running)
  otherState : ∀ task, task ≠ chosen → pushed ≠ some task → next.stateOf task = sched.stateOf task
  pushedCurrent : ∀ task, pushed = some task → sched.current cpu = some task
  chosenOwn : sched.Idle chosen → chosen = sched.idleTasks cpu

/-- The end of `sched_again`: the processor switches to a task. -/
def switchTo (sched switched : Sched cpus) (cpu : cpus) (next : Nat) : Sched cpus :=
  { switched.setState next .running with
    runningTasks := update sched.runningTasks cpu (some next) }

/-- The active list with a task put back at its end. -/
def pushedBack (sched : Sched cpus) (pushed : Option Nat) : Sched cpus :=
  { sched with activeTasks := sched.activeTasks ++ pushed.toList }

/-- The branches of `sched_again`: a current task that does not run is put back
before the search, and one that runs goes on unless the search finds another. -/
theorem schedAgain_cases (result : sched.schedAgain cpu now = some next) : ∃ searched found,
      ((∀ curr ∈ sched.current cpu, sched.stateOf curr ≠ .running) ∧
        (sched.pushedBack (sched.current cpu)).activeTaskNextAvailable now =
          some (searched, found) ∧
        next = sched.switchTo searched cpu (found.getD (sched.idleTasks cpu))) ∨
      ∃ curr, sched.current cpu = some curr ∧ sched.stateOf curr = .running ∧
        sched.activeTaskNextAvailable now = some (searched, found) ∧
        next = match found with
          | none => sched.switchTo searched cpu curr
          | some task =>
            sched.switchTo ((searched.setState curr .ready).activeTaskFifoPush curr) cpu task := by
  unfold schedAgain at result
  cases isCurrent : sched.current cpu with
  | none =>
    simp only [isCurrent, map_eq_some_iff, Prod.exists] at result
    obtain ⟨searched, found, search, rfl⟩ := result
    refine ⟨searched, found, .inl ⟨by simp, ?_, ?_⟩⟩
    · simpa [pushedBack] using search
    · cases found <;> rfl
  | some curr =>
    by_cases isRunning : (sched.tasks curr).state = .running
    · simp only [isCurrent, isRunning, decide_true, if_true, map_eq_some_iff, Prod.exists] at result
      obtain ⟨searched, found, search, rfl⟩ := result
      refine ⟨searched, found, .inr ⟨curr, rfl, isRunning, search, ?_⟩⟩
      cases found <;> rfl
    · simp only [isCurrent, isRunning, decide_false, Bool.false_eq_true,
        if_false, map_eq_some_iff, Prod.exists] at result
      obtain ⟨searched, found, search, rfl⟩ := result
      refine ⟨searched, found, .inl ⟨?_, search, ?_⟩⟩
      · intro other isCurr
        cases isCurr
        exact isRunning
      · cases found <;> rfl

/-- The last part of `sched_again`, common to all of its branches. -/
theorem switched_of_choice {switched : Sched cpus} (idle : switched.idleTasks = sched.idleTasks)
    (cleanup : switched.cleanupTasks = sched.cleanupTasks)
    (live : switched.live = sched.live)
    (active : ∀ task, switched.activeTasks.count task + holds taken task =
      sched.activeTasks.count task + holds pushed task)
    (balance : ∀ task, ¬sched.Idle task →
      holds (sched.runningTasks cpu) task + holds taken task =
        holds (some chosen) task + holds pushed task)
    (pushedState : ∀ task, pushed = some task →
      switched.stateOf task = .ready ∨
        (switched.stateOf task = sched.stateOf task ∧ sched.stateOf task ≠ .running))
    (otherState : ∀ task, pushed ≠ some task → switched.stateOf task = sched.stateOf task)
    (pushedCurrent : ∀ task, pushed = some task → sched.current cpu = some task)
    (chosenOwn : sched.Idle chosen → chosen = sched.idleTasks cpu) :
    Switched sched (sched.switchTo switched cpu chosen) cpu pushed taken chosen := by
  have others : ∀ task, task ≠ chosen →
      (sched.switchTo switched cpu chosen).stateOf task = switched.stateOf task := by
    intro task different
    simp [switchTo, stateOf, setState, updateTask, different]
  refine
    { idle := idle, cleanup := cleanup, live := live, running := rfl
      active := active, balance := balance, chosenState := ?_
      pushedState := ?_, otherState := ?_
      pushedCurrent := pushedCurrent, chosenOwn := chosenOwn }
  · simp [switchTo, stateOf, setState, updateTask]
  · intro task isPushed different
    rw [others task different]
    exact pushedState task isPushed
  · intro task different notPushed
    rw [others task different]
    exact otherState task notPushed

variable [Fintype cpus]

/-- Every branch of `sched_again` is such a switch. -/
theorem schedAgain_switched (sound : sched.Sound) (result : sched.schedAgain cpu now = some next) :
    ∃ pushed taken chosen, Switched sched next cpu pushed taken chosen := by
  obtain ⟨searched, found, branch⟩ := schedAgain_cases result
  rcases branch with ⟨stopped, search, rfl⟩ | ⟨curr, isCurrent, isRunning, search, rfl⟩
  · obtain ⟨tasks, cleanup, live, idle, active, member⟩ := activeTaskNextAvailable_spec search
    have sameState : ∀ task, searched.stateOf task = sched.stateOf task := by
      intro task
      simp only [stateOf, tasks, pushedBack]
    refine ⟨sched.current cpu, found, _, switched_of_choice idle cleanup live ?_ ?_ ?_ ?_ ?_ ?_⟩
    · intro other
      rw [active other, pushedBack]
      cases sched.current cpu with
      | none => simp
      | some curr => exact count_append_token sched.activeTasks curr other
    · intro other busy
      rw [holds_current busy, Nat.add_comm]
      cases found with
      | none => rw [getD_none, holds_idle busy, holds_none]
      | some task => rfl
    · intro other isPushed
      exact .inr ⟨sameState other, stopped other isPushed⟩
    · intro other _
      exact sameState other
    · intro other isPushed
      exact isPushed
    · intro isIdle
      cases found with
      | none => rfl
      | some task =>
        rcases mem_append.mp (member task rfl) with old | isCurr
        · exact absurd isIdle (sound.active_places old).1
        · exact absurd isIdle (sound.current_busy (mem_toList.mp isCurr)).2
  · obtain ⟨running, busyCurr⟩ := sound.current_busy isCurrent
    obtain ⟨tasks, cleanup, live, idle, active, member⟩ := activeTaskNextAvailable_spec search
    cases found with
    | some task =>
      have busy := (sound.active_places (member task rfl)).1
      refine ⟨some curr, some task, task, switched_of_choice idle cleanup live ?_ ?_ ?_ ?_ ?_ ?_⟩
      · intro other
        have count := count_append_token searched.activeTasks curr other
        have before := active other
        simp only [activeTaskFifoPush, setState, updateTask, dlistAddPrev]
        omega
      · intro other _
        rw [running, Nat.add_comm]
      · intro other isPushed
        cases isPushed
        exact .inl (by
          simp [stateOf, activeTaskFifoPush, setState, updateTask])
      · intro other notPushed
        have different : other ≠ curr := by
          rintro rfl
          exact notPushed rfl
        simp [stateOf, activeTaskFifoPush, setState, updateTask, different, tasks]
      · intro other isPushed
        cases isPushed
        exact isCurrent
      · intro isIdle
        exact absurd isIdle busy
    | none =>
      refine ⟨none, none, curr, switched_of_choice idle cleanup live ?_ ?_ ?_ ?_ ?_ ?_⟩
      · intro other
        rw [active other]
        rfl
      · intro other _
        rw [running]
      · intro other isPushed
        cases isPushed
      · intro other _
        simp only [stateOf, tasks]
      · intro other isPushed
        cases isPushed
      · intro isIdle
        exact absurd isIdle busyCurr

theorem Switched.sound (switched : Switched sched next cpu pushed taken chosen)
    (sound : sched.Sound) : next.Sound := by
  have sameIdle : ∀ task, next.Idle task ↔ sched.Idle task := by
    intro task
    unfold Idle
    rw [switched.idle]
  have pushedBusy : ∀ task, pushed = some task → ¬sched.Idle task := by
    intro task isPushed
    exact (sound.current_busy (switched.pushedCurrent task isPushed)).2
  have pushedRunning : ∀ task, pushed = some task → sched.runningTasks cpu = some task := by
    intro task isPushed
    exact (current_eq_some (switched.pushedCurrent task isPushed)).1
  have counted : ∀ task, ¬sched.Idle task →
      next.places task = if task ∈ sched.live then 1 else 0 := by
    intro task busy
    rw [← sound.counted task busy]
    have slots := slotCount_update sched.runningTasks cpu (some chosen) task
    have queue := switched.active task
    have balance := switched.balance task busy
    unfold places
    rw [switched.running, switched.cleanup]
    omega
  have chosenRuns : next.runningTasks cpu = some chosen := by
    rw [switched.running, update_self]
  have chosenPlaces : ¬sched.Idle chosen →
      chosen ∉ next.activeTasks ∧ chosen ∉ next.cleanupTasks := by
    intro busy
    have positive := slotCount_pos chosenRuns
    have count := counted chosen busy
    have small : (if chosen ∈ sched.live then 1 else 0) ≤ 1 := by
      split
      · exact le_refl 1
      · exact Nat.zero_le 1
    unfold places at count
    constructor
    · apply count_eq_zero.mp
      omega
    · apply count_eq_zero.mp
      omega
  have idleActive : ∀ task, sched.Idle task → task ∉ next.activeTasks := by
    intro task isIdle
    have queue := switched.active task
    have none_before := count_eq_zero.mpr (sound.idleActive task isIdle)
    have notPushed : pushed ≠ some task := fun isPushed => pushedBusy task isPushed isIdle
    rw [none_before, holds_of_ne notPushed] at queue
    apply count_eq_zero.mp
    omega
  have idleCleanup : ∀ task, sched.Idle task → task ∉ next.cleanupTasks := by
    intro task isIdle
    rw [switched.cleanup]
    exact sound.idleCleanup task isIdle
  constructor
  · intro task busy
    rw [sameIdle] at busy
    rw [switched.live]
    exact counted task busy
  · intro task isIdle
    exact idleActive task ((sameIdle task).mp isIdle)
  · intro task isIdle
    exact idleCleanup task ((sameIdle task).mp isIdle)
  · intro task isIdle
    rw [switched.live]
    exact sound.idleLive task ((sameIdle task).mp isIdle)
  · intro otherCpu task isRunning isIdle
    rw [sameIdle] at isIdle
    rw [switched.idle]
    rw [switched.running] at isRunning
    by_cases same : otherCpu = cpu
    · subst same
      rw [update_self] at isRunning
      cases isRunning
      exact switched.chosenOwn isIdle
    · rw [update_of_ne same] at isRunning
      exact sound.idleOwn otherCpu task isRunning isIdle
  · intro task member
    have busy : ¬sched.Idle task := fun isIdle => idleActive task isIdle member
    have different : task ≠ chosen := by
      rintro rfl
      exact (chosenPlaces busy).1 member
    by_cases isPushed : pushed = some task
    · rcases switched.pushedState task isPushed different with
        isReady | ⟨same, notRunning⟩
      · exact .inl isReady
      · rw [same]
        rcases sound.runningState cpu task (pushedRunning task isPushed)
          busy with isReady | isRunning | isWaiting
        · exact .inl isReady
        · exact absurd isRunning notRunning
        · exact .inr isWaiting
    · rw [switched.otherState task different isPushed]
      apply sound.activeState
      apply count_pos_iff.mp
      have queue := switched.active task
      have positive := count_pos_iff.mpr member
      rw [holds_of_ne isPushed] at queue
      omega
  · intro task member
    have busy : ¬sched.Idle task := fun isIdle => idleCleanup task isIdle member
    have different : task ≠ chosen := by
      rintro rfl
      exact (chosenPlaces busy).2 member
    rw [switched.cleanup] at member
    have notPushed : pushed ≠ some task := by
      intro isPushed
      exact (sound.cleanup_places member).2.2.2.2 cpu (pushedRunning task isPushed)
    rw [switched.otherState task different notPushed]
    exact sound.cleanupState task member
  · intro otherCpu task isRunning busy
    rw [sameIdle] at busy
    by_cases isChosen : task = chosen
    · rw [isChosen]
      exact .inr (.inl switched.chosenState)
    · rw [switched.running] at isRunning
      have onOther : sched.runningTasks otherCpu = some task := by
        by_cases same : otherCpu = cpu
        · subst same
          rw [update_self] at isRunning
          exact absurd (Option.some.inj isRunning).symm isChosen
        · rwa [update_of_ne same] at isRunning
      by_cases isPushed : pushed = some task
      · rcases switched.pushedState task isPushed isChosen with
          isReady | ⟨same, _⟩
        · exact .inl isReady
        · rw [same]
          exact sound.runningState otherCpu task onOther busy
      · rw [switched.otherState task isChosen isPushed]
        exact sound.runningState otherCpu task onOther busy

end Again

section Calls

theorem findZombie_mem {tgid tid : Nat}
    (found : sched.findZombie tgid tid queue = some (some task)) :
    task ∈ queue := by
  induction queue with
  | nil => simp [findZombie] at found
  | cons head rest induction =>
    rw [findZombie] at found
    by_cases alive : (sched.tasks head).state ≠ .zombie
    · simp [alive] at found
    · rw [if_neg alive] at found
      by_cases wanted : (sched.tasks head).tgid = tgid ∧ (sched.tasks head).tid = tid
      · rw [if_pos wanted] at found
        cases found
        exact mem_cons_self
      · rw [if_neg wanted] at found
        exact mem_cons_of_mem head (induction found)

variable [Fintype cpus]

theorem sound_add (sound : sched.Sound) {record : Task}
    (result : sched.schedAdd task record = some next) : next.Sound := by
  unfold schedAdd at result
  by_cases fresh : task ∉ sched.live ∧ ¬sched.Idle task ∧ record.state = .ready
  · rw [if_pos fresh] at result
    cases result
    obtain ⟨notLive, busy, isReady⟩ := fresh
    have count := sound.counted task busy
    rw [if_neg notLive] at count
    unfold places at count
    refine sound.move busy rfl ?_ ?_ ?_ ?_ ?_
    · intro other different
      constructor
      · exact fun _ => Iff.rfl
      · have appended := count_append_token sched.activeTasks task other
        rw [holds_of_ne (by simpa using different.symm)] at appended
        exact appended
      · rfl
      · simp [activeTaskFifoPush, updateTask, different]
      · simp [stateOf, activeTaskFifoPush, updateTask, different]
    · have appended := count_append_token sched.activeTasks task task
      rw [holds_self] at appended
      simp only [places, activeTaskFifoPush, updateTask, dlistAddPrev, appended,
        Finset.mem_insert_self, if_true]
      omega
    · intro _
      exact .inl (by simp [stateOf, activeTaskFifoPush, updateTask, isReady])
    · intro member
      have notCleanup : task ∉ sched.cleanupTasks := count_eq_zero.mp (by omega)
      exact absurd member notCleanup
    · intro cpu isRunning
      have notRunning : ∀ cpu, sched.runningTasks cpu ≠ some task :=
        slotCount_eq_zero_iff.mp (by omega)
      exact absurd isRunning (notRunning cpu)
  · rw [if_neg fresh] at result
    cases result

theorem sound_wait (sound : sched.Sound) {tid : Nat}
    (result : sched.schedWait task tid = some next) : next.Sound := by
  unfold schedWait at result
  cases search : sched.findZombie (sched.tasks task).tgid tid sched.cleanupTasks with
  | none => simp [search] at result
  | some answer =>
    cases answer with
    | none =>
      simp only [search, Option.some.injEq] at result
      subst result
      exact sound
    | some zombie =>
      simp only [search, Option.some.injEq] at result
      subst result
      have member := findZombie_mem search
      obtain ⟨busy, once, isLive, notActive, notRunning⟩ := sound.cleanup_places member
      have erased := count_erase_token member
      refine sound.move busy rfl ?_ ?_ ?_ ?_ ?_
      · intro other different
        have count := erased other
        rw [holds_of_ne (by simpa using different.symm)] at count
        exact ⟨fun _ => Iff.rfl, rfl, count, by simp [different], rfl⟩
      · have before := sound.counted zombie busy
        have count := erased zombie
        rw [if_pos isLive, places] at before
        rw [holds_self] at count
        simp only [places, dlistRemoveEntry, Finset.notMem_erase, if_false]
        omega
      · exact fun inQueue => absurd inQueue notActive
      · exact fun _ => sound.cleanupState zombie member
      · exact fun cpu isRunning => absurd isRunning (notRunning cpu)

section

variable (sound : sched.Sound) (isCurrent : sched.current cpu = some task) {event : Nat}

include sound isCurrent

theorem sound_waitEvent (event : Nat) : (sched.schedWaitEvent task event).Sound := by
  refine sound.of_running_state isCurrent rfl rfl rfl rfl rfl ?_ ?_
  · intro other different
    simp [stateOf, schedWaitEvent, updateTask, different]
  · exact .inr (.inr (by simp [stateOf, schedWaitEvent, updateTask]))

theorem sound_waitReturn (returned : sched.schedWaitReturn task event = some next) :
    next.Sound := by
  obtain ⟨wakeup, _, rfl⟩ := map_eq_some_iff.mp returned
  obtain ⟨running, busy⟩ := sound.current_busy isCurrent
  refine sound.of_running_state isCurrent rfl rfl rfl rfl rfl ?_ ?_
  · intro other different
    simp [stateOf, updateTask, updateEvent, different]
  · have state := sound.runningState cpu task running busy
    simpa [stateOf, updateTask, updateEvent] using state

theorem sound_sleep {millis : Nat} (slept : sched.schedSleep task now millis = some next) :
    next.Sound := by
  obtain ⟨event, _, rfl⟩ := map_eq_some_iff.mp slept
  refine sound.of_running_state isCurrent rfl rfl rfl rfl rfl ?_ ?_
  · intro other different
    simp [stateOf, setState, updateTask, updateEvent, different]
  · exact .inr (.inr (by simp [stateOf, setState, updateTask]))

theorem sound_execve (replaced : sched.schedExecve task event = some next) : next.Sound := by
  unfold schedExecve at replaced
  cases mode : (sched.tasks task).mode with
  | kernel => simp [mode] at replaced
  | user =>
    simp only [mode, Option.some.injEq] at replaced
    subst replaced
    refine sound.of_running_state isCurrent rfl rfl rfl rfl rfl ?_ ?_
    · intro other different
      simp [stateOf, updateTask, updateEvent, different]
    · exact .inl (by simp [stateOf, updateTask])

end

/-- `sched_resume_event` only makes waiting tasks of the list ready. -/
theorem resumeTask_sound (published : Kevent) (sound : sched.Sound)
    (member : task ∈ sched.activeTasks) :
    (resumeTask published sched task).Sound ∧
      (resumeTask published sched task).activeTasks = sched.activeTasks := by
  unfold resumeTask
  split
  · split
    · refine ⟨?_, rfl⟩
      obtain ⟨busy, _, notCleanup, notRunning⟩ := sound.active_places member
      refine sound.move busy rfl ?_ ?_ ?_ ?_ ?_
      · intro other different
        refine .of_lists rfl rfl rfl rfl ?_
        simp [stateOf, setState, updateTask, updateEvent, different]
      · exact sound.counted task busy
      · intro _
        exact .inl (by simp [stateOf, setState, updateTask])
      · exact fun inCleanup => absurd inCleanup notCleanup
      · exact fun cpu isRunning => absurd isRunning (notRunning cpu)
    · exact ⟨sound, rfl⟩
  · exact ⟨sound, rfl⟩

theorem sound_resumeEvent (sound : sched.Sound) (published : Kevent) :
    (sched.schedResumeEvent published).Sound := by
  have run : ∀ (queue : List Nat) (current : Sched cpus), current.Sound →
      (∀ task ∈ queue, task ∈ current.activeTasks) →
      (queue.foldl (resumeTask published) current).Sound := by
    intro queue
    induction queue with
    | nil =>
      intro current isSound _
      exact isSound
    | cons task rest induction =>
      intro current isSound members
      obtain ⟨resumed, active⟩ := resumeTask_sound published isSound (members task mem_cons_self)
      apply induction _ resumed
      intro other inRest
      rw [active]
      exact members other (mem_cons_of_mem task inRest)
  exact run sched.activeTasks sched sound fun _ member => member

variable [DecidableEq cpus]

theorem sound_exit (sound : sched.Sound)
    (isCurrent : sched.current cpu = some task) (exitcode : Int) :
    (sched.schedExit cpu task exitcode).Sound := by
  obtain ⟨running, busy⟩ := sound.current_busy isCurrent
  obtain ⟨notActive, notCleanup, isLive⟩ := sound.running_places running busy
  have slots := slotCount_update sched.runningTasks cpu none
  have appended := count_append_token sched.cleanupTasks task
  rw [running] at slots
  refine sound.move busy rfl ?_ ?_ ?_ ?_ ?_
  · intro other different
    constructor
    · intro otherCpu
      by_cases same : otherCpu = cpu
      · subst otherCpu
        simp [schedExit, updateTask, running, different.symm]
      · simp [schedExit, updateTask, same]
    · rfl
    · have count := appended other
      rw [holds_of_ne (by simpa using different.symm)] at count
      exact count
    · exact Iff.rfl
    · simp [stateOf, schedExit, updateTask, different]
  · have before := sound.counted task busy
    have slot := slots task
    have count := appended task
    rw [holds_none] at slot
    have live : (sched.schedExit cpu task exitcode).live = sched.live := rfl
    rw [live, ← before]
    simp only [places, schedExit, updateTask, dlistAddPrev]
    omega
  · exact fun member => absurd member notActive
  · intro _
    simp [stateOf, schedExit, updateTask]
  · intro otherCpu isRunning
    have before := sound.counted task busy
    have slot := slots task
    have positive := slotCount_pos isRunning
    rw [holds_self, holds_none] at slot
    rw [if_pos isLive, places] at before
    simp only [schedExit, updateTask] at positive
    omega

end Calls

section Runs

variable [DecidableEq cpus] [Fintype cpus]

theorem step_sound (sound : sched.Sound) {op : SchedOp cpus}
    (result : sched.step op = some next) : next.Sound := by
  cases op with
  | add task record => exact sound_add sound result
  | again cpu now =>
    obtain ⟨pushed, taken, chosen, switched⟩ := schedAgain_switched sound result
    exact switched.sound sound
  | waitEvent cpu event =>
    obtain ⟨task, isCurrent, rfl⟩ := map_eq_some_iff.mp result
    exact sound_waitEvent sound isCurrent event
  | waitReturn cpu event =>
    obtain ⟨task, isCurrent, returned⟩ := bind_eq_some_iff.mp result
    exact sound_waitReturn sound isCurrent returned
  | sleep cpu now millis =>
    obtain ⟨task, isCurrent, slept⟩ := bind_eq_some_iff.mp result
    exact sound_sleep sound isCurrent slept
  | resumeEvent published =>
    cases result
    exact sound_resumeEvent sound published
  | execve cpu event =>
    obtain ⟨task, isCurrent, replaced⟩ := bind_eq_some_iff.mp result
    exact sound_execve sound isCurrent replaced
  | exit cpu exitcode =>
    obtain ⟨task, isCurrent, rfl⟩ := map_eq_some_iff.mp result
    exact sound_exit sound isCurrent exitcode
  | wait cpu tid =>
    obtain ⟨task, _, waited⟩ := bind_eq_some_iff.mp result
    exact sound_wait sound waited

end Runs

/-- The scheduler after `sched_init`: no processor runs a task yet and both
lists are empty. -/
def initial (tasks : Nat → Task) (events : Nat → Kevent)
    (idleTasks : cpus → Nat) : Sched cpus :=
  { tasks := tasks
    events := events
    idleTasks := idleTasks
    runningTasks := fun _ => none
    activeTasks := []
    cleanupTasks := []
    live := ∅ }

theorem initial_sound [Fintype cpus] (tasks : Nat → Task)
    (events : Nat → Kevent) (idleTasks : cpus → Nat) :
    (initial tasks events idleTasks).Sound := by
  constructor
  · intro task _
    have noSlot : slotCount (fun _ : cpus => (none : Option Nat)) task = 0 :=
      slotCount_eq_zero_iff.mpr fun _ => by simp
    simp [places, initial, noSlot]
  all_goals simp [initial]

/-- The three places a task can be in. -/
inductive Place (cpus : Type) where
  | running (cpu : cpus)
  | active
  | cleanup

/-- A task is in exactly one place: the running task of one processor only, or
once in one of the lists and nowhere else. -/
def InPlace (sched : Sched cpus) (task : Nat) : Place cpus → Prop
  | .running cpu =>
    (∀ other, sched.runningTasks other = some task ↔ other = cpu) ∧
      task ∉ sched.activeTasks ∧ task ∉ sched.cleanupTasks
  | .active =>
    (∀ cpu, sched.runningTasks cpu ≠ some task) ∧
      sched.activeTasks.count task = 1 ∧ task ∉ sched.cleanupTasks
  | .cleanup =>
    (∀ cpu, sched.runningTasks cpu ≠ some task) ∧
      task ∉ sched.activeTasks ∧ sched.cleanupTasks.count task = 1 ∧
      sched.stateOf task = .zombie

/-- Every live task is in exactly one place, queued tasks are ready or
waiting, and idle tasks are never queued. -/
structure WellPlaced (sched : Sched cpus) : Prop where
  placed : ∀ task ∈ sched.live, ¬sched.Idle task → ∃ place, sched.InPlace task place
  queued : ∀ task ∈ sched.activeTasks, sched.stateOf task = .ready ∨ sched.stateOf task = .waiting
  idle : ∀ task, sched.Idle task → task ∉ sched.activeTasks ∧ task ∉ sched.cleanupTasks

theorem Sound.wellPlaced [Fintype cpus] (sound : sched.Sound) : sched.WellPlaced := by
  refine ⟨?_, sound.activeState, ?_⟩
  · intro task isLive busy
    have counted := sound.counted task busy
    rw [if_pos isLive] at counted
    unfold places at counted
    by_cases isActive : task ∈ sched.activeTasks
    · obtain ⟨_, once, notCleanup, notRunning⟩ := sound.active_places isActive
      exact ⟨.active, notRunning, once, notCleanup⟩
    · by_cases isCleanup : task ∈ sched.cleanupTasks
      · obtain ⟨_, once, _, _, notRunning⟩ := sound.cleanup_places isCleanup
        exact ⟨.cleanup, notRunning, isActive, once, sound.cleanupState task isCleanup⟩
      · rw [count_eq_zero.mpr isActive, count_eq_zero.mpr isCleanup] at counted
        obtain ⟨cpu, running, only⟩ := slotCount_eq_one_iff.mp counted
        refine ⟨.running cpu, ?_, isActive, isCleanup⟩
        intro other
        constructor
        · exact only other
        · rintro rfl
          exact running
  · intro task isIdle
    exact ⟨sound.idleActive task isIdle, sound.idleCleanup task isIdle⟩

/-- In every state that any interleaving of the sections reaches, every task
is in exactly one place. -/
theorem wellPlaced_of_run [DecidableEq cpus] [Fintype cpus]
    (tasks : Nat → Task) (events : Nat → Kevent) (idleTasks : cpus → Nat)
    (ops : List (SchedOp cpus)) (final : Sched cpus)
    (run : runOps step (initial tasks events idleTasks) ops = some final) :
    final.WellPlaced := by
  have sound : final.Sound :=
    runOps_invariant (fun _ _ _ isSound stepped => step_sound isSound stepped)
      (initial_sound tasks events idleTasks) run
  exact sound.wellPlaced

/-- A user task with its own event record. -/
def smallTask (tid : Nat) : Task :=
  { tgid := 1
    tid := tid
    mode := .user
    state := .ready
    exitcode := 0
    wakeupEvent := some tid }

/-- Two processors: one task waits and is resumed, the other replaces its
image and exits, and is reaped. -/
def smallRun : List (SchedOp (Fin 2)) :=
  [.add 10 (smallTask 10), .add 11 (smallTask 11), .again 0 0, .again 1 0,
    .sleep 0 5 20, .again 0 6, .execve 1 40, .again 1 7, .again 0 30,
    .waitEvent 0 50, .again 0 31, .resumeEvent ⟨.unknown, 7, 0⟩, .again 0 32,
    .exit 1 3, .again 1 33, .wait 0 11]

theorem wellPlaced_of_run_small : ∃ final, runOps step
        (initial (fun _ => smallTask 0) (fun _ => ⟨.unknown, 0, 0⟩)
          (fun cpu : Fin 2 => cpu.val)) smallRun = some final ∧
      final.WellPlaced := by
  obtain ⟨final, run⟩ := isSome_iff_exists.mp
    (by decide +kernel : (runOps step
        (initial (fun _ => smallTask 0) (fun _ => ⟨.unknown, 0, 0⟩)
          (fun cpu : Fin 2 => cpu.val)) smallRun).isSome = true)
  exact ⟨final, run, wellPlaced_of_run _ _ _ smallRun final run⟩

end SeekOs.Proc.Sched
