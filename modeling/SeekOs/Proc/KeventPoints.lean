import SeekOs.Proc.SchedResume

/-!
# Points, events and their owners

Every event record belongs to one task: it is its `wakeup_event`, or it is the
subscription that the task is about to wait for.  What a task has as its
`wakeup_event` follows from its point and its history: the event that it waits
for, none once it has returned from a wait, and otherwise its own.
-/

namespace SeekOs.Proc

open SeekOs.Base SeekOs.Lib Function List Option Sched

/-- The points at which a processor may hold a task that does not run. -/
def Point.Away (point : Point) : Prop :=
  (∃ event, point = .waits event) ∨ point = .sleeps ∨ point = .leaves

theorem Point.switched_ne_leaves (voluntary : Bool) (point : Point) :
    point.switched voluntary ≠ .leaves := by
  cases voluntary with
  | false => cases point <;> simp [switched]
  | true => cases point <;> simp [switched]

variable {point : Point}

theorem Point.switched_false (stays : point ≠ .leaves) : point.switched false = point := by
  cases point with
  | leaves => exact absurd rfl stays
  | _ => rfl

theorem Point.switched_eq_subscribed {voluntary : Bool}
    {event : Nat} (switched : point.switched voluntary = .subscribed event) :
    point = .subscribed event := by
  cases voluntary with
  | false => cases point <;> simp_all [Point.switched]
  | true => cases point <;> simp_all [Point.switched]

namespace Kevents

variable {cpus : Type} {system next : Kevents cpus}
variable {task other event now millis : Nat} {cpu : cpus} {type : KeventType}
  {record : Task} {op : KeventOp cpus}

/-- A task that was added and has not exited. -/
def Alive (system : Kevents cpus) (task : Nat) : Prop :=
  task ∈ system.sched.live ∧ system.sched.stateOf task ≠ .zombie

def wakeup (system : Kevents cpus) (task : Nat) : Option Nat :=
  (system.sched.tasks task).wakeupEvent

theorem Alive.of_moved (alive : system.Alive task)
    (moved : Sched.Moved system.sched next.sched) : next.Alive task :=
  ⟨moved.live ▸ alive.1, fun zombie => alive.2 (moved.zombie task zombie)⟩

variable (system)

/-- An event belongs to a task. -/
def Holds (task event : Nat) : Prop :=
  system.Alive task ∧ (system.wakeup task = some event ∨ system.points task = .subscribed event)

/-- A task that waits, waits for the end of its sleep. -/
def Sleeping (task : Nat) : Prop :=
  system.sched.stateOf task = .waiting →
    ∃ event, system.wakeup task = some event ∧ (system.sched.events event).type = .sleep

/-- A task has no event exactly when it has returned from a wait. -/
def Spent (task : Nat) : Prop :=
  system.wakeup task = none ↔ system.waited task = true

/-- What is known about a task at its point. -/
def AtPoint (task : Nat) : Prop :=
  match system.points task with
  | .runs => system.Spent task ∧ system.Sleeping task
  | .subscribed _ =>
    system.Spent task ∧ system.sched.stateOf task ≠ .waiting
  | .waits event => system.wakeup task = some event
  | .returns event => system.wakeup task = some event
  | .sleeps =>
    system.Spent task ∧ system.wakeup task ≠ none ∧ system.Sleeping task
  | .leaves =>
    system.Spent task ∧ system.wakeup task ≠ none ∧ system.sched.stateOf task = .ready

variable {system}

structure Sound [Fintype cpus] (system : Kevents cpus) : Prop where
  sched : system.sched.Sound
  held : ∀ task event, system.Holds task event → event ∈ system.allocated
  unique : ∀ first second event, system.Holds first event →
    system.Holds second event → first = second
  point : ∀ task, system.Alive task → system.AtPoint task
  current : ∀ cpu task, system.sched.current cpu = some task →
    system.sched.stateOf task ≠ .running → Point.Away (system.points task)
  queued : ∀ task ∈ system.sched.activeTasks, system.points task ≠ .leaves

theorem AtPoint.switch (atPoint : system.AtPoint task) (voluntary : Bool)
    (points : next.points task = (system.points task).switched voluntary)
    (wakeup : next.wakeup task = system.wakeup task)
    (waited : next.waited task = system.waited task)
    (state : next.sched.stateOf task = .waiting →
      system.sched.stateOf task = .waiting ∧
        ∀ event, system.wakeup task = some event →
          (next.sched.events event).type = (system.sched.events event).type) :
    next.AtPoint task := by
  have spent : next.Spent task ↔ system.Spent task := by
    rw [Spent, Spent, wakeup, waited]
  have sleeping : system.Sleeping task → next.Sleeping task := by
    intro sleeps waiting
    obtain ⟨before, types⟩ := state waiting
    obtain ⟨event, isEvent, type⟩ := sleeps before
    refine ⟨event, wakeup.trans isEvent, ?_⟩
    rw [types event isEvent]
    exact type
  rw [AtPoint] at atPoint ⊢
  rw [points]
  cases point : system.points task with
  | runs =>
    rw [point] at atPoint
    exact ⟨spent.mpr atPoint.1, sleeping atPoint.2⟩
  | subscribed event =>
    rw [point] at atPoint
    exact ⟨spent.mpr atPoint.1, fun waiting => atPoint.2 (state waiting).1⟩
  | waits event =>
    rw [point] at atPoint
    cases voluntary with
    | false => exact wakeup.trans atPoint
    | true => exact wakeup.trans atPoint
  | returns event =>
    rw [point] at atPoint
    exact wakeup.trans atPoint
  | sleeps =>
    rw [point] at atPoint
    cases voluntary with
    | false =>
      exact ⟨spent.mpr atPoint.1, wakeup ▸ atPoint.2.1, sleeping atPoint.2.2⟩
    | true => exact ⟨spent.mpr atPoint.1, sleeping atPoint.2.2⟩
  | leaves =>
    rw [point] at atPoint
    refine ⟨spent.mpr atPoint.1, ?_⟩
    intro waiting
    have before := (state waiting).1
    rw [atPoint.2.2] at before
    cases before

/-- A task that was not touched, and whose event has kept its type. -/
theorem AtPoint.congr (atPoint : system.AtPoint task)
    (points : next.points task = system.points task)
    (wakeup : next.wakeup task = system.wakeup task)
    (state : next.sched.stateOf task = system.sched.stateOf task)
    (waited : next.waited task = system.waited task)
    (types : ∀ event, system.wakeup task = some event →
      (next.sched.events event).type = (system.sched.events event).type) :
    next.AtPoint task := by
  by_cases leaves : system.points task = .leaves
  · rw [AtPoint, leaves] at atPoint
    rw [AtPoint, points, leaves, Spent, wakeup, waited, state]
    exact atPoint
  · apply atPoint.switch false _ wakeup waited
    · intro waiting
      exact ⟨state ▸ waiting, types⟩
    · rw [points, Point.switched_false leaves]

theorem currentAt_eq_some : system.currentAt cpu point = some task ↔
      system.sched.current cpu = some task ∧ system.points task = point := by
  rw [currentAt, filter_eq_some_iff]
  simp

theorem keventSubscribe_eq (done : system.keventSubscribe task event type now = some next) :
    event ∉ system.allocated ∧ next = { system with
      sched := system.sched.updateEvent event fun _ => ⟨type, 0, now⟩
      subList := dlistAddPrev system.subList event
      allocated := insert event system.allocated }.setPoint task
        (.subscribed event) := by
  rw [keventSubscribe] at done
  split at done
  · cases done
  · rename_i isNew
    exact ⟨isNew, (Option.some.inj done).symm⟩

theorem schedSleep_eq (done : system.schedSleep task now millis = some next) :
    ∃ event, system.wakeup task = some event ∧
      next = { system with
        sched := (system.sched.updateEvent event fun record =>
          { record with
            type := .sleep
            timestamp := (now + millis) % 2 ^ 64 }).setState task
              .waiting }.setPoint task .sleeps := by
  obtain ⟨sched, slept, rfl⟩ := map_eq_some_iff.mp done
  obtain ⟨event, isEvent, rfl⟩ := map_eq_some_iff.mp slept
  exact ⟨event, isEvent, rfl⟩

theorem schedExecve_eq (done : system.schedExecve task event = some next) :
    event ∉ system.freeWakeup task ∧ next = { system with
      sched := (system.sched.updateEvent event fun _ =>
        ⟨.unknown, 0, 0⟩).updateTask task fun record =>
          { record with state := .ready, wakeupEvent := some event }
      allocated := insert event (system.freeWakeup task)
      waited := update system.waited task false }.setPoint task
        .leaves := by
  rw [Kevents.schedExecve] at done
  split at done
  · cases done
  · rename_i isNew
    obtain ⟨sched, executed, rfl⟩ := map_eq_some_iff.mp done
    rw [Sched.schedExecve] at executed
    cases mode : (system.sched.tasks task).mode with
    | kernel =>
      rw [mode] at executed
      cases executed
    | user =>
      rw [mode] at executed
      cases executed
      exact ⟨isNew, rfl⟩

/-- What a step of one task leaves of the others. -/
structure Leaves (system next : Kevents cpus) (task : Nat) : Prop where
  live : ∀ other, other ≠ task → (other ∈ next.sched.live ↔ other ∈ system.sched.live)
  tasks : ∀ other, other ≠ task → next.sched.tasks other = system.sched.tasks other
  points : ∀ other, other ≠ task → next.points other = system.points other
  waited : ∀ other, other ≠ task → next.waited other = system.waited other
  events : ∀ other event, other ≠ task → system.Holds other event →
    next.sched.events event = system.sched.events event
  allocated : ∀ other event, other ≠ task → system.Holds other event → event ∈ next.allocated
  current : ∀ cpu other, other ≠ task →
    (next.sched.current cpu = some other ↔ system.sched.current cpu = some other)
  queue : ∃ pushed, next.sched.activeTasks =
    system.sched.activeTasks ++ pushed ∧ ∀ other ∈ pushed, other = task

/-- The frame of a write to the entry of one task. -/
theorem update_elsewhere {β : Type} (entries : Nat → β) (task : Nat) (entry : β) :
    ∀ other, other ≠ task → update entries task entry other = entries other :=
  fun _ different => update_of_ne different _ _

theorem queue_kept (queue : List Nat) (task : Nat) :
    ∃ pushed, queue = queue ++ pushed ∧ ∀ other ∈ pushed, other = task :=
  ⟨[], (append_nil _).symm, fun _ member => absurd member not_mem_nil⟩

theorem Leaves.alive_iff (leaves : Leaves system next task) (different : other ≠ task) :
    next.Alive other ↔ system.Alive other := by
  rw [Alive, Alive, stateOf, stateOf, leaves.live other different, leaves.tasks other different]

theorem Leaves.holds_iff (leaves : Leaves system next task)
    (different : other ≠ task) (event : Nat) :
    next.Holds other event ↔ system.Holds other event := by
  rw [Holds, Holds, leaves.alive_iff different, wakeup, wakeup,
    leaves.tasks other different, leaves.points other different]

theorem Leaves.queued (leaves : Leaves system next task)
    (different : other ≠ task) (member : other ∈ next.sched.activeTasks) :
    other ∈ system.sched.activeTasks := by
  obtain ⟨pushed, queue, own⟩ := leaves.queue
  rw [queue] at member
  rcases mem_append.mp member with before | isPushed
  · exact before
  · exact absurd (own other isPushed) different

variable [Fintype cpus]

theorem Sound.of_leaves (sound : system.Sound) (task : Nat)
    (schedSound : next.sched.Sound) (leaves : Leaves system next task)
    (point : next.Alive task → next.AtPoint task)
    (held : ∀ event, next.Holds task event → event ∈ next.allocated ∧
      ∀ other, other ≠ task → ¬system.Holds other event)
    (current : ∀ cpu, next.sched.current cpu = some task →
      next.sched.stateOf task ≠ .running → Point.Away (next.points task))
    (queued : task ∈ next.sched.activeTasks → next.points task ≠ .leaves) :
    next.Sound := by
  refine ⟨schedSound, ?_, ?_, ?_, ?_, ?_⟩
  · intro other event holds
    by_cases same : other = task
    · subst other
      exact (held event holds).1
    · exact leaves.allocated other event same ((leaves.holds_iff same event).mp holds)
  · intro first second event firstHolds secondHolds
    by_cases isFirst : first = task
    · by_cases isSecond : second = task
      · rw [isFirst, isSecond]
      · subst first
        exact absurd ((leaves.holds_iff isSecond event).mp secondHolds)
          ((held event firstHolds).2 second isSecond)
    · by_cases isSecond : second = task
      · subst second
        exact absurd ((leaves.holds_iff isFirst event).mp firstHolds)
          ((held event secondHolds).2 first isFirst)
      · exact sound.unique first second event ((leaves.holds_iff isFirst event).mp firstHolds)
          ((leaves.holds_iff isSecond event).mp secondHolds)
  · intro other alive
    by_cases same : other = task
    · subst other
      exact point alive
    · have tasks := leaves.tasks other same
      have before := (leaves.alive_iff same).mp alive
      apply (sound.point other before).congr (leaves.points other same)
      · rw [wakeup, tasks]
        rfl
      · rw [stateOf, tasks]
        rfl
      · exact leaves.waited other same
      · intro event isEvent
        rw [leaves.events other event same ⟨before, .inl isEvent⟩]
  · intro cpu other isCurrent away
    by_cases same : other = task
    · subst other
      exact current cpu isCurrent away
    · rw [leaves.points other same]
      apply sound.current cpu other ((leaves.current cpu other same).mp isCurrent)
      rw [stateOf, leaves.tasks other same] at away
      exact away
  · intro other member
    by_cases same : other = task
    · subst other
      exact queued member
    · rw [leaves.points other same]
      exact sound.queued other (leaves.queued same member)

section Steps

section

variable (sound : system.Sound)
include sound

section

variable (isCurrent : system.sched.current cpu = some task)
include isCurrent

theorem Sound.current_alive : system.Alive task :=
  sound.sched.current_alive isCurrent

/-- A current task that is not about to leave its processor runs. -/
theorem Sound.current_running (stays : ¬Point.Away (system.points task)) :
    system.sched.stateOf task = .running := by
  by_contra away
  exact stays (sound.current cpu task isCurrent away)

theorem Sound.current_not_queued : task ∉ system.sched.activeTasks := by
  obtain ⟨running, busy⟩ := sound.sched.current_busy isCurrent
  exact (sound.sched.running_places running busy).1

theorem Sound.at_runs (point : system.points task = .runs) :
    system.Alive task ∧ system.Spent task ∧ system.sched.stateOf task = .running := by
  have alive := sound.current_alive isCurrent
  have atPoint := sound.point task alive
  rw [AtPoint, point] at atPoint
  refine ⟨alive, atPoint.1, ?_⟩
  apply sound.current_running isCurrent
  simp [Point.Away, point]

end

theorem Sound.not_holds (isNew : event ∉ system.allocated) (other : Nat) :
    ¬system.Holds other event :=
  fun holds => isNew (sound.held other event holds)

theorem Sound.held_ne {own held : Nat} (holds : system.Holds task own) (different : other ≠ task)
    (otherHolds : system.Holds other held) : held ≠ own := by
  rintro rfl
  exact different (sound.unique other task held otherHolds holds)

theorem Sound.held_own (holds : system.Holds task event) :
    event ∈ system.allocated ∧ ∀ other, other ≠ task → ¬system.Holds other event :=
  ⟨sound.held task event holds,
    fun _ different otherHolds => sound.held_ne holds different otherHolds rfl⟩

end

section

variable (sound : system.Sound)

include sound

theorem Sound.subscribe_leaves (done : system.keventSubscribe task event type now = some next) :
    Leaves system next task := by
  obtain ⟨isNew, rfl⟩ := keventSubscribe_eq done
  refine ⟨fun _ _ => Iff.rfl, fun _ _ => rfl, update_elsewhere _ task _,
    fun _ _ => rfl, ?_, ?_, fun _ _ _ => Iff.rfl, queue_kept _ task⟩
  · intro other held different holds
    have notNew : held ≠ event := by
      rintro rfl
      exact sound.not_holds isNew other holds
    exact update_of_ne notNew _ _
  · intro other held different holds
    exact Finset.mem_insert_of_mem (sound.held other held holds)

theorem Sound.waitEvent_leaves (task event : Nat) :
    Leaves system (system.schedWaitEvent task event) task := by
  refine ⟨fun _ _ => Iff.rfl, update_elsewhere _ task _, update_elsewhere _ task _,
    fun _ _ => rfl, fun _ _ _ _ => rfl, ?_, fun _ _ _ => Iff.rfl, queue_kept _ task⟩
  intro other held _ otherHolds
  exact sound.held other held otherHolds

theorem Sound.waitReturn_leaves (holds : system.Holds task event)
    (done : system.schedWaitReturn task event = some next) :
    Leaves system next task := by
  obtain ⟨sched, returned, rfl⟩ := map_eq_some_iff.mp done
  obtain ⟨own, isOwn, rfl⟩ := map_eq_some_iff.mp returned
  refine ⟨fun _ _ => Iff.rfl, update_elsewhere _ task _, update_elsewhere _ task _,
    update_elsewhere _ task _, ?_, ?_, fun _ _ _ => Iff.rfl, queue_kept _ task⟩
  · intro other held different otherHolds
    have notOwn := sound.held_ne holds different otherHolds
    exact update_of_ne notOwn _ _
  · intro other held different otherHolds
    exact Finset.mem_erase.mpr ⟨sound.held_ne holds different otherHolds,
      sound.held other held otherHolds⟩

section

variable (isCurrent : system.sched.current cpu = some task)
include isCurrent

theorem Sound.subscribe (point : system.points task = .runs)
    (done : system.keventSubscribe task event type now = some next) :
    next.Sound := by
  have leaves := sound.subscribe_leaves done
  obtain ⟨alive, spent, running⟩ := sound.at_runs isCurrent point
  obtain ⟨isNew, rfl⟩ := keventSubscribe_eq done
  have schedSound := sound.sched.updateEvent event fun _ => ⟨type, 0, now⟩
  apply sound.of_leaves task schedSound leaves
  · intro _
    rw [AtPoint]
    simp only [setPoint, update_self]
    refine ⟨spent, ?_⟩
    intro waiting
    have same : system.sched.stateOf task = .waiting := waiting
    rw [running] at same
    cases same
  · intro held holds
    rcases holds.2 with own | isSubscribed
    · obtain ⟨inUse, nobody⟩ := sound.held_own ⟨alive, .inl own⟩
      exact ⟨Finset.mem_insert_of_mem inUse, nobody⟩
    · simp only [setPoint, update_self] at isSubscribed
      cases isSubscribed
      exact ⟨Finset.mem_insert_self _ _, fun other _ => sound.not_holds isNew other⟩
  · intro otherCpu _ away
    exact absurd running away
  · intro member
    exact absurd member (sound.current_not_queued isCurrent)

theorem Sound.waitEvent (point : system.points task = .subscribed event) :
    (system.schedWaitEvent task event).Sound := by
  have alive := sound.current_alive isCurrent
  have holds : system.Holds task event := ⟨alive, .inr point⟩
  have schedSound := Sched.sound_waitEvent sound.sched isCurrent event
  apply sound.of_leaves task schedSound (sound.waitEvent_leaves task event)
  · intro _
    rw [AtPoint]
    simp [Kevents.schedWaitEvent, setPoint, Sched.schedWaitEvent, wakeup, Sched.updateTask]
  · intro held taskHolds
    have same : held = event := by
      rcases taskHolds.2 with own | isSubscribed
      · simpa [Kevents.schedWaitEvent, setPoint, Sched.schedWaitEvent, wakeup,
          updateTask] using own.symm
      · simp [Kevents.schedWaitEvent, setPoint] at isSubscribed
    subst held
    exact sound.held_own holds
  · intro _ _ _
    refine .inl ⟨event, ?_⟩
    simp [Kevents.schedWaitEvent, setPoint]
  · intro member
    exact absurd member (sound.current_not_queued isCurrent)

theorem Sound.at_returns (point : system.points task = .returns event) :
    system.Holds task event ∧ system.wakeup task = some event ∧
      system.sched.stateOf task = .running := by
  have alive := sound.current_alive isCurrent
  have atPoint := sound.point task alive
  rw [AtPoint, point] at atPoint
  refine ⟨⟨alive, .inl atPoint⟩, atPoint, ?_⟩
  apply sound.current_running isCurrent
  simp [Point.Away, point]

theorem Sound.waitReturn (point : system.points task = .returns event)
    (done : system.schedWaitReturn task event = some next) :
    next.Sound := by
  obtain ⟨holds, _, running⟩ := sound.at_returns isCurrent point
  have leaves := sound.waitReturn_leaves holds done
  obtain ⟨sched, returned, rfl⟩ := map_eq_some_iff.mp done
  have schedSound := sound_waitReturn sound.sched isCurrent returned
  obtain ⟨own, isOwn, rfl⟩ := map_eq_some_iff.mp returned
  have noEvent : ((system.sched.updateEvent event fun record =>
      { record with data := (system.sched.events own).data }).updateTask task
        fun record => { record with wakeupEvent := none }).tasks task =
          { system.sched.tasks task with wakeupEvent := none } :=
    update_self _ _ _
  apply sound.of_leaves task schedSound leaves
  · intro _
    rw [AtPoint]
    simp only [setPoint, update_self]
    refine ⟨?_, ?_⟩
    · simp [Spent, wakeup, noEvent]
    · intro waiting
      simp only [stateOf, noEvent] at waiting
      have same : system.sched.stateOf task = .waiting := waiting
      rw [running] at same
      cases same
  · intro held taskHolds
    rcases taskHolds.2 with isEvent | isSubscribed
    · simp only [wakeup, setPoint, noEvent] at isEvent
      cases isEvent
    · simp [setPoint] at isSubscribed
  · intro _ _ away
    exfalso
    apply away
    simp only [setPoint, stateOf, noEvent]
    exact running
  · intro member
    exact absurd member (sound.current_not_queued isCurrent)

end

end

theorem schedAdd_eq (done : system.schedAdd task event record = some next) :
    event ∉ system.allocated ∧ task ∉ system.sched.live ∧
      record.state = .ready ∧ next = { system with
        sched := ({ system.sched.updateEvent event fun _ =>
            ⟨.unknown, 0, 0⟩ with
          live := insert task system.sched.live }.updateTask task fun _ =>
            { record with wakeupEvent := some event }).activeTaskFifoPush task
        allocated := insert event system.allocated
        waited := update system.waited task false }.setPoint task
          .runs := by
  rw [Kevents.schedAdd] at done
  split at done
  · cases done
  · rename_i isNew
    obtain ⟨sched, added, rfl⟩ := map_eq_some_iff.mp done
    rw [Sched.schedAdd] at added
    split at added
    · rename_i fresh
      cases added
      exact ⟨isNew, fresh.1, fresh.2.2, rfl⟩
    · cases added

section

variable (sound : system.Sound)
include sound

theorem Sound.sleep_leaves (alive : system.Alive task)
    (done : system.schedSleep task now millis = some next) :
    Leaves system next task := by
  obtain ⟨event, isEvent, rfl⟩ := schedSleep_eq done
  refine ⟨fun _ _ => Iff.rfl, update_elsewhere _ task _, update_elsewhere _ task _,
    fun _ _ => rfl, ?_, ?_, fun _ _ _ => Iff.rfl, queue_kept _ task⟩
  · intro other held different otherHolds
    have notOwn := sound.held_ne ⟨alive, .inl isEvent⟩ different otherHolds
    exact update_of_ne notOwn _ _
  · intro other held _ otherHolds
    exact sound.held other held otherHolds

theorem Sound.sleep (isCurrent : system.sched.current cpu = some task)
    (point : system.points task = .runs)
    (done : system.schedSleep task now millis = some next) :
    next.Sound := by
  obtain ⟨alive, spent, running⟩ := sound.at_runs isCurrent point
  have leaves := sound.sleep_leaves alive done
  obtain ⟨event, isEvent, isNext⟩ := schedSleep_eq done
  have schedSound : next.sched.Sound := by
    obtain ⟨sched, slept, rfl⟩ := map_eq_some_iff.mp done
    exact sound_sleep sound.sched isCurrent slept
  have holds : system.Holds task event := ⟨alive, .inl isEvent⟩
  have point : next.points task = .sleeps := by
    rw [isNext]
    exact update_self _ _ _
  have sameWakeup : next.wakeup task = system.wakeup task := by
    rw [isNext]
    simp [wakeup, setPoint, setState, updateTask, updateEvent]
  have type : (next.sched.events event).type = .sleep := by
    rw [isNext]
    simp [setPoint, setState, updateTask, updateEvent]
  have waited : next.waited = system.waited := by
    rw [isNext]
    rfl
  apply sound.of_leaves task schedSound leaves
  · intro _
    rw [AtPoint, point]
    refine ⟨?_, ?_, ?_⟩
    · rw [Spent, sameWakeup, waited]
      exact spent
    · rw [sameWakeup, isEvent]
      exact some_ne_none _
    · intro _
      exact ⟨event, sameWakeup.trans isEvent, type⟩
  · intro held taskHolds
    rcases taskHolds.2 with isOwn | isSubscribed
    · rw [sameWakeup, isEvent, Option.some.injEq] at isOwn
      subst held
      rw [isNext]
      exact sound.held_own holds
    · rw [point] at isSubscribed
      cases isSubscribed
  · intro _ _ _
    exact .inr (.inl point)
  · intro member
    rw [isNext] at member
    exact absurd member (sound.current_not_queued isCurrent)

theorem Sound.mem_freeWakeup (alive : system.Alive task)
    (different : other ≠ task) (holds : system.Holds other event) :
    event ∈ system.freeWakeup task := by
  have inUse := sound.held other event holds
  rw [freeWakeup]
  cases isOwn : (system.sched.tasks task).wakeupEvent with
  | none => exact inUse
  | some own =>
    refine Finset.mem_erase.mpr ⟨?_, inUse⟩
    rintro rfl
    exact different (sound.unique other task event holds ⟨alive, .inl isOwn⟩)

theorem Sound.execve_leaves (alive : system.Alive task)
    (done : system.schedExecve task event = some next) :
    Leaves system next task := by
  obtain ⟨isNew, rfl⟩ := schedExecve_eq done
  refine ⟨fun _ _ => Iff.rfl, update_elsewhere _ task _, update_elsewhere _ task _,
    update_elsewhere _ task _, ?_, ?_, fun _ _ _ => Iff.rfl, queue_kept _ task⟩
  · intro other held different holds
    have notNew : held ≠ event := by
      rintro rfl
      exact isNew (sound.mem_freeWakeup alive different holds)
    exact update_of_ne notNew _ _
  · intro other held different holds
    exact Finset.mem_insert_of_mem (sound.mem_freeWakeup alive different holds)

theorem Sound.execve (isCurrent : system.sched.current cpu = some task)
    (schedSound : next.sched.Sound)
    (done : system.schedExecve task event = some next) : next.Sound := by
  have alive := sound.current_alive isCurrent
  have leaves := sound.execve_leaves alive done
  obtain ⟨isNew, isNext⟩ := schedExecve_eq done
  have point : next.points task = .leaves := by
    rw [isNext]
    exact update_self _ _ _
  have isEvent : next.wakeup task = some event := by
    rw [isNext]
    simp [wakeup, setPoint, updateTask]
  apply sound.of_leaves task schedSound leaves
  · intro _
    rw [AtPoint, point]
    refine ⟨?_, ?_, ?_⟩
    · rw [Spent, isEvent, isNext]
      simp [setPoint]
    · rw [isEvent]
      exact some_ne_none _
    · rw [isNext]
      simp [stateOf, setPoint, updateTask]
  · intro held holds
    rcases holds.2 with isOwn | isSubscribed
    · rw [isEvent, Option.some.injEq] at isOwn
      subst held
      rw [isNext]
      refine ⟨Finset.mem_insert_self _ _, ?_⟩
      intro other different otherHolds
      exact isNew (sound.mem_freeWakeup alive different otherHolds)
    · rw [point] at isSubscribed
      cases isSubscribed
  · intro _ _ _
    exact .inr (.inr point)
  · intro member
    rw [isNext] at member
    exact absurd member (sound.current_not_queued isCurrent)

theorem Sound.add_leaves (done : system.schedAdd task event record = some next) :
    Leaves system next task := by
  obtain ⟨isNew, _, _, rfl⟩ := schedAdd_eq done
  refine ⟨?_, update_elsewhere _ task _, update_elsewhere _ task _,
    update_elsewhere _ task _, ?_, ?_, fun _ _ _ => Iff.rfl, [task], rfl, ?_⟩
  · intro other different
    simp [setPoint, activeTaskFifoPush, updateTask, different]
  · intro other held _ holds
    have notNew : held ≠ event := by
      rintro rfl
      exact sound.not_holds isNew other holds
    exact update_of_ne notNew _ _
  · intro other held _ holds
    exact Finset.mem_insert_of_mem (sound.held other held holds)
  · intro other member
    exact mem_singleton.mp member

theorem Sound.add (schedSound : next.sched.Sound)
    (done : system.schedAdd task event record = some next) : next.Sound := by
  have leaves := sound.add_leaves done
  obtain ⟨isNew, notLive, ready, isNext⟩ := schedAdd_eq done
  have point : next.points task = .runs := by
    rw [isNext]
    exact update_self _ _ _
  have isRecord : next.sched.tasks task =
      { record with wakeupEvent := some event } := by
    rw [isNext]
    exact update_self _ _ _
  apply sound.of_leaves task schedSound leaves
  · intro _
    rw [AtPoint, point]
    refine ⟨?_, ?_⟩
    · rw [Spent, wakeup, isRecord, isNext]
      simp [setPoint]
    · intro waiting
      rw [stateOf, isRecord, ready] at waiting
      cases waiting
  · intro held holds
    rcases holds.2 with isEvent | isSubscribed
    · rw [wakeup, isRecord, Option.some.injEq] at isEvent
      subst held
      rw [isNext]
      exact ⟨Finset.mem_insert_self _ _, fun other _ => sound.not_holds isNew other⟩
    · rw [point] at isSubscribed
      cases isSubscribed
  · intro cpu same _
    rw [isNext] at same
    have isCurrent : system.sched.current cpu = some task := same
    exact absurd (sound.current_alive isCurrent).1 notLive
  · intro _
    rw [point]
    exact Point.noConfusion

variable {sched : Sched cpus}

variable {tid : Nat}

theorem Sound.wait_cases (done : system.sched.schedWait task tid = some sched) :
    sched = system.sched ∨ ∃ zombie, ¬system.Alive zombie ∧
      sched = { system.sched with
        cleanupTasks := dlistRemoveEntry system.sched.cleanupTasks zombie
        live := system.sched.live.erase zombie } := by
  rw [schedWait] at done
  cases search : system.sched.findZombie (system.sched.tasks task).tgid tid
      system.sched.cleanupTasks with
  | none =>
    rw [search] at done
    cases done
  | some found =>
    rw [search] at done
    cases found with
    | none =>
      cases done
      exact .inl rfl
    | some zombie =>
      cases done
      refine .inr ⟨zombie, ?_, rfl⟩
      intro alive
      exact alive.2 (sound.sched.cleanupState zombie (findZombie_mem search))

theorem Sound.reap_leaves (zombie : Nat) : Leaves system { system with sched := { system.sched with
        cleanupTasks := dlistRemoveEntry system.sched.cleanupTasks zombie
        live := system.sched.live.erase zombie } } zombie := by
  refine ⟨?_, fun _ _ => rfl, fun _ _ => rfl, fun _ _ => rfl,
    fun _ _ _ _ => rfl, ?_, fun _ _ _ => Iff.rfl, queue_kept _ zombie⟩
  · intro other different
    simp [different]
  · intro other held _ holds
    exact sound.held other held holds

theorem Sound.wait (done : system.sched.schedWait task tid = some sched) :
    ({ system with sched := sched } : Kevents cpus).Sound := by
  have schedSound := sound_wait sound.sched done
  rcases sound.wait_cases done with rfl | ⟨zombie, _, rfl⟩
  · exact sound
  · have notAlive : ¬({ system with
        sched := { system.sched with
          cleanupTasks := dlistRemoveEntry system.sched.cleanupTasks zombie
          live := system.sched.live.erase zombie } } :
          Kevents cpus).Alive zombie :=
      fun alive => Finset.notMem_erase zombie _ alive.1
    apply sound.of_leaves zombie schedSound (sound.reap_leaves zombie)
    · intro alive
      exact absurd alive notAlive
    · intro held holds
      exact absurd holds.1 notAlive
    · intro cpu same away
      exact sound.current cpu zombie same away
    · intro member
      exact sound.queued zombie member

/-- A zombie stays one as long as it is in the cleanup list. -/
theorem Sound.alive_of_next (schedSound : next.sched.Sound)
    (cleanup : next.sched.cleanupTasks = system.sched.cleanupTasks)
    (live : next.sched.live = system.sched.live) (alive : next.Alive task) :
    system.Alive task := by
  obtain ⟨isLive, notZombie⟩ := alive
  rw [live] at isLive
  refine ⟨isLive, ?_⟩
  intro zombie
  apply notZombie
  apply schedSound.cleanupState
  rw [cleanup]
  exact sound.sched.mem_cleanup_iff.mpr ⟨isLive, zombie⟩

theorem Sound.resume (published : Kevent) :
    ({ system with sched := system.sched.schedResumeEvent published } : Kevents cpus).Sound := by
  have schedSound := sound_resumeEvent sound.sched published
  obtain ⟨wakeups, states, events⟩ :=
    resume_spec published system.sched.activeTasks system.sched
  have moved := moved_resumeEvent published system.sched.activeTasks system.sched
  obtain ⟨tasks, records, same⟩ := resume_eq published system.sched.activeTasks system.sched
  generalize isResumed : system.sched.activeTasks.foldl
    (resumeTask published) system.sched = resumed at *
  have isNext : system.sched.schedResumeEvent published = resumed := isResumed
  rw [isNext] at schedSound ⊢
  have alive : ∀ task, ({ system with sched := resumed } :
      Kevents cpus).Alive task → system.Alive task := by
    intro task
    apply sound.alive_of_next schedSound
    · rw [same]
    · exact moved.live
  have holds : ∀ task event, ({ system with sched := resumed } :
      Kevents cpus).Holds task event → system.Holds task event := by
    rintro task event ⟨isAlive, own⟩
    refine ⟨alive task isAlive, ?_⟩
    rcases own with isEvent | isSubscribed
    · left
      rw [wakeup, ← wakeups]
      exact isEvent
    · exact .inr isSubscribed
  have types : ∀ event, (resumed.events event).type = (system.sched.events event).type := by
    intro event
    rw [events]
    split
    · rfl
    · rfl
  refine ⟨schedSound, ?_, ?_, ?_, ?_, ?_⟩
  · intro task event isHeld
    exact sound.held task event (holds task event isHeld)
  · intro first second event firstHolds secondHolds
    exact sound.unique first second event (holds first event firstHolds)
      (holds second event secondHolds)
  · intro task isAlive
    have atPoint := sound.point task (alive task isAlive)
    by_cases woken : task ∈ system.sched.activeTasks ∧ system.sched.isResumed published task = true
    · apply atPoint.switch false
      · exact (Point.switched_false (sound.queued task woken.1)).symm
      · exact wakeups task
      · rfl
      · intro waiting
        have ready : resumed.stateOf task = .ready := (states task).trans (if_pos woken)
        rw [ready] at waiting
        cases waiting
    · apply atPoint.congr
      · rfl
      · exact wakeups task
      · exact (states task).trans (if_neg woken)
      · rfl
      · exact fun event _ => types event
  · intro cpu task isCurrent away
    have before : system.sched.current cpu = some task := by
      rw [← isCurrent, same]
      rfl
    apply sound.current cpu task before
    have notQueued := sound.current_not_queued before
    rw [states, if_neg fun woken => notQueued woken.1] at away
    exact away
  · intro task member
    rw [same] at member
    exact sound.queued task member

theorem Sound.lists (subList : List Nat)
    (pubList : List Kevent) (dispatching : Option (Dispatching cpus)) :
    ({ system with
        subList := subList
        pubList := pubList
        dispatching := dispatching } : Kevents cpus).Sound :=
  ⟨sound.sched, sound.held, sound.unique, sound.point, sound.current, sound.queued⟩

theorem Sound.round (cpu : cpus) : (system.dispatchRound cpu).Sound := by
  rw [dispatchRound]
  split
  · exact sound.lists _ _ _
  · rename_i published rest _
    split
    · exact sound.lists _ _ _
    · split
      · exact (sound.resume published).lists _ _ _
      · exact (sound.resume published).lists _ _ _

theorem Sound.again_event {chosen : Nat}
    (resched : Sched.Resched system.sched next.sched cpu chosen)
    (holds : system.Holds task event)
    (awake : system.sched.stateOf task = .waiting → task ≠ chosen) :
    next.sched.events event = system.sched.events event := by
  rcases resched.events event with same | ⟨place, slept, isOwn, _⟩
  · exact same
  · exfalso
    have chosenAlive : system.Alive chosen := by
      refine ⟨?_, by rw [slept]; decide⟩
      rcases place with queued | isCurrent
      · exact sound.sched.active_live queued
      · exact (sound.current_alive isCurrent).1
    have same := sound.unique task chosen event holds ⟨chosenAlive, .inl isOwn⟩
    subst same
    exact awake slept rfl

end

variable [DecidableEq cpus]

theorem Sound.exit_leaves (sound : system.Sound)
    (isCurrent : system.sched.current cpu = some task) (exitcode : Int) :
    Leaves system (system.schedExit cpu task exitcode) task := by
  have alive := sound.current_alive isCurrent
  refine ⟨fun _ _ => Iff.rfl, update_elsewhere _ task _, fun _ _ => rfl, fun _ _ => rfl,
    fun _ _ _ _ => rfl, ?_, ?_, queue_kept _ task⟩
  · intro other held different holds
    exact sound.mem_freeWakeup alive different holds
  · intro otherCpu other different
    by_cases sameCpu : otherCpu = cpu
    · subst otherCpu
      constructor
      · intro same
        simp [Kevents.schedExit, Sched.schedExit, Sched.current] at same
      · intro same
        rw [isCurrent, Option.some.injEq] at same
        exact absurd same.symm different
    · have unchanged : (system.schedExit cpu task exitcode).sched.current
          otherCpu = system.sched.current otherCpu :=
        Sched.current_congr (update_of_ne sameCpu _ _) rfl
      rw [unchanged]

theorem Sound.exit (sound : system.Sound)
    (isCurrent : system.sched.current cpu = some task) (exitcode : Int) :
    (system.schedExit cpu task exitcode).Sound := by
  have schedSound := Sched.sound_exit sound.sched isCurrent exitcode
  have zombie : (system.schedExit cpu task exitcode).sched.stateOf task = .zombie := by
    simp [Kevents.schedExit, Sched.schedExit, Sched.stateOf, Sched.updateTask]
  have notAlive : ¬(system.schedExit cpu task exitcode).Alive task := fun alive => alive.2 zombie
  apply sound.of_leaves task schedSound (sound.exit_leaves isCurrent exitcode)
  · intro isAlive
    exact absurd isAlive notAlive
  · intro held holds
    exact absurd holds.1 notAlive
  · intro otherCpu same _
    exact absurd zombie (schedSound.current_alive same).2
  · intro member
    exact absurd member (sound.current_not_queued isCurrent)

/-- What `sched_again` does to the points, next to the switch. -/
structure Again (system next : Kevents cpus) (cpu : cpus) (voluntary : Bool)
    (chosen : Nat) : Prop where
  resched : Sched.Resched system.sched next.sched cpu chosen
  moved : Sched.Moved system.sched next.sched
  subList : next.subList = system.subList
  pubList : next.pubList = system.pubList
  dispatching : next.dispatching = system.dispatching
  allocated : next.allocated = system.allocated
  waited : next.waited = system.waited
  returned : next.returned = system.returned
  ownPoint : ∀ task, system.sched.current cpu = some task →
    next.points task = (system.points task).switched voluntary
  otherPoint : ∀ task, system.sched.current cpu ≠ some task → next.points task = system.points task
  elsewhere : ∀ other, other ≠ cpu → next.sched.current other = system.sched.current other
  idle : next.sched.idleTasks = system.sched.idleTasks

theorem Sound.schedAgain_spec (sound : system.Sound) {voluntary : Bool}
    (done : system.schedAgain cpu now voluntary = some next) :
    ∃ chosen, Again system next cpu voluntary chosen := by
  obtain ⟨sched, switched, isNext⟩ := map_eq_some_iff.mp done
  obtain ⟨chosen, resched⟩ := schedAgain_resched switched
  obtain ⟨_, _, _, places⟩ := schedAgain_switched sound.sched switched
  have elsewhere : ∀ other, other ≠ cpu → sched.current other = system.sched.current other := by
    intro other different
    apply current_congr _ places.idle
    rw [places.running, update_of_ne different]
  have moved := moved_again switched
  refine ⟨chosen, ?_⟩
  subst isNext
  cases isCurrent : system.sched.current cpu with
  | none =>
    refine ⟨resched, moved, rfl, rfl, rfl, rfl, rfl, rfl, ?_,
      fun _ _ => rfl, elsewhere, places.idle⟩
    intro task isTask
    rw [isCurrent] at isTask
    cases isTask
  | some current =>
    refine ⟨resched, moved, rfl, rfl, rfl, rfl, rfl, rfl, ?_, ?_, elsewhere, places.idle⟩
    · intro task isTask
      rw [isCurrent, Option.some.injEq] at isTask
      subst task
      exact update_self _ _ _
    · intro task notTask
      have different : task ≠ current := by
        rintro rfl
        exact notTask isCurrent
      exact update_of_ne different _ _

theorem Sound.again (sound : system.Sound) {voluntary : Bool}
    (done : system.schedAgain cpu now voluntary = some next) :
    next.Sound := by
  obtain ⟨chosen, resched, moved, _, _, _, nextAllocated, nextWaited, _,
    ownPoint, otherPoint, elsewhere, _⟩ := sound.schedAgain_spec done
  obtain ⟨sched, switched, isNext⟩ := map_eq_some_iff.mp done
  have nextSched : sched = next.sched := by
    rw [← isNext]
    cases system.sched.current cpu with
    | none => rfl
    | some task => rfl
  obtain ⟨_, _, _, places⟩ := schedAgain_switched sound.sched switched
  rw [nextSched] at places
  have schedSound := places.sound sound.sched
  have alive : ∀ task, next.Alive task → system.Alive task :=
    fun task => sound.alive_of_next schedSound places.cleanup moved.live
  have chosenAwake : next.Alive chosen →
      chosen ∈ system.sched.activeTasks ∨ system.sched.current cpu = some chosen := by
    intro alive
    rcases resched.origin with isIdle | ⟨isCurrent, _⟩ | ⟨place, _⟩
    · have live : chosen ∈ system.sched.live := moved.live ▸ alive.1
      exact absurd live (sound.sched.idleLive chosen ⟨cpu, isIdle.symm⟩)
    · exact .inr isCurrent
    · exact place
  -- the event that is cleared belongs to the chosen task
  have types : ∀ task, system.Alive task → task ≠ chosen →
      ∀ event, system.wakeup task = some event →
        (next.sched.events event).type = (system.sched.events event).type := by
    intro task isAlive notChosen event isEvent
    rw [sound.again_event resched ⟨isAlive, .inl isEvent⟩ fun _ => notChosen]
  have holds : ∀ task event, next.Holds task event → system.Holds task event := by
    rintro task event ⟨isAlive, own⟩
    refine ⟨alive task isAlive, ?_⟩
    rcases own with isEvent | isSubscribed
    · left
      rw [wakeup, ← resched.wakeups]
      exact isEvent
    · right
      by_cases isCurrent : system.sched.current cpu = some task
      · rw [ownPoint task isCurrent] at isSubscribed
        exact Point.switched_eq_subscribed isSubscribed
      · rw [otherPoint task isCurrent] at isSubscribed
        exact isSubscribed
  refine ⟨schedSound, ?_, ?_, ?_, ?_, ?_⟩
  · intro task event isHeld
    rw [nextAllocated]
    exact sound.held task event (holds task event isHeld)
  · intro first second event firstHolds secondHolds
    exact sound.unique first second event (holds first event firstHolds)
      (holds second event secondHolds)
  · intro task isAlive
    have before := alive task isAlive
    have atPoint := sound.point task before
    by_cases isChosen : task = chosen
    · subst task
      have state : next.sched.stateOf chosen ≠ .waiting := by
        rw [resched.chosenState]
        decide
      by_cases isCurrent : system.sched.current cpu = some chosen
      · exact atPoint.switch voluntary (ownPoint chosen isCurrent)
          (resched.wakeups chosen) (congrFun nextWaited chosen)
          fun waiting => absurd waiting state
      · rcases chosenAwake isAlive with queued | current
        · apply atPoint.switch false _ (resched.wakeups chosen)
            (congrFun nextWaited chosen) fun waiting => absurd waiting state
          rw [otherPoint chosen isCurrent, Point.switched_false (sound.queued chosen queued)]
        · exact absurd current isCurrent
    · by_cases isCurrent : system.sched.current cpu = some task
      · apply atPoint.switch voluntary (ownPoint task isCurrent)
          (resched.wakeups task) (congrFun nextWaited task)
        intro waiting
        refine ⟨?_, types task before isChosen⟩
        rcases resched.others task isChosen with same | ⟨_, _, ready⟩
        · exact same.symm.trans waiting
        · rw [ready] at waiting
          cases waiting
      · apply atPoint.congr (otherPoint task isCurrent)
          (resched.wakeups task) _ (congrFun nextWaited task)
          (types task before isChosen)
        rcases resched.others task isChosen with same | ⟨current, _⟩
        · exact same
        · exact absurd current isCurrent
  · intro otherCpu task nowCurrent away
    obtain ⟨nowRunning, busy⟩ := schedSound.current_busy nowCurrent
    have otherThanChosen : task ≠ chosen := by
      rintro rfl
      exact away resched.chosenState
    have notHere : otherCpu ≠ cpu := by
      rintro rfl
      rw [resched.running, Option.some.injEq] at nowRunning
      exact otherThanChosen nowRunning.symm
    have before : system.sched.current otherCpu = some task :=
      (elsewhere otherCpu notHere).symm.trans nowCurrent
    have notCurrent : system.sched.current cpu ≠ some task := by
      intro isCurrent
      obtain ⟨running, wasBusy⟩ := sound.sched.current_busy isCurrent
      obtain ⟨otherRunning, _⟩ := sound.sched.current_busy before
      exact notHere (sound.sched.running_unique otherRunning running wasBusy)
    rw [otherPoint task notCurrent]
    apply sound.current otherCpu task before
    rcases resched.others task otherThanChosen with same | ⟨current, _⟩
    · rw [← same]
      exact away
    · exact absurd current notCurrent
  · intro task member
    by_cases isCurrent : system.sched.current cpu = some task
    · rw [ownPoint task isCurrent]
      exact Point.switched_ne_leaves voluntary _
    · rw [otherPoint task isCurrent]
      rcases resched.active task member with before | current
      · exact sound.queued task before
      · exact absurd current isCurrent

end Steps

section Runs

theorem boot_sound (idleTasks : cpus → Nat) : (boot idleTasks).Sound := by
  have notAlive : ∀ task, ¬(boot idleTasks).Alive task :=
    fun task alive => absurd alive.1 (Finset.notMem_empty task)
  refine ⟨initial_sound _ _ _, ?_, ?_, ?_, ?_, ?_⟩
  · intro task event holds
    exact absurd holds.1 (notAlive task)
  · intro first second event holds
    exact absurd holds.1 (notAlive first)
  · intro task alive
    exact absurd alive (notAlive task)
  · intro cpu task isCurrent
    cases isCurrent
  · intro task member
    cases member

theorem Sound.waiting_wakeup (sound : system.Sound) (alive : system.Alive task)
    (waiting : system.sched.stateOf task = .waiting) :
    system.wakeup task ≠ none := by
  have atPoint := sound.point task alive
  rw [AtPoint] at atPoint
  intro missing
  cases point : system.points task with
  | runs =>
    rw [point] at atPoint
    obtain ⟨event, isEvent, _⟩ := atPoint.2 waiting
    rw [missing] at isEvent
    cases isEvent
  | subscribed event =>
    rw [point] at atPoint
    exact atPoint.2 waiting
  | waits event =>
    rw [point, missing] at atPoint
    cases atPoint
  | returns event =>
    rw [point, missing] at atPoint
    cases atPoint
  | sleeps =>
    rw [point] at atPoint
    exact atPoint.2.1 missing
  | leaves =>
    rw [point] at atPoint
    exact atPoint.2.1 missing

variable [DecidableEq cpus]

/-- What a step is: one of a processor that does not dispatch, or the next one
of the loop. -/
theorem step_cases (done : system.step op = some next) :
    (system.dispatching = none ∨ op.locks = false) ∧ system.act op = some next ∨
      (∃ cpu, system.dispatching = some ⟨cpu, none⟩ ∧ op = .round cpu ∧
        next = system.dispatchRound cpu) ∨
      ∃ cpu event, system.dispatching = some ⟨cpu, some event⟩ ∧
        op = .round cpu ∧ next = system.dispatchUnlink cpu event := by
  rw [step] at done
  cases isDispatching : system.dispatching with
  | none =>
    rw [isDispatching] at done
    exact .inl ⟨.inl rfl, done⟩
  | some dispatching =>
    obtain ⟨cpu, unlinks⟩ := dispatching
    simp only [isDispatching] at done
    split at done
    · rename_i same
      right
      split at done
      · rename_i roundCpu
        cases done
        have isCpu : roundCpu = cpu := same
        subst isCpu
        exact .inl ⟨roundCpu, rfl, rfl, rfl⟩
      · rename_i roundCpu event
        cases done
        have isCpu : roundCpu = cpu := same
        subst isCpu
        exact .inr ⟨roundCpu, event, rfl, rfl, rfl⟩
      · cases done
    · split at done
      · cases done
      · rename_i unlocked
        exact .inl ⟨.inr (Bool.not_eq_true _ ▸ unlocked), done⟩

/-- The task that takes a step, and the step when it is one of a wait. -/
structure Acts (system next : Kevents cpus) (op : KeventOp cpus) (task : Nat) : Prop where
  leaves : Leaves system next task
  kind : ¬system.Alive task ∨ system.points task = .runs ∨
    (∃ event, system.points task = .subscribed event ∧ next = system.schedWaitEvent task event) ∨
    ∃ cpu event, op = .waitReturn cpu ∧ system.sched.current cpu = some task ∧
      system.points task = .returns event ∧
      system.schedWaitReturn task event = some next

omit [DecidableEq cpus] [Fintype cpus] in
theorem leaves_of_lists (task : Nat) (system : Kevents cpus)
    (subList : List Nat) (pubList : List Kevent)
    (dispatching : Option (Dispatching cpus))
    (held : ∀ other event, system.Holds other event → event ∈ system.allocated) :
    Leaves system { system with
      subList := subList
      pubList := pubList
      dispatching := dispatching } task :=
  ⟨fun _ _ => Iff.rfl, fun _ _ => rfl, fun _ _ => rfl, fun _ _ => rfl,
    fun _ _ _ _ => rfl, fun other event _ => held other event,
    fun _ _ _ => Iff.rfl, queue_kept _ task⟩

/-- Every step of a processor that does not dispatch keeps the events with
their owners, and apart from a switch it is one of a single task. -/
theorem Sound.acts_of_act (sound : system.Sound) (done : system.act op = some next) :
    next.Sound ∧ ((∃ cpu now voluntary, op = .again cpu now voluntary ∧
      system.schedAgain cpu now voluntary = some next) ∨
      ∃ task, Acts system next op task) := by
  obtain ⟨nobody, notLive⟩ := Infinite.exists_notMem_finset system.sched.live
  have notAlive : ¬system.Alive nobody := fun alive => notLive alive.1
  cases op with
  | again cpu now voluntary =>
    exact ⟨sound.again done, .inl ⟨cpu, now, voluntary, rfl, done⟩⟩
  | add cpu task event record =>
    have added : system.schedAdd task event record = some next := done
    refine ⟨?_, .inr ⟨task, sound.add_leaves added, .inl ?_⟩⟩
    · apply sound.add _ added
      rw [schedAdd] at added
      split at added
      · cases added
      · obtain ⟨sched, pushed, rfl⟩ := map_eq_some_iff.mp added
        exact sound_add (sound.sched.updateEvent _ _) pushed
    · intro alive
      exact (schedAdd_eq added).2.1 alive.1
  | subscribe cpu event type now =>
    obtain ⟨task, isCurrent, subscribed⟩ := bind_eq_some_iff.mp done
    obtain ⟨isCurrent, point⟩ := currentAt_eq_some.mp isCurrent
    exact ⟨sound.subscribe isCurrent point subscribed,
      .inr ⟨task, sound.subscribe_leaves subscribed, .inr (.inl point)⟩⟩
  | waitEvent cpu =>
    obtain ⟨task, isCurrent, waits⟩ := bind_eq_some_iff.mp done
    split at waits
    · rename_i event point
      cases waits
      exact ⟨sound.waitEvent isCurrent point,
        .inr ⟨task, sound.waitEvent_leaves task event, .inr (.inr (.inl ⟨event, point, rfl⟩))⟩⟩
    · cases waits
  | waitReturn cpu =>
    obtain ⟨task, isCurrent, returns⟩ := bind_eq_some_iff.mp done
    split at returns
    · rename_i event point
      obtain ⟨holds, _⟩ := sound.at_returns isCurrent point
      exact ⟨sound.waitReturn isCurrent point returns,
        .inr ⟨task, sound.waitReturn_leaves holds returns,
          .inr (.inr (.inr ⟨cpu, event, rfl, isCurrent, point, returns⟩))⟩⟩
    · cases returns
  | sleep cpu now millis =>
    obtain ⟨task, isCurrent, sleeps⟩ := bind_eq_some_iff.mp done
    obtain ⟨isCurrent, point⟩ := currentAt_eq_some.mp isCurrent
    exact ⟨sound.sleep isCurrent point sleeps,
      .inr ⟨task, sound.sleep_leaves (sound.current_alive isCurrent) sleeps, .inr (.inl point)⟩⟩
  | publish cpu type data now =>
    cases done
    exact ⟨sound.lists _ _ _,
      .inr ⟨nobody, leaves_of_lists nobody system _ _ _ sound.held, .inl notAlive⟩⟩
  | dispatch cpu =>
    cases done
    exact ⟨sound.lists _ _ _,
      .inr ⟨nobody, leaves_of_lists nobody system _ _ _ sound.held, .inl notAlive⟩⟩
  | round cpu => cases done
  | execve cpu event =>
    obtain ⟨task, isCurrent, leaves⟩ := bind_eq_some_iff.mp done
    obtain ⟨isCurrent, point⟩ := currentAt_eq_some.mp isCurrent
    refine ⟨?_, .inr ⟨task, sound.execve_leaves (sound.current_alive isCurrent) leaves,
      .inr (.inl point)⟩⟩
    apply sound.execve isCurrent _ leaves
    rw [schedExecve] at leaves
    split at leaves
    · cases leaves
    · obtain ⟨sched, replaced, rfl⟩ := map_eq_some_iff.mp leaves
      exact sound_execve sound.sched isCurrent replaced
  | exit cpu exitcode =>
    obtain ⟨task, isCurrent, rfl⟩ := map_eq_some_iff.mp done
    obtain ⟨isCurrent, point⟩ := currentAt_eq_some.mp isCurrent
    exact ⟨sound.exit isCurrent exitcode,
      .inr ⟨task, sound.exit_leaves isCurrent exitcode, .inr (.inl point)⟩⟩
  | wait cpu tid =>
    obtain ⟨task, _, waits⟩ := bind_eq_some_iff.mp done
    obtain ⟨sched, reaped, rfl⟩ := map_eq_some_iff.mp waits
    refine ⟨sound.wait reaped, .inr ?_⟩
    rcases sound.wait_cases reaped with rfl | ⟨zombie, dead, rfl⟩
    · exact ⟨nobody, leaves_of_lists nobody system _ _ _ sound.held, .inl notAlive⟩
    · exact ⟨zombie, sound.reap_leaves zombie, .inl dead⟩

theorem step_sound (sound : system.Sound) (done : system.step op = some next) : next.Sound := by
  rcases step_cases done with ⟨_, acted⟩ | ⟨cpu, _, _, rfl⟩ | ⟨cpu, event, _, _, rfl⟩
  · exact (sound.acts_of_act acted).1
  · exact sound.round cpu
  · exact sound.lists _ _ _

theorem sound_of_run {idleTasks : cpus → Nat} {ops : List (KeventOp cpus)}
    (run : runOps step (boot idleTasks) ops = some system) : system.Sound :=
  runOps_invariant (fun _ _ _ sound done => step_sound sound done) (boot_sound idleTasks) run

theorem Sound.schedAgain_isSome (sound : system.Sound) (cpu : cpus) (now : Nat) (voluntary : Bool) :
    ∃ next, system.schedAgain cpu now voluntary = some next := by
  have switched : ∃ sched, system.sched.schedAgain cpu now = some sched := by
    apply Sched.schedAgain_isSome
    intro task place waiting
    apply sound.waiting_wakeup _ waiting
    rcases place with member | isCurrent
    · refine ⟨sound.sched.active_live member, ?_⟩
      rw [waiting]
      decide
    · exact sound.current_alive isCurrent
  obtain ⟨sched, isSched⟩ := switched
  exact ⟨_, map_eq_some_iff.mpr ⟨sched, isSched, rfl⟩⟩

/-- In every run a task that waits has an event, and the search for the next
task follows none that is missing.  A task that calls `sched_sleep` has its
event, and the call goes on, exactly when the task has not returned from
`sched_wait_event` since it was created or has replaced its image. -/
theorem waiting_has_event {idleTasks : cpus → Nat} {ops : List (KeventOp cpus)}
    (run : runOps step (boot idleTasks) ops = some system) :
    (∀ task, system.Alive task → system.sched.stateOf task = .waiting → system.wakeup task ≠ none) ∧
    (∀ cpu now voluntary, ∃ next, system.schedAgain cpu now voluntary = some next) ∧
    ∀ cpu task, system.currentAt cpu .runs = some task →
      (system.wakeup task ≠ none ↔ system.waited task = false) ∧
      ∀ now millis,
        (∃ next, system.schedSleep task now millis = some next) ↔ system.waited task = false := by
  have sound := sound_of_run run
  refine ⟨fun task => sound.waiting_wakeup, sound.schedAgain_isSome, ?_⟩
  intro cpu task isCurrent
  obtain ⟨runs, point⟩ := currentAt_eq_some.mp isCurrent
  have atPoint := sound.point task (sound.current_alive runs)
  rw [AtPoint, point] at atPoint
  have missing : system.wakeup task = none ↔ system.waited task = true := atPoint.1
  have spent : system.wakeup task ≠ none ↔ system.waited task = false := by
    rw [Ne, missing, Bool.not_eq_true]
  refine ⟨spent, ?_⟩
  intro now millis
  rw [← spent, ne_none_iff_exists']
  constructor
  · rintro ⟨next, sleeps⟩
    obtain ⟨sched, slept, _⟩ := map_eq_some_iff.mp sleeps
    obtain ⟨event, isEvent, _⟩ := map_eq_some_iff.mp slept
    exact ⟨event, isEvent⟩
  · rintro ⟨event, isEvent⟩
    have slept : ∃ sched, system.sched.schedSleep task now millis =
        some sched := ⟨_, map_eq_some_iff.mpr ⟨event, isEvent, rfl⟩⟩
    obtain ⟨sched, slept⟩ := slept
    exact ⟨_, map_eq_some_iff.mpr ⟨sched, slept, rfl⟩⟩

/-- In every run the event that a live task has, or waits with, is not freed,
and no other live task has it. -/
theorem events_owned_of_run {idleTasks : cpus → Nat} {ops : List (KeventOp cpus)}
    (run : runOps step (boot idleTasks) ops = some system) :
    (∀ task event, system.Holds task event → event ∈ system.allocated) ∧
      ∀ first second event, system.Holds first event → system.Holds second event →
        first = second :=
  ⟨(sound_of_run run).held, (sound_of_run run).unique⟩

end Runs

/-- A processor and a task that is created, runs, waits for a key and returns
with it. -/
def keyboardRun : List (KeventOp Unit) :=
  [.add () 1 10 ⟨1, 1, .user, .ready, 0, none⟩, .again () 0 false,
    .subscribe () 20 .keyboard 0, .waitEvent (), .again () 0 true,
    .publish () .keyboard 7 1, .dispatch (), .round (), .round (), .round (),
    .again () 1 false, .waitReturn ()]

/-- Before its wait the task may sleep. -/
theorem waiting_has_event_before_wait :
    ∃ system, runOps step (boot fun _ : Unit => 0) (keyboardRun.take 2) = some system ∧
      system.currentAt () .runs = some 1 ∧
      ∀ now millis, ∃ next, system.schedSleep 1 now millis = some next := by
  have facts : ∃ system ∈ runOps step (boot fun _ : Unit => 0)
      (keyboardRun.take 2), system.currentAt () .runs = some 1 ∧ system.waited 1 = false := by
    decide +kernel
  obtain ⟨system, run, isCurrent, notWaited⟩ := facts
  refine ⟨system, run, isCurrent, ?_⟩
  intro now millis
  exact (((waiting_has_event run).2.2 () 1 isCurrent).2 now millis).mpr notWaited

theorem events_owned_of_run_subscribed :
    ∃ system, runOps step (boot fun _ : Unit => 0) (keyboardRun.take 4) = some system ∧
      20 ∈ system.allocated ∧ ∀ task, system.Holds task 20 → task = 1 := by
  obtain ⟨system, run, isLive, awake, wakeup⟩ : ∃ system ∈ runOps step (boot fun _ : Unit => 0)
      (keyboardRun.take 4), 1 ∈ system.sched.live ∧ system.sched.stateOf 1 ≠ .zombie ∧
        system.wakeup 1 = some 20 := by
    decide +kernel
  have holds : system.Holds 1 20 := ⟨⟨isLive, awake⟩, .inl wakeup⟩
  obtain ⟨allocated, unique⟩ := events_owned_of_run run
  exact ⟨system, run, allocated 1 20 holds, fun task held => unique task 1 20 held holds⟩

/-- After its wait the task has no event, and `sched_sleep` follows it. -/
theorem sleep_after_wait_follows_null : ∃ system ∈ runOps step (boot fun _ : Unit => 0) keyboardRun,
      system.currentAt () .runs = some 1 ∧ system.wakeup 1 = none ∧
        system.schedSleep 1 2 10 = none ∧ system.step (.sleep () 2 10) = none := by
  decide +kernel

end Kevents

end SeekOs.Proc
