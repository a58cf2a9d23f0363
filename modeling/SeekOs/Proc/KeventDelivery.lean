import SeekOs.Lib.EndlessRuns
import SeekOs.Proc.KeventSubscriptions

/-!
# Delivery of events

An event that is published while a task waits in the active list for one of its
type, and while no other event of the type is pending, reaches that task: the
round that takes the event finds the subscription and wakes the task, the data
stays in its event record, and the task returns with it.  That the rounds are
made, that processors switch and that tasks go on are assumptions about endless
runs.
-/

namespace SeekOs.Proc.Kevents

open SeekOs.Base SeekOs.Lib List Option Sched Nat

variable {cpus : Type} {system next : Kevents cpus}
variable {task event actor chosen now start : Nat} {op : KeventOp cpus}
  {voluntary : Bool} {cpu : cpus}

variable (system)

/-- A task is in `sched_wait_event` with an event. -/
structure InWait (task event : Nat) : Prop where
  alive : system.Alive task
  point : system.points task = .waits event ∨ system.points task = .returns event

/-- The task waits in the active list, and the first pending event of the type
is the one with the data. -/
structure Pending (task event : Nat) (type : KeventType) (data : Nat) : Prop extends
    InWait system task event where
  waiting : system.sched.stateOf task = .waiting
  queued : task ∈ system.sched.activeTasks
  linked : event ∈ system.subList
  eventType : (system.sched.events event).type = type
  first : ∃ now, system.pubList.find? (fun published =>
    published.type = type) = some ⟨type, data, now⟩
  notUnlinked : system.unlinks ≠ some event

/-- The task was woken with the data. -/
structure Woken (task event : Nat) (type : KeventType) (data : Nat) : Prop extends
    InWait system task event where
  awake : system.sched.stateOf task ≠ .waiting
  eventType : (system.sched.events event).type = type
  eventData : (system.sched.events event).data = data

/-- The number of rounds in front of the one that takes the event. -/
def pendingRounds (type : KeventType) : Nat :=
  system.pubList.findIdx fun published => published.type = type

theorem resume_state (published : Kevent) (task : Nat) :
    (system.sched.schedResumeEvent published).stateOf task =
      if task ∈ system.sched.activeTasks ∧ system.sched.isResumed published task then .ready
      else system.sched.stateOf task :=
  (resume_spec published system.sched.activeTasks system.sched).2.1 task

variable {system}

section

variable (inWait : system.InWait task event)
include inWait

/-- The steps of a task in its wait are the switch and the return. -/
theorem InWait.acts (acts : Acts system next op actor) :
    task ≠ actor ∨ ∃ cpu, op = .waitReturn cpu ∧ system.sched.current cpu = some task ∧
      system.points task = .returns event ∧
      system.schedWaitReturn task event = some next := by
  by_cases same : task = actor
  · subst actor
    right
    rcases acts.kind with dead | runs | ⟨own, point, _⟩ |
      ⟨cpu, own, isReturn, isCurrent, point, returns⟩
    · exact absurd inWait.alive dead
    · have inPoint := inWait.point
      simp [runs] at inPoint
    · have inPoint := inWait.point
      simp [point] at inPoint
    · have isOwn : own = event := by
        simpa [point] using inWait.point
      subst own
      exact ⟨cpu, isReturn, isCurrent, point, returns⟩
  · exact .inl same

theorem InWait.leaves (leaves : Leaves system next actor) (different : task ≠ actor) :
    next.InWait task event := by
  refine ⟨(leaves.alive_iff different).mpr inWait.alive, ?_⟩
  rw [leaves.points task different]
  exact inWait.point

theorem InWait.resume (published : Kevent)
    (sched : next.sched = system.sched.schedResumeEvent published)
    (points : next.points = system.points) : next.InWait task event := by
  have moved := moved_resumeEvent published system.sched.activeTasks system.sched
  refine ⟨inWait.alive.of_moved ?_, ?_⟩
  · rw [sched]
    exact moved
  · rw [points]
    exact inWait.point

theorem InWait.again (again : Again system next cpu voluntary chosen) : next.InWait task event := by
  refine ⟨inWait.alive.of_moved again.moved, ?_⟩
  · by_cases isCurrent : system.sched.current cpu = some task
    · rw [again.ownPoint task isCurrent]
      rcases inWait.point with waits | returns
      · rw [waits]
        cases voluntary with
        | false => exact .inl rfl
        | true => exact .inr rfl
      · rw [returns]
        exact .inr rfl
    · rw [again.otherPoint task isCurrent]
      exact inWait.point

end

theorem Pending.unlink (pending : system.Pending task event type data) {other : Nat}
    (isDispatching : system.dispatching = some ⟨cpu, some other⟩) :
    (system.dispatchUnlink cpu other).Pending task event type data := by
  have different : event ≠ other := by
    rintro rfl
    apply pending.notUnlinked
    rw [unlinks, isDispatching]
    rfl
  have nothing : (system.dispatchUnlink cpu other).unlinks = none := rfl
  refine ⟨⟨pending.alive, pending.point⟩, pending.waiting, pending.queued, ?_,
    pending.eventType, pending.first, ?_⟩
  · exact (mem_erase_of_ne different).mpr pending.linked
  · rw [nothing]
    exact some_ne_none event ∘ Eq.symm

theorem dispatchRound_points (system : Kevents cpus) (cpu : cpus) :
    (system.dispatchRound cpu).points = system.points := by
  rcases system.dispatchRound_cases cpu with ⟨_, isNext⟩ |
    ⟨_, _, _, ⟨_, isNext⟩ | ⟨_, _, _, _, isNext⟩⟩
  · rw [isNext]
  · rw [isNext]
  · rw [isNext]

variable [Fintype cpus] {moment : Nat}

theorem InWait.wakeup_eq (sound : system.Sound) (inWait : system.InWait task event) :
    system.wakeup task = some event := by
  have atPoint := sound.point task inWait.alive
  rw [AtPoint] at atPoint
  rcases inWait.point with waits | returns
  · rw [waits] at atPoint
    exact atPoint
  · rw [returns] at atPoint
    exact atPoint

theorem InWait.holds (sound : system.Sound) (inWait : system.InWait task event) :
    system.Holds task event :=
  ⟨inWait.alive, .inl (inWait.wakeup_eq sound)⟩

theorem Sound.resume_event (sound : system.Sound) (published : Kevent)
    (holds : system.Holds task event)
    (notResumed : system.sched.isResumed published task = false) :
    (system.sched.schedResumeEvent published).events event = system.sched.events event := by
  obtain ⟨_, _, events⟩ := resume_spec published system.sched.activeTasks system.sched
  have changed := events event
  rw [if_neg] at changed
  · exact changed
  · rintro ⟨other, member, isResumed, isEvent⟩
    obtain ⟨waiting, _⟩ := isResumed_iff.mp isResumed
    have alive : system.Alive other := by
      refine ⟨sound.sched.active_live member, ?_⟩
      rw [waiting]
      decide
    have same := sound.unique other task event ⟨alive, .inl isEvent⟩ holds
    subst other
    rw [notResumed] at isResumed
    cases isResumed

section Steps

variable {task event data : Nat} {type : KeventType}

section

variable (pending : system.Pending task event type data)
include pending

/-- The task waits for something else than the end of a sleep, and nobody but a
dispatcher wakes it. -/
theorem Pending.again (sound : system.Sound) (notSleep : type ≠ .sleep)
    (again : Again system next cpu voluntary chosen) :
    next.Pending task event type data := by
  have resched := again.resched
  have notChosen : task ≠ chosen := by
    apply sound.not_chosen resched _ pending.alive (pending.wakeup_eq sound) pending.waiting
    rw [pending.eventType]
    exact notSleep
  refine ⟨pending.toInWait.again again, ?_,
    resched.kept task pending.queued notChosen, ?_, ?_, ?_, ?_⟩
  · rcases resched.others task notChosen with same | ⟨_, running, _⟩
    · exact same.trans pending.waiting
    · rw [pending.waiting] at running
      cases running
  · rw [again.subList]
    exact pending.linked
  · rw [sound.again_event resched (pending.holds sound) fun _ => notChosen]
    exact pending.eventType
  · rw [again.pubList]
    exact pending.first
  · rw [unlinks, again.dispatching]
    exact pending.notUnlinked

theorem Pending.acts [DecidableEq cpus] (sound : system.Sound)
    (locked : system.dispatching = none ∨ op.locks = false)
    (done : system.act op = some next) (acts : Acts system next op actor) :
    next.Pending task event type data ∧ next.pendingRounds type = system.pendingRounds type := by
  have different : task ≠ actor := by
    rcases pending.toInWait.acts acts with different | ⟨cpu, _, isCurrent, point, _⟩
    · exact different
    · obtain ⟨_, _, running⟩ := sound.at_returns isCurrent point
      rw [pending.waiting] at running
      cases running
  have leaves := acts.leaves
  obtain ⟨subList, pubList, _⟩ := act_lists done
  obtain ⟨now, first⟩ := pending.first
  refine ⟨⟨pending.toInWait.leaves leaves different, ?_, ?_, ?_, ?_, ?_, ?_⟩, ?_⟩
  · rw [stateOf, leaves.tasks task different]
    exact pending.waiting
  · obtain ⟨pushed, queue, _⟩ := leaves.queue
    rw [queue]
    exact mem_append_left _ pending.queued
  · rcases subList with same | ⟨_, _, _, _, _, grown⟩
    · rw [same]
      exact pending.linked
    · rw [grown]
      exact mem_append_left _ pending.linked
  · rw [leaves.events task event different (pending.holds sound)]
    exact pending.eventType
  · refine ⟨now, ?_⟩
    rcases pubList with same | ⟨_, _, _, _, _, grown⟩
    · rw [same]
      exact first
    · rw [grown, List.find?_append, first]
      rfl
  · rw [act_unlinks locked done]
    exact pending.notUnlinked
  · rcases pubList with same | ⟨_, _, _, _, _, grown⟩
    · rw [pendingRounds, same]
      rfl
    · have found : system.pubList.findIdx (fun published =>
          published.type = type) < system.pubList.length := by
        apply findIdx_lt_length.mpr
        exact ⟨_, List.mem_of_find?_eq_some first, by simp⟩
      rw [pendingRounds, grown, findIdx_append, if_pos found]
      rfl

/-- A round takes the event and wakes the task, or it takes another one. -/
theorem Pending.round (sound : system.Sound) (cpu : cpus) :
    (system.dispatchRound cpu).Woken task event type data ∨
      (system.dispatchRound cpu).Pending task event type data ∧
        (system.dispatchRound cpu).pendingRounds type < system.pendingRounds type := by
  obtain ⟨now, first⟩ := pending.first
  have holds := pending.holds sound
  rcases system.dispatchRound_cases cpu with ⟨isEmpty, _⟩ | ⟨published, rest, isPublished, outcome⟩
  · rw [isEmpty] at first
    cases first
  · rw [isPublished] at first
    by_cases isType : published.type = type
    · left
      have isOurs : published = ⟨type, data, now⟩ := by
        rw [List.find?_cons_of_pos (by simpa using isType), Option.some.injEq] at first
        exact first
      subst isOurs
      rcases outcome with ⟨nothing, _⟩ | ⟨found, dispatching, _, _, isNext⟩
      · rw [firstSubscription, List.find?_eq_none] at nothing
        have excluded := nothing event pending.linked
        rw [pending.eventType] at excluded
        simp at excluded
      · rw [isNext]
        have isResumed : system.sched.isResumed ⟨type, data, now⟩ task :=
          isResumed_iff.mpr ⟨pending.waiting, event, pending.wakeup_eq sound, pending.eventType⟩
        have events := (resume_spec ⟨type, data, now⟩
          system.sched.activeTasks system.sched).2.2 event
        rw [if_pos ⟨task, pending.queued, isResumed, pending.wakeup_eq sound⟩] at events
        have isEvent : (system.sched.schedResumeEvent
            ⟨type, data, now⟩).events event =
              { system.sched.events event with data := data } := events
        refine ⟨pending.toInWait.resume ⟨type, data, now⟩ rfl rfl, ?_, ?_, ?_⟩
        · rw [resume_state, if_pos ⟨pending.queued, isResumed⟩]
          decide
        · simp only [isEvent]
          exact pending.eventType
        · simp only [isEvent]
    · right
      rw [List.find?_cons_of_neg (by simpa using isType)] at first
      have notResumed : system.sched.isResumed published task = false := by
        rw [← Bool.not_eq_true, isResumed_iff]
        rintro ⟨_, own, isOwn, ownType⟩
        have isEvent := pending.wakeup_eq sound
        rw [wakeup, isOwn, Option.some.injEq] at isEvent
        subst own
        exact isType (ownType.symm.trans pending.eventType)
      have rounds : ∀ next : Kevents cpus, next.pubList = rest →
          next.pendingRounds type < system.pendingRounds type := by
        intro next pubList
        rw [pendingRounds, pendingRounds, pubList, isPublished, findIdx_cons]
        simp [isType]
      rcases outcome with ⟨_, isNext⟩ | ⟨found, dispatching, isFound, woken, isNext⟩
      · rw [isNext]
        exact ⟨⟨⟨pending.alive, pending.point⟩, pending.waiting,
          pending.queued, pending.linked, pending.eventType, ⟨now, first⟩,
          pending.notUnlinked⟩, rounds _ rfl⟩
      · rw [isNext]
        refine ⟨⟨pending.toInWait.resume published rfl rfl, ?_, ?_,
          pending.linked, ?_, ⟨now, first⟩, ?_⟩, rounds _ rfl⟩
        · rw [resume_state, if_neg]
          · exact pending.waiting
          · rintro ⟨_, isResumed⟩
            rw [notResumed] at isResumed
            cases isResumed
        · rw [resume_activeTasks]
          exact pending.queued
        · rw [sound.resume_event published holds notResumed]
          exact pending.eventType
        · rcases woken with ⟨same, _⟩ | isUnlinks
          · rw [unlinks, same]
            exact pending.notUnlinked
          · rw [unlinks, isUnlinks]
            intro isEvent
            have same : found = event := Option.some.inj isEvent
            subst same
            have foundType := List.find?_some isFound
            rw [decide_eq_true_eq, pending.eventType] at foundType
            exact isType foundType.symm

theorem Pending.step [DecidableEq cpus] (sound : system.Sound)
    (notSleep : type ≠ .sleep) (done : system.step op = some next) :
    next.Woken task event type data ∨
      next.Pending task event type data ∧ next.pendingRounds type ≤ system.pendingRounds type := by
  rcases step_cases done with ⟨locked, acted⟩ |
    ⟨cpu, _, _, rfl⟩ | ⟨cpu, other, isDispatching, _, rfl⟩
  · right
    rcases (sound.acts_of_act acted).2 with
      ⟨cpu, now, voluntary, _, switched⟩ | ⟨actor, acts⟩
    · obtain ⟨chosen, again⟩ := sound.schedAgain_spec switched
      refine ⟨pending.again sound notSleep again, ?_⟩
      rw [pendingRounds, again.pubList]
      exact le_refl _
    · obtain ⟨stays, same⟩ := pending.acts sound locked acted acts
      exact ⟨stays, same.le⟩
  · rcases pending.round sound cpu with woken | ⟨stays, fewer⟩
    · exact .inl woken
    · exact .inr ⟨stays, fewer.le⟩
  · exact .inr ⟨pending.unlink isDispatching, le_refl _⟩

end

/-- The end of the wait: the call returns the data. -/
def Returns (system next : Kevents cpus) (task : Nat) (type : KeventType) (data : Nat) : Prop :=
  next.returned = ⟨task, type, data⟩ :: system.returned

section

variable (woken : system.Woken task event type data)
include woken

theorem Woken.again (sound : system.Sound) (again : Again system next cpu voluntary chosen) :
    next.Woken task event type data := by
  have resched := again.resched
  have unchanged := sound.again_event resched (woken.holds sound)
    fun waiting => absurd waiting woken.awake
  refine ⟨woken.toInWait.again again, ?_, ?_, ?_⟩
  · intro waiting
    by_cases isChosen : task = chosen
    · subst task
      rw [resched.chosenState] at waiting
      cases waiting
    · rcases resched.others task isChosen with same | ⟨_, _, ready⟩
      · exact woken.awake (same.symm.trans waiting)
      · rw [ready] at waiting
        cases waiting
  · rw [unchanged]
    exact woken.eventType
  · rw [unchanged]
    exact woken.eventData

theorem Woken.returns (sound : system.Sound)
    (done : system.schedWaitReturn task event = some next) :
    Returns system next task type data := by
  obtain ⟨sched, returned, rfl⟩ := map_eq_some_iff.mp done
  obtain ⟨own, isOwn, rfl⟩ := map_eq_some_iff.mp returned
  have isEvent := woken.wakeup_eq sound
  rw [wakeup, isOwn, Option.some.injEq] at isEvent
  subst own
  rw [Returns, ← woken.eventType, ← woken.eventData]
  simp [setPoint, updateTask, updateEvent]

theorem Woken.acts (sound : system.Sound) (acts : Acts system next op actor) :
    Returns system next task type data ∨
      next.Woken task event type data ∧ next.points task = system.points task := by
  rcases woken.toInWait.acts acts with different | ⟨_, _, _, _, done⟩
  · have leaves := acts.leaves
    have unchanged := leaves.events task event different (woken.holds sound)
    refine .inr ⟨⟨woken.toInWait.leaves leaves different, ?_, ?_, ?_⟩, leaves.points task different⟩
    · rw [stateOf, leaves.tasks task different]
      exact woken.awake
    · rw [unchanged]
      exact woken.eventType
    · rw [unchanged]
      exact woken.eventData
  · exact .inl (woken.returns sound done)

theorem Woken.round (sound : system.Sound) (cpu : cpus) :
    (system.dispatchRound cpu).Woken task event type data := by
  rcases system.dispatchRound_cases cpu with ⟨_, isNext⟩ |
    ⟨published, rest, _, ⟨_, isNext⟩ | ⟨_, _, _, _, isNext⟩⟩
  · rw [isNext]
    exact ⟨⟨woken.alive, woken.point⟩, woken.awake, woken.eventType, woken.eventData⟩
  · rw [isNext]
    exact ⟨⟨woken.alive, woken.point⟩, woken.awake, woken.eventType, woken.eventData⟩
  · have notResumed : system.sched.isResumed published task = false := by
      rw [← Bool.not_eq_true, isResumed_iff]
      rintro ⟨waiting, _⟩
      exact woken.awake waiting
    have unchanged := sound.resume_event published (woken.holds sound) notResumed
    rw [isNext]
    refine ⟨woken.toInWait.resume published rfl rfl, ?_, ?_, ?_⟩
    · rw [resume_state, if_neg]
      · exact woken.awake
      · rintro ⟨_, isResumed⟩
        rw [notResumed] at isResumed
        cases isResumed
    · simp only [unchanged]
      exact woken.eventType
    · simp only [unchanged]
      exact woken.eventData

/-- A task that was woken keeps its data until it returns, and once it is
behind `sched_again` it stays there. -/
theorem Woken.step [DecidableEq cpus] (sound : system.Sound) (done : system.step op = some next) :
    Returns system next task type data ∨
      next.Woken task event type data ∧
        (system.points task = .returns event → next.points task = .returns event) := by
  rcases step_cases done with ⟨_, acted⟩ | ⟨cpu, _, _, rfl⟩ | ⟨cpu, other, _, _, rfl⟩
  · rcases (sound.acts_of_act acted).2 with
      ⟨cpu, now, voluntary, _, switched⟩ | ⟨actor, acts⟩
    · obtain ⟨chosen, again⟩ := sound.schedAgain_spec switched
      refine .inr ⟨woken.again sound again, ?_⟩
      intro returns
      by_cases isCurrent : system.sched.current cpu = some task
      · rw [again.ownPoint task isCurrent, returns]
        rfl
      · rw [again.otherPoint task isCurrent]
        exact returns
    · rcases woken.acts sound acts with returned | ⟨stays, point⟩
      · exact .inl returned
      · refine .inr ⟨stays, ?_⟩
        rw [point]
        exact id
  · refine .inr ⟨woken.round sound cpu, ?_⟩
    rw [dispatchRound_points]
    exact id
  · exact .inr ⟨⟨⟨woken.alive, woken.point⟩, woken.awake, woken.eventType, woken.eventData⟩, id⟩

/-- A task that was woken is in the active list or on a processor. -/
theorem Woken.placed (sound : system.Sound) :
    task ∈ system.sched.activeTasks ∨ ∃ cpu, system.sched.current cpu = some task := by
  rcases sound.sched.live_place woken.alive.1 with active | cleanup | current
  · exact .inl active
  · exact absurd (sound.sched.cleanupState task cleanup) woken.alive.2
  · exact .inr current

theorem Woken.ready (sound : system.Sound) (queued : task ∈ system.sched.activeTasks) :
    system.sched.stateOf task = .ready := by
  rcases sound.sched.activeState task queued with ready | waiting
  · exact ready
  · exact absurd waiting woken.awake

end

theorem Sound.chosen_current (sound : system.Sound) (alive : system.Alive chosen)
    (again : Again system next cpu voluntary chosen) :
    next.sched.current cpu = some chosen := by
  rw [Sched.current, again.resched.running, again.idle]
  apply if_neg
  intro isIdle
  exact sound.sched.idleLive chosen ⟨cpu, isIdle.symm⟩ alive.1

variable [DecidableEq cpus]

/-- In the active list the task moves to the front with every switch, until it
is chosen. -/
theorem Woken.queue_again (woken : system.Woken task event type data)
    (sound : system.Sound) (queued : task ∈ system.sched.activeTasks)
    (done : system.schedAgain cpu now voluntary = some next) :
    (∃ other, next.sched.current other = some task) ∨
      task ∈ next.sched.activeTasks ∧
        next.sched.activeTasks.idxOf task < system.sched.activeTasks.idxOf task := by
  obtain ⟨chosen, again⟩ := sound.schedAgain_spec done
  by_cases isChosen : task = chosen
  · subst chosen
    exact .inl ⟨cpu, sound.chosen_current woken.alive again⟩
  · exact .inr ⟨again.resched.kept task queued isChosen,
      again.resched.order task queued (woken.ready sound queued) isChosen⟩

theorem Woken.queue_step (woken : system.Woken task event type data)
    (sound : system.Sound) (queued : task ∈ system.sched.activeTasks)
    (done : system.step op = some next) :
    (∃ cpu, next.sched.current cpu = some task) ∨
      task ∈ next.sched.activeTasks ∧
        next.sched.activeTasks.idxOf task ≤ system.sched.activeTasks.idxOf task := by
  rcases step_cases done with ⟨_, acted⟩ | ⟨cpu, _, _, rfl⟩ | ⟨cpu, other, _, _, rfl⟩
  · rcases (sound.acts_of_act acted).2 with
      ⟨cpu, now, voluntary, _, switched⟩ | ⟨actor, acts⟩
    · rcases woken.queue_again sound queued switched with current | ⟨stays, ahead⟩
      · exact .inl current
      · exact .inr ⟨stays, ahead.le⟩
    · obtain ⟨pushed, queue, _⟩ := acts.leaves.queue
      right
      rw [queue, idxOf_append_of_mem queued]
      exact ⟨mem_append_left _ queued, le_refl _⟩
  · right
    have queue : (system.dispatchRound cpu).sched.activeTasks = system.sched.activeTasks := by
      rcases system.dispatchRound_cases cpu with ⟨_, isNext⟩ |
        ⟨_, _, _, ⟨_, isNext⟩ | ⟨_, _, _, _, isNext⟩⟩
      · rw [isNext]
      · rw [isNext]
      · rw [isNext, resume_activeTasks]
    rw [queue]
    exact ⟨queued, le_refl _⟩
  · exact .inr ⟨queued, le_refl _⟩

end Steps

section Runs

variable [DecidableEq cpus]

/-- The next step of a task in its wait: `sched_again`, or the return. -/
def OwnStep (system : Kevents cpus) (task event : Nat) (op : KeventOp cpus) : Prop :=
  ∃ cpu, system.sched.current cpu = some task ∧
    ((system.points task = .waits event ∧ ∃ now, op = .again cpu now true) ∨
      system.points task = .returns event ∧ op = .waitReturn cpu)

/-- Events are dispatched and tasks are switched again and again, and a task
in its wait that a processor runs again and again goes on. -/
structure Fair (run : EndlessRun (step : Kevents cpus → KeventOp cpus → Option (Kevents cpus))) :
    Prop where
  rounds : InfinitelyOften fun moment => ∃ cpu,
    run.ops moment = .round cpu ∧ (run.states moment).dispatching = some ⟨cpu, none⟩
  switches : InfinitelyOften fun moment => ∃ cpu now voluntary,
    run.ops moment = .again cpu now voluntary
  goesOn : ∀ task event,
    (InfinitelyOften fun moment => (run.states moment).InWait task event ∧
      ∃ cpu, (run.states moment).sched.current cpu = some task) →
    InfinitelyOften fun moment =>
      (run.states moment).OwnStep task event (run.ops moment)

/-- No event of the type is pending, and a task in the active list waits for a
subscription of the type. -/
def Awaited (system : Kevents cpus) (type : KeventType) : Prop :=
  type ≠ .sleep ∧ (∀ published ∈ system.pubList, published.type ≠ type) ∧
    ∃ task ∈ system.sched.activeTasks,
      system.sched.stateOf task = .waiting ∧
        ∃ event ∈ system.subList, system.wakeup task = some event ∧
          (system.sched.events event).type = type

omit [DecidableEq cpus] in
theorem Awaited.pending {type : KeventType} (awaited : system.Awaited type) (sound : system.Sound)
    (free : system.dispatching = none) (data now : Nat) :
    ∃ task event, (system.keventPublish type data now).Pending task event type data := by
  obtain ⟨notSleep, nonePending, task, queued, waiting, event, linked, isEvent, isType⟩ := awaited
  have alive : system.Alive task := by
    refine ⟨sound.sched.active_live queued, ?_⟩
    rw [waiting]
    decide
  have notSleeping : ¬system.Sleeping task := by
    intro sleeping
    obtain ⟨own, isOwn, ownType⟩ := sleeping waiting
    rw [isEvent, Option.some.injEq] at isOwn
    subst own
    exact notSleep (isType.symm.trans ownType)
  have point : system.points task = .waits event ∨ system.points task = .returns event := by
    have atPoint := sound.point task alive
    rw [AtPoint] at atPoint
    cases point : system.points task with
    | runs =>
      rw [point] at atPoint
      exact absurd atPoint.2 notSleeping
    | subscribed own =>
      rw [point] at atPoint
      exact absurd waiting atPoint.2
    | waits own =>
      rw [point] at atPoint
      have same := isEvent.symm.trans atPoint
      rw [Option.some.injEq] at same
      rw [same]
      exact .inl rfl
    | returns own =>
      rw [point] at atPoint
      have same := isEvent.symm.trans atPoint
      rw [Option.some.injEq] at same
      rw [same]
      exact .inr rfl
    | sleeps =>
      rw [point] at atPoint
      exact absurd atPoint.2.2 notSleeping
    | leaves =>
      rw [point] at atPoint
      have ready := waiting.symm.trans atPoint.2.2
      cases ready
  refine ⟨task, event, ⟨alive, point⟩, waiting, queued, linked, isType, ⟨now, ?_⟩, ?_⟩
  · have nothing : system.pubList.find? (fun published =>
        published.type = type) = none := by
      rw [List.find?_eq_none]
      intro published member
      simpa using nonePending published member
    have list : (system.keventPublish type data now).pubList =
      system.pubList ++ [⟨type, data, now⟩] := rfl
    rw [list, List.find?_append, nothing]
    simp
  · intro isUnlinked
    have nothing : system.unlinks = some event := isUnlinked
    rw [unlinks, free] at nothing
    cases nothing

variable {run : EndlessRun
  (step : Kevents cpus → KeventOp cpus → Option (Kevents cpus))}
  {task event data : Nat} {type : KeventType}

theorem Fair.woken_of_pending (fair : Fair run)
    (sound : ∀ moment, (run.states moment).Sound) (notSleep : type ≠ .sleep)
    (pending : (run.states start).Pending task event type data) :
    ∃ later, start < later ∧ (run.states later).Woken task event type data := by
  apply reaches_of_rank (fun moment => (run.states moment).Pending task event type data)
    (fun moment => (run.states moment).Woken task event type data)
    (fun moment => (run.states moment).pendingRounds type) fair.rounds _ _
    pending
  · intro moment stays
    exact stays.step (sound moment) notSleep (run.steps moment)
  · rintro moment stays ⟨cpu, isRound, isDispatching⟩
    have done := run.steps moment
    rcases step_cases done with ⟨_, acted⟩ | ⟨cpu', _, _, isNext⟩ | ⟨cpu', other, unlinks, _, _⟩
    · rw [isRound] at acted
      cases acted
    · rw [isNext]
      rcases stays.round (sound moment) cpu' with woken | ⟨_, fewer⟩
      · exact .inl woken
      · exact .inr fewer
    · rw [isDispatching] at unlinks
      cases unlinks

theorem Fair.current_of_woken (fair : Fair run) (sound : ∀ moment, (run.states moment).Sound)
    (woken : ∀ moment, start ≤ moment →
      (run.states moment).Woken task event type data)
    (after : start ≤ moment) :
    ∃ later, moment ≤ later ∧ ∃ cpu, (run.states later).sched.current cpu = some task := by
  rcases (woken moment after).placed (sound moment) with queued | current
  · have reached := reaches_of_rank
      (fun moment => start ≤ moment ∧ task ∈ (run.states moment).sched.activeTasks)
      (fun moment =>
        ∃ cpu, (run.states moment).sched.current cpu = some task)
      (fun moment => (run.states moment).sched.activeTasks.idxOf task)
      fair.switches ?_ ?_ ⟨after, queued⟩
    · obtain ⟨later, order, current⟩ := reached
      exact ⟨later, order.le, current⟩
    · rintro moment ⟨after, queued⟩
      rcases (woken moment after).queue_step (sound moment) queued
        (run.steps moment) with current | ⟨stays, ahead⟩
      · exact .inl current
      · exact .inr ⟨⟨after.trans (le_succ moment), stays⟩, ahead⟩
    · rintro moment ⟨after, queued⟩ ⟨cpu, now, voluntary, isAgain⟩
      have done := run.steps moment
      rw [isAgain] at done
      rcases step_cases done with ⟨_, acted⟩ | ⟨_, _, isRound, _⟩ | ⟨_, _, _, isRound, _⟩
      · rcases (woken moment after).queue_again (sound moment) queued acted
          with current | ⟨_, ahead⟩
        · exact .inl current
        · exact .inr ahead
      · cases isRound
      · cases isRound
  · exact ⟨moment, le_refl _, current⟩

theorem Woken.own_return (woken : system.Woken task event type data)
    (sound : system.Sound) (isReturn : op = .waitReturn cpu)
    (isCurrent : system.sched.current cpu = some task)
    (point : system.points task = .returns event)
    (done : system.step op = some next) :
    Returns system next task type data := by
  subst isReturn
  rcases step_cases done with ⟨_, acted⟩ | ⟨_, _, isRound, _⟩ | ⟨_, _, _, isRound, _⟩
  · obtain ⟨current, isTask, returns⟩ := bind_eq_some_iff.mp acted
    rw [isCurrent, Option.some.injEq] at isTask
    subst current
    rw [point] at returns
    exact woken.returns sound returns
  · cases isRound
  · cases isRound

theorem own_switch (sound : system.Sound) (isAgain : op = .again cpu now true)
    (isCurrent : system.sched.current cpu = some task)
    (point : system.points task = .waits event)
    (done : system.step op = some next) :
    next.points task = .returns event := by
  subst isAgain
  rcases step_cases done with ⟨_, acted⟩ | ⟨_, _, isRound, _⟩ | ⟨_, _, _, isRound, _⟩
  · obtain ⟨chosen, again⟩ := sound.schedAgain_spec acted
    rw [again.ownPoint task isCurrent, point]
    rfl
  · cases isRound
  · cases isRound

theorem Fair.returns_of_woken (fair : Fair run) (sound : ∀ moment, (run.states moment).Sound)
    (woken : (run.states start).Woken task event type data) :
    ∃ later, start ≤ later ∧
      Returns (run.states later) (run.states (later + 1)) task type data := by
  by_contra unreturned
  push Not at unreturned
  have steps : ∀ moment, start ≤ moment →
      (run.states moment).Woken task event type data →
        (run.states (moment + 1)).Woken task event type data ∧
          ((run.states moment).points task = .returns event →
            (run.states (moment + 1)).points task = .returns event) := by
    intro moment after stays
    rcases stays.step (sound moment) (run.steps moment) with returned | kept
    · exact absurd returned (unreturned moment after)
    · exact kept
  have lasts : ∀ moment, start ≤ moment → (run.states moment).Woken task event type data := by
    intro moment after
    induction moment, after using le_induction with
    | base => exact woken
    | succ moment after induction => exact (steps moment after induction).1
  have behind : ∀ first, start ≤ first →
      (run.states first).points task = .returns event →
        ∀ later, first ≤ later → (run.states later).points task = .returns event := by
    intro first after isBehind later order
    induction later, order using le_induction with
    | base => exact isBehind
    | succ later order induction =>
      have afterLater := after.trans order
      exact (steps later afterLater (lasts later afterLater)).2 induction
  have own : InfinitelyOften fun moment =>
      (run.states moment).OwnStep task event (run.ops moment) := by
    apply fair.goesOn task event
    intro moment
    obtain ⟨later, order, current⟩ := fair.current_of_woken sound lasts (le_max_left start moment)
    exact ⟨later, (le_max_right start moment).trans order,
      (lasts later ((le_max_left start moment).trans order)).toInWait,
      current⟩
  -- the first own step may be the switch; the second one is the return
  have returned : ∀ moment, start ≤ moment →
      (run.states moment).points task = .returns event → False := by
    intro moment after isBehind
    obtain ⟨later, order, cpu, isCurrent, steps⟩ := own moment
    have afterLater := after.trans order
    have point := behind moment after isBehind later order
    rcases steps with ⟨waits, _⟩ | ⟨_, isReturn⟩
    · rw [point] at waits
      cases waits
    · exact unreturned later afterLater
        ((lasts later afterLater).own_return (sound later) isReturn isCurrent
          point (run.steps later))
  obtain ⟨moment, after, cpu, isCurrent, step⟩ := own start
  rcases step with ⟨point, now, isAgain⟩ | ⟨point, _⟩
  · exact returned (moment + 1) (after.trans (le_succ moment))
      (own_switch (sound moment) isAgain isCurrent point (run.steps moment))
  · exact returned moment after point

/-- In every fair run, an event that is published while a task in the active
list waits for a subscription of its type, and no other event of the type is
pending, is delivered: a subscriber returns with its data. -/
theorem delivered_of_publish {idleTasks : cpus → Nat}
    (start : run.states 0 = boot idleTasks) (fair : Fair run)
    {moment now : Nat} {cpu : cpus}
    (published : run.ops moment = .publish cpu type data now)
    (awaited : (run.states moment).Awaited type) :
    ∃ later task, moment < later ∧
      (run.states (later + 1)).returned = ⟨task, type, data⟩ :: (run.states later).returned := by
  have sound : ∀ moment, (run.states moment).Sound := by
    apply run.invariant Sound
    · exact fun _ _ _ sound done => step_sound sound done
    · rw [start]
      exact boot_sound idleTasks
  have done := run.steps moment
  rw [published] at done
  have next : (run.states moment).dispatching = none ∧
      run.states (moment + 1) = (run.states moment).keventPublish type data now := by
    rcases step_cases done with ⟨locked, acted⟩ | ⟨_, _, isRound, _⟩ | ⟨_, _, _, isRound, _⟩
    · refine ⟨locked.resolve_right Bool.noConfusion, ?_⟩
      exact (Option.some.inj acted).symm
    · cases isRound
    · cases isRound
  obtain ⟨task, event, pending⟩ := awaited.pending (sound moment) next.1 data now
  rw [← next.2] at pending
  obtain ⟨later, order, woken⟩ := fair.woken_of_pending sound awaited.1 pending
  obtain ⟨last, after, returned⟩ := fair.returns_of_woken sound woken
  refine ⟨last, task, ?_, returned⟩
  omega

end Runs

section OneProcessor

instance (system : Kevents cpus) (type : KeventType) : Decidable (system.Awaited type) :=
  inferInstanceAs (Decidable (type ≠ .sleep ∧
    (∀ published ∈ system.pubList, published.type ≠ type) ∧
    ∃ task ∈ system.sched.activeTasks,
      system.sched.stateOf task = .waiting ∧
        ∃ event ∈ system.subList, system.wakeup task = some event ∧
          (system.sched.events event).type = type))

/-- The processor is idle, and whoever is in the active list waits for
something else than the end of a sleep. -/
structure Quiet (system : Kevents Unit) : Prop where
  published : system.pubList = []
  idle : system.sched.current () = none
  waiting : ∀ task ∈ system.sched.activeTasks,
    system.sched.stateOf task = .waiting ∧
      ∃ event ∈ system.wakeup task, (system.sched.events event).type ≠ .sleep

theorem Quiet.again {system next : Kevents Unit} (quiet : system.Quiet) (sound : system.Sound)
    (done : system.schedAgain () now voluntary = some next) : next.Quiet := by
  obtain ⟨chosen, again⟩ := sound.schedAgain_spec done
  have resched := again.resched
  have alive : ∀ task ∈ system.sched.activeTasks, system.Alive task := by
    intro task queued
    refine ⟨sound.sched.active_live queued, ?_⟩
    rw [(quiet.waiting task queued).1]
    decide
  have notChosen : ∀ task ∈ system.sched.activeTasks, task ≠ chosen := by
    intro task queued
    obtain ⟨waiting, event, isEvent, type⟩ := quiet.waiting task queued
    exact sound.not_chosen resched type (alive task queued) isEvent waiting
  have isIdle : chosen = system.sched.idleTasks () := by
    rcases resched.origin with isIdle | ⟨current, _⟩ | ⟨queued | current, _⟩
    · exact isIdle
    · rw [quiet.idle] at current
      cases current
    · exact absurd rfl (notChosen chosen queued)
    · rw [quiet.idle] at current
      cases current
  refine ⟨again.pubList.trans quiet.published, ?_, ?_⟩
  · rw [current, resched.running, again.idle]
    exact if_pos isIdle
  · intro task member
    have queued : task ∈ system.sched.activeTasks := by
      rcases resched.active task member with queued | current
      · exact queued
      · rw [quiet.idle] at current
        cases current
    obtain ⟨waiting, event, isEvent, type⟩ := quiet.waiting task queued
    refine ⟨?_, event, ?_, ?_⟩
    · rcases resched.others task (notChosen task queued) with same | ⟨current, _⟩
      · exact same.trans waiting
      · rw [quiet.idle] at current
        cases current
    · exact (resched.wakeups task).trans isEvent
    · rw [sound.again_event resched ⟨alive task queued, .inl isEvent⟩
        fun _ => notChosen task queued]
      exact type

/-- The idle processor dispatches and switches for ever. -/
def idleLoop (moment : Nat) : KeventOp Unit :=
  match moment % 3 with
  | 0 => .dispatch ()
  | 1 => .round ()
  | _ => .again () 0 false

/-- The states of this loop. -/
structure IdleTurn (returned : List KeventReturn) (moment : Nat)
    (system : Kevents Unit) : Prop where
  sound : system.Sound
  quiet : system.Quiet
  dispatching : system.dispatching =
    if moment % 3 = 1 then some ⟨(), none⟩ else none
  returned : system.returned = returned

theorem IdleTurn.turns {returned : List KeventReturn} (moment : Nat)
    (system : Kevents Unit) (turn : IdleTurn returned moment system) :
    ∃ next, system.step (idleLoop moment) = some next ∧ IdleTurn returned (moment + 1) next := by
  have small := mod_lt moment (show 0 < 3 by decide)
  have quiet := turn.quiet
  have dispatching := turn.dispatching
  rw [idleLoop]
  generalize isRest : moment % 3 = rest at small dispatching
  have following : (moment + 1) % 3 = (rest + 1) % 3 := by omega
  match rest, small with
  | 0, _ =>
    refine ⟨system.keventDispatch (), ?_, ?_⟩
    · rw [step, dispatching]
      rfl
    · refine ⟨turn.sound.lists _ _ _,
        ⟨quiet.published, quiet.idle, quiet.waiting⟩, ?_, turn.returned⟩
      rw [following]
      rfl
  | 1, _ =>
    have isNext : system.dispatchRound () =
        { system with dispatching := none } := by
      rw [dispatchRound, quiet.published]
    refine ⟨system.dispatchRound (), ?_, ?_⟩
    · rw [step, dispatching]
      rfl
    · rw [isNext]
      refine ⟨turn.sound.lists _ _ _,
        ⟨quiet.published, quiet.idle, quiet.waiting⟩, ?_, turn.returned⟩
      rw [following]
      rfl
  | 2, _ =>
    obtain ⟨next, switched⟩ := turn.sound.schedAgain_isSome () 0 false
    have done : system.step (.again () 0 false) = some next := by
      rw [step, dispatching]
      exact switched
    obtain ⟨chosen, again⟩ := turn.sound.schedAgain_spec switched
    refine ⟨next, done, step_sound turn.sound done, quiet.again turn.sound switched, ?_,
      again.returned.trans turn.returned⟩
    rw [again.dispatching, dispatching, following]
    rfl

variable {ops : List (KeventOp Unit)}

theorem exists_fair {final : Kevents Unit}
    (finite : runOps step (boot fun _ : Unit => 0) ops = some final)
    (quiet : final.Quiet) (free : final.dispatching = none) :
    ∃ run : EndlessRun (step : Kevents Unit → KeventOp Unit → Option (Kevents Unit)),
      run.states 0 = (boot fun _ : Unit => 0) ∧ Fair run ∧
        (∀ moment, moment ≤ ops.length →
          runOps step (boot fun _ : Unit => 0) (ops.take moment) = some (run.states moment)) ∧
        (∀ moment op, ops[moment]? = some op → run.ops moment = op) ∧
        ∀ moment, (run.states (ops.length + moment)).returned = final.returned := by
  have entry : IdleTurn final.returned 0 final := ⟨sound_of_run finite, quiet, free, rfl⟩
  obtain ⟨run, first, states, labels, goesOn⟩ :=
    EndlessRun.exists_of_runOps IdleTurn.turns finite entry
  refine ⟨run, first, ⟨?_, ?_, ?_⟩, states, labels, ?_⟩
  · intro moment
    refine ⟨ops.length + (3 * moment + 1), by omega, (), ?_⟩
    obtain ⟨isOp, turn⟩ := goesOn (3 * moment + 1)
    have rest : (3 * moment + 1) % 3 = 1 := by omega
    refine ⟨?_, ?_⟩
    · rw [isOp, idleLoop, rest]
      rfl
    · rw [turn.dispatching, rest]
      rfl
  · intro moment
    refine ⟨ops.length + (3 * moment + 2), by omega, (), 0, false, ?_⟩
    have rest : (3 * moment + 2) % 3 = 2 := by omega
    rw [(goesOn (3 * moment + 2)).1, idleLoop, rest]
    rfl
  · intro task event often
    obtain ⟨later, order, _, cpu, isCurrent⟩ := often ops.length
    obtain ⟨past, rfl⟩ := Nat.exists_eq_add_of_le order
    rw [(goesOn past).2.quiet.idle] at isCurrent
    cases isCurrent
  · intro moment
    exact (goesOn moment).2.returned

instance (system : Kevents Unit) : Decidable system.Quiet :=
  decidable_of_iff (system.pubList.length = 0 ∧ system.sched.current () = none ∧
      ∀ task ∈ system.sched.activeTasks,
        system.sched.stateOf task = .waiting ∧
          ∃ event ∈ system.wakeup task, (system.sched.events event).type ≠ .sleep)
    ⟨fun ⟨published, idle, waiting⟩ =>
        ⟨length_eq_zero_iff.mp published, idle, waiting⟩,
      fun quiet =>
        ⟨length_eq_zero_iff.mpr quiet.published, quiet.idle, quiet.waiting⟩⟩

/-- The task that waits for a key returns with it and exits. -/
def servedRun : List (KeventOp Unit) :=
  keyboardRun ++ [KeventOp.exit () 0]

/-- The key is published between the two sections of `kevent_subscribe`. -/
def lostRun : List (KeventOp Unit) :=
  [.add () 1 10 ⟨1, 1, .user, .ready, 0, none⟩, .again () 0 false,
    .subscribe () 20 .keyboard 0, .publish () .keyboard 7 1, .dispatch (),
    .round (), .round (), .waitEvent (), .again () 0 true]

private theorem holds_at {start : Kevents Unit}
    {run : EndlessRun (step : Kevents Unit → KeventOp Unit → Option (Kevents Unit))}
    (states : ∀ moment, moment ≤ ops.length →
      runOps step start (ops.take moment) = some (run.states moment))
    (within : moment ≤ ops.length)
    {holds : Kevents Unit → Prop}
    (reached : ∃ system ∈ runOps step start (ops.take moment),
      holds system) : holds (run.states moment) := by
  obtain ⟨system, isState, facts⟩ := reached
  have same := (states moment within).symm.trans isState
  rw [Option.some.injEq] at same
  rw [same]
  exact facts

/-- A key that is published for a task that waits is delivered. -/
theorem delivered_of_publish_keyboard :
    ∃ run : EndlessRun (step : Kevents Unit → KeventOp Unit → Option (Kevents Unit)),
      run.states 0 = (boot fun _ : Unit => 0) ∧ Fair run ∧ run.ops 5 = .publish () .keyboard 7 1 ∧
        (run.states 5).Awaited .keyboard ∧
        ∃ later task, 5 < later ∧
          (run.states (later + 1)).returned =
            ⟨task, .keyboard, 7⟩ :: (run.states later).returned := by
  have facts : ∃ final ∈ runOps step (boot fun _ : Unit => 0) servedRun,
      final.Quiet ∧ final.dispatching.isNone := by
    decide +kernel
  have fifth : ∃ system ∈ runOps step (boot fun _ : Unit => 0)
      (servedRun.take 5), system.Awaited .keyboard := by
    decide +kernel
  obtain ⟨final, finite, quiet, free⟩ := facts
  obtain ⟨run, start, fair, states, labels, _⟩ :=
    exists_fair finite quiet (isNone_iff_eq_none.mp free)
  have published : run.ops 5 = .publish () .keyboard 7 1 := labels 5 _ rfl
  have awaited := holds_at states (by decide) fifth
  exact ⟨run, start, fair, published, awaited, delivered_of_publish start fair published awaited⟩

/-- A key that is published before its subscriber waits in the active list is
taken from the list and reaches nobody. -/
theorem key_lost_before_wait :
    ∃ run : EndlessRun (step : Kevents Unit → KeventOp Unit → Option (Kevents Unit)),
      run.states 0 = (boot fun _ : Unit => 0) ∧ Fair run ∧ run.ops 3 = .publish () .keyboard 7 1 ∧
        (20 ∈ (run.states 3).subList ∧ ((run.states 3).sched.events 20).type = .keyboard) ∧
        ∀ moment, (run.states moment).returned = [] := by
  have facts : ∃ final ∈ runOps step (boot fun _ : Unit => 0) lostRun,
      final.Quiet ∧ final.dispatching.isNone ∧ final.returned = [] := by
    decide +kernel
  have early : ∀ moment < 9, ∃ system ∈
      runOps step (boot fun _ : Unit => 0) (lostRun.take moment), system.returned = [] := by
    decide +kernel
  have third : ∃ system ∈
      runOps step (boot fun _ : Unit => 0) (lostRun.take 3),
        20 ∈ system.subList ∧ (system.sched.events 20).type = .keyboard := by
    decide +kernel
  obtain ⟨final, finite, quiet, free, nothing⟩ := facts
  obtain ⟨run, start, fair, states, labels, rest⟩ :=
    exists_fair finite quiet (isNone_iff_eq_none.mp free)
  refine ⟨run, start, fair, labels 3 _ rfl, holds_at states (by decide) third, ?_⟩
  intro moment
  by_cases isEarly : moment < 9
  · exact holds_at states (le_of_lt isEarly) (early moment isEarly)
  · obtain ⟨past, rfl⟩ := Nat.exists_eq_add_of_le (Nat.le_of_not_lt isEarly)
    exact (rest past).trans nothing

end OneProcessor

end SeekOs.Proc.Kevents
