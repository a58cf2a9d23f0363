import SeekOs.Proc.KeventPoints

/-!
# The list of subscriptions

A subscription is unlinked by `kevent_dispatch` and freed by its subscriber.
`sched_resume_event` wakes every task that waits for an event of the published
type, and the dispatcher unlinks the first subscription of that type only.  When
the tasks that it wakes wait for this one subscription, and it is unlinked
before its subscriber returns, then the list holds nothing else than the
subscriptions of tasks that have not returned.
-/

namespace SeekOs.Proc.Kevents

open SeekOs.Base SeekOs.Lib List Option Sched

variable {cpus : Type} {system next : Kevents cpus}
variable {task event : Nat} {cpu : cpus} {op : KeventOp cpus}

variable (system)

/-- The subscription that a dispatcher has still to unlink. -/
def unlinks : Option Nat :=
  system.dispatching.bind Dispatching.unlinks

/-- The first subscription of a type. -/
def firstSubscription (type : KeventType) : Option Nat :=
  system.subList.find? fun event => (system.sched.events event).type = type

/-- A task is in `kevent_subscribe` with an event. -/
def Subscribes (task event : Nat) : Prop :=
  system.Alive task ∧
    (system.points task = .subscribed event ∨
      system.points task = .waits event ∨ system.points task = .returns event)

/-- A task that has not been woken yet, or whose subscription is being
unlinked. -/
def Unwoken (task event : Nat) : Prop :=
  (∃ event, system.points task = .subscribed event) ∨
    system.sched.stateOf task = .waiting ∨ system.unlinks = some event

/-- What the list of subscriptions holds. -/
structure Subscribed : Prop where
  nodup : system.subList.Nodup
  awake : ∀ event ∈ system.subList, ∃ task, system.Subscribes task event ∧ system.Unwoken task event
  type : ∀ event ∈ system.subList, (system.sched.events event).type ≠ .sleep

variable {system}

theorem Subscribes.holds [Fintype cpus] (sound : system.Sound)
    (subscribes : system.Subscribes task event) :
    system.Holds task event := by
  obtain ⟨alive, point⟩ := subscribes
  refine ⟨alive, ?_⟩
  have atPoint := sound.point task alive
  rw [AtPoint] at atPoint
  rcases point with isSubscribed | waits | returns
  · exact .inr isSubscribed
  · rw [waits] at atPoint
    exact .inl atPoint
  · rw [returns] at atPoint
    exact .inl atPoint

theorem Subscribed.of_keeps (subscribed : system.Subscribed)
    (subList : next.subList = system.subList)
    (keeps : ∀ task event, event ∈ system.subList →
      system.Subscribes task event → system.Unwoken task event →
        next.Subscribes task event ∧ next.Unwoken task event ∧
          (next.sched.events event).type = (system.sched.events event).type) : next.Subscribed := by
  have kept : ∀ event ∈ next.subList, event ∈ system.subList ∧
      ∃ task, next.Subscribes task event ∧ next.Unwoken task event ∧
        (next.sched.events event).type = (system.sched.events event).type := by
    intro event member
    rw [subList] at member
    obtain ⟨task, subscribes, unwoken⟩ := subscribed.awake event member
    exact ⟨member, task, keeps task event member subscribes unwoken⟩
  refine ⟨subList ▸ subscribed.nodup, ?_, ?_⟩
  · intro event member
    obtain ⟨_, task, subscribes, unwoken, _⟩ := kept event member
    exact ⟨task, subscribes, unwoken⟩
  · intro event member
    obtain ⟨before, task, _, _, type⟩ := kept event member
    rw [type]
    exact subscribed.type event before

theorem Subscribed.unlink (subscribed : system.Subscribed)
    (isDispatching : system.dispatching = some ⟨cpu, some event⟩) :
    (system.dispatchUnlink cpu event).Subscribed := by
  have isUnlinked : system.unlinks = some event := by
    rw [unlinks, isDispatching]
    rfl
  have member : ∀ other ∈ (system.dispatchUnlink cpu event).subList,
      other ≠ event ∧ other ∈ system.subList :=
    fun other linked => subscribed.nodup.mem_erase_iff.mp linked
  refine ⟨subscribed.nodup.erase event, ?_, ?_⟩
  · intro other linked
    obtain ⟨different, before⟩ := member other linked
    obtain ⟨task, subscribes, unwoken⟩ := subscribed.awake other before
    refine ⟨task, subscribes, ?_⟩
    rcases unwoken with isSubscribed | waiting | unlinked
    · exact .inl isSubscribed
    · exact .inr (.inl waiting)
    · rw [isUnlinked, Option.some.injEq] at unlinked
      exact absurd unlinked.symm different
  · intro other linked
    exact subscribed.type other (member other linked).2

/-- What a round does: it ends the loop, drops an event, or wakes tasks. -/
theorem dispatchRound_cases (system : Kevents cpus) (cpu : cpus) :
    (system.pubList = [] ∧ system.dispatchRound cpu = { system with dispatching := none }) ∨
    ∃ published rest, system.pubList = published :: rest ∧
      ((system.firstSubscription published.type = none ∧
        system.dispatchRound cpu = { system with pubList := rest }) ∨
      ∃ event dispatching, system.firstSubscription published.type = some event ∧
        (dispatching = system.dispatching ∧
            (∀ task ∈ system.sched.activeTasks, system.sched.isResumed published task = false) ∨
          dispatching = some ⟨cpu, some event⟩) ∧
        system.dispatchRound cpu = { system with
          sched := system.sched.schedResumeEvent published
          pubList := rest
          dispatching := dispatching }) := by
  cases isPublished : system.pubList with
  | nil =>
    refine .inl ⟨rfl, ?_⟩
    rw [dispatchRound, isPublished]
  | cons published rest =>
    refine .inr ⟨published, rest, rfl, ?_⟩
    rw [dispatchRound, isPublished]
    cases found : system.subList.find? fun event =>
        (system.sched.events event).type = published.type with
    | none =>
      refine .inl ⟨found, ?_⟩
      simp only [found]
    | some event =>
      right
      simp only [found]
      split
      · exact ⟨event, _, found, .inr rfl, rfl⟩
      · rename_i nobody
        refine ⟨event, _, found, .inl ⟨rfl, ?_⟩, rfl⟩
        intro task member
        rw [← Bool.not_eq_true]
        intro isResumed
        exact nobody (any_eq_true.mpr ⟨task, member, isResumed⟩)

theorem boot_subscribed (idleTasks : cpus → Nat) : (boot idleTasks).Subscribed :=
  ⟨nodup_nil, fun _ member => absurd member not_mem_nil, fun _ member => absurd member not_mem_nil⟩

variable [Fintype cpus]

theorem Leaves.subscribes (leaves : Leaves system next task)
    (sound : system.Sound) (unlinks : next.unlinks = system.unlinks)
    {other : Nat} (different : other ≠ task)
    (subscribes : system.Subscribes other event)
    (unwoken : system.Unwoken other event) :
    next.Subscribes other event ∧ next.Unwoken other event ∧
      (next.sched.events event).type = (system.sched.events event).type := by
  have holds := subscribes.holds sound
  refine ⟨?_, ?_, ?_⟩
  · rw [Subscribes, leaves.alive_iff different, leaves.points other different]
    exact subscribes
  · rw [Unwoken, stateOf, leaves.tasks other different,
      leaves.points other different, unlinks]
    exact unwoken
  · rw [leaves.events other event different holds]

/-- A task that waits for something else than the end of a sleep is not
chosen. -/
theorem Sound.not_chosen (sound : system.Sound) {chosen : Nat}
    (resched : Sched.Resched system.sched next.sched cpu chosen)
    (type : (system.sched.events event).type ≠ .sleep)
    (alive : system.Alive task) (isEvent : system.wakeup task = some event)
    (waiting : system.sched.stateOf task = .waiting) : task ≠ chosen := by
  rintro rfl
  rcases resched.origin with isIdle | ⟨_, running⟩ | ⟨_, ready | slept⟩
  · exact sound.sched.idleLive task ⟨cpu, isIdle.symm⟩ alive.1
  · rw [waiting] at running
    cases running
  · rw [waiting] at ready
    cases ready
  · obtain ⟨_, own, isOwn, isSleep⟩ := slept
    rw [← wakeup, isEvent, Option.some.injEq] at isOwn
    subst own
    exact type isSleep

section

variable (subscribed : system.Subscribed)
include subscribed

/-- Waking tasks, when those that are woken wait for the subscription that is
to be unlinked. -/
theorem Subscribed.resume (sound : system.Sound) (published : Kevent)
    (noUnlinks : system.unlinks = none)
    (sched : next.sched = system.sched.schedResumeEvent published)
    (points : next.points = system.points)
    (subList : next.subList = system.subList)
    (woken : ∀ task ∈ system.sched.activeTasks,
      system.sched.isResumed published task = true →
        ∃ event, next.unlinks = some event ∧
          system.wakeup task = some event) : next.Subscribed := by
  obtain ⟨wakeups, states, events⟩ :=
    resume_spec published system.sched.activeTasks system.sched
  have moved := moved_resumeEvent published system.sched.activeTasks system.sched
  have isNext : system.sched.activeTasks.foldl (resumeTask published)
    system.sched = next.sched := sched.symm
  rw [isNext] at wakeups states events moved
  apply subscribed.of_keeps subList
  intro task event member subscribes unwoken
  have holds := subscribes.holds sound
  refine ⟨⟨⟨?_, ?_⟩, ?_⟩, ?_, ?_⟩
  · rw [moved.live]
    exact subscribes.1.1
  · rw [states]
    split
    · decide
    · exact subscribes.1.2
  · rw [points]
    exact subscribes.2
  · rcases unwoken with isSubscribed | waiting | unlinked
    · rw [Unwoken, points]
      exact .inl isSubscribed
    · by_cases isWoken : task ∈ system.sched.activeTasks ∧
          system.sched.isResumed published task = true
      · obtain ⟨first, isFirst, isOwn⟩ := woken task isWoken.1 isWoken.2
        right
        right
        rw [isFirst]
        rcases holds.2 with isEvent | isSubscribed
        · rw [← isOwn, isEvent]
        · have atPoint := sound.point task subscribes.1
          rw [AtPoint, isSubscribed] at atPoint
          exact absurd waiting atPoint.2
      · right
        left
        rw [states, if_neg isWoken]
        exact waiting
    · rw [noUnlinks] at unlinked
      cases unlinked
  · rw [events]
    split
    · rfl
    · rfl

/-- The steps that keep the list: no subscription waits for the end of a sleep,
the tasks that a round wakes wait for the first subscription of the type, and
nobody returns whose subscription is being unlinked. -/
def Orderly (system : Kevents cpus) : KeventOp cpus → Prop
  | .subscribe _ _ type _ => type ≠ .sleep
  | .round _ =>
    system.unlinks = none →
      ∀ published ∈ system.pubList.head?,
        ∀ event ∈ system.firstSubscription published.type,
          ∀ task ∈ system.sched.activeTasks,
            system.sched.isResumed published task = true → system.wakeup task = some event
  | .waitReturn cpu =>
    ∀ event ∈ system.unlinks, ∀ task ∈ system.sched.current cpu, system.points task ≠ .returns event
  | _ => True

instance (system : Kevents cpus) : DecidablePred system.Orderly
  | .subscribe _ _ type _ => inferInstanceAs (Decidable (type ≠ .sleep))
  | .round _ =>
    inferInstanceAs (Decidable (system.unlinks = none →
      ∀ published ∈ system.pubList.head?,
        ∀ event ∈ system.firstSubscription published.type,
          ∀ task ∈ system.sched.activeTasks,
            system.sched.isResumed published task = true → system.wakeup task = some event))
  | .waitReturn cpu =>
    inferInstanceAs (Decidable (∀ event ∈ system.unlinks,
      ∀ task ∈ system.sched.current cpu, system.points task ≠ .returns event))
  | .add _ _ _ _ => inferInstanceAs (Decidable True)
  | .again _ _ _ => inferInstanceAs (Decidable True)
  | .waitEvent _ => inferInstanceAs (Decidable True)
  | .sleep _ _ _ => inferInstanceAs (Decidable True)
  | .publish _ _ _ _ => inferInstanceAs (Decidable True)
  | .dispatch _ => inferInstanceAs (Decidable True)
  | .execve _ _ => inferInstanceAs (Decidable True)
  | .exit _ _ => inferInstanceAs (Decidable True)
  | .wait _ _ => inferInstanceAs (Decidable True)

theorem Subscribed.round (sound : system.Sound)
    (isDispatching : system.dispatching = some ⟨cpu, none⟩)
    (orderly : system.Orderly (.round cpu)) :
    (system.dispatchRound cpu).Subscribed := by
  have noUnlinks : system.unlinks = none := by
    rw [unlinks, isDispatching]
    rfl
  have trivially : ∀ next : Kevents cpus, next.sched = system.sched →
      next.points = system.points → next.subList = system.subList → next.Subscribed := by
    intro next sched points subList
    apply subscribed.of_keeps subList
    intro task event _ subscribes unwoken
    have alive : next.Alive task := by
      rw [Alive, sched]
      exact subscribes.1
    refine ⟨⟨alive, by rw [points]; exact subscribes.2⟩, ?_, by rw [sched]⟩
    rcases unwoken with isSubscribed | waiting | unlinked
    · rw [Unwoken, points]
      exact .inl isSubscribed
    · rw [Unwoken, sched]
      exact .inr (.inl waiting)
    · rw [noUnlinks] at unlinked
      cases unlinked
  rcases system.dispatchRound_cases cpu with ⟨_, isNext⟩ |
    ⟨published, rest, isPublished, ⟨_, isNext⟩ | ⟨event, dispatching, found, woken, isNext⟩⟩
  · rw [isNext]
    exact trivially _ rfl rfl rfl
  · rw [isNext]
    exact trivially _ rfl rfl rfl
  · rw [isNext]
    refine subscribed.resume sound published noUnlinks rfl rfl rfl ?_
    intro task member isResumed
    rcases woken with ⟨_, nobody⟩ | isUnlinks
    · rw [nobody task member] at isResumed
      cases isResumed
    · refine ⟨event, ?_, ?_⟩
      · rw [unlinks, isUnlinks]
        rfl
      · apply orderly noUnlinks published _ event found task member isResumed
        rw [isPublished]
        rfl

theorem Subscribed.returned_unlinked
    (sound : system.Sound) (orderly : system.Orderly (.waitReturn cpu))
    (isCurrent : system.sched.current cpu = some task)
    (point : system.points task = .returns event) :
    event ∉ system.subList := by
  intro member
  obtain ⟨holds, _, running⟩ := sound.at_returns isCurrent point
  obtain ⟨subscriber, subscribes, unwoken⟩ := subscribed.awake event member
  have same := sound.unique subscriber task event (subscribes.holds sound) holds
  subst same
  rcases unwoken with ⟨other, isSubscribed⟩ | waiting | unlinked
  · rw [point] at isSubscribed
    cases isSubscribed
  · rw [running] at waiting
    cases waiting
  · exact orderly event unlinked subscriber isCurrent point

theorem Subscribed.acts (sound : system.Sound) (unlinked : next.unlinks = system.unlinks)
    (subList : next.subList = system.subList) (orderly : system.Orderly op)
    (acts : Acts system next op task) :
    next.Subscribed := by
  apply subscribed.of_keeps subList
  intro other event member subscribes unwoken
  by_cases same : other = task
  · subst other
    rcases acts.kind with dead | runs | ⟨own, point, rfl⟩ | ⟨cpu, own, rfl, isCurrent, point, _⟩
    · exact absurd subscribes.1 dead
    · rcases subscribes.2 with isSubscribed | waits | returns
      · rw [runs] at isSubscribed
        cases isSubscribed
      · rw [runs] at waits
        cases waits
      · rw [runs] at returns
        cases returns
    · have isOwn : own = event := by
        rcases subscribes.2 with isSubscribed | waits | returns
        · rw [point] at isSubscribed
          cases isSubscribed
          rfl
        · rw [point] at waits
          cases waits
        · rw [point] at returns
          cases returns
      subst own
      have waiting : (system.schedWaitEvent task event).sched.stateOf task = .waiting := by
        simp [Kevents.schedWaitEvent, setPoint, Sched.schedWaitEvent,
          Sched.stateOf, Sched.updateTask]
      refine ⟨⟨⟨subscribes.1.1, ?_⟩, .inr (.inl ?_)⟩, .inr (.inl waiting), rfl⟩
      · rw [waiting]
        decide
      · exact Function.update_self _ _ _
    · have isOwn : own = event := by
        rcases subscribes.2 with isSubscribed | waits | returns
        · rw [point] at isSubscribed
          cases isSubscribed
        · rw [point] at waits
          cases waits
        · rw [point] at returns
          cases returns
          rfl
      subst own
      exact absurd member (subscribed.returned_unlinked sound orderly isCurrent point)
  · exact acts.leaves.subscribes sound unlinked same subscribes unwoken

end

variable [DecidableEq cpus] {now : Nat}

theorem act_lists (done : system.act op = some next) :
    (next.subList = system.subList ∨ ∃ cpu event type now,
      op = .subscribe cpu event type now ∧ next.subList = system.subList ++ [event]) ∧
    (next.pubList = system.pubList ∨ ∃ cpu type data now,
      op = .publish cpu type data now ∧ next.pubList = system.pubList ++ [⟨type, data, now⟩]) ∧
    (next.dispatching = system.dispatching ∨ op.locks = true ∧ next.unlinks = none) := by
  cases op with
  | again cpu now voluntary =>
    obtain ⟨sched, _, rfl⟩ := map_eq_some_iff.mp done
    cases system.sched.current cpu with
    | none => exact ⟨.inl rfl, .inl rfl, .inl rfl⟩
    | some task => exact ⟨.inl rfl, .inl rfl, .inl rfl⟩
  | add cpu task event record =>
    obtain ⟨_, _, _, rfl⟩ := schedAdd_eq done
    exact ⟨.inl rfl, .inl rfl, .inl rfl⟩
  | subscribe cpu event type now =>
    obtain ⟨task, _, subscribed⟩ := bind_eq_some_iff.mp done
    obtain ⟨_, rfl⟩ := keventSubscribe_eq subscribed
    exact ⟨.inr ⟨cpu, event, type, now, rfl, rfl⟩, .inl rfl, .inl rfl⟩
  | waitEvent cpu =>
    obtain ⟨task, _, waits⟩ := bind_eq_some_iff.mp done
    split at waits
    · cases waits
      exact ⟨.inl rfl, .inl rfl, .inl rfl⟩
    · cases waits
  | waitReturn cpu =>
    obtain ⟨task, _, returns⟩ := bind_eq_some_iff.mp done
    split at returns
    · obtain ⟨sched, _, rfl⟩ := map_eq_some_iff.mp returns
      exact ⟨.inl rfl, .inl rfl, .inl rfl⟩
    · cases returns
  | sleep cpu now millis =>
    obtain ⟨task, _, sleeps⟩ := bind_eq_some_iff.mp done
    obtain ⟨event, _, rfl⟩ := schedSleep_eq sleeps
    exact ⟨.inl rfl, .inl rfl, .inl rfl⟩
  | publish cpu type data now =>
    cases done
    exact ⟨.inl rfl, .inr ⟨cpu, type, data, now, rfl, rfl⟩, .inl rfl⟩
  | dispatch cpu =>
    cases done
    exact ⟨.inl rfl, .inl rfl, .inr ⟨rfl, rfl⟩⟩
  | round cpu => cases done
  | execve cpu event =>
    obtain ⟨task, _, leaves⟩ := bind_eq_some_iff.mp done
    obtain ⟨_, rfl⟩ := schedExecve_eq leaves
    exact ⟨.inl rfl, .inl rfl, .inl rfl⟩
  | exit cpu exitcode =>
    obtain ⟨task, _, rfl⟩ := map_eq_some_iff.mp done
    exact ⟨.inl rfl, .inl rfl, .inl rfl⟩
  | wait cpu tid =>
    obtain ⟨task, _, waits⟩ := bind_eq_some_iff.mp done
    obtain ⟨sched, _, rfl⟩ := map_eq_some_iff.mp waits
    exact ⟨.inl rfl, .inl rfl, .inl rfl⟩

/-- A step of a processor that does not dispatch unlinks nothing. -/
theorem act_unlinks (locked : system.dispatching = none ∨ op.locks = false)
    (done : system.act op = some next) : next.unlinks = system.unlinks := by
  rcases (act_lists done).2.2 with same | ⟨locks, nothing⟩
  · rw [unlinks, same]
    rfl
  · rcases locked with idle | free
    · rw [nothing, unlinks, idle]
      rfl
    · rw [locks] at free
      cases free

theorem Subscribed.subscribe (subscribed : system.Subscribed)
    (sound : system.Sound) {type : KeventType}
    (notSleep : type ≠ .sleep)
    (done : system.act (.subscribe cpu event type now) = some next) :
    next.Subscribed := by
  obtain ⟨task, isCurrent, added⟩ := bind_eq_some_iff.mp done
  obtain ⟨isCurrent, point⟩ := currentAt_eq_some.mp isCurrent
  have leaves := sound.subscribe_leaves added
  obtain ⟨isNew, isNext⟩ := keventSubscribe_eq added
  have alive := sound.current_alive isCurrent
  have list : next.subList = system.subList ++ [event] := by
    rw [isNext]
    rfl
  have before : ∀ other ∈ system.subList, ∃ subscriber,
      next.Subscribes subscriber other ∧ next.Unwoken subscriber other ∧
        (next.sched.events other).type = (system.sched.events other).type ∧
        other ≠ event := by
    intro other member
    obtain ⟨subscriber, subscribes, unwoken⟩ := subscribed.awake other member
    have different : subscriber ≠ task := by
      rintro rfl
      rcases subscribes.2 with isSubscribed | waits | returns
      · rw [point] at isSubscribed
        cases isSubscribed
      · rw [point] at waits
        cases waits
      · rw [point] at returns
        cases returns
    have unlinked : next.unlinks = system.unlinks := by
      rw [isNext]
      rfl
    obtain ⟨subscribes', unwoken', type'⟩ :=
      leaves.subscribes sound unlinked different subscribes unwoken
    refine ⟨subscriber, subscribes', unwoken', type', ?_⟩
    rintro rfl
    exact isNew (sound.held subscriber other (subscribes.holds sound))
  have ownPoint : next.points task = .subscribed event := by
    rw [isNext]
    exact Function.update_self _ _ _
  have ownType : (next.sched.events event).type = type := by
    rw [isNext]
    simp [setPoint, updateEvent]
  have ownAlive : next.Alive task := by
    rw [isNext]
    exact alive
  refine ⟨?_, ?_, ?_⟩
  · rw [list]
    apply nodup_append.mpr
    refine ⟨subscribed.nodup, nodup_singleton event, ?_⟩
    intro other member linked isEvent same
    rw [mem_singleton] at isEvent
    obtain ⟨_, _, _, _, different⟩ := before other member
    exact different (same.trans isEvent)
  · intro other member
    rw [list] at member
    rcases mem_append.mp member with linked | isEvent
    · obtain ⟨subscriber, subscribes, unwoken, _⟩ := before other linked
      exact ⟨subscriber, subscribes, unwoken⟩
    · rw [mem_singleton] at isEvent
      subst other
      exact ⟨task, ⟨ownAlive, .inl ownPoint⟩, .inl ⟨event, ownPoint⟩⟩
  · intro other member
    rw [list] at member
    rcases mem_append.mp member with linked | isEvent
    · obtain ⟨_, _, _, type, _⟩ := before other linked
      rw [type]
      exact subscribed.type other linked
    · rw [mem_singleton] at isEvent
      subst other
      rw [ownType]
      exact notSleep

theorem Subscribed.again (subscribed : system.Subscribed) (sound : system.Sound) {voluntary : Bool}
    (done : system.schedAgain cpu now voluntary = some next) :
    next.Subscribed := by
  obtain ⟨chosen, again⟩ := sound.schedAgain_spec done
  have resched := again.resched
  apply subscribed.of_keeps again.subList
  intro task event member subscribes unwoken
  have holds := subscribes.holds sound
  have points : next.points task = system.points task ∨
      next.points task = (system.points task).switched voluntary := by
    by_cases isCurrent : system.sched.current cpu = some task
    · exact .inr (again.ownPoint task isCurrent)
    · exact .inl (again.otherPoint task isCurrent)
  have notChosen : system.sched.stateOf task = .waiting →
      system.points task ≠ .subscribed event → task ≠ chosen := by
    intro waiting inWait
    apply sound.not_chosen resched (subscribed.type event member) subscribes.1 _ waiting
    exact holds.2.resolve_right inWait
  refine ⟨⟨subscribes.1.of_moved again.moved, ?_⟩, ?_, ?_⟩
  · rcases points with same | switched
    · rw [same]
      exact subscribes.2
    · rw [switched]
      rcases subscribes.2 with isSubscribed | waits | returns
      · rw [isSubscribed]
        exact .inl rfl
      · rw [waits]
        cases voluntary with
        | false => exact .inr (.inl rfl)
        | true => exact .inr (.inr rfl)
      · rw [returns]
        exact .inr (.inr rfl)
  · rcases unwoken with ⟨other, isSubscribed⟩ | waiting | unlinked
    · refine .inl ⟨other, ?_⟩
      rcases points with same | switched
      · exact same.trans isSubscribed
      · rw [switched, isSubscribed]
        rfl
    · by_cases inWait : system.points task = .subscribed event
      · have atPoint := sound.point task subscribes.1
        rw [AtPoint, inWait] at atPoint
        exact absurd waiting atPoint.2
      · refine .inr (.inl ?_)
        rcases resched.others task (notChosen waiting inWait) with
          same | ⟨_, running, _⟩
        · exact same.trans waiting
        · rw [waiting] at running
          cases running
    · refine .inr (.inr ?_)
      rw [unlinks, again.dispatching]
      exact unlinked
  · rw [sound.again_event resched holds]
    intro slept
    apply notChosen slept
    intro isSubscribed
    have atPoint := sound.point task subscribes.1
    rw [AtPoint, isSubscribed] at atPoint
    exact atPoint.2 slept

theorem Subscribed.step (subscribed : system.Subscribed) (sound : system.Sound)
    (orderly : system.Orderly op) (done : system.step op = some next) :
    next.Subscribed := by
  rcases step_cases done with ⟨locked, acted⟩ |
    ⟨cpu, isDispatching, rfl, rfl⟩ | ⟨cpu, event, isDispatching, rfl, rfl⟩
  · rcases (act_lists acted).1 with subList | ⟨cpu, event, type, now, rfl, _⟩
    · rcases (sound.acts_of_act acted).2 with
        ⟨cpu, now, voluntary, rfl, switched⟩ | ⟨task, acts⟩
      · exact subscribed.again sound switched
      · exact subscribed.acts sound (act_unlinks locked acted) subList orderly acts
    · exact subscribed.subscribe sound orderly acted
  · exact subscribed.round sound isDispatching orderly
  · exact subscribed.unlink isDispatching

/-- In every run of such steps, `sub_list` holds only events whose subscriber
has not returned from its wait, and no event that was freed. -/
theorem subscriptions_of_run {idleTasks : cpus → Nat} {ops : List (KeventOp cpus)}
    (orderly : AlongOps step Orderly (boot idleTasks) ops)
    (run : runOps step (boot idleTasks) ops = some system) :
    ∀ event ∈ system.subList,
      (∃ task, system.Subscribes task event) ∧ event ∈ system.allocated := by
  have kept : system.Sound ∧ system.Subscribed := by
    apply runOps_invariant_along _ _ orderly run
    · rintro before op after ⟨sound, subscribed⟩ isOrderly done
      exact ⟨step_sound sound done, subscribed.step sound isOrderly done⟩
    · exact ⟨boot_sound idleTasks, boot_subscribed idleTasks⟩
  obtain ⟨sound, subscribed⟩ := kept
  intro event member
  obtain ⟨task, subscribes, _⟩ := subscribed.awake event member
  exact ⟨⟨task, subscribes⟩, sound.held task event (subscribes.holds sound)⟩

/-- A task that has subscribed, and whose subscription is linked. -/
theorem subscriptions_of_run_keyboard :
    ∃ system, runOps step (boot fun _ : Unit => 0) (keyboardRun.take 5) = some system ∧
      20 ∈ system.subList ∧ (∃ task, system.Subscribes task 20) ∧ 20 ∈ system.allocated := by
  have facts : ∃ system ∈ runOps step (boot fun _ : Unit => 0)
      (keyboardRun.take 5), 20 ∈ system.subList := by
    decide +kernel
  obtain ⟨system, run, member⟩ := facts
  have orderly : AlongOps step Orderly (boot fun _ : Unit => 0) (keyboardRun.take 5) := by
    decide +kernel
  exact ⟨system, run, member, subscriptions_of_run orderly run 20 member⟩

/-- Two tasks wait for a key.  One key wakes both, the first subscription is
unlinked, and the second task frees its own, which is still linked.  On two
processors one task is enough: the other processor runs it before its
subscription is unlinked. -/
theorem subscriber_frees_linked : (∃ system ∈ runOps step (boot fun _ : Unit => 0)
        [.add () 1 10 ⟨1, 1, .user, .ready, 0, none⟩, .add () 2 11 ⟨2, 2, .user, .ready, 0, none⟩,
          .again () 0 false, .subscribe () 20 .keyboard 0, .waitEvent (),
          .again () 0 true, .subscribe () 21 .keyboard 0, .waitEvent (),
          .again () 0 true, .publish () .keyboard 7 1, .dispatch (),
          .round (), .round (), .round (), .again () 1 false,
          .waitReturn (), .again () 1 false, .waitReturn ()],
      21 ∈ system.subList ∧ 21 ∉ system.allocated ∧
        system.points 1 = .runs ∧ system.points 2 = .runs ∧
        system.sched.live = {1, 2}) ∧
    ∃ system ∈ runOps step (boot fun cpu : Bool => cpu.toNat)
        [.add false 2 10 ⟨1, 1, .user, .ready, 0, none⟩,
          .again false 0 false, .subscribe false 20 .keyboard 0,
          .waitEvent false, .again false 0 true,
          .publish true .keyboard 7 1, .dispatch true, .round true,
          .again false 1 false, .waitReturn false],
      20 ∈ system.subList ∧ 20 ∉ system.allocated ∧
        system.points 2 = .runs ∧ system.sched.live = {2} := by
  decide +kernel

end SeekOs.Proc.Kevents
