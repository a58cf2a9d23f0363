import SeekOs.Proc.SchedPlaces

/-!
# Events

The functions of `kevent.c` and the calls of the scheduler that wait.  Every
section under a lock is one step.  `kevent_dispatch` holds the locks of both
lists throughout its loop, but the lock of the scheduler only while it wakes
tasks: a round is one step up to the wake-up, and unlinking the subscription is
another one.  In between the processor takes no interrupt, the others go on.

A call goes through several sections, and so a task has a point at which it
continues.  A timer interrupt switches the task and leaves its point, unless
the task has just replaced its image: then it begins anew.
-/

namespace SeekOs.Proc

open SeekOs.Base SeekOs.Lib Function

/-- Where a task continues when it runs next. -/
inductive Point where
  /-- Outside of the calls below. -/
  | runs
  /-- In `kevent_subscribe`, with the event in `sub_list`. -/
  | subscribed (event : Nat)
  /-- In `sched_wait_event`, in front of `sched_again`. -/
  | waits (event : Nat)
  /-- In `sched_wait_event`, behind `sched_again`. -/
  | returns (event : Nat)
  /-- In `sched_sleep`, in front of `sched_again`. -/
  | sleeps
  /-- In `sched_execve`, in front of `sched_again`. -/
  | leaves
  deriving DecidableEq

/-- The point of a task after a switch.  A task that called `sched_again`
itself has finished the call. -/
def Point.switched (voluntary : Bool) : Point → Point
  | .leaves => .runs
  | .waits event => if voluntary then .returns event else .waits event
  | .sleeps => if voluntary then .runs else .sleeps
  | point => point

/-- The result of a call of `kevent_subscribe`. -/
structure KeventReturn where
  task : Nat
  type : KeventType
  data : Nat
  deriving DecidableEq

/-- A call of `kevent_dispatch`: its processor, and the subscription that it
has to unlink before the next round. -/
structure Dispatching (cpus : Type) where
  cpu : cpus
  unlinks : Option Nat

/-- The variables of `kevent.c` next to those of the scheduler.  The events in
`allocated` were not freed yet, and `waited` holds of the tasks that have
returned from `sched_wait_event` since they were created or have replaced their
image. -/
structure Kevents (cpus : Type) where
  sched : Sched cpus
  subList : List Nat
  pubList : List Kevent
  dispatching : Option (Dispatching cpus)
  points : Nat → Point
  allocated : Finset Nat
  waited : Nat → Bool
  returned : List KeventReturn

/-- Whether `sched_resume_event` wakes a task of the active list. -/
def Sched.isResumed {cpus : Type} (published : Kevent) (sched : Sched cpus) (task : Nat) : Bool :=
  match (sched.tasks task).state, (sched.tasks task).wakeupEvent with
  | .waiting, some event =>
    decide ((sched.events event).type = published.type)
  | _, _ => false

namespace Kevents

variable {cpus : Type}

section

variable (system : Kevents cpus)

def setPoint (task : Nat) (point : Point) : Kevents cpus :=
  { system with points := update system.points task point }

/-- The first section of `kevent_subscribe`, with the event record `event`. -/
def keventSubscribe (task event : Nat) (type : KeventType) (now : Nat) : Option (Kevents cpus) :=
  if event ∈ system.allocated then
    none
  else
    some ({ system with
      sched := system.sched.updateEvent event fun _ => ⟨type, 0, now⟩
      subList := dlistAddPrev system.subList event
      allocated := insert event system.allocated }.setPoint task
        (.subscribed event))

def schedWaitEvent (task event : Nat) : Kevents cpus :=
  { system with sched := system.sched.schedWaitEvent task event }.setPoint task (.waits event)

/-- The end of `sched_wait_event` and of `kevent_subscribe`. -/
def schedWaitReturn (task event : Nat) : Option (Kevents cpus) :=
  (system.sched.schedWaitReturn task event).map fun sched =>
    { system with
      sched := sched
      allocated := system.allocated.erase event
      waited := update system.waited task true
      returned := ⟨task, (sched.events event).type,
        (sched.events event).data⟩ :: system.returned }.setPoint task .runs

/-- The first section of `kevent_publish`. -/
def keventPublish (type : KeventType) (data now : Nat) : Kevents cpus :=
  { system with pubList := dlistAddPrev system.pubList ⟨type, data, now⟩ }

/-- `kevent_dispatch` up to its loop. -/
def keventDispatch (cpu : cpus) : Kevents cpus :=
  { system with dispatching := some ⟨cpu, none⟩ }

/-- A round of the loop of `kevent_dispatch`, up to the wake-up. -/
def dispatchRound (cpu : cpus) : Kevents cpus :=
  match system.pubList with
  | [] => { system with dispatching := none }
  | published :: rest =>
    let popped := { system with pubList := rest }
    match system.subList.find? fun event =>
        (system.sched.events event).type = published.type with
    | none => popped
    | some event =>
      let resumed := { popped with
        sched := system.sched.schedResumeEvent published }
      if system.sched.activeTasks.any (system.sched.isResumed published) then
        { resumed with dispatching := some ⟨cpu, some event⟩ }
      else
        resumed

/-- The end of a round that has woken a task. -/
def dispatchUnlink (cpu : cpus) (event : Nat) : Kevents cpus :=
  { system with
    subList := dlistRemoveEntry system.subList event
    dispatching := some ⟨cpu, none⟩ }

def schedSleep (task now millis : Nat) : Option (Kevents cpus) :=
  (system.sched.schedSleep task now millis).map fun sched =>
    { system with sched := sched }.setPoint task .sleeps

/-- Free the event of a task. -/
def freeWakeup (task : Nat) : Finset Nat :=
  match (system.sched.tasks task).wakeupEvent with
  | none => system.allocated
  | some event => system.allocated.erase event

/-- The locked section of `sched_execve`: the event of the task is freed before
the new one is allocated. -/
def schedExecve (task event : Nat) : Option (Kevents cpus) :=
  if event ∈ system.freeWakeup task then
    none
  else
    (system.sched.schedExecve task event).map fun sched =>
      { system with
        sched := sched
        allocated := insert event (system.freeWakeup task)
        waited := update system.waited task false }.setPoint task
          .leaves

end

/-- A task that `task_create` or `task_fork` has made, with its event. -/
def schedAdd [Fintype cpus] (system : Kevents cpus) (task event : Nat)
    (record : Task) : Option (Kevents cpus) :=
  if event ∈ system.allocated then
    none
  else
    ((system.sched.updateEvent event fun _ => ⟨.unknown, 0, 0⟩).schedAdd task
      { record with wakeupEvent := some event }).map fun sched =>
        { system with
          sched := sched
          allocated := insert event system.allocated
          waited := update system.waited task false }.setPoint task
            .runs

variable [DecidableEq cpus]

/-- The locked section of `sched_again`, called by the task itself or by the
timer interrupt. -/
def schedAgain (system : Kevents cpus) (cpu : cpus) (now : Nat)
    (voluntary : Bool) : Option (Kevents cpus) :=
  (system.sched.schedAgain cpu now).map fun sched =>
    let switched := { system with sched := sched }
    match system.sched.current cpu with
    | none => switched
    | some task =>
      switched.setPoint task ((system.points task).switched voluntary)

def schedExit (system : Kevents cpus) (cpu : cpus) (task : Nat) (exitcode : Int) : Kevents cpus :=
  { system with
    sched := system.sched.schedExit cpu task exitcode
    allocated := system.freeWakeup task }

end Kevents

/-- The steps of tasks, of interrupts and of `kevent_dispatch`. -/
inductive KeventOp (cpus : Type) where
  | add (cpu : cpus) (task event : Nat) (record : Task)
  | again (cpu : cpus) (now : Nat) (voluntary : Bool)
  | subscribe (cpu : cpus) (event : Nat) (type : KeventType) (now : Nat)
  | waitEvent (cpu : cpus)
  | waitReturn (cpu : cpus)
  | sleep (cpu : cpus) (now millis : Nat)
  | publish (cpu : cpus) (type : KeventType) (data now : Nat)
  | dispatch (cpu : cpus)
  | round (cpu : cpus)
  | execve (cpu : cpus) (event : Nat)
  | exit (cpu : cpus) (exitcode : Int)
  | wait (cpu : cpus) (tid : Nat)

/-- The processor that takes a step. -/
def KeventOp.cpu {cpus : Type} : KeventOp cpus → cpus
  | .add cpu _ _ _ => cpu
  | .again cpu _ _ => cpu
  | .subscribe cpu _ _ _ => cpu
  | .waitEvent cpu => cpu
  | .waitReturn cpu => cpu
  | .sleep cpu _ _ => cpu
  | .publish cpu _ _ _ => cpu
  | .dispatch cpu => cpu
  | .round cpu => cpu
  | .execve cpu _ => cpu
  | .exit cpu _ => cpu
  | .wait cpu _ => cpu

/-- The steps that take the lock of `sub_list` or of `pub_list`. -/
def KeventOp.locks {cpus : Type} : KeventOp cpus → Bool
  | .subscribe _ _ _ _ => true
  | .publish _ _ _ _ => true
  | .dispatch _ => true
  | _ => false

namespace Kevents

variable {cpus : Type} [DecidableEq cpus] [Fintype cpus]

/-- The current task of a processor, when it is at a point. -/
def currentAt (system : Kevents cpus) (cpu : cpus) (point : Point) : Option Nat :=
  (system.sched.current cpu).filter fun task => system.points task = point

/-- A step of a processor that does not dispatch; there is none when a null
event is followed. -/
def act (system : Kevents cpus) : KeventOp cpus → Option (Kevents cpus)
  | .add _ task event record => system.schedAdd task event record
  | .again cpu now voluntary => system.schedAgain cpu now voluntary
  | .subscribe cpu event type now =>
    (system.currentAt cpu .runs).bind fun task =>
      system.keventSubscribe task event type now
  | .waitEvent cpu =>
    (system.sched.current cpu).bind fun task =>
      match system.points task with
      | .subscribed event => some (system.schedWaitEvent task event)
      | _ => none
  | .waitReturn cpu =>
    (system.sched.current cpu).bind fun task =>
      match system.points task with
      | .returns event => system.schedWaitReturn task event
      | _ => none
  | .sleep cpu now millis =>
    (system.currentAt cpu .runs).bind fun task =>
      system.schedSleep task now millis
  | .publish _ type data now => some (system.keventPublish type data now)
  | .dispatch cpu => some (system.keventDispatch cpu)
  | .round _ => none
  | .execve cpu event =>
    (system.currentAt cpu .runs).bind fun task =>
      system.schedExecve task event
  | .exit cpu exitcode =>
    (system.currentAt cpu .runs).map fun task =>
      system.schedExit cpu task exitcode
  | .wait cpu tid =>
    (system.currentAt cpu .runs).bind fun task =>
      (system.sched.schedWait task tid).map fun sched =>
        { system with sched := sched }

/-- One step.  The processor that dispatches goes on with its loop, and the
others do not take its locks. -/
def step (system : Kevents cpus) (op : KeventOp cpus) : Option (Kevents cpus) :=
  match system.dispatching with
  | none => system.act op
  | some ⟨cpu, unlinks⟩ =>
    if op.cpu = cpu then
      match op, unlinks with
      | .round _, none => some (system.dispatchRound cpu)
      | .round _, some event => some (system.dispatchUnlink cpu event)
      | _, _ => none
    else if op.locks then
      none
    else
      system.act op

def boot (idleTasks : cpus → Nat) : Kevents cpus where
  sched := Sched.initial (fun _ => ⟨0, 0, .kernel, .dead, 0, none⟩)
    (fun _ => ⟨.unknown, 0, 0⟩) idleTasks
  subList := []
  pubList := []
  dispatching := none
  points := fun _ => .runs
  allocated := ∅
  waited := fun _ => false
  returned := []

end Kevents

end SeekOs.Proc
