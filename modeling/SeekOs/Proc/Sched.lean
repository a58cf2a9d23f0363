import SeekOs.Base.LinkedList
import SeekOs.Lib.Runs
import SeekOs.Lib.Slots

/-!
# The scheduler

Tasks and events are identified by the addresses of their records.  Every
section of `sched.c` that runs under a lock is one step.  The calls other than
`sched_again` are made by a task that a processor runs, and never by an idle
task, whose routine only halts.
-/

namespace SeekOs.Proc

open SeekOs.Base SeekOs.Lib Function

inductive TaskState where
  | ready
  | running
  | waiting
  | stopped
  | zombie
  | dead
  deriving DecidableEq

inductive TaskMode where
  | kernel
  | user
  deriving DecidableEq

inductive KeventType where
  | unknown
  | keyboard
  | sleep
  deriving DecidableEq

structure Kevent where
  type : KeventType
  data : Nat
  timestamp : Nat

/-- The fields of `task_t` that the scheduler reads or writes. -/
structure Task where
  tgid : Nat
  tid : Nat
  mode : TaskMode
  state : TaskState
  exitcode : Int
  wakeupEvent : Option Nat

/-- The variables of `sched.c` over a set of processors.  `live` records the
tasks that were added and not reaped yet. -/
structure Sched (cpus : Type) where
  tasks : Nat → Task
  events : Nat → Kevent
  idleTasks : cpus → Nat
  runningTasks : cpus → Option Nat
  activeTasks : List Nat
  cleanupTasks : List Nat
  live : Finset Nat

namespace Sched

variable {cpus : Type} [DecidableEq cpus]

section

variable (sched : Sched cpus)

def updateTask (task : Nat) (change : Task → Task) : Sched cpus :=
  { sched with
    tasks := update sched.tasks task (change (sched.tasks task)) }

def updateEvent (event : Nat) (change : Kevent → Kevent) : Sched cpus :=
  { sched with
    events := update sched.events event (change (sched.events event)) }

def setState (task : Nat) (state : TaskState) : Sched cpus :=
  sched.updateTask task fun record => { record with state := state }

def activeTaskFifoPush (task : Nat) : Sched cpus :=
  { sched with activeTasks := dlistAddPrev sched.activeTasks task }

/-- Whether the search takes a task; there is no answer when it follows a null
`wakeup_event`. -/
def isAvailable (now task : Nat) : Option Bool :=
  match (sched.tasks task).state with
  | .ready => some true
  | .waiting =>
    (sched.tasks task).wakeupEvent.map fun event =>
      decide ((sched.events event).type = .sleep) && decide (0 < (sched.events event).timestamp) &&
        decide ((sched.events event).timestamp ≤ now)
  | _ => some false

def findAvailable (sched : Sched cpus) (now : Nat) : List Nat → Option (Option Nat)
  | [] => some none
  | task :: rest =>
    match sched.isAvailable now task with
    | none => none
    | some true => some (some task)
    | some false => findAvailable sched now rest

/-- The reset of the event of a sleeping task that is taken. -/
def clearSleep (task : Nat) : Sched cpus :=
  match (sched.tasks task).state, (sched.tasks task).wakeupEvent with
  | .waiting, some event =>
    sched.updateEvent event fun record =>
      { record with type := .unknown, timestamp := 0 }
  | _, _ => sched

def activeTaskNextAvailable (now : Nat) : Option (Sched cpus × Option Nat) :=
  match sched.findAvailable now sched.activeTasks with
  | none => none
  | some none => some (sched, none)
  | some (some task) =>
    let cleared := sched.clearSleep task
    some ({ cleared with
      activeTasks := dlistRemoveEntry cleared.activeTasks task }, some task)

/-- The current task of a processor, unless it is idle. -/
def current (cpu : cpus) : Option Nat :=
  match sched.runningTasks cpu with
  | none => none
  | some task => if task = sched.idleTasks cpu then none else some task

/-- The locked section of `sched_again`. -/
def schedAgain (cpu : cpus) (now : Nat) : Option (Sched cpus) :=
  let curr := sched.current cpu
  let currIsRunning : Bool := match curr with
    | none => false
    | some task => decide ((sched.tasks task).state = .running)
  let returned := match curr with
    | none => sched
    | some task =>
      if currIsRunning then sched else sched.activeTaskFifoPush task
  (returned.activeTaskNextAvailable now).map fun (searched, found) =>
    let (switched, next) := match found with
      | some next =>
        match curr with
        | none => (searched, next)
        | some task =>
          if currIsRunning then
            ((searched.setState task .ready).activeTaskFifoPush task, next)
          else
            (searched, next)
      | none =>
        match curr with
        | none => (searched, sched.idleTasks cpu)
        | some task =>
          (searched,
            if currIsRunning then task else sched.idleTasks cpu)
    { switched.setState next .running with
      runningTasks := update sched.runningTasks cpu (some next) }

/-- The locked section of `sched_wait_event`. -/
def schedWaitEvent (task event : Nat) : Sched cpus :=
  sched.updateTask task fun record =>
    { record with state := .waiting, wakeupEvent := some event }

/-- What `sched_wait_event` does when its task runs again. -/
def schedWaitReturn (task event : Nat) : Option (Sched cpus) :=
  (sched.tasks task).wakeupEvent.map fun wakeup =>
    (sched.updateEvent event fun record =>
        { record with data := (sched.events wakeup).data }).updateTask task
      fun record => { record with wakeupEvent := none }

/-- The locked section of `sched_sleep`. -/
def schedSleep (task now millis : Nat) : Option (Sched cpus) :=
  (sched.tasks task).wakeupEvent.map fun event =>
    (sched.updateEvent event fun record =>
        { record with
          type := .sleep
          timestamp := (now + millis) % 2 ^ 64 }).setState task .waiting

/-- `sched_resume_event` for one task of the active list. -/
def resumeTask (published : Kevent) (sched : Sched cpus) (task : Nat) : Sched cpus :=
  match (sched.tasks task).state, (sched.tasks task).wakeupEvent with
  | .waiting, some event =>
    if (sched.events event).type = published.type then
      (sched.updateEvent event fun record =>
        { record with data := published.data }).setState task .ready
    else
      sched
  | _, _ => sched

def schedResumeEvent (published : Kevent) : Sched cpus :=
  sched.activeTasks.foldl (resumeTask published) sched

/-- The locked section of `sched_execve` for a running task: `task_replace`
panics for a kernel task, and gives a user task a new event. -/
def schedExecve (task event : Nat) : Option (Sched cpus) :=
  match (sched.tasks task).mode with
  | .kernel => none
  | .user =>
    some ((sched.updateEvent event fun _ => ⟨.unknown, 0, 0⟩).updateTask task
      fun record =>
        { record with state := .ready, wakeupEvent := some event })

/-- The locked section of `__sched_kernel_end`. -/
def schedExit (cpu : cpus) (task : Nat) (exitcode : Int) : Sched cpus :=
  let ended := sched.updateTask task fun record =>
    { record with
      exitcode := exitcode, wakeupEvent := none, state := .zombie }
  { ended with
    cleanupTasks := dlistAddPrev ended.cleanupTasks task
    runningTasks := update ended.runningTasks cpu none }

end

/-- The search of `sched_wait`; there is no answer when it panics. -/
def findZombie (sched : Sched cpus) (tgid tid : Nat) : List Nat → Option (Option Nat)
  | [] => some none
  | task :: rest =>
    if (sched.tasks task).state ≠ .zombie then
      none
    else if (sched.tasks task).tgid = tgid ∧ (sched.tasks task).tid = tid then
      some (some task)
    else
      findZombie sched tgid tid rest

/-- The locked section of `sched_wait`. -/
def schedWait (sched : Sched cpus) (task tid : Nat) : Option (Sched cpus) :=
  match sched.findZombie (sched.tasks task).tgid tid sched.cleanupTasks with
  | none => none
  | some none => some sched
  | some (some zombie) =>
    some { sched with
      cleanupTasks := dlistRemoveEntry sched.cleanupTasks zombie
      live := sched.live.erase zombie }

/-- A task is idle when it is the idle task of some processor. -/
def Idle (sched : Sched cpus) (task : Nat) : Prop :=
  ∃ cpu, sched.idleTasks cpu = task

instance [Fintype cpus] (sched : Sched cpus) : DecidablePred sched.Idle :=
  fun task => inferInstanceAs (Decidable (∃ cpu, sched.idleTasks cpu = task))

/-- `sched_add` of a record that `task_create` or `task_fork` has made. -/
def schedAdd [Fintype cpus] (sched : Sched cpus) (task : Nat)
    (record : Task) : Option (Sched cpus) :=
  if task ∉ sched.live ∧ ¬sched.Idle task ∧ record.state = .ready then
    some (({ sched with live := insert task sched.live }.updateTask task
      fun _ => record).activeTaskFifoPush task)
  else
    none

end Sched

/-- The steps that processors take. -/
inductive SchedOp (cpus : Type) where
  | add (task : Nat) (record : Task)
  | again (cpu : cpus) (now : Nat)
  | waitEvent (cpu : cpus) (event : Nat)
  | waitReturn (cpu : cpus) (event : Nat)
  | sleep (cpu : cpus) (now millis : Nat)
  | resumeEvent (published : Kevent)
  | execve (cpu : cpus) (event : Nat)
  | exit (cpu : cpus) (exitcode : Int)
  | wait (cpu : cpus) (tid : Nat)

namespace Sched

variable {cpus : Type} [DecidableEq cpus] [Fintype cpus]

/-- One step; a call by a processor that runs no task of its own is not one. -/
def step (sched : Sched cpus) : SchedOp cpus → Option (Sched cpus)
  | .add task record => sched.schedAdd task record
  | .again cpu now => sched.schedAgain cpu now
  | .waitEvent cpu event =>
    (sched.current cpu).map fun task => sched.schedWaitEvent task event
  | .waitReturn cpu event =>
    (sched.current cpu).bind fun task => sched.schedWaitReturn task event
  | .sleep cpu now millis =>
    (sched.current cpu).bind fun task => sched.schedSleep task now millis
  | .resumeEvent published => some (sched.schedResumeEvent published)
  | .execve cpu event =>
    (sched.current cpu).bind fun task => sched.schedExecve task event
  | .exit cpu exitcode =>
    (sched.current cpu).map fun task => sched.schedExit cpu task exitcode
  | .wait cpu tid =>
    (sched.current cpu).bind fun task => sched.schedWait task tid

end Sched

end SeekOs.Proc
