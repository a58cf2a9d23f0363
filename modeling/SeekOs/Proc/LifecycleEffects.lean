import SeekOs.Proc.Lifecycle
import SeekOs.Proc.SchedSteps

/-!
# What the calls of tasks leave alone

Most of the calls touch only a part of the kernel.  The equations here say
which parts stay as they are, and every step keeps the scheduler sound.
-/

namespace SeekOs.Proc

open SeekOs.Base SeekOs.Fs SeekOs.Lib Function Option Sched

namespace Sched

variable {cpus : Type} {sched next : Sched cpus} [DecidableEq cpus]
  [Fintype cpus]

theorem moved_of_step {op : SchedOp cpus} (moves : op.Moves)
    (stepped : sched.step op = some next) : Moved sched next := by
  cases op with
  | again cpu now => exact moved_again stepped
  | waitEvent cpu event =>
    obtain ⟨task, _, rfl⟩ := map_eq_some_iff.mp stepped
    apply moved_updateTask
    · exact fun _ => ⟨rfl, rfl, rfl⟩
    · exact fun _ zombie => by cases zombie
  | waitReturn cpu event =>
    obtain ⟨task, _, returned⟩ := bind_eq_some_iff.mp stepped
    obtain ⟨wakeup, _, rfl⟩ := map_eq_some_iff.mp returned
    apply Moved.trans (moved_updateEvent sched _ _)
    apply moved_updateTask
    · exact fun _ => ⟨rfl, rfl, rfl⟩
    · exact fun _ zombie => zombie
  | sleep cpu now millis =>
    obtain ⟨task, _, slept⟩ := bind_eq_some_iff.mp stepped
    obtain ⟨event, _, rfl⟩ := map_eq_some_iff.mp slept
    apply Moved.trans (moved_updateEvent sched _ _)
    apply moved_setState
    decide
  | resumeEvent published =>
    cases stepped
    exact moved_resumeEvent published sched.activeTasks sched
  | add task record => cases moves
  | execve cpu event => cases moves
  | exit cpu exitcode => cases moves
  | wait cpu tid => cases moves

end Sched

namespace Kernel

variable {cpus : Type} {φ ι δ : Type*} {kernel after : Kernel cpus φ ι δ}
  {ops : FileOps φ ι δ} {lookup : ι → Text → LookupResult ι}
variable {task event child : Nat} {ustack : BitVec 64} {saved : Frame}
  {record : Task} {path : Text} {argv : List Text} {cpu : cpus} {current : Nat} {name : Text}
  {memory : ForkMemory} {envp : List Text} {exitcode : Int}

/-- The arguments and the environment of all tasks. -/
def argsOf (kernel : Kernel cpus φ ι δ) (owner : Nat × ArgField) : Args :=
  (kernel.processes owner.1).args owner.2

theorem argsOf_updateProcess {change : Process → Process}
    (keeps : ∀ process, (change process).args = process.args) :
    (kernel.updateProcess task change).argsOf = kernel.argsOf := by
  funext owner
  rw [argsOf, argsOf]
  by_cases same : owner.1 = task
  · rw [same]
    simp [updateProcess, keeps]
  · simp [updateProcess, same]

theorem argsOf_setArgs (task : Nat) (field : ArgField) (args : Args) :
    (kernel.setArgs task field args).argsOf = update kernel.argsOf (task, field) args := by
  funext owner
  rcases owner with ⟨other, otherField⟩
  by_cases same : other = task
  · subst other
    by_cases sameField : otherField = field
    · subst otherField
      simp [argsOf, setArgs, updateProcess]
    · have different : (task, otherField) ≠ (task, field) := by
        simpa using sameField
      simp [argsOf, setArgs, updateProcess, sameField]
  · have different : (other, otherField) ≠ (task, field) := by
      simp [same]
    simp [argsOf, setArgs, updateProcess, same]

/-- `freeBlock` only logs. -/
theorem freeBlock_eq (block : Option Nat) : kernel.freeBlock block = { kernel with
      blocks := { kernel.blocks with
        trace := (block.map UseEvent.free).toList ++ kernel.blocks.trace } } := by
  cases block with
  | none => rfl
  | some block => rfl

/-- The events that `freeOldArgs` logs. -/
def oldFrees (oldArgs : ArgField → Args) : ExecveEnd → List (UseEvent Nat)
  | .frees =>
    ((oldArgs .envp).block.map UseEvent.free).toList ++
      ((oldArgs .argv).block.map UseEvent.free).toList
  | .interruptedSecond => ((oldArgs .argv).block.map UseEvent.free).toList
  | .interruptedFirst => []

theorem freeOldArgs_eq (oldArgs : ArgField → Args) (ending : ExecveEnd) :
    kernel.freeOldArgs oldArgs ending = { kernel with
      blocks := { kernel.blocks with
        trace := oldFrees oldArgs ending ++ kernel.blocks.trace } } := by
  cases ending with
  | frees => simp [freeOldArgs, oldFrees, freeBlock_eq]
  | interruptedFirst => rfl
  | interruptedSecond => simp [freeOldArgs, oldFrees, freeBlock_eq]

section

variable (field : ArgField)
include field

@[simp] theorem freeArgs_sched (task : Nat) :
    (freeArgs field kernel task).sched = kernel.sched := by
  rw [freeArgs, freeBlock_eq]
  rfl

@[simp] theorem freeArgs_tables (task : Nat) :
    (freeArgs field kernel task).tables = kernel.tables := by
  rw [freeArgs, freeBlock_eq]
  rfl

@[simp] theorem setupArgs_sched (task : Nat) (strings : List Text) :
    (setupArgs field kernel task strings).sched = kernel.sched := by
  rw [setupArgs]
  split
  · rfl
  · rfl

@[simp] theorem setupArgs_tables (task : Nat) (strings : List Text) :
    (setupArgs field kernel task strings).tables = kernel.tables := by
  rw [setupArgs]
  split
  · rfl
  · rfl

@[simp] theorem copyArgs_sched (parent child : Nat) :
    (copyArgs field kernel parent child).sched = kernel.sched := by
  rw [copyArgs]
  split
  · rfl
  · split
    · rfl
    · rfl

@[simp] theorem readArgs_sched (task : Nat) :
    (readArgs field kernel task).sched = kernel.sched := by
  rw [readArgs]
  split
  · rfl
  · split
    · rfl
    · rfl

end

theorem closeAllFiles_eq (done : kernel.closeAllFiles ops current task = some after) :
    ∃ tables, after = { kernel with tables := tables } := by
  obtain ⟨tables, _, rfl⟩ := map_eq_some_iff.mp done
  exact ⟨tables, rfl⟩

theorem openConsoles_eq (done : kernel.openConsoles ops lookup task = some after) :
    ∃ tables, after = { kernel with tables := tables } := by
  obtain ⟨tables, _, rfl⟩ := map_eq_some_iff.mp done
  exact ⟨tables, rfl⟩

theorem elfLoad_eq {loads success : Bool}
    (done : kernel.elfLoad ops lookup task loads = some (after, success)) :
    ∃ tables, after = { kernel with tables := tables } := by
  obtain ⟨⟨tables, fh⟩, _, same⟩ := map_eq_some_iff.mp done
  cases same
  exact ⟨tables, rfl⟩

/-- `task_free_phase0` frees the two blocks, and changes the tables and the
event record. -/
theorem taskFreePhase0_eq (done : kernel.taskFreePhase0 ops current task = some after) :
    ∃ tables, after =
      { freeArgs .envp (freeArgs .argv kernel task) task with
        tables := tables
        sched := kernel.sched.updateTask task fun record =>
          { record with wakeupEvent := none } } := by
  obtain ⟨closed, closing, rfl⟩ := map_eq_some_iff.mp done
  obtain ⟨tables, rfl⟩ := closeAllFiles_eq closing
  refine ⟨tables, ?_⟩
  simp

/-- `task_replace` frees the two blocks and resets the task. -/
theorem taskReplace_eq (done : kernel.taskReplace ops task event name = some after) :
    ∃ sched tables, kernel.sched.schedExecve task event = some sched ∧
      after = updateProcess
        { freeArgs .envp (freeArgs .argv kernel task) task with
          tables := tables, sched := sched }
        task fun process =>
          { process with
            name := name.take (taskMaxNameLen - 1)
            trapFrame := setupFrame
            started := false
            isFork := false } := by
  obtain ⟨sched, replaced, rest⟩ := bind_eq_some_iff.mp done
  obtain ⟨closed, closing, rfl⟩ := map_eq_some_iff.mp rest
  obtain ⟨tables, rfl⟩ := closeAllFiles_eq closing
  refine ⟨sched, tables, replaced, ?_⟩
  simp only [freeArgs, freeBlock_eq]
  rfl

def newRecord (kernel : Kernel cpus φ ι δ) (event : Nat) (mode : TaskMode) :
    Task where
  tgid := (kernel.globalId + 1) % 2 ^ 64
  tid := (kernel.globalId + 1) % 2 ^ 64
  mode := mode
  state := .ready
  exitcode := 0
  wakeupEvent := some event

theorem prepareTask_effect (task event : Nat) (path : Text)
    (argv : List Text) (cwd : Option Text) (envp : List Text) :
    (kernel.prepareTask task event path argv cwd envp).1.sched =
        (kernel.sched.updateEvent event fun _ => ⟨.unknown, 0, 0⟩) ∧
      (kernel.prepareTask task event path argv cwd envp).1.tables =
        kernel.tables.setOpenFiles task [] := by
  cases cwd with
  | none =>
    simp [prepareTask, taskSetupEnv, taskSetupArgv, taskSetupPath,
      updateProcess, taskCreate, allocTid]
  | some cwd =>
    simp [prepareTask, taskSetupEnv, taskSetupArgv, taskSetupPath,
      taskSetupCwd, updateProcess, taskCreate, allocTid]

theorem taskFork_user {result : Kernel cpus φ ι δ × Option Task}
    (done : kernel.taskFork task child event memory saved ustack =
      some result) : (kernel.sched.tasks task).mode = .user := by
  cases mode : (kernel.sched.tasks task).mode with
  | kernel => simp [taskFork, mode] at done
  | user => rfl

/-- The kernel in which `task_fork` copies the arguments. -/
def withChild (kernel : Kernel cpus φ ι δ) (task child event : Nat) (saved : Frame)
    (ustack : BitVec 64) : Kernel cpus φ ι δ :=
  { kernel with
    globalId := (kernel.globalId + 1) % 2 ^ 64
    sched := kernel.sched.updateEvent event fun _ => ⟨.unknown, 0, 0⟩
    tables := kernel.tables.setOpenFiles child []
    processes := update kernel.processes child
      { kernel.processes task with
        isFork := true
        trapFrame := forkFrame saved ustack
        started := false } }

/-- A fork with enough memory: the record of the child, and the kernel with the
copied task. -/
theorem taskFork_enough {forked : Kernel cpus φ ι δ}
    (done : kernel.taskFork task child event .enough saved ustack = some (forked, some record)) :
    (kernel.sched.tasks task).mode = .user ∧
      record = { kernel.sched.tasks task with
        tid := (kernel.globalId + 1) % 2 ^ 64
        state := .ready
        wakeupEvent := some event } ∧
      forked = copyArgs .envp
        (copyArgs .argv (kernel.withChild task child event saved ustack) task child) task child := by
  have user := taskFork_user done
  rw [taskFork, user] at done
  cases done
  exact ⟨user, rfl, rfl⟩

/-- `sched_execve` of a running task sets up the new arguments, resets the
task and frees the old arguments. -/
theorem schedExecve_cases {ending : ExecveEnd}
    (done : kernel.schedExecve ops cpu event path argv envp ending = some after) :
    path = [] ∧ after = kernel ∨
      path ≠ [] ∧ ∃ task sched tables setup, kernel.sched.current cpu = some task ∧
        kernel.sched.schedExecve task event = some sched ∧
        setup = ((kernel.taskSetupPath task path).taskSetupArgv task argv).taskSetupEnv task envp ∧
        after = (updateProcess { setup with tables := tables, sched := sched }
          task fun process =>
            { process with
              name := (execName path).take (taskMaxNameLen - 1)
              trapFrame := setupFrame
              started := false
              isFork := false }).freeOldArgs (kernel.processes task).args
                ending := by
  by_cases unnamed : path = []
  · rw [schedExecve, if_pos unnamed] at done
    cases done
    exact .inl ⟨unnamed, rfl⟩
  · right
    by_cases fits : PathFits path
    · rw [schedExecve, if_neg unnamed, if_neg (not_not.mpr fits)] at done
      obtain ⟨task, isCurrent, rest⟩ := bind_eq_some_iff.mp done
      obtain ⟨replaced, replacing, rfl⟩ := map_eq_some_iff.mp rest
      obtain ⟨sched, tables, executed, rfl⟩ := taskReplace_eq replacing
      refine ⟨unnamed, task, sched, tables, _, isCurrent, ?_, rfl, ?_⟩
      · simpa [updateProcess, taskSetupEnv, taskSetupArgv, taskSetupPath] using executed
      · simp [updateProcess, freeArgs, freeBlock, setArgs]
    · rw [schedExecve, if_neg unnamed, if_pos fits] at done
      cases done

/-- One round of `sched_wait` finds nothing, or frees a zombie. -/
theorem schedWait_cases {tid : Nat} (done : kernel.schedWait ops cpu tid = some after) :
    after = kernel ∨
      ∃ task zombie tables, kernel.sched.current cpu = some task ∧
        kernel.sched.findZombie (kernel.sched.tasks task).tgid tid
          kernel.sched.cleanupTasks = some (some zombie) ∧
        ∃ sched,
          (kernel.sched.updateTask zombie fun record =>
            { record with wakeupEvent := none }).schedWait task tid = some sched ∧
          after = { freeArgs .envp (freeArgs .argv kernel zombie) zombie with
            tables := tables, sched := sched } := by
  obtain ⟨task, isCurrent, rest⟩ := bind_eq_some_iff.mp done
  cases search : kernel.sched.findZombie (kernel.sched.tasks task).tgid tid
      kernel.sched.cleanupTasks with
  | none =>
    rw [search] at rest
    cases rest
  | some found =>
    rw [search] at rest
    cases found with
    | none =>
      cases rest
      exact .inl rfl
    | some zombie =>
      right
      obtain ⟨freed, freeing, waited⟩ := bind_eq_some_iff.mp rest
      obtain ⟨sched, waiting, rfl⟩ := map_eq_some_iff.mp waited
      obtain ⟨tables, rfl⟩ := taskFreePhase0_eq freeing
      exact ⟨task, zombie, tables, isCurrent, search, sched, waiting, rfl⟩

theorem schedExit_eq [DecidableEq cpus] (done : kernel.schedExit ops cpu exitcode = some after) :
    ∃ task tables, kernel.sched.current cpu = some task ∧
      after = { freeArgs .envp (freeArgs .argv kernel task) task with
        tables := tables
        sched := (kernel.sched.updateTask task fun record =>
          { record with wakeupEvent := none }).schedExit cpu task exitcode } := by
  obtain ⟨task, isCurrent, rest⟩ := bind_eq_some_iff.mp done
  obtain ⟨freed, freeing, rfl⟩ := map_eq_some_iff.mp rest
  obtain ⟨tables, rfl⟩ := taskFreePhase0_eq freeing
  exact ⟨task, tables, isCurrent, rfl⟩

/-- The first run of a user task: a forked task gets its answer, and another
one reads its arguments or exits when it cannot be loaded. -/
theorem start_cases [DecidableEq cpus] {loads : Bool}
    (done : kernel.start ops lookup cpu loads = some after) :
    ∃ task tables running, kernel.sched.current cpu = some task ∧
      (kernel.processes task).started = false ∧
      running = updateProcess { kernel with tables := tables } task
        (fun process => { process with started := true }) ∧
      ((kernel.processes task).isFork = true ∧
          after = { running with
            answers := ⟨(kernel.sched.tasks task).tid,
              some (kernel.sched.tasks task).tid,
              ((kernel.processes task).trapFrame .rax).toNat⟩ :: kernel.answers } ∨
        (kernel.processes task).isFork = false ∧
          (after = readArgs .envp (readArgs .argv running task) task ∨
            running.schedExit ops cpu (-1) = some after)) := by
  obtain ⟨task, isCurrent, rest⟩ := bind_eq_some_iff.mp done
  by_cases begun : (kernel.processes task).started = true ∨ (kernel.sched.tasks task).mode = .kernel
  · simp only [if_pos begun] at rest
    cases rest
  · simp only [if_neg begun] at rest
    have first : (kernel.processes task).started = false := by
      simpa using fun started => begun (.inl started)
    obtain ⟨opened, opening, onward⟩ := bind_eq_some_iff.mp rest
    obtain ⟨tables, rfl⟩ := openConsoles_eq opening
    cases flag : (kernel.processes task).isFork with
    | true =>
      rw [if_pos flag] at onward
      cases onward
      exact ⟨task, tables, _, isCurrent, first, rfl, .inl ⟨flag, rfl⟩⟩
    | false =>
      rw [if_neg (by simp [flag])] at onward
      obtain ⟨⟨loaded, success⟩, loading, ended⟩ := bind_eq_some_iff.mp onward
      obtain ⟨laterTables, rfl⟩ := elfLoad_eq loading
      refine ⟨task, laterTables, _, isCurrent, first, rfl, .inr ⟨flag, ?_⟩⟩
      cases success with
      | true =>
        left
        cases ended
        rfl
      | false => exact .inr ended

variable [Fintype cpus]

theorem schedAdd_eq (done : kernel.schedAdd task record = some after) :
    ∃ sched, kernel.sched.schedAdd task record = some sched ∧
      after = { kernel with sched := sched } := by
  obtain ⟨sched, added, rfl⟩ := map_eq_some_iff.mp done
  exact ⟨sched, added, rfl⟩

theorem createKernelTask_eq (done : kernel.createKernelTask task event name = some after) : ∃ sched,
      (kernel.sched.updateEvent event fun _ => ⟨.unknown, 0, 0⟩).schedAdd task
          (kernel.newRecord event .kernel) = some sched ∧
        after = { (kernel.taskCreate task event name .kernel).1 with
          sched := sched } :=
  schedAdd_eq done

theorem schedExecveFirst_eq {cwd : Option Text}
    (done : kernel.schedExecveFirst cpu task event path argv cwd envp = some after) :
    ∃ sched,
      (kernel.sched.updateEvent event fun _ => ⟨.unknown, 0, 0⟩).schedAdd task
          (kernel.newRecord event .user) = some sched ∧
        after = { (kernel.prepareTask task event path argv cwd envp).1 with
          sched := sched } := by
  by_cases first : kernel.sched.runningTasks cpu = none ∧ path ≠ [] ∧ PathFits path
  · rw [schedExecveFirst, if_pos first] at done
    let prepared := (kernel.prepareTask task event path argv cwd envp).1
    have adding : prepared.schedAdd task (kernel.newRecord event .user) = some after := done
    obtain ⟨sched, added, rfl⟩ := schedAdd_eq adding
    rw [(prepareTask_effect ..).1] at added
    exact ⟨sched, added, rfl⟩
  · rw [schedExecveFirst, if_neg first] at done
    cases done

theorem schedSpawn_eq (done : kernel.schedSpawn cpu task event path argv = some after) :
    ∃ current sched, kernel.sched.current cpu = some current ∧
      (kernel.sched.updateEvent event fun _ => ⟨.unknown, 0, 0⟩).schedAdd task
          { kernel.newRecord event .user with
            tgid := (kernel.sched.tasks current).tid } = some sched ∧
        after = { (kernel.prepareTask task event path argv
          (some (kernel.processes current).cwd) []).1 with
            sched := sched } := by
  by_cases fits : PathFits path
  · rw [schedSpawn, if_pos fits] at done
    obtain ⟨current, isCurrent, rest⟩ := bind_eq_some_iff.mp done
    let prepared := (kernel.prepareTask task event path argv
      (some (kernel.processes current).cwd) []).1
    have adding : prepared.schedAdd task { kernel.newRecord event .user with
        tgid := (kernel.sched.tasks current).tid } = some after := rest
    obtain ⟨sched, added, rfl⟩ := schedAdd_eq adding
    rw [(prepareTask_effect ..).1] at added
    exact ⟨current, sched, isCurrent, added, rfl⟩
  · rw [schedSpawn, if_neg fits] at done
    cases done

/-- A fork that finds the flag of an earlier fork, a fork that finds no memory,
or a fork that adds a task. -/
theorem schedFork_cases {created : Option Nat}
    {value : Nat} (isCurrent : kernel.sched.current cpu = some task)
    (done : kernel.schedFork cpu child event memory saved ustack = some (after, created, value)) :
    (kernel.processes task).isFork = true ∧ created = none ∧ value = 0 ∧
        after = (kernel.updateProcess task fun process =>
          { process with isFork := false }) ∨
      (kernel.processes task).isFork = false ∧ memory ≠ .enough ∧ created = none ∧ value = 0 ∧
        (after = kernel ∨ after = kernel.allocTid.1) ∨
      (kernel.processes task).isFork = false ∧ memory = .enough ∧
        ∃ forked record sched,
          kernel.taskFork task child event .enough saved ustack = some (forked, some record) ∧
          (kernel.sched.updateEvent event fun _ => ⟨.unknown, 0, 0⟩).schedAdd child record =
            some sched ∧
          created = some record.tid ∧ value = record.tid % 2 ^ 32 ∧
          after = { forked with
            tables := forked.tables.vfsCopy child task, sched := sched } := by
  rw [schedFork, isCurrent, bind_some] at done
  cases flag : (kernel.processes task).isFork with
  | true =>
    rw [if_pos flag] at done
    cases done
    exact .inl ⟨rfl, rfl, rfl, rfl⟩
  | false =>
    rw [if_neg (by simp [flag])] at done
    obtain ⟨⟨forked, made⟩, forking, rest⟩ := bind_eq_some_iff.mp done
    have user := taskFork_user forking
    cases memory with
    | noTask =>
      right
      left
      rw [taskFork, user] at forking
      cases forking
      cases rest
      exact ⟨rfl, by decide, rfl, rfl, .inl rfl⟩
    | noSpace =>
      right
      left
      rw [taskFork, user] at forking
      cases forking
      cases rest
      exact ⟨rfl, by decide, rfl, rfl, .inr rfl⟩
    | enough =>
      right
      right
      cases made with
      | none =>
        rw [taskFork, user] at forking
        cases forking
      | some record =>
        obtain ⟨added, adding, same⟩ := map_eq_some_iff.mp rest
        cases same
        obtain ⟨sched, scheduled, rfl⟩ := schedAdd_eq adding
        rw [(taskFork_enough forking).2.2, copyArgs_sched, copyArgs_sched] at scheduled
        exact ⟨rfl, rfl, forked, record, sched, forking, scheduled, rfl, rfl, rfl⟩

private theorem sound_newTask (sound : kernel.sched.Sound) {sched : Sched cpus}
    (added : (kernel.sched.updateEvent event fun _ =>
      ⟨.unknown, 0, 0⟩).schedAdd task record = some sched) : sched.Sound :=
  sound_add (sound.updateEvent event _) added

theorem boot_sound (tables : FileTables φ ι δ) (idleTasks : cpus → Nat) :
    (boot tables idleTasks : Kernel cpus φ ι δ).sched.Sound :=
  initial_sound _ _ idleTasks

variable [DecidableEq cpus]

private theorem sound_schedExit (sound : kernel.sched.Sound)
    (done : kernel.schedExit ops cpu exitcode = some after) :
    after.sched.Sound := by
  obtain ⟨task, tables, isCurrent, rfl⟩ := schedExit_eq done
  exact sound_exit (sound.updateWakeup task none) isCurrent exitcode

theorem step_sched_eq {op : SchedOp cpus}
    (stepped : kernel.step ops lookup (.sched op) = some after) :
    op.Moves ∧ ∃ sched, kernel.sched.step op = some sched ∧
      after = { kernel with sched := sched } := by
  by_cases moves : op.Moves
  · simp only [step, if_pos moves] at stepped
    obtain ⟨sched, moved, rfl⟩ := map_eq_some_iff.mp stepped
    exact ⟨moves, sched, moved, rfl⟩
  · simp only [step, if_neg moves] at stepped
    cases stepped

theorem step_sound (sound : kernel.sched.Sound) {op : KernelOp cpus}
    (stepped : kernel.step ops lookup op = some after) :
    after.sched.Sound := by
  cases op with
  | createKernelTask task event name =>
    obtain ⟨sched, added, rfl⟩ := createKernelTask_eq stepped
    exact sound_newTask sound added
  | execveFirst cpu task event path argv cwd envp =>
    obtain ⟨sched, added, rfl⟩ := schedExecveFirst_eq stepped
    exact sound_newTask sound added
  | spawn cpu task event path argv =>
    obtain ⟨current, sched, _, added, rfl⟩ := schedSpawn_eq stepped
    exact sound_newTask sound added
  | fork cpu child event memory saved ustack =>
    obtain ⟨task, isCurrent, rest⟩ := bind_eq_some_iff.mp stepped
    obtain ⟨⟨forked, created, value⟩, forking, same⟩ := map_eq_some_iff.mp rest
    cases same
    rcases schedFork_cases isCurrent forking with
      ⟨_, _, _, rfl⟩ | ⟨_, _, _, _, same⟩ | ⟨_, _, copied, record, sched, copying, added, _, _, rfl⟩
    · exact sound
    · rcases same with rfl | rfl
      · exact sound
      · exact sound
    · exact sound_newTask sound added
  | execve cpu event path argv envp ending =>
    rcases schedExecve_cases stepped with ⟨_, rfl⟩ |
      ⟨_, task, sched, tables, setup, isCurrent, executed, _, rfl⟩
    · exact sound
    · rw [freeOldArgs_eq]
      exact sound_execve sound isCurrent executed
  | start cpu loads =>
    obtain ⟨task, tables, running, isCurrent, _, rfl, results⟩ := start_cases stepped
    rcases results with ⟨_, rfl⟩ | ⟨_, rfl | ended⟩
    · exact sound
    · rw [readArgs_sched, readArgs_sched]
      exact sound
    · exact sound_schedExit (by exact sound) ended
  | exit cpu exitcode => exact sound_schedExit sound stepped
  | wait cpu tid =>
    rcases schedWait_cases stepped with rfl | ⟨task, zombie, tables, _, _, sched, waited, rfl⟩
    · exact sound
    · exact sound_wait (sound.updateWakeup zombie none) waited
  | sched op =>
    obtain ⟨_, sched, moved, rfl⟩ := step_sched_eq stepped
    exact step_sound sound moved

end Kernel

end SeekOs.Proc
