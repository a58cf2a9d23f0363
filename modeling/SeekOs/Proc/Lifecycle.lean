import SeekOs.Proc.Task

/-!
# The life of a task

The calls of `sched.c` that create, fork, replace and end tasks.  A call is
made by the task that a processor runs.  What a call finds in memory, whether
an image can be loaded and when the timer interrupts are arguments of the
steps.
-/

namespace SeekOs.Proc

open SeekOs.Base SeekOs.Fs SeekOs.Lib

/-- How far `sched_execve` gets after its locked section.  The task has left
the running state and has a new stack by then, so that a timer interrupt there
never comes back to the two calls of `kfree`. -/
inductive ExecveEnd where
  | frees
  | interruptedFirst
  | interruptedSecond
  deriving DecidableEq

/-- The text behind the last slash. -/
def execName (path : Text) : Text :=
  (path.splitOn slash).getLastD []

namespace Kernel

variable {cpus : Type} {φ ι δ : Type*} [DecidableEq cpus]

/-- A path fits into `temp_path`. -/
def PathFits (path : Text) : Prop :=
  path.length < vfsMaxPathLength

instance : DecidablePred PathFits :=
  fun path => inferInstanceAs (Decidable (path.length < vfsMaxPathLength))

section Calls

variable [Fintype cpus]

variable (kernel : Kernel cpus φ ι δ)

def schedAdd (task : Nat) (record : Task) : Option (Kernel cpus φ ι δ) :=
  (kernel.sched.schedAdd task record).map fun sched =>
    { kernel with sched := sched }

/-- A kernel task of `kernel_main`. -/
def createKernelTask (task event : Nat) (name : Text) : Option (Kernel cpus φ ι δ) :=
  let (created, record) := kernel.taskCreate task event name .kernel
  created.schedAdd task record

/-- The part that `sched_execve` and `sched_spawn` share: a new user task with
its path, its arguments, and a directory and an environment if they are given. -/
def prepareTask (task event : Nat) (path : Text)
    (argv : List Text) (cwd : Option Text) (envp : List Text) :
    Kernel cpus φ ι δ × Task :=
  let (created, record) := kernel.taskCreate task event (execName path) .user
  let named := (created.taskSetupPath task path).taskSetupArgv task argv
  let placed := match cwd with
    | none => named
    | some cwd => named.taskSetupCwd task cwd
  (placed.taskSetupEnv task envp, record)

/-- `sched_execve` on a processor that runs no task. -/
def schedExecveFirst (cpu : cpus)
    (task event : Nat) (path : Text) (argv : List Text) (cwd : Option Text)
    (envp : List Text) : Option (Kernel cpus φ ι δ) :=
  if kernel.sched.runningTasks cpu = none ∧ path ≠ [] ∧ PathFits path then
    let (prepared, record) := kernel.prepareTask task event path argv cwd envp
    prepared.schedAdd task record
  else
    none

def schedSpawn (cpu : cpus) (task event : Nat)
    (path : Text) (argv : List Text) : Option (Kernel cpus φ ι δ) :=
  if PathFits path then
    (kernel.sched.current cpu).bind fun current =>
      let (prepared, record) := kernel.prepareTask task event path argv
        (some (kernel.processes current).cwd) []
      prepared.schedAdd task { record with tgid := (kernel.sched.tasks current).tid }
  else
    none

/-- `sched_fork` and its result. -/
def schedFork (cpu : cpus) (child event : Nat)
    (memory : ForkMemory) (saved : Frame) (ustack : BitVec 64) :
    Option (Kernel cpus φ ι δ × Option Nat × Nat) :=
  (kernel.sched.current cpu).bind fun task =>
    if (kernel.processes task).isFork then
      some (kernel.updateProcess task fun process =>
        { process with isFork := false }, none, 0)
    else
      (kernel.taskFork task child event memory saved ustack).bind
        fun (forked, made) =>
          match made with
          | none => some (forked, none, 0)
          | some record =>
            let copied := { forked with
              tables := forked.tables.vfsCopy child task }
            (copied.schedAdd child record).map fun added =>
              (added, some record.tid, record.tid % 2 ^ 32)

/-- The result of a fork reaches the task that called it. -/
def fork (cpu : cpus) (child event : Nat)
    (memory : ForkMemory) (saved : Frame) (ustack : BitVec 64) :
    Option (Kernel cpus φ ι δ) :=
  (kernel.sched.current cpu).bind fun task =>
    (kernel.schedFork cpu child event memory saved ustack).map
      fun (forked, created, value) =>
        { forked with
          answers := ⟨(kernel.sched.tasks task).tid, created, value⟩ ::
            forked.answers }

end Calls

section Images

variable (ops : FileOps φ ι δ)

/-- The two calls of `kfree` at the end of `sched_execve`. -/
def freeOldArgs (kernel : Kernel cpus φ ι δ) (oldArgs : ArgField → Args) :
    ExecveEnd → Kernel cpus φ ι δ
  | .frees =>
    (kernel.freeBlock (oldArgs .argv).block).freeBlock (oldArgs .envp).block
  | .interruptedSecond => kernel.freeBlock (oldArgs .argv).block
  | .interruptedFirst => kernel

/-- `sched_execve` of a running task. -/
def schedExecve (kernel : Kernel cpus φ ι δ) (cpu : cpus) (event : Nat)
    (path : Text) (argv envp : List Text) (ending : ExecveEnd) :
    Option (Kernel cpus φ ι δ) :=
  if path = [] then
    some kernel
  else if ¬PathFits path then
    none
  else
    (kernel.sched.current cpu).bind fun now =>
      let oldArgs := (kernel.processes now).args
      let named := (kernel.taskSetupPath now path).taskSetupArgv now argv
      let setup := named.taskSetupEnv now envp
      let newArgs := (setup.processes now).args
      let cleared := setup.updateProcess now fun process =>
        { process with
          args := fun field => { newArgs field with block := none } }
      (cleared.taskReplace ops now event (execName path)).map fun replaced =>
        let restored := replaced.updateProcess now fun process =>
          { process with args := newArgs }
        restored.freeOldArgs oldArgs ending

def schedExit (kernel : Kernel cpus φ ι δ) (cpu : cpus) (exitcode : Int) :
    Option (Kernel cpus φ ι δ) :=
  (kernel.sched.current cpu).bind fun task =>
    (kernel.taskFreePhase0 ops task task).map fun freed =>
      { freed with sched := freed.sched.schedExit cpu task exitcode }

/-- One round of `sched_wait`. -/
def schedWait (kernel : Kernel cpus φ ι δ) (cpu : cpus) (tid : Nat) : Option (Kernel cpus φ ι δ) :=
  (kernel.sched.current cpu).bind fun task =>
    match kernel.sched.findZombie (kernel.sched.tasks task).tgid tid kernel.sched.cleanupTasks with
    | none => none
    | some none => some kernel
    | some (some zombie) =>
      (kernel.taskFreePhase0 ops task zombie).bind fun freed =>
        (freed.sched.schedWait task tid).map fun sched =>
          { freed with sched := sched }

variable (lookup : ι → Text → LookupResult ι)

def consolePath : Text :=
  [0x2f, 0x64, 0x65, 0x76, 0x2f, 0x74, 0x74, 0x79, 0x66, 0x73]

/-- The three calls of `vfs_open_console`. -/
def openConsoles (kernel : Kernel cpus φ ι δ) (task : Nat) : Option (Kernel cpus φ ι δ) :=
  let cwd := (kernel.processes task).cwd
  let opened := [0, 1, 2].foldlM (fun tables fh =>
    (tables.vfsOpenConsole ops lookup task cwd consolePath fh).map Prod.fst) kernel.tables
  opened.map fun tables => { kernel with tables := tables }

/-- `elf_load`, as far as the open files are concerned: it leaves the file it
has opened in the list of the task.  `loads` tells whether the contents can be
loaded. -/
def elfLoad (kernel : Kernel cpus φ ι δ) (task : Nat) (loads : Bool) :
    Option (Kernel cpus φ ι δ × Bool) :=
  let process := kernel.processes task
  (kernel.tables.vfsOpen ops lookup task process.cwd process.execvePath
    .read).map fun (tables, fh) =>
      ({ kernel with tables := tables }, decide (0 ≤ fh) && loads)

/-- `__sched_task_start_user`: `_sched_do_execve`, and the return to user mode
with the trap frame of the task. -/
def start (kernel : Kernel cpus φ ι δ) (cpu : cpus) (loads : Bool) : Option (Kernel cpus φ ι δ) :=
  (kernel.sched.current cpu).bind fun task =>
    let process := kernel.processes task
    if process.started ∨ (kernel.sched.tasks task).mode = .kernel then
      none
    else
      (kernel.openConsoles ops lookup task).bind fun opened =>
        let running := opened.updateProcess task fun process =>
          { process with started := true }
        if process.isFork then
          let tid := (kernel.sched.tasks task).tid
          some { running with
            answers := ⟨tid, some tid, (process.trapFrame .rax).toNat⟩ ::
              running.answers }
        else
          (running.elfLoad ops lookup task loads).bind fun (loaded, success) =>
            if success then
              some (readArgs .envp (readArgs .argv loaded task) task)
            else
              loaded.schedExit ops cpu (-1)

end Images

end Kernel

/-- The steps of tasks.  `sched` is a step of the scheduler that concerns no
other record: a switch, a wait, a sleep or a resumption. -/
inductive KernelOp (cpus : Type) where
  | createKernelTask (task event : Nat) (name : Text)
  | execveFirst (cpu : cpus) (task event : Nat) (path : Text)
      (argv : List Text) (cwd : Option Text) (envp : List Text)
  | spawn (cpu : cpus) (task event : Nat) (path : Text) (argv : List Text)
  | fork (cpu : cpus) (child event : Nat) (memory : ForkMemory) (saved : Frame) (ustack : BitVec 64)
  | execve (cpu : cpus) (event : Nat) (path : Text) (argv envp : List Text) (ending : ExecveEnd)
  | start (cpu : cpus) (loads : Bool)
  | exit (cpu : cpus) (exitcode : Int)
  | wait (cpu : cpus) (tid : Nat)
  | sched (op : SchedOp cpus)

/-- The steps of the scheduler that only move tasks and wake them. -/
def SchedOp.Moves {cpus : Type} : SchedOp cpus → Bool
  | .again _ _ => true
  | .waitEvent _ _ => true
  | .waitReturn _ _ => true
  | .sleep _ _ _ => true
  | .resumeEvent _ => true
  | _ => false

namespace Kernel

variable {cpus : Type} {φ ι δ : Type*} [DecidableEq cpus] [Fintype cpus]
  (ops : FileOps φ ι δ) (lookup : ι → Text → LookupResult ι)

def step (kernel : Kernel cpus φ ι δ) : KernelOp cpus → Option (Kernel cpus φ ι δ)
  | .createKernelTask task event name =>
    kernel.createKernelTask task event name
  | .execveFirst cpu task event path argv cwd envp =>
    kernel.schedExecveFirst cpu task event path argv cwd envp
  | .spawn cpu task event path argv =>
    kernel.schedSpawn cpu task event path argv
  | .fork cpu child event memory saved ustack =>
    kernel.fork cpu child event memory saved ustack
  | .execve cpu event path argv envp ending =>
    kernel.schedExecve ops cpu event path argv envp ending
  | .start cpu loads => kernel.start ops lookup cpu loads
  | .exit cpu exitcode => kernel.schedExit ops cpu exitcode
  | .wait cpu tid => kernel.schedWait ops cpu tid
  | .sched op =>
    if op.Moves then
      (kernel.sched.step op).map fun sched => { kernel with sched := sched }
    else
      none

def boot (tables : FileTables φ ι δ) (idleTasks : cpus → Nat) : Kernel cpus φ ι δ where
  sched :=
    { tasks := fun _ => ⟨0, 0, .kernel, .dead, 0, none⟩
      events := fun _ => ⟨.unknown, 0, 0⟩
      idleTasks := idleTasks
      runningTasks := fun _ => none
      activeTasks := []
      cleanupTasks := []
      live := ∅ }
  tables := tables
  processes := fun _ =>
    ⟨[], [], [], fun _ => ⟨0, none⟩, false, setupFrame, false⟩
  blocks := ⟨0, fun _ => [], []⟩
  globalId := 0
  answers := []

/-! ## A small system -/

def programPath : Text := [slash, 0x61]

/-- A root directory with the program `a` and the terminal `/dev/ttyfs`. -/
def programLookup (node : RamfsData) (name : Text) : LookupResult RamfsData :=
  if node.dataOffset = 0 ∧ name = [0x61] then
    .filled ⟨3, 3⟩
  else if node.dataOffset = 0 ∧ name = [0x64, 0x65, 0x76] then
    .filled ⟨0, 1⟩
  else if node.dataOffset = 1 ∧ name = [0x74, 0x74, 0x79, 0x66, 0x73] then
    .filled ⟨0, 2⟩
  else
    .null

/-- One processor, whose idle task is the record 0, and the root directory. -/
def programBoot : Kernel Unit (List UInt8) RamfsData Unit :=
  boot
    (FileTables.boot
      { vfsRoot := some 0
        vfsFsList := []
        dentries := fun _ => ⟨[], some ⟨⟨0, 0⟩, none⟩, 0, []⟩
        dentryCount := 1 }
      [1, 2, 3] ⟨⟨⟨none, 0⟩, 0, .read, false⟩, 0, ⟨0, 0⟩, 0⟩)
    fun _ => 0

/-- The first program is created and gets the processor. -/
def programRun : List (KernelOp Unit) :=
  [.execveFirst () 10 20 programPath [] (some [slash]) [[0x50]], .sched (.again () 1)]

end Kernel

end SeekOs.Proc
