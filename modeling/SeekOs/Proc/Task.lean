import SeekOs.Fs.FileTable
import SeekOs.Lib.Ownership
import SeekOs.Proc.Sched

/-!
# Tasks: creation, fork, replacement and release

The functions of `task.c` over the scheduler, the open files and the part of
`task_t` that the scheduler does not read.  Address spaces and stacks are left
out; the blocks that hold argument and environment strings are numbered in the
order of their allocation, and what happens to them is logged.
-/

namespace SeekOs.Proc

open SeekOs.Base SeekOs.Fs SeekOs.Lib Function

/-- The words of a `trapframe_t` and of the frame that a system call leaves on
the kernel stack. -/
inductive Register where
  | rip
  | rflags
  | rsp
  | cs
  | ss
  | rax
  | rcx
  | rdx
  | rbx
  | rbp
  | rsi
  | rdi
  | r8
  | r9
  | r10
  | r11
  | r12
  | r13
  | r14
  | r15
  deriving DecidableEq

/-- The values of the registers. -/
def Frame : Type :=
  Register → BitVec 64

/-- The trap frame that `_task_setup_kstack_user` leaves. -/
def setupFrame : Frame
  | .ss => 0x23
  | .rflags => 0x202
  | .cs => 0x2b
  | _ => 0

/-- The trap frame of a forked task, from the frame of the system call of its
parent and the user stack in `percpu()`. -/
def forkFrame (saved : Frame) (ustack : BitVec 64) : Frame
  | .rsp => ustack
  | .ss => setupFrame .ss
  | .cs => setupFrame .cs
  | .rax => setupFrame .rax
  | register => saved register

/-- `u_argc` and `u_argv`, or `u_envc` and `u_envp`. -/
inductive ArgField where
  | argv
  | envp
  deriving DecidableEq

structure Args where
  count : Int
  block : Option Nat
  deriving DecidableEq

/-- The fields of `task_t` that the scheduler does not read.  `started` is set
once the first frame of the task has been run. -/
structure Process where
  name : Text
  execvePath : Text
  cwd : Text
  args : ArgField → Args
  isFork : Bool
  trapFrame : Frame
  started : Bool

/-- The blocks of argument and environment strings, with what happened to them,
the last event first. -/
structure Blocks where
  count : Nat
  contents : Nat → List UInt8
  trace : List (UseEvent Nat)

/-- What a task sees as the result of a fork: its own task id, the id of the
task that the fork has created, and the value. -/
structure ForkAnswer where
  observer : Nat
  created : Option Nat
  value : Nat
  deriving DecidableEq

structure Kernel (cpus : Type) (φ ι δ : Type*) where
  sched : Sched cpus
  tables : FileTables φ ι δ
  processes : Nat → Process
  blocks : Blocks
  globalId : Nat
  answers : List ForkAnswer

def taskMaxArgvLen : Nat := 32

def taskMaxNameLen : Nat := 64

/-- A string as it stands in an argument block: cut off and filled up with
terminators. -/
def argEntry (text : Text) : List UInt8 :=
  let kept := text.take (taskMaxArgvLen - 1)
  kept ++ List.replicate (taskMaxArgvLen - kept.length) 0

/-- What `task_fork` finds in memory. -/
inductive ForkMemory where
  | noTask
  | noSpace
  | enough
  deriving DecidableEq

namespace Kernel

variable {cpus : Type} {φ ι δ : Type*}

section

variable (kernel : Kernel cpus φ ι δ)

variable (task : Nat)

def updateProcess (change : Process → Process) : Kernel cpus φ ι δ :=
  { kernel with
    processes := update kernel.processes task
      (change (kernel.processes task)) }

variable (field : ArgField)

def setArgs (args : Args) : Kernel cpus φ ι δ :=
  kernel.updateProcess task fun process =>
    { process with args := update process.args field args }

def logBlock (event : UseEvent Nat) : Kernel cpus φ ι δ :=
  { kernel with
    blocks := { kernel.blocks with trace := event :: kernel.blocks.trace } }

/-- `kzalloc` of a block, filled with the given bytes. -/
def allocBlock (contents : List UInt8) : Kernel cpus φ ι δ × Nat :=
  let block := kernel.blocks.count
  ({ kernel with
      blocks :=
        { count := block + 1
          contents := update kernel.blocks.contents block contents
          trace := .alloc block :: kernel.blocks.trace } }, block)

/-- `if (block) kfree(block)`. -/
def freeBlock : Option Nat → Kernel cpus φ ι δ
  | none => kernel
  | some block => kernel.logBlock (.free block)

def allocTid : Kernel cpus φ ι δ × Nat :=
  let id := (kernel.globalId + 1) % 2 ^ 64
  ({ kernel with globalId := id }, id)

/-- Free the block of a field and clear the field. -/
def freeArgs (kernel : Kernel cpus φ ι δ) (task : Nat) : Kernel cpus φ ι δ :=
  let args := (kernel.processes task).args field
  (kernel.freeBlock args.block).setArgs task field { args with block := none }

/-- The common body of `task_setup_argv` and `task_setup_env`. -/
def setupArgs (kernel : Kernel cpus φ ι δ) (task : Nat) (strings : List Text) : Kernel cpus φ ι δ :=
  if strings = [] then
    kernel
  else
    let (allocated, block) := kernel.allocBlock (strings.flatMap argEntry)
    allocated.setArgs task field ⟨strings.length, some block⟩

def taskSetupArgv (argv : List Text) : Kernel cpus φ ι δ :=
  setupArgs .argv kernel task argv

def taskSetupEnv (envp : List Text) : Kernel cpus φ ι δ :=
  setupArgs .envp kernel task envp

def taskSetupPath (path : Text) : Kernel cpus φ ι δ :=
  kernel.updateProcess task fun process =>
    { process with execvePath := path.take (vfsMaxPathLength - 1) }

def taskSetupCwd (cwd : Text) : Kernel cpus φ ι δ :=
  kernel.updateProcess task fun process =>
    { process with cwd := cwd.take (vfsMaxPathLength - 1) }

/-- `task_create` in the record `task`, with the event record `event`; the part
that the scheduler reads is returned. -/
def taskCreate (task event : Nat) (name : Text) (mode : TaskMode) : Kernel cpus φ ι δ × Task :=
  let (numbered, tid) := kernel.allocTid
  ({ numbered with
      sched := numbered.sched.updateEvent event fun _ => ⟨.unknown, 0, 0⟩
      tables := numbered.tables.setOpenFiles task []
      processes := update numbered.processes task
        { name := name.take (taskMaxNameLen - 1)
          execvePath := []
          cwd := []
          args := fun _ => ⟨0, none⟩
          isFork := false
          trapFrame := setupFrame
          started := false } },
    { tgid := tid
      tid := tid
      mode := mode
      state := .ready
      exitcode := 0
      wakeupEvent := some event })

/-- `task_fork` for one of the two argument fields, after the record was
copied. -/
def copyArgs (kernel : Kernel cpus φ ι δ) (parent child : Nat) : Kernel cpus φ ι δ :=
  let args := (kernel.processes parent).args field
  match args.block with
  | none => kernel
  | some block =>
    if 0 < args.count then
      let (allocated, copy) := kernel.allocBlock (kernel.blocks.contents block)
      (allocated.logBlock (.read block)).setArgs child field ⟨args.count, some copy⟩
    else
      kernel

/-- `task_fork` into the record `child`, with the event record `event`.  There
is no result when it panics, and no task when memory runs out. -/
def taskFork (parent child event : Nat) (memory : ForkMemory) (saved : Frame) (ustack : BitVec 64) :
    Option (Kernel cpus φ ι δ × Option Task) :=
  match (kernel.sched.tasks parent).mode with
  | .kernel => none
  | .user =>
    match memory with
    | .noTask => some (kernel, none)
    | .noSpace => some (kernel.allocTid.1, none)
    | .enough =>
      let (numbered, tid) := kernel.allocTid
      let copied := { numbered with
        sched := numbered.sched.updateEvent event fun _ =>
          ⟨.unknown, 0, 0⟩
        tables := numbered.tables.setOpenFiles child []
        processes := update numbered.processes child
          { numbered.processes parent with
            isFork := true
            trapFrame := forkFrame saved ustack
            started := false } }
      let filled := copyArgs .envp (copyArgs .argv copied parent child) parent child
      some (filled, some
        { kernel.sched.tasks parent with
          tid := tid
          state := .ready
          wakeupEvent := some event })

end

variable (ops : FileOps φ ι δ)

/-- `_task_close_all_files`, called by the task `current`. -/
def closeAllFiles (kernel : Kernel cpus φ ι δ) (current task : Nat) : Option (Kernel cpus φ ι δ) :=
  (kernel.tables.taskCloseAllFiles ops current task).map fun tables =>
    { kernel with tables := tables }

/-- `task_free_phase0`, called by the task `current`. -/
def taskFreePhase0 (kernel : Kernel cpus φ ι δ) (current task : Nat) : Option (Kernel cpus φ ι δ) :=
  let freed := freeArgs .envp (freeArgs .argv kernel task) task
  (freed.closeAllFiles ops current task).map fun closed =>
    { closed with
      sched := closed.sched.updateTask task fun record =>
        { record with wakeupEvent := none } }

/-- `task_replace`, called by the task itself, with the new event record. -/
def taskReplace (kernel : Kernel cpus φ ι δ) (task event : Nat)
    (name : Text) : Option (Kernel cpus φ ι δ) :=
  (kernel.sched.schedExecve task event).bind fun sched =>
    let freed := freeArgs .envp (freeArgs .argv { kernel with sched := sched } task) task
    (freed.closeAllFiles ops task task).map fun closed =>
      closed.updateProcess task fun process =>
        { process with
          name := name.take (taskMaxNameLen - 1)
          trapFrame := setupFrame
          started := false
          isFork := false }

/-- The reads of `task_init_ustack` from one of the two fields. -/
def readArgs (field : ArgField) (kernel : Kernel cpus φ ι δ) (task : Nat) : Kernel cpus φ ι δ :=
  let args := (kernel.processes task).args field
  match args.block with
  | none => kernel
  | some block =>
    if 0 < args.count then kernel.logBlock (.read block) else kernel

end Kernel

end SeekOs.Proc
