import SeekOs.Fs.FileHandles
import SeekOs.Proc.LifecycleEffects

/-!
# The files of a task that ends

`_task_close_all_files` takes every entry out of the list before it calls
`vfs_close` or `vfs_close_console` with the handle of the entry, and both of
them search that list.  So the file that was taken out is never found: it is
neither closed nor freed, and a task with an open file leaves it behind when it
exits or replaces its image.
-/

namespace SeekOs.Fs.FileTables

open SeekOs.Base SeekOs.Lib Function List Option

variable {φ ι δ : Type*} {tables after : FileTables φ ι δ} {ops : FileOps φ ι δ}
variable {file current task : Nat} {result : Int} {rest : List Nat}

/-- Every open file of a task was closed and freed once, and its list is
empty. -/
structure ClosesAll (tables after : FileTables φ ι δ) (task : Nat) :
    Prop where
  closed : ∀ file ∈ tables.openFiles task, after.closed.count file = tables.closed.count file + 1
  freed : ∀ file ∈ tables.openFiles task, after.freed.count file = tables.freed.count file + 1
  empty : after.openFiles task = []

/-- A call left a file that the calling task does not list as it was. -/
private structure Keeps (tables after : FileTables φ ι δ) (current file : Nat) : Prop where
  unlisted : file ∉ after.openFiles current
  closed : after.closed.count file = tables.closed.count file

section

variable (unlisted : file ∉ tables.openFiles current)
include unlisted

private theorem keeps_of_disposed {other : Nat} (found : other ∈ tables.openFiles current)
    (disposed : Disposed tables after current other) :
    Keeps tables after current file := by
  have different : other ≠ file := by
    rintro rfl
    exact unlisted found
  refine ⟨?_, ?_⟩
  · rw [disposed.openFiles, update_self]
    exact fun listed => unlisted (mem_of_mem_erase listed)
  · rw [disposed.closed, count_cons_of_ne different]

variable {fh : Int}

private theorem keeps_of_vfsClose (done : tables.vfsClose ops current fh = some (after, result)) :
    Keeps tables after current file := by
  rcases vfsClose_cases done with
    ⟨_, rfl, _⟩ | ⟨other, found, ⟨_, rfl, _⟩ | ⟨_, disposed⟩⟩
  · exact ⟨unlisted, rfl⟩
  · exact ⟨unlisted, rfl⟩
  · exact keeps_of_disposed unlisted (findFile_listed found).1 disposed

private theorem keeps_of_vfsCloseConsole
    (done : tables.vfsCloseConsole ops current fh = some (after, result)) :
    Keeps tables after current file := by
  cases found : tables.findConsole current fh with
  | none =>
    simp only [vfsCloseConsole, found, Option.some.injEq, Prod.mk.injEq] at done
    rw [← done.1]
    exact ⟨unlisted, rfl⟩
  | some other =>
    simp only [vfsCloseConsole, found] at done
    exact keeps_of_disposed unlisted (List.mem_of_find?_eq_some found) (disposed_of_dispose done)

end

/-- One round of the loop, for a file that the calling task does not list
after the unlinking. -/
private theorem keeps_of_round {first : Nat}
    (unlisted : file ∉ (tables.setOpenFiles task rest).openFiles current)
    (call : (if (tables.files first).isConsole then
        (tables.setOpenFiles task rest).vfsCloseConsole ops current (tables.handle first)
      else
        (tables.setOpenFiles task rest).vfsClose ops current
          (tables.handle first)) = some (after, result)) :
    Keeps tables after current file := by
  have kept : Keeps (tables.setOpenFiles task rest) after current file := by
    by_cases isConsole : (tables.files first).isConsole
    · rw [if_pos isConsole] at call
      exact keeps_of_vfsCloseConsole unlisted call
    · rw [if_neg isConsole] at call
      exact keeps_of_vfsClose unlisted call
  exact ⟨kept.unlisted, kept.closed⟩

/-- The loop never closes a file that the calling task does not list. -/
private theorem closeAllLoop_closed {fuel : Nat} (unlisted : file ∉ tables.openFiles current)
    (done : closeAllLoop ops current task fuel tables = some after) :
    after.closed.count file = tables.closed.count file := by
  induction fuel generalizing tables with
  | zero =>
    cases done
    rfl
  | succ fuel induction =>
    cases list : tables.openFiles task with
    | nil =>
      simp only [closeAllLoop, list, Option.some.injEq] at done
      rw [done]
    | cons first rest =>
      simp only [closeAllLoop, list] at done
      obtain ⟨⟨closed, result⟩, call, onward⟩ := bind_eq_some_iff.mp done
      have stillUnlisted : file ∉ (tables.setOpenFiles task rest).openFiles current := by
        by_cases same : current = task
        · subst current
          rw [list] at unlisted
          simp only [setOpenFiles, update_self]
          exact fun inRest => unlisted (mem_cons_of_mem _ inRest)
        · simp only [setOpenFiles, update_of_ne same]
          exact unlisted
      have kept := keeps_of_round stillUnlisted call
      rw [induction kept.unlisted onward, kept.closed]

theorem taskCloseAllFiles_first (nodup : (tables.openFiles task).Nodup)
    (list : tables.openFiles task = file :: rest)
    (done : tables.taskCloseAllFiles ops task task = some after) :
    after.closed.count file = tables.closed.count file := by
  rw [list, nodup_cons] at nodup
  rw [taskCloseAllFiles, list, length_cons] at done
  simp only [closeAllLoop, list] at done
  obtain ⟨⟨closed, result⟩, call, onward⟩ := bind_eq_some_iff.mp done
  have unlisted : file ∉ (tables.setOpenFiles task rest).openFiles task := by
    simp only [setOpenFiles, update_self]
    exact nodup.1
  have kept := keeps_of_round unlisted call
  rw [closeAllLoop_closed kept.unlisted onward, kept.closed]

theorem taskCloseAllFiles_closesAll_iff (nodup : (tables.openFiles task).Nodup) :
    (∃ after, tables.taskCloseAllFiles ops task task = some after ∧ ClosesAll tables after task) ↔
      tables.openFiles task = [] := by
  constructor
  · rintro ⟨after, done, all⟩
    cases list : tables.openFiles task with
    | nil => rfl
    | cons file rest =>
      have never := taskCloseAllFiles_first nodup list done
      have once := all.closed file (by rw [list]; exact mem_cons_self)
      omega
  · intro empty
    refine ⟨tables, ?_, ?_, ?_, empty⟩
    · rw [taskCloseAllFiles, empty, length_nil, closeAllLoop]
    · simp [empty]
    · simp [empty]

end SeekOs.Fs.FileTables

namespace SeekOs.Proc.Kernel

open SeekOs.Base SeekOs.Fs SeekOs.Lib Option

variable {cpus : Type} {φ ι δ : Type*} {kernel : Kernel cpus φ ι δ} {ops : FileOps φ ι δ}

theorem closeAllFiles_tables (kernel : Kernel cpus φ ι δ)
    (ops : FileOps φ ι δ) (current task : Nat) :
    (kernel.closeAllFiles ops current task).map (·.tables) =
      kernel.tables.taskCloseAllFiles ops current task := by
  rw [closeAllFiles, map_map]
  exact congrFun map_id _

theorem taskFreePhase0_tables (kernel : Kernel cpus φ ι δ)
    (ops : FileOps φ ι δ) (current task : Nat) :
    (kernel.taskFreePhase0 ops current task).map (·.tables) =
      kernel.tables.taskCloseAllFiles ops current task := by
  have closed := closeAllFiles_tables
    (freeArgs .envp (freeArgs .argv kernel task) task) ops current task
  rw [freeArgs_tables, freeArgs_tables] at closed
  rw [taskFreePhase0, map_map]
  exact closed

/-- `task_replace` of a user task. -/
theorem taskReplace_tables {task : Nat}
    (user : (kernel.sched.tasks task).mode = .user) (event : Nat)
    (name : Text) :
    (kernel.taskReplace ops task event name).map (·.tables) =
      kernel.tables.taskCloseAllFiles ops task task := by
  rw [taskReplace, Sched.schedExecve, user]
  simp only [bind_some, map_map]
  generalize sched : (Sched.updateTask _ task _) = replaced
  have closed := closeAllFiles_tables
    (freeArgs .envp (freeArgs .argv { kernel with sched := replaced } task) task) ops task task
  rw [freeArgs_tables, freeArgs_tables] at closed
  exact closed

variable {cpu : cpus} {task : Nat}

theorem schedExecve_tables (isCurrent : kernel.sched.current cpu = some task)
    (user : (kernel.sched.tasks task).mode = .user) {path : Text}
    (named : path ≠ []) (fits : PathFits path) (event : Nat)
    (argv envp : List Text) (ending : ExecveEnd) :
    (kernel.schedExecve ops cpu event path argv envp ending).map (·.tables) =
      kernel.tables.taskCloseAllFiles ops task task := by
  simp only [schedExecve, if_neg named, not_not.mpr fits, if_false, isCurrent, bind_some, map_map]
  generalize cleared : (updateProcess _ task _) = ready
  have sameSched : ready.sched = kernel.sched := by
    rw [← cleared]
    simp [updateProcess, taskSetupEnv, taskSetupArgv, taskSetupPath]
  have sameTables : ready.tables = kernel.tables := by
    rw [← cleared]
    simp [updateProcess, taskSetupEnv, taskSetupArgv, taskSetupPath]
  rw [← sameTables, ← taskReplace_tables (by rw [sameSched]; exact user) event (execName path)]
  apply Option.map_congr
  intro replaced _
  simp [freeOldArgs_eq, updateProcess]

variable [DecidableEq cpus]

theorem schedExit_tables (isCurrent : kernel.sched.current cpu = some task) (exitcode : Int) :
    (kernel.schedExit ops cpu exitcode).map (·.tables) =
      kernel.tables.taskCloseAllFiles ops task task := by
  rw [schedExit, isCurrent, bind_some, map_map]
  exact taskFreePhase0_tables kernel ops task task

/-- A task that exits, or replaces its image, closes and frees all of its files
exactly when it has none. -/
theorem ends_closesAll_iff (ops : FileOps φ ι δ) (isCurrent : kernel.sched.current cpu = some task)
    (nodup : (kernel.tables.openFiles task).Nodup) :
    (∀ exitcode,
      (∃ after, kernel.schedExit ops cpu exitcode = some after ∧
          kernel.tables.ClosesAll after.tables task) ↔
        kernel.tables.openFiles task = []) ∧
    (∀ event path argv envp ending,
      (kernel.sched.tasks task).mode = .user → path ≠ [] → PathFits path →
      ((∃ after, kernel.schedExecve ops cpu event path argv envp ending = some after ∧
          kernel.tables.ClosesAll after.tables task) ↔
        kernel.tables.openFiles task = [])) := by
  have viaTables : ∀ call : Option (Kernel cpus φ ι δ),
      call.map (·.tables) = kernel.tables.taskCloseAllFiles ops task task →
      ((∃ after, call = some after ∧ kernel.tables.ClosesAll after.tables task) ↔
        kernel.tables.openFiles task = []) := by
    intro call same
    rw [← FileTables.taskCloseAllFiles_closesAll_iff nodup, ← same]
    constructor
    · rintro ⟨after, rfl, all⟩
      exact ⟨after.tables, rfl, all⟩
    · rintro ⟨tables, mapped, all⟩
      obtain ⟨after, rfl, rfl⟩ := map_eq_some_iff.mp mapped
      exact ⟨after, rfl, all⟩
  refine ⟨?_, ?_⟩
  · intro exitcode
    exact viaTables _ (schedExit_tables isCurrent exitcode)
  · intro event path argv envp ending user named fits
    exact viaTables _ (schedExecve_tables isCurrent user named fits event argv envp ending)

/-- A kernel task has no open file, and ends without leaving one behind. -/
theorem ends_closesAll_iff_kernelTask :
    ∃ kernel ∈ runOps (step ramfsFileOps programLookup) programBoot
        [.createKernelTask 10 20 [0x6b], .sched (.again () 1)],
      ∃ after, kernel.schedExit ramfsFileOps () 0 = some after ∧
        kernel.tables.ClosesAll after.tables 10 := by
  have facts : ∃ kernel ∈ runOps (step ramfsFileOps programLookup)
      programBoot [.createKernelTask 10 20 [0x6b], .sched (.again () 1)],
      kernel.sched.current () = some 10 ∧ kernel.tables.openFiles 10 = [] := by
    decide +kernel
  obtain ⟨kernel, run, isCurrent, empty⟩ := facts
  have nodup : (kernel.tables.openFiles 10).Nodup := by
    rw [empty]
    exact List.nodup_nil
  exact ⟨kernel, run, ((ends_closesAll_iff ramfsFileOps isCurrent nodup).1 0).mpr empty⟩

/-- Once it has started, a program has its three consoles and its own file
open, and none of them is closed when it exits. -/
theorem exit_closes_nothing : ∃ kernel ∈ runOps (step ramfsFileOps programLookup) programBoot
        (programRun ++ [.start () true]),
      kernel.sched.current () = some 10 ∧ kernel.tables.openFiles 10 = [0, 1, 2, 3] ∧
        ∃ after ∈ kernel.schedExit ramfsFileOps () 0,
          after.tables.openFiles 10 = [] ∧ after.tables.closed = [] ∧ after.tables.freed = [] ∧
            ¬kernel.tables.ClosesAll after.tables 10 := by
  have facts : ∃ kernel ∈ runOps (step ramfsFileOps programLookup)
      programBoot (programRun ++ [.start () true]),
      kernel.sched.current () = some 10 ∧ kernel.tables.openFiles 10 = [0, 1, 2, 3] ∧
        ∃ after ∈ kernel.schedExit ramfsFileOps () 0,
          after.tables.openFiles 10 = [] ∧ after.tables.closed = [] ∧ after.tables.freed = [] := by
    decide +kernel
  obtain ⟨kernel, run, isCurrent, list, after, ended, empty, closed, freed⟩ := facts
  refine ⟨kernel, run, isCurrent, list, after, ended, empty, closed, freed, ?_⟩
  intro all
  have once := all.closed 0 (by rw [list]; exact List.mem_cons_self)
  rw [closed] at once
  simp at once

end SeekOs.Proc.Kernel
