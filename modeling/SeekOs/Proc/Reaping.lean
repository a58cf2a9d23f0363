import SeekOs.Proc.Fork
import SeekOs.Proc.TaskFiles

/-!
# Children and their creators

`sched_wait` looks for a zombie with the wanted id in the thread group of its
caller.  A forked task is in the group of its parent, but a spawned task is in
the group that has the id of its creator.  So a task finds the tasks it has
forked, and it finds those it has spawned only if it leads its own group.
-/

namespace SeekOs.Fs.FileTables

open SeekOs.Base SeekOs.Lib Function List Option

variable {φ ι δ : Type*} {tables after : FileTables φ ι δ}
  {ops : FileOps φ ι δ} {lookup : ι → Text → LookupResult ι}
variable {current task other : Nat} {result fh : Int} {openmode : OpenMode} {cwd path : Text}

/-! ## Whose lists a call changes -/

/-- A call has taken files out of the list of one task. -/
structure Shrinks (tables after : FileTables φ ι δ) (current : Nat) : Prop where
  kept : ∀ other, other ≠ current → after.openFiles other = tables.openFiles other
  sublist : (after.openFiles current).Sublist (tables.openFiles current)

theorem Shrinks.of_same (same : after.openFiles = tables.openFiles)
    (current : Nat) : Shrinks tables after current := by
  constructor
  · intro other _
    rw [same]
  · rw [same]

theorem Shrinks.of_disposed {file : Nat} (disposed : Disposed tables after current file) :
    Shrinks tables after current := by
  constructor
  · intro other different
    rw [disposed.openFiles, update_of_ne different]
  · rw [disposed.openFiles, update_self]
    exact erase_sublist

theorem shrinks_of_vfsClose (done : tables.vfsClose ops current fh = some (after, result)) :
    Shrinks tables after current := by
  rcases vfsClose_cases done with
    ⟨_, rfl, _⟩ | ⟨file, _, ⟨_, rfl, _⟩ | ⟨_, disposed⟩⟩
  · exact .of_same rfl current
  · have same : (tables.addCount file (-1)).openFiles = tables.openFiles := rfl
    exact .of_same same current
  · exact .of_disposed disposed

theorem shrinks_of_vfsCloseConsole
    (done : tables.vfsCloseConsole ops current fh = some (after, result)) :
    Shrinks tables after current := by
  rw [vfsCloseConsole] at done
  cases found : tables.findConsole current fh with
  | none =>
    rw [found] at done
    cases done
    exact .of_same rfl current
  | some file =>
    rw [found] at done
    exact .of_disposed (disposed_of_dispose done)

/-- `_task_close_all_files` empties one list, and can change the one of the
task that calls it. -/
theorem closeAllLoop_lists {fuel : Nat} (enough : (tables.openFiles task).length ≤ fuel)
    (done : closeAllLoop ops current task fuel tables = some after) :
    after.openFiles task = [] ∧
      ∀ other, other ≠ current → other ≠ task → after.openFiles other = tables.openFiles other := by
  induction fuel generalizing tables with
  | zero =>
    cases done
    exact ⟨length_eq_zero_iff.mp (Nat.le_zero.mp enough), fun _ _ _ => rfl⟩
  | succ fuel induction =>
    cases list : tables.openFiles task with
    | nil =>
      simp only [closeAllLoop, list, Option.some.injEq] at done
      subst done
      exact ⟨list, fun _ _ _ => rfl⟩
    | cons file rest =>
      simp only [closeAllLoop, list] at done
      obtain ⟨⟨closed, result⟩, call, onward⟩ := bind_eq_some_iff.mp done
      have shrinks : Shrinks (tables.setOpenFiles task rest) closed
          current := by
        by_cases isConsole : (tables.files file).isConsole
        · rw [if_pos isConsole] at call
          exact shrinks_of_vfsCloseConsole call
        · rw [if_neg isConsole] at call
          exact shrinks_of_vfsClose call
      have unlinked : (tables.setOpenFiles task rest).openFiles task =
          rest := update_self _ _ _
      have shorter : (closed.openFiles task).length ≤ fuel := by
        rw [list, length_cons] at enough
        have bound : (closed.openFiles task).length ≤ rest.length := by
          by_cases same : task = current
          · subst current
            have sublist := shrinks.sublist
            rw [unlinked] at sublist
            exact sublist.length_le
          · rw [shrinks.kept task same, unlinked]
        omega
      obtain ⟨empty, others⟩ := induction shorter onward
      refine ⟨empty, ?_⟩
      intro other notCurrent notTask
      rw [others other notCurrent notTask, shrinks.kept other notCurrent]
      exact update_of_ne notTask _ _

theorem openAt_lists {dentry : Nat} {isConsole : Bool}
    (done : tables.openAt ops task dentry fh openmode isConsole = some after)
    (different : other ≠ task) :
    after.openFiles other = tables.openFiles other := by
  obtain ⟨mounted, record, rfl, _⟩ := openAt_spec done
  exact update_of_ne different _ _

theorem vfsOpen_lists (done : tables.vfsOpen ops lookup task cwd path openmode =
      some (after, fh)) (different : other ≠ task) :
    after.openFiles other = tables.openFiles other := by
  rw [vfsOpen] at done
  split at done
  · cases done
  · cases done
    rfl
  · obtain ⟨opened, opening, same⟩ := map_eq_some_iff.mp done
    cases same
    have kept := openAt_lists opening different
    exact kept

theorem vfsOpenConsole_lists (done : tables.vfsOpenConsole ops lookup task cwd path fh =
      some (after, result)) (different : other ≠ task) :
    after.openFiles other = tables.openFiles other := by
  rw [vfsOpenConsole] at done
  split at done
  · cases done
  · cases done
    rfl
  · obtain ⟨opened, opening, same⟩ := map_eq_some_iff.mp done
    cases same
    have kept := openAt_lists opening different
    exact kept

theorem vfsCopy_lists {dest src : Nat} (different : other ≠ dest) :
    (tables.vfsCopy dest src).openFiles other = tables.openFiles other := by
  rw [vfsCopy]
  generalize tables.openFiles src = files
  induction files generalizing tables with
  | nil => rfl
  | cons file rest induction =>
    rw [foldl_cons, induction, copyFile]
    split
    · rfl
    · exact update_of_ne different _ _

end SeekOs.Fs.FileTables

namespace SeekOs.Proc

open SeekOs.Base SeekOs.Fs SeekOs.Lib Function List Option

/-- The steps that call `_alloc_tid`. -/
def KernelOp.Creates {cpus : Type} : KernelOp cpus → Bool
  | .createKernelTask _ _ _ => true
  | .execveFirst _ _ _ _ _ _ _ => true
  | .spawn _ _ _ _ _ => true
  | .fork _ _ _ _ _ _ => true
  | _ => false

/-- The exit code of a task that ends in a step; a task whose image cannot be
loaded exits with -1. -/
def KernelOp.exitCode {cpus : Type} : KernelOp cpus → Int
  | .exit _ exitcode => exitcode
  | _ => -1

namespace Sched

variable {cpus : Type} {sched : Sched cpus} {tgid tid : Nat} {queue : List Nat}

theorem findZombie_eq_none (zombies : ∀ task ∈ queue, (sched.tasks task).state = .zombie)
    (nobody : ∀ task ∈ queue, ¬((sched.tasks task).tgid = tgid ∧ (sched.tasks task).tid = tid)) :
    sched.findZombie tgid tid queue = some none := by
  induction queue with
  | nil => rfl
  | cons head rest induction =>
    rw [findZombie, if_neg (not_not.mpr (zombies head mem_cons_self)),
      if_neg (nobody head mem_cons_self)]
    exact induction (fun task inRest => zombies task (mem_cons_of_mem head inRest))
      (fun task inRest => nobody task (mem_cons_of_mem head inRest))

theorem findZombie_eq_some {child : Nat}
    (zombies : ∀ task ∈ queue, (sched.tasks task).state = .zombie)
    (member : child ∈ queue)
    (wanted : (sched.tasks child).tgid = tgid ∧ (sched.tasks child).tid = tid)
    (only : ∀ task ∈ queue, (sched.tasks task).tid = tid → task = child) :
    sched.findZombie tgid tid queue = some (some child) := by
  induction queue with
  | nil => cases member
  | cons head rest induction =>
    rw [findZombie, if_neg (not_not.mpr (zombies head mem_cons_self))]
    by_cases isHead : (sched.tasks head).tgid = tgid ∧ (sched.tasks head).tid = tid
    · rw [if_pos isHead, only head mem_cons_self isHead.2]
    · rw [if_neg isHead]
      have inRest : child ∈ rest := by
        rcases mem_cons.mp member with rfl | inRest
        · exact absurd wanted isHead
        · exact inRest
      exact induction (fun task inTail => zombies task (mem_cons_of_mem head inTail)) inRest
        (fun task inTail => only task (mem_cons_of_mem head inTail))

end Sched

namespace Kernel

variable {cpus : Type} {φ ι δ : Type*} {kernel after : Kernel cpus φ ι δ}
  {ops : FileOps φ ι δ} {lookup : ι → Text → LookupResult ι}
variable {other task : Nat} {cpu : cpus} {op : KernelOp cpus}

/-! ## What one step does to the tasks -/

@[simp] theorem copyArgs_tables (field : ArgField) (parent child : Nat) :
    (copyArgs field kernel parent child).tables = kernel.tables := by
  rw [copyArgs]
  split
  · rfl
  · split
    · rfl
    · rfl

@[simp] theorem readArgs_tables (field : ArgField) (task : Nat) :
    (readArgs field kernel task).tables = kernel.tables := by
  rw [readArgs]
  split
  · rfl
  · split
    · rfl
    · rfl

theorem openConsoles_lists (done : kernel.openConsoles ops lookup task = some after)
    (different : other ≠ task) :
    after.tables.openFiles other = kernel.tables.openFiles other := by
  obtain ⟨tables, opened, rfl⟩ := map_eq_some_iff.mp done
  generalize [(0 : Int), 1, 2] = handles at opened
  generalize kernel.tables = first at opened ⊢
  induction handles generalizing first with
  | nil =>
    cases opened
    rfl
  | cons fh rest induction =>
    obtain ⟨next, opening, onward⟩ := bind_eq_some_iff.mp opened
    obtain ⟨⟨_, result⟩, call, rfl⟩ := map_eq_some_iff.mp opening
    rw [induction _ onward]
    exact FileTables.vfsOpenConsole_lists call different

theorem elfLoad_lists {loads success : Bool}
    (done : kernel.elfLoad ops lookup task loads = some (after, success))
    (different : other ≠ task) :
    after.tables.openFiles other = kernel.tables.openFiles other := by
  obtain ⟨⟨tables, fh⟩, opening, same⟩ := map_eq_some_iff.mp done
  cases same
  exact FileTables.vfsOpen_lists opening different

/-- `task_free_phase0` empties the list of the task. -/
theorem taskFreePhase0_lists {current : Nat}
    (done : kernel.taskFreePhase0 ops current task = some after) :
    after.tables.openFiles task = [] ∧
      ∀ other, other ≠ current → other ≠ task →
        after.tables.openFiles other = kernel.tables.openFiles other := by
  have tables := taskFreePhase0_tables kernel ops current task
  rw [done] at tables
  exact FileTables.closeAllLoop_lists le_rfl tables.symm

section

variable (isCurrent : kernel.sched.current cpu = some task)

include isCurrent

theorem schedExit_lists [DecidableEq cpus] {exitcode : Int}
    (done : kernel.schedExit ops cpu exitcode = some after) :
    after.tables.openFiles task = [] ∧
      ∀ other, other ≠ task → after.tables.openFiles other = kernel.tables.openFiles other := by
  have tables : (kernel.schedExit ops cpu exitcode).map (·.tables) =
      kernel.tables.taskCloseAllFiles ops task task :=
    schedExit_tables isCurrent exitcode
  rw [done] at tables
  obtain ⟨empty, others⟩ := FileTables.closeAllLoop_lists le_rfl tables.symm
  exact ⟨empty, fun other different => others other different different⟩

theorem schedExecve_lists {event : Nat} {path : Text} {argv envp : List Text} {ending : ExecveEnd}
    (done : kernel.schedExecve ops cpu event path argv envp ending =
      some after) (different : other ≠ task) :
    after.tables.openFiles other = kernel.tables.openFiles other := by
  rcases schedExecve_cases done with ⟨_, rfl⟩ | ⟨named, current, sched, _, _, isNow, executed, _, _⟩
  · rfl
  · cases isCurrent.symm.trans isNow
    have user : (kernel.sched.tasks task).mode = .user := by
      cases mode : (kernel.sched.tasks task).mode with
      | user => rfl
      | kernel =>
        rw [Sched.schedExecve, mode] at executed
        cases executed
    have fits : PathFits path := by
      by_contra tooLong
      rw [schedExecve, if_neg named, if_pos tooLong] at done
      cases done
    have tables : (kernel.schedExecve ops cpu event path argv envp ending).map
        (·.tables) = kernel.tables.taskCloseAllFiles ops task task :=
      schedExecve_tables isCurrent user named fits event argv envp ending
    rw [done] at tables
    exact (FileTables.closeAllLoop_lists le_rfl tables.symm).2 other different different

theorem start_lists [DecidableEq cpus] {loads : Bool}
    (done : kernel.start ops lookup cpu loads = some after)
    (different : other ≠ task) :
    after.tables.openFiles other = kernel.tables.openFiles other := by
  rw [start, isCurrent, bind_some] at done
  by_cases begun : (kernel.processes task).started = true ∨ (kernel.sched.tasks task).mode = .kernel
  · simp only [if_pos begun] at done
    cases done
  · simp only [if_neg begun] at done
    obtain ⟨opened, opening, onward⟩ := bind_eq_some_iff.mp done
    have openedLists := openConsoles_lists opening different
    obtain ⟨tables, rfl⟩ := openConsoles_eq opening
    by_cases flag : (kernel.processes task).isFork
    · rw [if_pos flag] at onward
      cases onward
      exact openedLists
    · rw [if_neg flag] at onward
      obtain ⟨⟨loaded, success⟩, loading, ended⟩ := bind_eq_some_iff.mp onward
      have loadedLists := (elfLoad_lists loading different).trans openedLists
      obtain ⟨laterTables, rfl⟩ := elfLoad_eq loading
      cases success with
      | true =>
        cases ended
        rw [readArgs_tables, readArgs_tables]
        exact loadedLists
      | false =>
        have exited := (schedExit_lists (by exact isCurrent) ended).2 other different
        exact exited.trans loadedLists

/-- A round of `sched_wait` that leaves a task alive leaves its list alone,
unless it is the caller. -/
theorem schedWait_lists {tid : Nat} (done : kernel.schedWait ops cpu tid = some after)
    (different : other ≠ task) (stays : other ∈ after.sched.live) :
    after.tables.openFiles other = kernel.tables.openFiles other := by
  rw [schedWait, isCurrent, bind_some] at done
  cases search : kernel.sched.findZombie (kernel.sched.tasks task).tgid tid
      kernel.sched.cleanupTasks with
  | none =>
    rw [search] at done
    cases done
  | some found =>
    rw [search] at done
    cases found with
    | none =>
      cases done
      rfl
    | some zombie =>
      obtain ⟨freed, freeing, waited⟩ := bind_eq_some_iff.mp done
      obtain ⟨sched, waiting, rfl⟩ := map_eq_some_iff.mp waited
      have lists := (taskFreePhase0_lists freeing).2 other different
      obtain ⟨tables, rfl⟩ := taskFreePhase0_eq freeing
      apply lists
      have reaped := Sched.schedWait_found search waiting
      rw [reaped] at stays
      exact (Finset.mem_erase.mp stays).1

end

variable [DecidableEq cpus] [Fintype cpus]

/-- What a step does to the tasks, their ids and their codes. -/
inductive StepEffect (kernel : Kernel cpus φ ι δ) (op : KernelOp cpus)
    (after : Kernel cpus φ ι δ) : Prop where
  | moved (moved : Sched.Moved kernel.sched after.sched)
      (globalId : after.globalId = kernel.globalId ∨
        op.Creates = true ∧ after.globalId = kernel.nextTid)
  | added (task event : Nat) (record : Task)
      (added : (kernel.sched.updateEvent event fun _ =>
        ⟨.unknown, 0, 0⟩).schedAdd task record = some after.sched)
      (tid : record.tid = kernel.nextTid)
      (globalId : after.globalId = kernel.nextTid)
      (creates : op.Creates = true)
  | ended (cpu : cpus) (task : Nat)
      (isCurrent : kernel.sched.current cpu = some task)
      (ended : after.sched = (kernel.sched.updateTask task fun record =>
        { record with wakeupEvent := none }).schedExit cpu task op.exitCode)
      (globalId : after.globalId = kernel.globalId)
      (empty : after.tables.openFiles task = [])
  | reaped (zombie : Nat) (member : zombie ∈ kernel.sched.cleanupTasks)
      (reaped : after.sched =
        { kernel.sched.updateTask zombie fun record =>
            { record with wakeupEvent := none } with
          cleanupTasks := dlistRemoveEntry kernel.sched.cleanupTasks zombie
          live := kernel.sched.live.erase zombie })
      (globalId : after.globalId = kernel.globalId)

/-- An exit, possibly after calls that have left the tasks alone. -/
private theorem effect_of_exit {running : Kernel cpus φ ι δ}
    (sameSched : running.sched = kernel.sched)
    (sameId : running.globalId = kernel.globalId)
    (done : running.schedExit ops cpu op.exitCode = some after) :
    StepEffect kernel op after := by
  obtain ⟨task, tables, isCurrent, same⟩ := schedExit_eq done
  have empty := (schedExit_lists isCurrent done).1
  rw [sameSched] at isCurrent
  refine .ended cpu task isCurrent ?_ ?_ empty
  · rw [same, sameSched]
  · rw [same]
    exact (quiet_freeBoth running task).globalId.trans sameId

theorem step_effect (stepped : kernel.step ops lookup op = some after) :
    StepEffect kernel op after := by
  cases op with
  | createKernelTask task event name =>
    obtain ⟨sched, added, rfl⟩ := createKernelTask_eq stepped
    exact .added task event _ added rfl rfl rfl
  | execveFirst cpu task event path argv cwd envp =>
    obtain ⟨sched, added, rfl⟩ := schedExecveFirst_eq stepped
    have quiet := prepareTask_quiet kernel task event path argv cwd envp
    exact .added task event _ added rfl quiet.globalId rfl
  | spawn cpu task event path argv =>
    obtain ⟨current, sched, _, added, rfl⟩ := schedSpawn_eq stepped
    have quiet := prepareTask_quiet kernel task event path argv
      (some (kernel.processes current).cwd) []
    exact .added task event _ added rfl quiet.globalId rfl
  | fork cpu child event memory saved ustack =>
    obtain ⟨task, isCurrent, rest⟩ := bind_eq_some_iff.mp stepped
    obtain ⟨⟨forked, created, value⟩, forking, same⟩ := map_eq_some_iff.mp rest
    cases same
    rcases schedFork_cases isCurrent forking with
      ⟨_, _, _, rfl⟩ | ⟨_, _, _, _, same⟩ | ⟨_, _, copied, record, sched, copying, added, _, _, rfl⟩
    · exact .moved (.refl _) (.inl rfl)
    · rcases same with rfl | rfl
      · exact .moved (.refl _) (.inl rfl)
      · exact .moved (.refl _) (.inr ⟨rfl, rfl⟩)
    · obtain ⟨_, rfl, rfl⟩ := taskFork_enough copying
      refine .added child event _ added rfl ?_ rfl
      exact (quiet_copyArgs .envp _ task child).globalId.trans
        (quiet_copyArgs .argv _ task child).globalId
  | execve cpu event path argv envp ending =>
    rcases schedExecve_cases stepped with ⟨_, rfl⟩ |
      ⟨_, task, sched, tables, setup, isCurrent, executed, isSetup, rfl⟩
    · exact .moved (.refl _) (.inl rfl)
    · rw [freeOldArgs_eq]
      refine .moved (Sched.moved_execve executed) (.inl ?_)
      rw [isSetup]
      exact (quiet_setupArgs .envp _ task envp).globalId.trans
        (quiet_setupArgs .argv _ task argv).globalId
  | start cpu loads =>
    obtain ⟨task, tables, running, isCurrent, _, isRunning, results⟩ := start_cases stepped
    have sameSched : running.sched = kernel.sched := by
      rw [isRunning]
      rfl
    have sameId : running.globalId = kernel.globalId := by
      rw [isRunning]
      rfl
    rcases results with ⟨_, rfl⟩ | ⟨_, rfl | ended⟩
    · refine .moved ?_ (.inl sameId)
      exact sameSched ▸ .refl _
    · refine .moved ?_ (.inl ?_)
      · rw [readArgs_sched, readArgs_sched, sameSched]
        exact .refl _
      · exact ((quiet_readArgs .envp _ task).globalId.trans
          (quiet_readArgs .argv running task).globalId).trans sameId
    · exact effect_of_exit sameSched sameId ended
  | exit cpu exitcode => exact effect_of_exit rfl rfl stepped
  | wait cpu tid =>
    rcases schedWait_cases stepped with rfl | ⟨task, zombie, tables, _, search, sched, waited, rfl⟩
    · exact .moved (.refl _) (.inl rfl)
    · refine .reaped zombie (Sched.findZombie_mem search) (Sched.schedWait_found search waited) ?_
      exact (quiet_freeBoth kernel zombie).globalId
  | sched op =>
    obtain ⟨moves, sched, moved, rfl⟩ := step_sched_eq stepped
    exact .moved (Sched.moved_of_step moves moved) (.inl rfl)

/-- A step changes the list of open files of a new task, of the task that
makes the call and of a task that is reaped, and of nobody else. -/
theorem step_lists (stepped : kernel.step ops lookup op = some after)
    (isLive : other ∈ kernel.sched.live)
    (notCurrent : ∀ cpu, kernel.sched.current cpu ≠ some other)
    (stays : other ∈ after.sched.live) :
    after.tables.openFiles other = kernel.tables.openFiles other := by
  have notNew : ∀ {event task : Nat} {record : Task} {sched : Sched cpus},
      (kernel.sched.updateEvent event fun _ => ⟨.unknown, 0, 0⟩).schedAdd task
        record = some sched → other ≠ task := by
    rintro event task record sched added rfl
    exact (Sched.schedAdd_spec added).1 isLive
  have notCaller : ∀ {cpu : cpus} {task : Nat},
      kernel.sched.current cpu = some task → other ≠ task := by
    rintro cpu task isCurrent rfl
    exact notCurrent cpu isCurrent
  cases op with
  | createKernelTask task event name =>
    obtain ⟨sched, added, rfl⟩ := createKernelTask_eq stepped
    exact update_of_ne (notNew added) _ _
  | execveFirst cpu task event path argv cwd envp =>
    obtain ⟨sched, added, rfl⟩ := schedExecveFirst_eq stepped
    rw [(prepareTask_effect ..).2]
    exact update_of_ne (notNew added) _ _
  | spawn cpu task event path argv =>
    obtain ⟨current, sched, _, added, rfl⟩ := schedSpawn_eq stepped
    change (kernel.prepareTask task event path argv
      (some (kernel.processes current).cwd) []).1.tables.openFiles other = _
    rw [(prepareTask_effect ..).2]
    exact update_of_ne (notNew added) _ _
  | fork cpu child event memory saved ustack =>
    obtain ⟨task, isCurrent, rest⟩ := bind_eq_some_iff.mp stepped
    obtain ⟨⟨forked, created, value⟩, forking, same⟩ := map_eq_some_iff.mp rest
    cases same
    rcases schedFork_cases isCurrent forking with
      ⟨_, _, _, rfl⟩ | ⟨_, _, _, _, same⟩ | ⟨_, _, copied, record, sched, copying, added, _, _, rfl⟩
    · rfl
    · rcases same with rfl | rfl
      · rfl
      · rfl
    · obtain ⟨_, _, rfl⟩ := taskFork_enough copying
      have isOther := notNew added
      rw [FileTables.vfsCopy_lists isOther, copyArgs_tables, copyArgs_tables]
      exact update_of_ne isOther _ _
  | execve cpu event path argv envp ending =>
    rcases schedExecve_cases stepped with ⟨_, rfl⟩ | ⟨_, task, _, _, _, isCurrent, _⟩
    · rfl
    · exact schedExecve_lists isCurrent stepped (notCaller isCurrent)
  | start cpu loads =>
    obtain ⟨task, _, _, isCurrent, _⟩ := start_cases stepped
    exact start_lists isCurrent stepped (notCaller isCurrent)
  | exit cpu exitcode =>
    obtain ⟨task, _, isCurrent, _⟩ := schedExit_eq stepped
    exact (schedExit_lists isCurrent stepped).2 other (notCaller isCurrent)
  | wait cpu tid =>
    obtain ⟨task, isCurrent, _⟩ := bind_eq_some_iff.mp stepped
    exact schedWait_lists isCurrent stepped (notCaller isCurrent) stays
  | sched op =>
    obtain ⟨_, sched, _, rfl⟩ := step_sched_eq stepped
    rfl

/-! ### Consequences for ids, zombies and the counter -/

section

variable (effect : StepEffect kernel op after)

include effect

theorem StepEffect.identity (isLive : task ∈ kernel.sched.live) :
    (after.sched.tasks task).tid = (kernel.sched.tasks task).tid ∧
      (after.sched.tasks task).tgid = (kernel.sched.tasks task).tgid := by
  cases effect with
  | moved moved globalId => exact ⟨moved.tid task, moved.tgid task⟩
  | added new event record added tid globalId creates =>
    obtain ⟨isNew, _, _, _, tasks⟩ := Sched.schedAdd_spec added
    have different : task ≠ new := by
      rintro rfl
      exact isNew isLive
    rw [tasks, update_of_ne different]
    exact ⟨rfl, rfl⟩
  | ended cpu current isCurrent ended globalId empty =>
    rw [ended]
    by_cases same : task = current
    · subst current
      simp [Sched.schedExit, Sched.updateTask]
    · simp [Sched.schedExit, Sched.updateTask, same]
  | reaped zombie member reaped globalId =>
    rw [reaped]
    by_cases same : task = zombie
    · subst zombie
      simp [Sched.updateTask]
    · simp [Sched.updateTask, same]

theorem StepEffect.globalId_cases :
    after.globalId = kernel.globalId ∨ op.Creates = true ∧ after.globalId = kernel.nextTid := by
  cases effect with
  | moved moved globalId => exact globalId
  | added new event record added tid globalId creates =>
    exact .inr ⟨creates, globalId⟩
  | ended cpu current isCurrent ended globalId empty => exact .inl globalId
  | reaped zombie member reaped globalId => exact .inl globalId

theorem StepEffect.live_cases (isLive : task ∈ after.sched.live) : task ∈ kernel.sched.live ∨
      (after.sched.tasks task).tid = kernel.nextTid ∧
        after.globalId = kernel.nextTid ∧ op.Creates = true ∧
        ∀ other ∈ after.sched.live, other ∈ kernel.sched.live ∨ other = task := by
  cases effect with
  | moved moved globalId =>
    rw [moved.live] at isLive
    exact .inl isLive
  | added new event record added tid globalId creates =>
    obtain ⟨_, _, live, _, tasks⟩ := Sched.schedAdd_spec added
    rw [live] at isLive ⊢
    rcases Finset.mem_insert.mp isLive with rfl | old
    · refine .inr ⟨?_, globalId, creates, ?_⟩
      · rw [tasks, update_self]
        exact tid
      · intro other member
        exact (Finset.mem_insert.mp member).symm
    · exact .inl old
  | ended cpu current isCurrent ended globalId empty =>
    rw [ended] at isLive
    exact .inl isLive
  | reaped zombie member reaped globalId =>
    rw [reaped] at isLive
    exact .inl (Finset.mem_of_mem_erase isLive)

theorem StepEffect.zombie_cases (sound : kernel.sched.Sound) (afterSound : after.sched.Sound)
    (member : task ∈ after.sched.cleanupTasks) :
    task ∈ kernel.sched.cleanupTasks ∧
        (after.sched.tasks task).exitcode = (kernel.sched.tasks task).exitcode ∨
      task ∉ kernel.sched.cleanupTasks ∧ (after.sched.tasks task).exitcode = op.exitCode ∧
        after.tables.openFiles task = [] := by
  obtain ⟨isLive, zombie⟩ := afterSound.mem_cleanup_iff.mp member
  cases effect with
  | moved moved globalId =>
    refine .inl ⟨?_, moved.exitcode task⟩
    exact sound.mem_cleanup_iff.mpr ⟨moved.live ▸ isLive, moved.zombie task zombie⟩
  | added new event record added tid globalId creates =>
    obtain ⟨isNew, ready, live, _, tasks⟩ := Sched.schedAdd_spec added
    have different : task ≠ new := by
      rintro rfl
      rw [Sched.stateOf, tasks, update_self, ready] at zombie
      cases zombie
    rw [live] at isLive
    rw [Sched.stateOf, tasks, update_of_ne different] at zombie
    rw [tasks, update_of_ne different]
    refine .inl ⟨sound.mem_cleanup_iff.mpr ⟨?_, zombie⟩, rfl⟩
    exact Finset.mem_of_mem_insert_of_ne isLive different
  | ended cpu current isCurrent ended globalId empty =>
    by_cases same : task = current
    · subst current
      refine .inr ⟨?_, ?_, empty⟩
      · intro old
        have running := (Sched.current_eq_some isCurrent).1
        exact (sound.cleanup_places old).2.2.2.2 cpu running
      · rw [ended]
        simp [Sched.schedExit, Sched.updateTask]
    · left
      rw [ended] at member ⊢
      rcases mem_append.mp member with old | isLast
      · exact ⟨old, by simp [Sched.schedExit, Sched.updateTask, same]⟩
      · exact absurd (mem_singleton.mp isLast) same
  | reaped gone wasThere reaped globalId =>
    left
    rw [reaped] at member ⊢
    refine ⟨mem_of_mem_erase member, ?_⟩
    by_cases same : task = gone
    · subst gone
      simp [Sched.updateTask]
    · simp [Sched.updateTask, same]

end

/-! ## Who has created whom -/

/-- What a round of `sched_wait` finds: the exit code of a zombie, or no zombie
yet. -/
def waitResult (kernel : Kernel cpus φ ι δ) (cpu : cpus) (tid : Nat) : Option (Option Int) :=
  (kernel.sched.current cpu).bind fun task =>
    (kernel.sched.findZombie (kernel.sched.tasks task).tgid tid
      kernel.sched.cleanupTasks).map fun found =>
        found.map fun zombie => (kernel.sched.tasks zombie).exitcode

def Leads (kernel : Kernel cpus φ ι δ) (task : Nat) : Prop :=
  (kernel.sched.tasks task).tgid = (kernel.sched.tasks task).tid

end Kernel

/-- A task has got the id of a task that it has forked or spawned. -/
structure Birth where
  creator : Nat
  child : Nat
  value : Nat
  forked : Bool
  deriving DecidableEq

/-- What `sched_fork` or `sched_spawn` returns to its caller. -/
def Kernel.birthOf {cpus : Type} {φ ι δ : Type*} [DecidableEq cpus]
    [Fintype cpus] (kernel after : Kernel cpus φ ι δ) :
    KernelOp cpus → Option Birth
  | .spawn cpu task _ _ _ =>
    (kernel.sched.current cpu).map fun creator =>
      ⟨creator, task, (after.sched.tasks task).tid % 2 ^ 32, false⟩
  | .fork cpu child event memory saved ustack =>
    (kernel.sched.current cpu).bind fun creator =>
      (kernel.schedFork cpu child event memory saved ustack).bind
        fun (_, created, value) =>
          created.map fun _ => ⟨creator, child, value, true⟩
  | _ => none

/-- The kernel, the births whose two tasks are still there, and the exit codes
that tasks have ended with. -/
structure Family (cpus : Type) (φ ι δ : Type*) where
  kernel : Kernel cpus φ ι δ
  births : List Birth
  codes : Nat → Int

namespace Family

variable {cpus : Type} {φ ι δ : Type*} [DecidableEq cpus] [Fintype cpus]
variable {birth : Birth} {op : KernelOp cpus}

def step (ops : FileOps φ ι δ) (lookup : ι → Text → LookupResult ι)
    (family : Family cpus φ ι δ) (op : KernelOp cpus) :
    Option (Family cpus φ ι δ) :=
  (family.kernel.step ops lookup op).map fun after =>
    { kernel := after
      births := ((family.kernel.birthOf after op).toList ++
        family.births).filter fun birth =>
          birth.creator ∈ after.sched.live ∧ birth.child ∈ after.sched.live
      codes := fun task =>
        if task ∈ after.sched.cleanupTasks ∧ task ∉ family.kernel.sched.cleanupTasks then
          op.exitCode
        else
          family.codes task }

def boot (tables : FileTables φ ι δ) (idleTasks : cpus → Nat) : Family cpus φ ι δ :=
  ⟨.boot tables idleTasks, [], fun _ => 0⟩

/-- `sched_wait` of the creator takes the child out of the list and returns the
code it has exited with. -/
def Reaps (ops : FileOps φ ι δ) (family : Family cpus φ ι δ) (cpu : cpus) (birth : Birth) : Prop :=
  (∃ after, family.kernel.schedWait ops cpu birth.value = some after ∧
      after.sched.cleanupTasks = dlistRemoveEntry family.kernel.sched.cleanupTasks birth.child) ∧
    family.kernel.waitResult cpu birth.value = some (some (family.codes birth.child))

section

variable (family : Family cpus φ ι δ)

/-- The ids that are given out fit into the `u32` that `sched_wait` takes. -/
def IdsFit (op : KernelOp cpus) : Prop :=
  op.Creates = true → family.kernel.nextTid < 2 ^ 32

/-- Only tasks that lead their group spawn. -/
def LeadersSpawn : KernelOp cpus → Prop
  | .spawn cpu _ _ _ _ =>
    ∀ task ∈ family.kernel.sched.current cpu, family.kernel.Leads task
  | _ => True

instance (kernel : Kernel cpus φ ι δ) : DecidablePred kernel.Leads :=
  fun _ => inferInstanceAs (Decidable (_ = _))

instance  : DecidablePred family.IdsFit :=
  fun _ => inferInstanceAs (Decidable (_ → _))

instance  : DecidablePred family.LeadersSpawn
  | .spawn cpu _ _ _ _ =>
    inferInstanceAs (Decidable (∀ task ∈ family.kernel.sched.current cpu, family.kernel.Leads task))
  | .createKernelTask _ _ _ => .isTrue trivial
  | .execveFirst _ _ _ _ _ _ _ => .isTrue trivial
  | .fork _ _ _ _ _ _ => .isTrue trivial
  | .execve _ _ _ _ _ _ => .isTrue trivial
  | .start _ _ => .isTrue trivial
  | .exit _ _ => .isTrue trivial
  | .wait _ _ => .isTrue trivial
  | .sched _ => .isTrue trivial

structure Sound : Prop where
  places : family.kernel.sched.Sound
  small : family.kernel.globalId < 2 ^ 32
  bounded : ∀ task ∈ family.kernel.sched.live,
    (family.kernel.sched.tasks task).tid ≤ family.kernel.globalId
  distinct : ∀ first ∈ family.kernel.sched.live,
    ∀ second ∈ family.kernel.sched.live,
      (family.kernel.sched.tasks first).tid =
        (family.kernel.sched.tasks second).tid → first = second
  closed : ∀ zombie ∈ family.kernel.sched.cleanupTasks, family.kernel.tables.openFiles zombie = []
  codes : ∀ zombie ∈ family.kernel.sched.cleanupTasks,
    (family.kernel.sched.tasks zombie).exitcode = family.codes zombie
  births : ∀ birth ∈ family.births,
    birth.creator ∈ family.kernel.sched.live ∧ birth.child ∈ family.kernel.sched.live ∧
      birth.value = (family.kernel.sched.tasks birth.child).tid ∧
      (family.kernel.sched.tasks birth.child).tgid =
        if birth.forked then
          (family.kernel.sched.tasks birth.creator).tgid
        else
          (family.kernel.sched.tasks birth.creator).tid

end

variable {family next : Family cpus φ ι δ} {ops : FileOps φ ι δ}
  {lookup : ι → Text → LookupResult ι} {kernel after : Kernel cpus φ ι δ}

theorem birthOf_spec (stepped : kernel.step ops lookup op = some after)
    (fits : kernel.nextTid < 2 ^ 32)
    (isBirth : kernel.birthOf after op = some birth) :
    (∃ cpu, kernel.sched.current cpu = some birth.creator) ∧
      birth.value = (after.sched.tasks birth.child).tid ∧
      (after.sched.tasks birth.child).tgid =
        if birth.forked then
          (kernel.sched.tasks birth.creator).tgid
        else
          (kernel.sched.tasks birth.creator).tid := by
  cases op with
  | spawn cpu task event path argv =>
    obtain ⟨creator, isCurrent, rfl⟩ := map_eq_some_iff.mp isBirth
    obtain ⟨current, sched, isNow, added, rfl⟩ := Kernel.schedSpawn_eq stepped
    cases isCurrent.symm.trans isNow
    obtain ⟨_, _, _, _, tasks⟩ := Sched.schedAdd_spec added
    refine ⟨⟨cpu, isCurrent⟩, ?_, ?_⟩
    · simp only [tasks, update_self]
      exact Nat.mod_eq_of_lt fits
    · simp only [tasks, update_self]
      rfl
  | fork cpu child event memory saved ustack =>
    obtain ⟨creator, isCurrent, rest⟩ := bind_eq_some_iff.mp isBirth
    obtain ⟨⟨forked, created, value⟩, forking, made⟩ := bind_eq_some_iff.mp rest
    obtain ⟨tid, isMade, rfl⟩ := map_eq_some_iff.mp made
    have isAfter : after.sched = forked.sched := by
      simp only [Kernel.step, Kernel.fork, isCurrent, bind_some,
        forking, map_some, Option.some.injEq] at stepped
      rw [← stepped]
    rcases Kernel.schedFork_cases isCurrent forking with
      ⟨_, isNone, _⟩ | ⟨_, _, isNone, _⟩ |
        ⟨_, _, copied, record, sched, copying, added, _, isValue, rfl⟩
    · cases isNone.symm.trans isMade
    · cases isNone.symm.trans isMade
    · obtain ⟨_, rfl, _⟩ := Kernel.taskFork_enough copying
      obtain ⟨_, _, _, _, tasks⟩ := Sched.schedAdd_spec added
      have ownRecord := congrFun tasks child
      rw [update_self] at ownRecord
      refine ⟨⟨cpu, isCurrent⟩, ?_, ?_⟩
      · simp only [isAfter, ownRecord, isValue]
        exact Nat.mod_eq_of_lt fits
      · simp only [isAfter, ownRecord]
        rfl
  | createKernelTask task event name => cases isBirth
  | execveFirst cpu task event path argv cwd envp => cases isBirth
  | execve cpu event path argv envp ending => cases isBirth
  | start cpu loads => cases isBirth
  | exit cpu exitcode => cases isBirth
  | wait cpu tid => cases isBirth
  | sched op => cases isBirth

theorem creates_of_birth (isBirth : kernel.birthOf after op = some birth) : op.Creates = true := by
  cases op with
  | spawn cpu task event path argv => rfl
  | fork cpu child event memory saved ustack => rfl
  | _ => cases isBirth

omit [DecidableEq cpus] in
theorem Sound.next_eq (sound : family.Sound) :
    family.kernel.nextTid = family.kernel.globalId + 1 := by
  have small := sound.small
  rw [Kernel.nextTid]
  omega

theorem Sound.step (sound : family.Sound) (fits : family.IdsFit op)
    (stepped : family.step ops lookup op = some next) : next.Sound := by
  obtain ⟨after, done, rfl⟩ := map_eq_some_iff.mp stepped
  have effect := Kernel.step_effect done
  have places := Kernel.step_sound sound.places done
  have nextTid := sound.next_eq
  have counter : after.globalId < 2 ^ 32 ∧ family.kernel.globalId ≤ after.globalId := by
    rcases effect.globalId_cases with same | ⟨creates, isNext⟩
    · rw [same]
      exact ⟨sound.small, le_rfl⟩
    · have small := fits creates
      omega
  refine
    { places := places, small := counter.1, bounded := ?_, distinct := ?_
      closed := ?_, codes := ?_, births := ?_ }
  · intro task isLive
    rcases effect.live_cases isLive with old | ⟨tid, globalId, _⟩
    · rw [(effect.identity old).1]
      exact (sound.bounded task old).trans counter.2
    · exact (tid.trans globalId.symm).le
  · -- an old id is at most the counter, and the new one is above it
    have apart : ∀ old new, old ∈ family.kernel.sched.live →
        (after.sched.tasks new).tid = family.kernel.nextTid →
        (after.sched.tasks old).tid ≠ (after.sched.tasks new).tid := by
      intro old new isOld isNew
      rw [(effect.identity isOld).1, isNew]
      have bound := sound.bounded old isOld
      omega
    intro first isFirst second isSecond same
    rcases effect.live_cases isFirst with
      firstOld | ⟨firstNew, _, _, onlyFirst⟩
    · rcases effect.live_cases isSecond with secondOld | ⟨secondNew, _⟩
      · rw [(effect.identity firstOld).1, (effect.identity secondOld).1] at same
        exact sound.distinct first firstOld second secondOld same
      · exact absurd same (apart first second firstOld secondNew)
    · rcases onlyFirst second isSecond with secondOld | rfl
      · exact absurd same.symm (apart second first secondOld firstNew)
      · rfl
  · intro zombie member
    rcases effect.zombie_cases sound.places places member with
      ⟨old, _⟩ | ⟨_, _, empty⟩
    · obtain ⟨_, _, isLive, _, notRunning⟩ := sound.places.cleanup_places old
      have stays := (places.cleanup_places member).2.2.1
      have kept := Kernel.step_lists done isLive
        (fun cpu isCurrent =>
          notRunning cpu (Sched.current_eq_some isCurrent).1) stays
      exact kept.trans (sound.closed zombie old)
    · exact empty
  · intro zombie member
    rcases effect.zombie_cases sound.places places member with
      ⟨old, same⟩ | ⟨new, code, _⟩
    · simp only [old, not_true_eq_false, and_false, if_false]
      rw [same]
      exact sound.codes zombie old
    · simp only [member, new, not_false_eq_true, and_self, if_true]
      exact code
  · intro birth member
    obtain ⟨listed, isThere⟩ := mem_filter.mp member
    obtain ⟨creatorStays, childStays⟩ := of_decide_eq_true isThere
    refine ⟨creatorStays, childStays, ?_⟩
    rcases mem_append.mp listed with isNew | old
    · have isBirth := mem_toList.mp isNew
      obtain ⟨⟨cpu, isCurrent⟩, value, group⟩ :=
        birthOf_spec done (fits (creates_of_birth isBirth)) isBirth
      have busy := sound.places.current_busy isCurrent
      have isLive := (sound.places.running_places busy.1 busy.2).2.2
      obtain ⟨tid, tgid⟩ := effect.identity isLive
      refine ⟨value, ?_⟩
      rw [group, tid, tgid]
    · obtain ⟨creatorLive, childLive, value, group⟩ := sound.births birth old
      obtain ⟨tid, tgid⟩ := effect.identity creatorLive
      obtain ⟨childTid, childTgid⟩ := effect.identity childLive
      refine ⟨value.trans childTid.symm, ?_⟩
      rw [childTgid, group, tid, tgid]

omit [DecidableEq cpus] in
/-- A creator finds a child that has exited exactly if it has forked it, or
leads its own group. -/
theorem Sound.reaps_iff (sound : family.Sound) (ops : FileOps φ ι δ)
    (member : birth ∈ family.births)
    (exited : birth.child ∈ family.kernel.sched.cleanupTasks) {cpu : cpus}
    (isCurrent : family.kernel.sched.current cpu = some birth.creator) :
    family.Reaps ops cpu birth ↔ birth.forked = true ∨ family.kernel.Leads birth.creator := by
  obtain ⟨_, childLive, value, group⟩ := sound.births birth member
  have only : ∀ task ∈ family.kernel.sched.cleanupTasks,
      (family.kernel.sched.tasks task).tid = birth.value → task = birth.child := by
    intro task isZombie sameTid
    have isLive := (sound.places.cleanup_places isZombie).2.2.1
    exact sound.distinct task isLive birth.child childLive (sameTid.trans value)
  have matches_iff : (family.kernel.sched.tasks birth.child).tgid =
      (family.kernel.sched.tasks birth.creator).tgid ↔
        birth.forked = true ∨ family.kernel.Leads birth.creator := by
    rw [group, Kernel.Leads]
    by_cases forked : birth.forked
    · simp [forked]
    · simp only [forked, Bool.false_eq_true, if_false, false_or]
      exact eq_comm
  rw [← matches_iff]
  constructor
  · intro reaps
    by_contra different
    have search := Sched.findZombie_eq_none sound.places.cleanupState
      fun task isZombie wanted =>
        different (only task isZombie wanted.2 ▸ wanted.1)
    have result := reaps.2
    rw [Kernel.waitResult, isCurrent, bind_some, search] at result
    cases result
  · intro same
    have search := Sched.findZombie_eq_some sound.places.cleanupState exited ⟨same, value.symm⟩ only
    have noFiles := sound.closed birth.child exited
    refine ⟨?_, ?_⟩
    · rw [Kernel.schedWait, isCurrent, bind_some, search]
      have closed := Kernel.taskFreePhase0_tables family.kernel ops birth.creator birth.child
      rw [FileTables.taskCloseAllFiles, noFiles] at closed
      obtain ⟨freed, freeing, _⟩ := map_eq_some_iff.mp closed
      obtain ⟨tables, rfl⟩ := Kernel.taskFreePhase0_eq freeing
      simp only [freeing, bind_some, Sched.schedWait_reaps search,
        map_some, Option.some.injEq, exists_eq_left']
    · rw [Kernel.waitResult, isCurrent, bind_some, search]
      simp only [map_some, sound.codes birth.child exited]

/-- The births so far are such that creators find their children. -/
def Reapable (family : Family cpus φ ι δ) : Prop :=
  ∀ birth ∈ family.births, birth.forked = true ∨ family.kernel.Leads birth.creator

theorem Reapable.step (reapable : family.Reapable) (sound : family.Sound)
    (leads : family.LeadersSpawn op)
    (stepped : family.step ops lookup op = some next) : next.Reapable := by
  obtain ⟨after, done, rfl⟩ := map_eq_some_iff.mp stepped
  have effect := Kernel.step_effect done
  have kept : ∀ task ∈ family.kernel.sched.live, family.kernel.Leads task → after.Leads task := by
    intro task isLive isLeader
    obtain ⟨tid, tgid⟩ := effect.identity isLive
    rw [Kernel.Leads, tid, tgid]
    exact isLeader
  intro birth member
  have listed := (mem_filter.mp member).1
  rcases mem_append.mp listed with isNew | old
  · have isBirth := mem_toList.mp isNew
    cases op with
    | spawn cpu task event path argv =>
      obtain ⟨creator, isCurrent, rfl⟩ := map_eq_some_iff.mp isBirth
      have busy := sound.places.current_busy isCurrent
      have isLive := (sound.places.running_places busy.1 busy.2).2.2
      exact .inr (kept creator isLive (leads creator isCurrent))
    | fork cpu child event memory saved ustack =>
      obtain ⟨creator, _, rest⟩ := bind_eq_some_iff.mp isBirth
      obtain ⟨_, _, made⟩ := bind_eq_some_iff.mp rest
      obtain ⟨_, _, rfl⟩ := map_eq_some_iff.mp made
      exact .inl rfl
    | _ => cases isBirth
  · rcases reapable birth old with forked | isLeader
    · exact .inl forked
    · exact .inr (kept birth.creator (sound.births birth old).1 isLeader)

omit [DecidableEq cpus] in
theorem boot_sound (tables : FileTables φ ι δ) (idleTasks : cpus → Nat) :
    (boot tables idleTasks).Sound := by
  refine
    { places := Kernel.boot_sound tables idleTasks
      small := Nat.two_pow_pos 32, bounded := ?_, distinct := ?_
      closed := ?_, codes := ?_, births := ?_ }
  · exact fun task isLive => absurd isLive (Finset.notMem_empty task)
  · exact fun first isLive => absurd isLive (Finset.notMem_empty first)
  · exact fun zombie member => absurd member not_mem_nil
  · exact fun zombie member => absurd member not_mem_nil
  · exact fun birth member => absurd member not_mem_nil

/-- In every history in which the ids fit, a creator reaps a child that has
exited exactly if it has forked it or leads its own group; and where only
leaders of groups spawn, every creator reaps its children. -/
theorem reaps_of_run (ops : FileOps φ ι δ)
    (lookup : ι → Text → LookupResult ι) (tables : FileTables φ ι δ)
    (idleTasks : cpus → Nat) (steps : List (KernelOp cpus))
    (fits : AlongOps (step ops lookup) IdsFit (boot tables idleTasks) steps)
    (run : runOps (step ops lookup) (boot tables idleTasks) steps = some family) :
    (∀ birth ∈ family.births, birth.child ∈ family.kernel.sched.cleanupTasks →
      ∀ cpu, family.kernel.sched.current cpu = some birth.creator →
        (family.Reaps ops cpu birth ↔ birth.forked = true ∨ family.kernel.Leads birth.creator)) ∧
    (AlongOps (step ops lookup) LeadersSpawn (boot tables idleTasks) steps →
      ∀ birth ∈ family.births, birth.child ∈ family.kernel.sched.cleanupTasks →
        ∀ cpu, family.kernel.sched.current cpu = some birth.creator →
          family.Reaps ops cpu birth) := by
  have sound : family.Sound := by
    apply runOps_invariant_along _ (boot_sound tables idleTasks) fits run
    intro state op next isSound condition stepped
    exact isSound.step condition stepped
  refine ⟨?_, ?_⟩
  · intro birth member exited cpu isCurrent
    exact sound.reaps_iff ops member exited isCurrent
  · intro leads birth member exited cpu isCurrent
    have reapable : family.Sound ∧ family.Reapable := by
      apply runOps_invariant_along _ _ (fits.and leads) run
      · rintro state op next ⟨isSound, isReapable⟩ condition stepped
        exact ⟨isSound.step condition.1 stepped, isReapable.step isSound condition.2 stepped⟩
      · refine ⟨boot_sound tables idleTasks, ?_⟩
        exact fun birth none => absurd none not_mem_nil
    exact (sound.reaps_iff ops member exited isCurrent).mpr (reapable.2 birth member)

/-- One processor and the root directory with a program. -/
def programBoot : Family Unit (List UInt8) RamfsData Unit :=
  ⟨Kernel.programBoot, [], fun _ => 0⟩

def firstProgram : List (KernelOp Unit) :=
  [.execveFirst () 10 20 Kernel.programPath [] (some [slash]) [],
    .sched (.again () 1), .start () true]

/-- A program is spawned, and exits with the code 7. -/
def spawnAndExit : List (KernelOp Unit) :=
  [.spawn () 12 22 Kernel.programPath [], .sched (.again () 3),
    .start () true, .exit () 7, .sched (.again () 4)]

/-- The first program reaps a program that it has spawned. -/
theorem reaps_of_run_leader : ∃ family, runOps (step ramfsFileOps Kernel.programLookup) programBoot
        (firstProgram ++ spawnAndExit) = some family ∧
      family.codes 12 = 7 ∧
      family.Reaps ramfsFileOps () ⟨10, 12, 2, false⟩ := by
  have facts : ∃ family ∈ runOps (step ramfsFileOps Kernel.programLookup)
      programBoot (firstProgram ++ spawnAndExit),
      family.codes 12 = 7 ∧ ⟨10, 12, 2, false⟩ ∈ family.births ∧
        12 ∈ family.kernel.sched.cleanupTasks ∧
        family.kernel.sched.current () = some 10 := by
    decide +kernel
  have fits : AlongOps (step ramfsFileOps Kernel.programLookup) IdsFit
      programBoot (firstProgram ++ spawnAndExit) := by
    decide +kernel
  have leads : AlongOps (step ramfsFileOps Kernel.programLookup) LeadersSpawn
      programBoot (firstProgram ++ spawnAndExit) := by
    decide +kernel
  obtain ⟨family, run, code, isBirth, exited, isCurrent⟩ := facts
  exact ⟨family, run, code,
    (reaps_of_run ramfsFileOps Kernel.programLookup _ _ _ fits run).2 leads
      _ isBirth exited () isCurrent⟩

/-- The first program forks, and its child starts. -/
def forkAndStart : List (KernelOp Unit) :=
  [.fork () 11 21 .enough (fun _ => 0) 0, .sched (.again () 2), .start () true]

/-- The forked child spawns a program that exits. -/
def forkedSpawn : List (KernelOp Unit) :=
  firstProgram ++ forkAndStart ++
    [.spawn () 12 22 Kernel.programPath [], .sched (.again () 3),
      .sched (.again () 4), .start () true, .exit () 7, .sched (.again () 5)]

/-- A task that was forked has spawned a program, and finds no zombie with the
id it was given, although the program has exited. -/
theorem forked_task_never_reaps_spawned :
    ∃ family ∈ runOps (step ramfsFileOps Kernel.programLookup) programBoot forkedSpawn,
      ⟨11, 12, 3, false⟩ ∈ family.births ∧ family.kernel.sched.cleanupTasks = [12] ∧
        family.kernel.sched.current () = some 11 ∧
        family.kernel.waitResult () 3 = some none ∧
        ¬family.Reaps ramfsFileOps () ⟨11, 12, 3, false⟩ := by
  have facts : ∃ family ∈ runOps (step ramfsFileOps Kernel.programLookup) programBoot forkedSpawn,
      ⟨11, 12, 3, false⟩ ∈ family.births ∧ family.kernel.sched.cleanupTasks = [12] ∧
        family.kernel.sched.current () = some 11 ∧
        family.kernel.waitResult () 3 = some none := by
    decide +kernel
  obtain ⟨family, run, isBirth, exited, isCurrent, result⟩ := facts
  refine ⟨family, run, isBirth, exited, isCurrent, result, ?_⟩
  intro reaps
  cases result.symm.trans reaps.2

end Family

end SeekOs.Proc
