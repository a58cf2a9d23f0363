import SeekOs.Proc.LifecycleEffects

/-!
# The answers of fork

`sched_fork` answers its caller, and the trap frame of the child answers the
child.  The flag `is_fork` of a child is still set when it calls `sched_fork`
itself, so that its first call answers zero without a new task, and zero is
also the answer when there is no memory.  Apart from these calls, and from ids
that do not fit into the result, the value zero is seen by every forked task
once, and by nobody else.
-/

namespace SeekOs.Proc

open SeekOs.Base SeekOs.Fs SeekOs.Lib Function List Sched Kernel

/-- What decides about the answer of a forked task. -/
def Process.life (process : Process) : Bool × Bool × Frame :=
  (process.isFork, process.started, process.trapFrame)

theorem Process.life_eq_iff {first second : Process} :
    first.life = second.life ↔ first.isFork = second.isFork ∧ first.started = second.started ∧
      first.trapFrame = second.trapFrame := by
  simp [life]

namespace Kernel

variable {cpus : Type} {φ ι δ : Type*} {kernel after : Kernel cpus φ ι δ}
  {ops : FileOps φ ι δ} {lookup : ι → Text → LookupResult ι}
variable {task event : Nat} {cpu : cpus} {record : Task} {child : Nat} {saved : Frame}
  {ustack : BitVec 64}

variable (kernel)

/-- The id that `_alloc_tid` gives out next. -/
def nextTid : Nat :=
  (kernel.globalId + 1) % 2 ^ 64

/-- A call adds one task and answers its id, or adds none and answers another
value than zero. -/
def ForkAnswered (kernel after : Kernel cpus φ ι δ) (value : Nat) : Prop :=
  (∃ child, child ∉ kernel.sched.live ∧
      after.sched.activeTasks = kernel.sched.activeTasks ++ [child] ∧
      value = (after.sched.tasks child).tid ∧ value ≠ 0) ∨
    (after.sched.activeTasks = kernel.sched.activeTasks ∧ value ≠ 0)

/-- What a call of `sched_fork` asks for. -/
def CanAnswer (task : Nat) (memory : ForkMemory) : Prop :=
  (kernel.processes task).isFork = false ∧ memory = .enough ∧
    0 < kernel.nextTid ∧ kernel.nextTid < 2 ^ 32

instance  (task : Nat) (memory : ForkMemory) : Decidable (kernel.CanAnswer task memory) :=
  inferInstanceAs (Decidable (_ ∧ _ ∧ _ ∧ _))

variable {kernel}

section Call

variable [Fintype cpus]

theorem schedFork_answered_iff {memory : ForkMemory} {created : Option Nat} {value : Nat}
    (isCurrent : kernel.sched.current cpu = some task)
    (done : kernel.schedFork cpu child event memory saved ustack = some (after, created, value)) :
    kernel.ForkAnswered after value ↔ kernel.CanAnswer task memory := by
  rcases schedFork_cases isCurrent done with
    ⟨flag, _, rfl, rfl⟩ | ⟨flag, memoryIs, _, rfl, same⟩ |
      ⟨flag, rfl, forked, record, sched, forking, added, _, rfl, rfl⟩
  · constructor
    · rintro (⟨_, _, _, _, nonzero⟩ | ⟨_, nonzero⟩)
      · exact absurd rfl nonzero
      · exact absurd rfl nonzero
    · rintro ⟨noFlag, _⟩
      rw [flag] at noFlag
      cases noFlag
  · constructor
    · rintro (⟨_, _, _, _, nonzero⟩ | ⟨_, nonzero⟩)
      · exact absurd rfl nonzero
      · exact absurd rfl nonzero
    · rintro ⟨_, enough, _⟩
      exact absurd enough memoryIs
  · obtain ⟨_, rfl, rfl⟩ := taskFork_enough forking
    obtain ⟨isNew, _, _, queue, tasks⟩ := schedAdd_spec added
    have recorded : (sched.tasks child).tid = kernel.nextTid := by
      rw [tasks, update_self]
      rfl
    have value : kernel.nextTid % 2 ^ 32 = kernel.nextTid ↔ kernel.nextTid < 2 ^ 32 := by
      omega
    constructor
    · rintro (⟨other, _, appended, isTid, nonzero⟩ | ⟨unchanged, _⟩)
      · have same : child = other := by
          have both := queue.symm.trans appended
          simpa [updateEvent] using both
        subst other
        have exact : kernel.nextTid % 2 ^ 32 = kernel.nextTid := isTid.trans recorded
        have positive : kernel.nextTid % 2 ^ 32 ≠ 0 := nonzero
        exact ⟨flag, rfl, by omega, value.mp exact⟩
      · have longer := congrArg List.length (queue.symm.trans unchanged)
        simp [updateEvent] at longer
    · rintro ⟨_, _, positive, fits⟩
      left
      refine ⟨child, isNew, queue, ?_, ?_⟩
      · exact (value.mpr fits).trans recorded.symm
      · change kernel.nextTid % 2 ^ 32 ≠ 0
        omega

end Call

/-- Only files, blocks and the scheduler change. -/
structure Quiet (kernel after : Kernel cpus φ ι δ) : Prop where
  lives : ∀ task, (after.processes task).life = (kernel.processes task).life
  globalId : after.globalId = kernel.globalId
  answers : after.answers = kernel.answers

theorem Quiet.trans {middle : Kernel cpus φ ι δ}
    (first : Quiet kernel middle) (second : Quiet middle after) :
    Quiet kernel after :=
  ⟨fun task => (second.lives task).trans (first.lives task), second.globalId.trans first.globalId,
    second.answers.trans first.answers⟩

variable (kernel)

theorem quiet_updateProcess (task : Nat) {change : Process → Process}
    (keeps : ∀ process, (change process).life = process.life) :
    Quiet kernel (kernel.updateProcess task change) := by
  refine ⟨?_, rfl, rfl⟩
  intro other
  by_cases same : other = task
  · subst other
    simp [updateProcess, keeps]
  · simp [updateProcess, same]

theorem quiet_setupArgs (field : ArgField) (kernel : Kernel cpus φ ι δ)
    (task : Nat) (strings : List Text) :
    Quiet kernel (setupArgs field kernel task strings) := by
  rw [setupArgs]
  split
  · exact ⟨fun _ => rfl, rfl, rfl⟩
  · obtain ⟨lives, globalId, answers⟩ := quiet_updateProcess kernel task
      fun process => (rfl : ({ process with
        args := update process.args field ⟨strings.length,
          some kernel.blocks.count⟩ } : Process).life = process.life)
    exact ⟨lives, globalId, answers⟩

theorem quiet_freeArgs (field : ArgField) (kernel : Kernel cpus φ ι δ)
    (task : Nat) : Quiet kernel (freeArgs field kernel task) := by
  rw [freeArgs, freeBlock_eq]
  obtain ⟨lives, globalId, answers⟩ := quiet_updateProcess kernel task
    fun process => (rfl : ({ process with
      args := update process.args field
        { (kernel.processes task).args field with
          block := none } } : Process).life = process.life)
  exact ⟨lives, globalId, answers⟩

theorem quiet_readArgs (field : ArgField) (kernel : Kernel cpus φ ι δ)
    (task : Nat) : Quiet kernel (readArgs field kernel task) := by
  rw [readArgs]
  split
  · exact ⟨fun _ => rfl, rfl, rfl⟩
  · split
    · exact ⟨fun _ => rfl, rfl, rfl⟩
    · exact ⟨fun _ => rfl, rfl, rfl⟩

theorem quiet_copyArgs (field : ArgField) (kernel : Kernel cpus φ ι δ) (parent child : Nat) :
    Quiet kernel (copyArgs field kernel parent child) := by
  rw [copyArgs]
  split
  · exact ⟨fun _ => rfl, rfl, rfl⟩
  · split
    · obtain ⟨lives, globalId, answers⟩ := quiet_updateProcess kernel child
        fun process => (rfl : ({ process with
          args := update process.args field
            ⟨((kernel.processes parent).args field).count,
              some kernel.blocks.count⟩ } : Process).life = process.life)
      exact ⟨lives, globalId, answers⟩
    · exact ⟨fun _ => rfl, rfl, rfl⟩

theorem quiet_freeBoth (task : Nat) :
    Quiet kernel (freeArgs .envp (freeArgs .argv kernel task) task) :=
  (quiet_freeArgs .argv kernel task).trans (quiet_freeArgs .envp _ task)

theorem prepareTask_quiet (task event : Nat) (path : Text) (argv : List Text) (cwd : Option Text)
    (envp : List Text) :
    Quiet (kernel.taskCreate task event (execName path) .user).1
      (kernel.prepareTask task event path argv cwd envp).1 := by
  let created := (kernel.taskCreate task event (execName path) .user).1
  have pathed : Quiet created (created.taskSetupPath task path) :=
    quiet_updateProcess created task fun _ => rfl
  have named := pathed.trans (quiet_setupArgs .argv _ task argv)
  cases cwd with
  | none => exact named.trans (quiet_setupArgs .envp _ task envp)
  | some cwd =>
    have placed := named.trans (quiet_updateProcess _ task
      fun process => (rfl : ({ process with
        cwd := cwd.take (vfsMaxPathLength - 1) } : Process).life =
          process.life))
    exact placed.trans (quiet_setupArgs .envp _ task envp)

/-- How often a task has seen zero. -/
def zeros (tid : Nat) : Nat :=
  kernel.answers.countP fun answer =>
    answer.value = 0 ∧ answer.observer = tid

/-- Some caller was told the id of a task that its fork has created. -/
def Announced (tid : Nat) : Prop :=
  ∃ answer ∈ kernel.answers, answer.created = some tid ∧ answer.value = tid ∧ tid ≠ 0

variable {kernel}

section Runs

variable [Fintype cpus]

structure Accounted (kernel : Kernel cpus φ ι δ) : Prop where
  sound : kernel.sched.Sound
  small : kernel.globalId < 2 ^ 64
  bounded : ∀ task ∈ kernel.sched.live, (kernel.sched.tasks task).tid ≤ kernel.globalId
  distinct : ∀ first ∈ kernel.sched.live, ∀ second ∈ kernel.sched.live,
    (kernel.sched.tasks first).tid = (kernel.sched.tasks second).tid → first = second
  observers : ∀ answer ∈ kernel.answers, answer.observer ≤ kernel.globalId
  zero : ∀ answer ∈ kernel.answers, answer.value = 0 →
    answer.created = some answer.observer ∧ kernel.Announced answer.observer
  once : ∀ tid, kernel.zeros tid ≤ 1
  child : ∀ task ∈ kernel.sched.live, (kernel.processes task).isFork = true →
    kernel.Announced (kernel.sched.tasks task).tid ∧
      kernel.zeros (kernel.sched.tasks task).tid =
        if (kernel.processes task).started then 1 else 0
  frame : ∀ task ∈ kernel.sched.live, (kernel.processes task).isFork = true →
    (kernel.processes task).started = false → (kernel.processes task).trapFrame .rax = 0

section

variable (accounted : kernel.Accounted)
include accounted

theorem Accounted.current_live (isCurrent : kernel.sched.current cpu = some task) :
    task ∈ kernel.sched.live := by
  obtain ⟨running, busy⟩ := accounted.sound.current_busy isCurrent
  exact (accounted.sound.running_places running busy).2.2

theorem Accounted.of_quiet (sound : after.sched.Sound) (live : after.sched.live ⊆ kernel.sched.live)
    (tids : ∀ task, (after.sched.tasks task).tid = (kernel.sched.tasks task).tid)
    (globalId : after.globalId = kernel.globalId)
    (answers : after.answers = kernel.answers)
    (life : ∀ task, (after.processes task).isFork = true →
      (after.processes task).life = (kernel.processes task).life) :
    after.Accounted := by
  have zeros : after.zeros = kernel.zeros := by
    funext tid
    rw [zeros, answers]
    rfl
  have announced : ∀ tid, after.Announced tid ↔ kernel.Announced tid := by
    intro tid
    rw [Announced, answers]
    rfl
  have lives : ∀ task, (after.processes task).isFork = true →
      (kernel.processes task).isFork = true ∧
        (kernel.processes task).started = (after.processes task).started ∧
        (kernel.processes task).trapFrame = (after.processes task).trapFrame := by
    intro task flag
    obtain ⟨isFork, started, frame⟩ := Process.life_eq_iff.mp (life task flag)
    exact ⟨isFork ▸ flag, started.symm, frame.symm⟩
  refine ⟨sound, globalId ▸ accounted.small, ?_, ?_, ?_, ?_, ?_, ?_, ?_⟩
  · intro task isLive
    rw [tids, globalId]
    exact accounted.bounded task (live isLive)
  · intro first isFirst second isSecond same
    rw [tids, tids] at same
    exact accounted.distinct first (live isFirst) second (live isSecond) same
  · rw [answers, globalId]
    exact accounted.observers
  · intro answer member isZero
    rw [answers] at member
    rw [announced]
    exact accounted.zero answer member isZero
  · rw [zeros]
    exact accounted.once
  · intro task isLive flag
    obtain ⟨wasFork, started, _⟩ := lives task flag
    rw [tids, announced, zeros, ← started]
    exact accounted.child task (live isLive) wasFork
  · intro task isLive flag notStarted
    obtain ⟨wasFork, started, frame⟩ := lives task flag
    rw [← frame]
    exact accounted.frame task (live isLive) wasFork (started.trans notStarted)

theorem Accounted.of_new (extra : List ForkAnswer) (sound : after.sched.Sound)
    (added : (kernel.sched.updateEvent event fun _ =>
      ⟨.unknown, 0, 0⟩).schedAdd task record = some after.sched)
    (tid : record.tid = kernel.nextTid) (positive : 0 < kernel.nextTid)
    (globalId : after.globalId = kernel.nextTid)
    (answers : after.answers = extra ++ kernel.answers)
    (nonzero : ∀ answer ∈ extra, answer.value ≠ 0 ∧
      answer.observer ≤ kernel.globalId) (others : ∀ other, other ≠ task →
      (after.processes other).life = (kernel.processes other).life)
    (life : (after.processes task).isFork = true →
      (after.processes task).started = false ∧ (after.processes task).trapFrame .rax = 0 ∧
        after.Announced kernel.nextTid) : after.Accounted := by
  obtain ⟨isNew, _, live, _, tasks⟩ := schedAdd_spec added
  have notLive : task ∉ kernel.sched.live := isNew
  have next : kernel.nextTid = kernel.globalId + 1 := by
    have small := accounted.small
    rw [nextTid] at positive ⊢
    omega
  have liveIff : ∀ other, other ∈ after.sched.live ↔ other = task ∨ other ∈ kernel.sched.live := by
    intro other
    rw [live]
    exact Finset.mem_insert
  have taskTid : (after.sched.tasks task).tid = kernel.nextTid := by
    rw [tasks, update_self]
    exact tid
  have otherTid : ∀ other ∈ kernel.sched.live,
      other ≠ task ∧ (after.sched.tasks other).tid = (kernel.sched.tasks other).tid := by
    intro other isLive
    have different : other ≠ task := by
      rintro rfl
      exact notLive isLive
    refine ⟨different, ?_⟩
    rw [tasks, update_of_ne different]
    rfl
  have zeros : after.zeros = kernel.zeros := by
    funext observer
    rw [zeros, answers, countP_append]
    have none : extra.countP (fun answer =>
        answer.value = 0 ∧ answer.observer = observer) = 0 := by
      rw [countP_eq_zero]
      intro answer member
      simp [(nonzero answer member).1]
    rw [none, Nat.zero_add]
    rfl
  have announced : ∀ tid, kernel.Announced tid → after.Announced tid := by
    rintro tid ⟨answer, member, told⟩
    refine ⟨answer, ?_, told⟩
    rw [answers]
    exact mem_append_right extra member
  refine ⟨sound, ?_, ?_, ?_, ?_, ?_, ?_, ?_, ?_⟩
  · rw [globalId]
    exact Nat.mod_lt _ (by decide)
  · intro other isLive
    rw [globalId, next]
    rcases (liveIff other).mp isLive with rfl | before
    · rw [taskTid, next]
    · rw [(otherTid other before).2]
      exact Nat.le_succ_of_le (accounted.bounded other before)
  · intro first isFirst second isSecond same
    rcases (liveIff first).mp isFirst with rfl | firstBefore
    · rcases (liveIff second).mp isSecond with rfl | secondBefore
      · rfl
      · rw [taskTid, (otherTid second secondBefore).2, next] at same
        have bound := accounted.bounded second secondBefore
        omega
    · rcases (liveIff second).mp isSecond with rfl | secondBefore
      · rw [taskTid, (otherTid first firstBefore).2, next] at same
        have bound := accounted.bounded first firstBefore
        omega
      · rw [(otherTid first firstBefore).2, (otherTid second secondBefore).2] at same
        exact accounted.distinct first firstBefore second secondBefore same
  · intro answer member
    rw [globalId, next]
    rw [answers] at member
    rcases mem_append.mp member with isExtra | before
    · exact Nat.le_succ_of_le (nonzero answer isExtra).2
    · exact Nat.le_succ_of_le (accounted.observers answer before)
  · intro answer member isZero
    rw [answers] at member
    rcases mem_append.mp member with isExtra | before
    · exact absurd isZero (nonzero answer isExtra).1
    · obtain ⟨created, told⟩ := accounted.zero answer before isZero
      exact ⟨created, announced _ told⟩
  · rw [zeros]
    exact accounted.once
  · intro other isLive flag
    rcases (liveIff other).mp isLive with rfl | before
    · obtain ⟨notStarted, _, told⟩ := life flag
      rw [taskTid, zeros, notStarted]
      refine ⟨told, ?_⟩
      simp only [Bool.false_eq_true, if_false]
      rw [Kernel.zeros, countP_eq_zero]
      intro answer member
      have bound := accounted.observers answer member
      have different : answer.observer ≠ kernel.nextTid := by omega
      simp [different]
    · obtain ⟨different, sameTid⟩ := otherTid other before
      obtain ⟨isFork, started, _⟩ := Process.life_eq_iff.mp (others other different)
      rw [isFork] at flag
      rw [sameTid, zeros, started]
      obtain ⟨told, count⟩ := accounted.child other before flag
      exact ⟨announced _ told, count⟩
  · intro other isLive flag notStarted
    rcases (liveIff other).mp isLive with rfl | before
    · exact (life flag).2.1
    · obtain ⟨isFork, started, frame⟩ :=
        Process.life_eq_iff.mp (others other (otherTid other before).1)
      rw [isFork] at flag
      rw [started] at notStarted
      rw [frame]
      exact accounted.frame other before flag notStarted

/-- A task that `task_create` has made. -/
theorem Accounted.of_create (sound : after.sched.Sound) (name : Text) (mode : TaskMode)
    (added : (kernel.sched.updateEvent event fun _ =>
      ⟨.unknown, 0, 0⟩).schedAdd task record = some after.sched)
    (tid : record.tid = kernel.nextTid) (positive : 0 < kernel.nextTid)
    (quiet : Quiet (kernel.taskCreate task event name mode).1 after) :
    after.Accounted := by
  apply accounted.of_new [] sound added tid positive quiet.globalId
  · rw [quiet.answers]
    exact (nil_append _).symm
  · exact fun answer member => absurd member not_mem_nil
  · intro other different
    rw [quiet.lives]
    simp [taskCreate, allocTid, different]
  · intro flag
    rw [(Process.life_eq_iff.mp (quiet.lives task)).1] at flag
    simp [taskCreate] at flag

theorem Accounted.of_fork {forked : Kernel cpus φ ι δ} {sched : Sched cpus}
    (copying : kernel.taskFork task child event .enough saved ustack = some (forked, some record))
    (added : (kernel.sched.updateEvent event fun _ =>
      ⟨.unknown, 0, 0⟩).schedAdd child record = some sched)
    (tables : FileTables φ ι δ) (isLive : task ∈ kernel.sched.live)
    (sound : sched.Sound) (positive : 0 < kernel.nextTid)
    (fits : kernel.nextTid < 2 ^ 32) :
    ({ forked with
        tables := tables
        sched := sched
        answers := ⟨(kernel.sched.tasks task).tid, some record.tid,
          record.tid % 2 ^ 32⟩ :: forked.answers } :
      Kernel cpus φ ι δ).Accounted := by
  obtain ⟨_, isRecord, isForked⟩ := taskFork_enough copying
  have recordTid : record.tid = kernel.nextTid := by
    rw [isRecord]
    rfl
  have value : record.tid % 2 ^ 32 = kernel.nextTid := by
    rw [recordTid]
    exact Nat.mod_eq_of_lt fits
  have quiet : Quiet (kernel.withChild task child event saved ustack) forked := by
    rw [isForked]
    exact (quiet_copyArgs .argv _ task child).trans (quiet_copyArgs .envp _ task child)
  have childLife : (forked.processes child).life = (true, false, forkFrame saved ustack) := by
    rw [quiet.lives]
    simp [withChild, Process.life]
  refine accounted.of_new [⟨(kernel.sched.tasks task).tid, some record.tid,
    record.tid % 2 ^ 32⟩] sound added recordTid positive ?_ ?_ ?_ ?_ ?_
  · change forked.globalId = _
    rw [quiet.globalId]
    rfl
  · change _ :: forked.answers = _
    rw [quiet.answers]
    rfl
  · intro answer member
    rw [mem_singleton] at member
    subst answer
    refine ⟨?_, accounted.bounded task isLive⟩
    change record.tid % 2 ^ 32 ≠ 0
    omega
  · intro other different
    rw [quiet.lives]
    simp [withChild, different]
  · intro _
    simp only [Process.life, Prod.mk.injEq] at childLife
    obtain ⟨_, notStarted, frame⟩ := childLife
    refine ⟨notStarted, ?_, ?_⟩
    · change (forked.processes child).trapFrame .rax = 0
      rw [frame]
      rfl
    · refine ⟨_, mem_cons_self, ?_, value, by omega⟩
      rw [recordTid]

theorem Accounted.of_answer {tables : FileTables φ ι δ} (isLive : task ∈ kernel.sched.live)
    (flag : (kernel.processes task).isFork = true)
    (first : (kernel.processes task).started = false) :
    ({ updateProcess { kernel with tables := tables } task
        (fun process => { process with started := true }) with
      answers := ⟨(kernel.sched.tasks task).tid,
        some (kernel.sched.tasks task).tid,
        ((kernel.processes task).trapFrame .rax).toNat⟩ ::
          kernel.answers } : Kernel cpus φ ι δ).Accounted := by
  obtain ⟨told, none⟩ := accounted.child task isLive flag
  rw [first] at none
  rw [accounted.frame task isLive flag first]
  generalize isAfter : ({ updateProcess { kernel with tables := tables } task
      (fun process => { process with started := true }) with
    answers := ⟨(kernel.sched.tasks task).tid,
      some (kernel.sched.tasks task).tid, (0 : BitVec 64).toNat⟩ ::
        kernel.answers } : Kernel cpus φ ι δ) = after
  have answers : after.answers = ⟨(kernel.sched.tasks task).tid,
      some (kernel.sched.tasks task).tid, 0⟩ :: kernel.answers := by
    rw [← isAfter]
    rfl
  have sched : after.sched = kernel.sched := by
    rw [← isAfter]
    rfl
  have globalId : after.globalId = kernel.globalId := by
    rw [← isAfter]
    rfl
  have ownZeros : after.zeros (kernel.sched.tasks task).tid = 1 := by
    have before := none
    rw [zeros] at before ⊢
    rw [answers, countP_cons_of_pos (by simp), before]
    rfl
  have otherZeros : ∀ tid, tid ≠ (kernel.sched.tasks task).tid →
      after.zeros tid = kernel.zeros tid := by
    intro tid different
    rw [zeros, zeros, answers, countP_cons_of_neg (by simp [Ne.symm different])]
  have announced : ∀ tid, kernel.Announced tid → after.Announced tid := by
    rintro tid ⟨answer, member, is⟩
    refine ⟨answer, ?_, is⟩
    rw [answers]
    exact mem_cons_of_mem _ member
  have ownProcess : after.processes task =
      { kernel.processes task with started := true } := by
    rw [← isAfter]
    simp [updateProcess]
  have otherProcess : ∀ other, other ≠ task → after.processes other = kernel.processes other := by
    intro other different
    rw [← isAfter]
    simp [updateProcess, different]
  refine ⟨sched ▸ accounted.sound, globalId ▸ accounted.small, ?_, ?_, ?_, ?_, ?_, ?_, ?_⟩
  · rw [sched, globalId]
    exact accounted.bounded
  · rw [sched]
    exact accounted.distinct
  · intro answer member
    rw [globalId]
    rw [answers] at member
    rcases mem_cons.mp member with rfl | before
    · exact accounted.bounded task isLive
    · exact accounted.observers answer before
  · intro answer member isZero
    rw [answers] at member
    rcases mem_cons.mp member with rfl | before
    · exact ⟨rfl, announced _ told⟩
    · obtain ⟨created, wasTold⟩ := accounted.zero answer before isZero
      exact ⟨created, announced _ wasTold⟩
  · intro tid
    by_cases own : tid = (kernel.sched.tasks task).tid
    · rw [own, ownZeros]
    · rw [otherZeros tid own]
      exact accounted.once tid
  · intro other otherLive otherFlag
    rw [sched] at otherLive ⊢
    by_cases same : other = task
    · subst other
      rw [ownZeros, ownProcess]
      exact ⟨announced _ told, rfl⟩
    · rw [otherProcess other same] at otherFlag ⊢
      obtain ⟨wasTold, count⟩ := accounted.child other otherLive otherFlag
      have different : (kernel.sched.tasks other).tid ≠
          (kernel.sched.tasks task).tid := fun equal =>
        same (accounted.distinct other otherLive task isLive equal)
      rw [otherZeros _ different]
      exact ⟨announced _ wasTold, count⟩
  · intro other otherLive otherFlag notStarted
    rw [sched] at otherLive
    by_cases same : other = task
    · subst other
      rw [ownProcess] at notStarted
      cases notStarted
    · rw [otherProcess other same] at otherFlag notStarted ⊢
      exact accounted.frame other otherLive otherFlag notStarted

end

theorem boot_accounted (tables : FileTables φ ι δ) (idleTasks : cpus → Nat) :
    (boot tables idleTasks : Kernel cpus φ ι δ).Accounted := by
  refine ⟨boot_sound tables idleTasks, Nat.two_pow_pos 64, ?_, ?_, ?_, ?_, ?_, ?_, ?_⟩
  · exact fun task isLive => absurd isLive (Finset.notMem_empty task)
  · exact fun first isLive => absurd isLive (Finset.notMem_empty first)
  · exact fun answer member => absurd member not_mem_nil
  · exact fun answer member => absurd member not_mem_nil
  · exact fun tid => Nat.zero_le 1
  · exact fun task isLive => absurd isLive (Finset.notMem_empty task)
  · exact fun task isLive => absurd isLive (Finset.notMem_empty task)

variable [DecidableEq cpus]

theorem Accounted.of_exit (accounted : kernel.Accounted) {exitcode : Int}
    (sound : after.sched.Sound)
    (done : kernel.schedExit ops cpu exitcode = some after) :
    after.Accounted := by
  obtain ⟨task, tables, _, rfl⟩ := schedExit_eq done
  obtain ⟨lives, globalId, answers⟩ := quiet_freeBoth kernel task
  apply accounted.of_quiet sound
  · exact fun _ isLive => isLive
  · intro other
    by_cases same : other = task
    · subst other
      simp [Sched.schedExit, Sched.updateTask]
    · simp [Sched.schedExit, Sched.updateTask, same]
  · exact globalId
  · exact answers
  · exact fun other _ => lives other

/-- What a step must meet. -/
def ForksAnswer (kernel : Kernel cpus φ ι δ) : KernelOp cpus → Prop
  | .fork cpu _ _ memory _ _ =>
    ∀ task ∈ kernel.sched.current cpu, kernel.CanAnswer task memory
  | .createKernelTask _ _ _ => 0 < kernel.nextTid
  | .execveFirst _ _ _ _ _ _ _ => 0 < kernel.nextTid
  | .spawn _ _ _ _ _ => 0 < kernel.nextTid
  | _ => True

omit [Fintype cpus] [DecidableEq cpus] in
instance (kernel : Kernel cpus φ ι δ) : DecidablePred kernel.ForksAnswer
  | .fork cpu _ _ memory _ _ =>
    inferInstanceAs (Decidable (∀ task ∈ kernel.sched.current cpu, kernel.CanAnswer task memory))
  | .createKernelTask _ _ _ =>
    inferInstanceAs (Decidable (0 < kernel.nextTid))
  | .execveFirst _ _ _ _ _ _ _ =>
    inferInstanceAs (Decidable (0 < kernel.nextTid))
  | .spawn _ _ _ _ _ => inferInstanceAs (Decidable (0 < kernel.nextTid))
  | .execve _ _ _ _ _ _ => .isTrue trivial
  | .start _ _ => .isTrue trivial
  | .exit _ _ => .isTrue trivial
  | .wait _ _ => .isTrue trivial
  | .sched _ => .isTrue trivial

/-- Every step that meets the condition keeps the account of answers. -/
theorem step_accounted (accounted : kernel.Accounted) {op : KernelOp cpus}
    (answers : kernel.ForksAnswer op)
    (stepped : kernel.step ops lookup op = some after) :
    after.Accounted := by
  have sound := step_sound accounted.sound stepped
  cases op with
  | createKernelTask task event name =>
    obtain ⟨sched, added, rfl⟩ := createKernelTask_eq stepped
    exact accounted.of_create sound name .kernel added rfl answers ⟨fun _ => rfl, rfl, rfl⟩
  | execveFirst cpu task event path argv cwd envp =>
    obtain ⟨sched, added, rfl⟩ := schedExecveFirst_eq stepped
    obtain ⟨lives, globalId, told⟩ := prepareTask_quiet kernel task event path argv cwd envp
    exact accounted.of_create sound (execName path) .user added rfl answers ⟨lives, globalId, told⟩
  | spawn cpu task event path argv =>
    obtain ⟨current, sched, _, added, rfl⟩ := schedSpawn_eq stepped
    obtain ⟨lives, globalId, told⟩ := prepareTask_quiet kernel task event
      path argv (some (kernel.processes current).cwd) []
    exact accounted.of_create sound (execName path) .user added rfl answers ⟨lives, globalId, told⟩
  | fork cpu child event memory saved ustack =>
    obtain ⟨task, isCurrent, rest⟩ := Option.bind_eq_some_iff.mp stepped
    obtain ⟨⟨forked, created, value⟩, forking, same⟩ := Option.map_eq_some_iff.mp rest
    cases same
    obtain ⟨noFlag, enough, positive, fits⟩ := answers task isCurrent
    rcases schedFork_cases isCurrent forking with
      ⟨flag, _⟩ | ⟨_, memoryIs, _⟩ | ⟨_, _, copied, record, sched, copying, added, rfl, rfl, rfl⟩
    · rw [flag] at noFlag
      cases noFlag
    · exact absurd enough memoryIs
    · have forked := accounted.of_fork copying added (copied.tables.vfsCopy child task)
        (accounted.current_live isCurrent) sound positive fits
      exact forked
  | execve cpu event path argv envp ending =>
    rcases schedExecve_cases stepped with ⟨_, rfl⟩ |
      ⟨_, task, sched, tables, setup, isCurrent, executed, isSetup, rfl⟩
    · exact accounted
    · have moved := moved_execve executed
      have pathed : Quiet kernel (kernel.taskSetupPath task path) :=
        quiet_updateProcess kernel task fun _ => rfl
      have quiet : Quiet kernel setup := by
        rw [isSetup]
        exact (pathed.trans (quiet_setupArgs .argv _ task argv)).trans
          (quiet_setupArgs .envp _ task envp)
      rw [freeOldArgs_eq] at sound ⊢
      apply accounted.of_quiet sound
      · exact moved.live ▸ Finset.Subset.refl _
      · exact moved.tid
      · exact quiet.globalId
      · exact quiet.answers
      · intro other flag
        by_cases same : other = task
        · subst other
          simp [updateProcess] at flag
        · refine Eq.trans ?_ (quiet.lives other)
          simp [updateProcess, same]
  | start cpu loads =>
    obtain ⟨task, tables, running, isCurrent, first, rfl, results⟩ := start_cases stepped
    rcases results with ⟨flag, rfl⟩ | ⟨flag, ended⟩
    · exact accounted.of_answer (accounted.current_live isCurrent) flag first
    · generalize isRunning : updateProcess { kernel with tables := tables }
        task (fun process => { process with started := true }) = running
        at ended
      have runningAccounted : running.Accounted := by
        rw [← isRunning]
        refine Accounted.of_quiet accounted ?_ ?_ (fun _ => rfl) rfl rfl ?_
        · exact accounted.sound
        · exact fun _ isLive => isLive
        · intro other otherFlag
          by_cases same : other = task
          · subst other
            simp [updateProcess, flag] at otherFlag
          · simp [updateProcess, same]
      rcases ended with rfl | ended
      · obtain ⟨lives, globalId, told⟩ :=
          (quiet_readArgs .argv running task).trans (quiet_readArgs .envp _ task)
        apply runningAccounted.of_quiet sound
        · rw [readArgs_sched, readArgs_sched]
        · intro other
          rw [readArgs_sched, readArgs_sched]
        · exact globalId
        · exact told
        · exact fun other _ => lives other
      · exact runningAccounted.of_exit sound ended
  | exit cpu exitcode => exact accounted.of_exit sound stepped
  | wait cpu tid =>
    rcases schedWait_cases stepped with rfl | ⟨task, zombie, tables, _, search, sched, waited, rfl⟩
    · exact accounted
    · have reaped := schedWait_found search waited
      obtain ⟨lives, globalId, told⟩ := quiet_freeBoth kernel zombie
      apply accounted.of_quiet sound
      · rw [reaped]
        exact Finset.erase_subset zombie _
      · intro other
        rw [reaped]
        by_cases same : other = zombie
        · subst other
          simp [updateTask]
        · simp [updateTask, same]
      · exact globalId
      · exact told
      · exact fun other _ => lives other
  | sched op =>
    obtain ⟨moves, sched, moved, rfl⟩ := step_sched_eq stepped
    have isMoved := moved_of_step moves moved
    exact accounted.of_quiet sound (isMoved.live ▸ Finset.Subset.refl _)
      isMoved.tid rfl rfl fun _ _ => rfl

/-- Zero is the answer of a fork to the task that it has created, whose id its
parent was told.  A task sees it at most once, and a forked task once it has
started. -/
structure ZeroOnce (kernel : Kernel cpus φ ι δ) : Prop where
  children : ∀ answer ∈ kernel.answers, answer.value = 0 →
    answer.created = some answer.observer ∧ kernel.Announced answer.observer
  atMost : ∀ tid, kernel.zeros tid ≤ 1
  started : ∀ task ∈ kernel.sched.live,
    (kernel.processes task).isFork = true →
      kernel.zeros (kernel.sched.tasks task).tid =
        if (kernel.processes task).started then 1 else 0

/-- In every state that is reached, a call of `sched_fork` answers as it should
exactly when its caller is not a forked task, there is memory, and the next id
fits.  In every history whose calls are all of this kind, zero is seen by the
forked tasks only, once. -/
theorem fork_answers_of_run (ops : FileOps φ ι δ)
    (lookup : ι → Text → LookupResult ι) (tables : FileTables φ ι δ)
    (idleTasks : cpus → Nat) (steps : List (KernelOp cpus))
    (final : Kernel cpus φ ι δ)
    (run : runOps (step ops lookup) (boot tables idleTasks) steps = some final) :
    (∀ cpu task child event memory saved ustack after created value,
      final.sched.current cpu = some task →
      final.schedFork cpu child event memory saved ustack = some (after, created, value) →
      (final.ForkAnswered after value ↔ final.CanAnswer task memory)) ∧
    (AlongOps (step ops lookup) ForksAnswer (boot tables idleTasks) steps → final.ZeroOnce) := by
  refine ⟨?_, ?_⟩
  · intro cpu task child event memory saved ustack after created value isCurrent done
    exact schedFork_answered_iff isCurrent done
  · intro answers
    have accounted : final.Accounted :=
      runOps_invariant_along
        (fun _ _ _ isAccounted condition stepped =>
          step_accounted isAccounted condition stepped)
        (boot_accounted tables idleTasks) answers run
    refine ⟨accounted.zero, accounted.once, ?_⟩
    intro task isLive flag
    exact (accounted.child task isLive flag).2

end Runs

/-- The first program forks, and its child gets the processor and starts. -/
def forkRun : List (KernelOp Unit) :=
  [.execveFirst () 10 20 programPath [] (some [slash]) [], .sched (.again () 1), .start () true,
    .fork () 11 21 .enough (fun _ => 0) 0, .sched (.again () 2),
    .start () true]

theorem fork_answers_of_run_child :
    ∃ final, runOps (step ramfsFileOps programLookup) programBoot forkRun = some final ∧
      final.answers = [⟨2, some 2, 0⟩, ⟨1, some 2, 2⟩] ∧
      final.ZeroOnce := by
  have facts : ∃ final ∈ runOps (step ramfsFileOps programLookup) programBoot forkRun,
      final.answers = [⟨2, some 2, 0⟩, ⟨1, some 2, 2⟩] := by
    decide +kernel
  obtain ⟨final, run, told⟩ := facts
  have answers : AlongOps (step ramfsFileOps programLookup) ForksAnswer programBoot forkRun := by
    decide +kernel
  exact ⟨final, run, told, (fork_answers_of_run ramfsFileOps programLookup _ _
    forkRun final run).2 answers⟩

/-- The child calls `sched_fork` and sees zero, although no task is added; and
so does a program whose fork finds no memory. -/
theorem fork_answers_zero_without_child :
    (∃ kernel ∈ runOps (step ramfsFileOps programLookup) programBoot forkRun,
      kernel.sched.current () = some 11 ∧
      ∃ call ∈ kernel.schedFork () 12 22 .enough (fun _ => 0) 0,
        call.1.sched.activeTasks = kernel.sched.activeTasks ∧
          call.2.2 = 0 ∧ ¬kernel.ForkAnswered call.1 call.2.2) ∧
    ∃ kernel ∈ runOps (step ramfsFileOps programLookup) programBoot (forkRun.take 3),
      kernel.sched.current () = some 10 ∧
      ∃ call ∈ kernel.schedFork () 11 21 .noSpace (fun _ => 0) 0,
        call.1.sched.activeTasks = kernel.sched.activeTasks ∧
          call.2.2 = 0 ∧ ¬kernel.ForkAnswered call.1 call.2.2 := by
  have alone : ∀ (kernel after : Kernel Unit (List UInt8) RamfsData Unit) (value : Nat),
      value = 0 ∧ ¬kernel.ForkAnswered after value ↔ value = 0 := by
    intro kernel after value
    refine and_iff_left_of_imp ?_
    rintro rfl
    rintro (⟨_, _, _, _, nonzero⟩ | ⟨_, nonzero⟩)
    · exact nonzero rfl
    · exact nonzero rfl
  simp only [alone]
  decide +kernel

end Kernel

end SeekOs.Proc
