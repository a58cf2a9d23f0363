import SeekOs.Proc.LifecycleEffects
import SeekOs.Proc.SchedResume

/-!
# The user stack of a system call

`syscall_handler0` keeps the user stack pointer in `percpu()` and everything
else on the kernel stack of the task.  Interrupts are enabled during the call,
and `__switch_to` exchanges the kernel stacks only: a task that enters a call
while another one is inside replaces the pointer that the other one will load.
The machine below is one processor with its scheduler, the two words of
`percpu()` that the handler uses, and the frames on the kernel stacks.
-/

namespace SeekOs.Proc

open SeekOs.Base SeekOs.Lib Function List Option Sched

/-- What the handler pushes: `syscall` has put the instruction pointer into
`rcx` and the flags into `r11`. -/
def syscallEntry (user : Frame) : Frame
  | .rcx => user .rip
  | .r11 => user .rflags
  | register => user register

/-- What a task continues with behind `sysretq`. -/
def syscallExit (saved : Frame) (ustack value : BitVec 64) : Frame
  | .rsp => ustack
  | .rax => value
  | .rcx => saved .rip
  | .r11 => saved .rflags
  | .cs => setupFrame .cs
  | .ss => setupFrame .ss
  | register => saved register

/-- The registers that a system call leaves, apart from the stack pointer. -/
def Register.isKept : Register → Bool
  | .rsp => false
  | .rax => false
  | .rcx => false
  | .r11 => false
  | .cs => false
  | .ss => false
  | _ => true

theorem syscallExit_syscallEntry (user : Frame) (ustack value : BitVec 64)
    {register : Register} (isKept : register.isKept = true) :
    syscallExit (syscallEntry user) ustack value register = user register := by
  cases register <;> first | rfl | cases isKept

/-- The registers that a task had at the entry to a call, and those that it, or
the task that it has forked, continues with. -/
structure Resumption where
  task : Nat
  entered : Frame
  loaded : Frame

/-- One processor.  `kstack` names the task whose kernel stack is used at the
next entry, and `saved` holds the frames of the tasks inside a call. -/
structure Syscalls where
  sched : Sched Unit
  ustack : BitVec 64
  kstack : Nat
  saved : Nat → Option Frame
  entered : Nat → Frame
  resumed : List Resumption
  forked : List Resumption

inductive SyscallOp where
  | enter (registers : Frame)
  | leave (value : BitVec 64)
  | fork (child : Nat) (record : Task)
  | sched (op : SchedOp Unit)

namespace Syscalls

section

variable (system : Syscalls)

/-- `syscall_handler0` up to the call. -/
def enter (registers : Frame) : Option Syscalls :=
  (system.sched.current ()).bind fun task =>
    if (system.sched.tasks task).mode = .user ∧ system.saved task = none then
      some { system with
        ustack := registers .rsp
        saved := update system.saved system.kstack
          (some (syscallEntry registers))
        entered := update system.entered task registers }
    else
      none

/-- `syscall_handler0` behind the call, with its result. -/
def leave (value : BitVec 64) : Option Syscalls :=
  (system.sched.current ()).bind fun task =>
    (system.saved task).map fun frame =>
      { system with
        kstack := task
        saved := update system.saved task none
        resumed := ⟨task, system.entered task,
          syscallExit frame system.ustack value⟩ :: system.resumed }

/-- The registers that `task_fork` gives to the child. -/
def fork (child : Nat) (record : Task) : Option Syscalls :=
  (system.sched.current ()).bind fun task =>
    (system.saved task).bind fun frame =>
      (system.sched.schedAdd child record).map fun sched =>
        { system with
          sched := sched
          saved := update system.saved child none
          forked := ⟨task, system.entered task,
            forkFrame frame system.ustack⟩ :: system.forked }

/-- Forget the frame of the current task, which does not return from its
call. -/
def dropCurrent : Nat → Option Frame :=
  match system.sched.current () with
  | none => system.saved
  | some task => update system.saved task none

/-- A step of the scheduler.  `sched_again` stores the kernel stack of the next
task, and a task that replaces its image or ends leaves its call. -/
def schedule (op : SchedOp Unit) : Option Syscalls :=
  (system.sched.step op).map fun sched =>
    { system with
      sched := sched
      kstack := match op with
        | .again cpu _ => (sched.runningTasks cpu).getD system.kstack
        | _ => system.kstack
      saved := match op with
        | .add task _ => update system.saved task none
        | .execve _ _ => system.dropCurrent
        | .exit _ _ => system.dropCurrent
        | _ => system.saved }

def step : SyscallOp → Option Syscalls
  | .enter registers => system.enter registers
  | .leave value => system.leave value
  | .fork child record => system.fork child record
  | .sched op => system.schedule op

def boot (idleTask : Nat) : Syscalls where
  sched := Sched.initial (fun _ => ⟨0, 0, .kernel, .dead, 0, none⟩)
    (fun _ => ⟨.unknown, 0, 0⟩) fun _ => idleTask
  ustack := 0
  kstack := idleTask
  saved := fun _ => none
  entered := fun _ => setupFrame
  resumed := []
  forked := []

/-- A task enters a call only with the stack pointer of all that are inside. -/
def SharesStack : SyscallOp → Prop
  | .enter registers => ∀ task ∈ system.sched.live,
      system.saved task ≠ none → system.entered task .rsp = registers .rsp
  | _ => True

instance  : DecidablePred system.SharesStack
  | .enter registers => inferInstanceAs (Decidable
      (∀ task ∈ system.sched.live, system.saved task ≠ none →
        system.entered task .rsp = registers .rsp))
  | .leave _ => inferInstanceAs (Decidable True)
  | .fork _ _ => inferInstanceAs (Decidable True)
  | .sched _ => inferInstanceAs (Decidable True)

end

variable {system next : Syscalls}

/-- The kernel stack of the processor is the one of its task, and the tasks
inside a call are alive and have their frames. -/
structure Sound (system : Syscalls) : Prop where
  sched : system.sched.Sound
  kstack : ∀ task, system.sched.current () = some task → system.kstack = task
  alive : ∀ task, system.saved task ≠ none →
    task ∈ system.sched.live ∧ system.sched.stateOf task ≠ .zombie
  frames : ∀ task frame, system.saved task = some frame → frame = syscallEntry (system.entered task)
  restored : ∀ resumption ∈ system.resumed, ∀ register,
    register.isKept = true → resumption.loaded register = resumption.entered register

theorem dropCurrent_cases (system : Syscalls) (task : Nat) : system.dropCurrent task = none ∨
      system.dropCurrent task = system.saved task ∧ system.sched.current () ≠ some task := by
  rw [dropCurrent]
  cases isCurrent : system.sched.current () with
  | none => exact .inr ⟨rfl, some_ne_none task ∘ Eq.symm⟩
  | some current =>
    by_cases same : task = current
    · subst task
      exact .inl (update_self _ _ _)
    · refine .inr ⟨update_of_ne same _ _, ?_⟩
      rw [Ne, Option.some.injEq]
      exact fun isTask => same isTask.symm

variable {op : SchedOp Unit} {task : Nat}

theorem schedule_eq (done : system.schedule op = some next) :
    system.sched.step op = some next.sched ∧
      next.ustack = system.ustack ∧ next.entered = system.entered ∧
      next.resumed = system.resumed ∧ next.forked = system.forked := by
  obtain ⟨sched, stepped, rfl⟩ := map_eq_some_iff.mp done
  exact ⟨stepped, rfl, rfl, rfl, rfl⟩

/-- A frame that is there after a step was there before, for a task that is
still alive. -/
theorem Sound.schedule_saved (sound : system.Sound) (done : system.schedule op = some next)
    (inside : next.saved task ≠ none) :
    next.saved task = system.saved task ∧ task ∈ next.sched.live ∧
      next.sched.stateOf task ≠ .zombie := by
  obtain ⟨sched, stepped, rfl⟩ := map_eq_some_iff.mp done
  have moves : op.Moves = true → system.saved task ≠ none →
      task ∈ sched.live ∧ sched.stateOf task ≠ .zombie := by
    intro isMove before
    have moved := moved_of_step isMove stepped
    obtain ⟨live, notZombie⟩ := sound.alive task before
    exact ⟨moved.live ▸ live, fun zombie =>
      notZombie (moved.zombie task zombie)⟩
  cases op with
  | again cpu now => exact ⟨rfl, moves rfl inside⟩
  | waitEvent cpu event => exact ⟨rfl, moves rfl inside⟩
  | waitReturn cpu event => exact ⟨rfl, moves rfl inside⟩
  | sleep cpu now millis => exact ⟨rfl, moves rfl inside⟩
  | resumeEvent published => exact ⟨rfl, moves rfl inside⟩
  | add added record =>
    have different : task ≠ added := by
      rintro rfl
      exact inside (update_self _ _ _)
    have unchanged : update system.saved added none task =
      system.saved task := update_of_ne different _ _
    obtain ⟨_, _, live, _, tasks⟩ := schedAdd_spec stepped
    obtain ⟨isLive, notZombie⟩ := sound.alive task (unchanged ▸ inside)
    refine ⟨unchanged, ?_, ?_⟩
    · rw [live]
      exact Finset.mem_insert_of_mem isLive
    · rw [stateOf, tasks, update_of_ne different]
      exact notZombie
  | execve cpu event =>
    rcases system.dropCurrent_cases task with dropped | ⟨kept, _⟩
    · exact absurd dropped inside
    · obtain ⟨current, _, executed⟩ := bind_eq_some_iff.mp stepped
      have moved := moved_execve executed
      obtain ⟨live, notZombie⟩ := sound.alive task (kept ▸ inside)
      exact ⟨kept, moved.live ▸ live, fun zombie => notZombie (moved.zombie task zombie)⟩
  | exit cpu exitcode =>
    rcases system.dropCurrent_cases task with dropped | ⟨kept, different⟩
    · exact absurd dropped inside
    · obtain ⟨current, isCurrent, rfl⟩ := map_eq_some_iff.mp stepped
      obtain ⟨live, notZombie⟩ := sound.alive task (kept ▸ inside)
      have other : task ≠ current := by
        rintro rfl
        exact different isCurrent
      refine ⟨kept, live, ?_⟩
      have state : (system.sched.schedExit cpu current exitcode).stateOf
          task = system.sched.stateOf task := by
        simp [stateOf, schedExit, updateTask, other]
      rw [state]
      exact notZombie
  | wait cpu tid =>
    obtain ⟨isLive, notZombie⟩ := sound.alive task inside
    obtain ⟨current, _, waited⟩ := bind_eq_some_iff.mp stepped
    rw [schedWait] at waited
    cases search : system.sched.findZombie
        (system.sched.tasks current).tgid tid system.sched.cleanupTasks with
    | none =>
      rw [search] at waited
      cases waited
    | some found =>
      rw [search] at waited
      cases found with
      | none =>
        cases waited
        exact ⟨rfl, isLive, notZombie⟩
      | some zombie =>
        cases waited
        have different : task ≠ zombie := by
          rintro rfl
          exact notZombie (sound.sched.cleanupState task (findZombie_mem search))
        exact ⟨rfl, Finset.mem_erase.mpr ⟨different, isLive⟩, notZombie⟩

theorem Sound.schedule_kstack (sound : system.Sound) (done : system.schedule op = some next)
    (isCurrent : next.sched.current () = some task) :
    next.kstack = task := by
  obtain ⟨sched, stepped, rfl⟩ := map_eq_some_iff.mp done
  have nowCurrent : sched.current () = some task := isCurrent
  cases op with
  | again cpu now =>
    have nextSound := Sched.step_sound sound.sched stepped
    obtain ⟨running, _⟩ := nextSound.current_busy nowCurrent
    change (sched.runningTasks ()).getD system.kstack = task
    rw [running]
    rfl
  | exit cpu exitcode =>
    obtain ⟨current, _, rfl⟩ := map_eq_some_iff.mp stepped
    simp [Sched.current, Sched.schedExit] at nowCurrent
  | add added record =>
    apply sound.kstack
    rw [← nowCurrent]
    have added := stepped
    rw [Sched.step, Sched.schedAdd] at added
    split at added
    · cases added
      rfl
    · cases added
  | waitEvent cpu event =>
    obtain ⟨current, _, rfl⟩ := map_eq_some_iff.mp stepped
    exact sound.kstack task nowCurrent
  | waitReturn cpu event =>
    obtain ⟨current, _, returned⟩ := bind_eq_some_iff.mp stepped
    obtain ⟨wakeup, _, rfl⟩ := map_eq_some_iff.mp returned
    exact sound.kstack task nowCurrent
  | sleep cpu now millis =>
    obtain ⟨current, _, slept⟩ := bind_eq_some_iff.mp stepped
    obtain ⟨event, _, rfl⟩ := map_eq_some_iff.mp slept
    exact sound.kstack task nowCurrent
  | resumeEvent published =>
    cases stepped
    obtain ⟨tasks, events, same⟩ := resume_eq published system.sched.activeTasks system.sched
    rw [schedResumeEvent, same] at nowCurrent
    exact sound.kstack task nowCurrent
  | execve cpu event =>
    obtain ⟨current, _, executed⟩ := bind_eq_some_iff.mp stepped
    rw [schedExecve] at executed
    split at executed
    · cases executed
    · cases executed
      exact sound.kstack task nowCurrent
  | wait cpu tid =>
    obtain ⟨current, _, waited⟩ := bind_eq_some_iff.mp stepped
    rw [schedWait] at waited
    split at waited
    · cases waited
    · cases waited
      exact sound.kstack task nowCurrent
    · cases waited
      exact sound.kstack task nowCurrent

theorem Sound.schedule (sound : system.Sound)
    (done : system.schedule op = some next) : next.Sound := by
  obtain ⟨stepped, _, entered, resumed, _⟩ := schedule_eq done
  refine ⟨step_sound sound.sched stepped, fun task => sound.schedule_kstack done, ?_, ?_,
    resumed ▸ sound.restored⟩
  · intro task inside
    exact (sound.schedule_saved done inside).2
  · intro task frame isFrame
    have inside : next.saved task ≠ none := by
      rw [isFrame]
      exact some_ne_none frame
    rw [entered]
    apply sound.frames task frame
    rw [← (sound.schedule_saved done inside).1]
    exact isFrame

variable {registers : Frame}

theorem enter_eq (done : system.enter registers = some next) :
    ∃ task, system.sched.current () = some task ∧ system.saved task = none ∧
      next = { system with
        ustack := registers .rsp
        saved := update system.saved system.kstack
          (some (syscallEntry registers))
        entered := update system.entered task registers } := by
  obtain ⟨task, isCurrent, entered⟩ := bind_eq_some_iff.mp done
  split at entered
  · rename_i outside
    exact ⟨task, isCurrent, outside.2, (Option.some.inj entered).symm⟩
  · cases entered

theorem Sound.enter_spec (sound : system.Sound) (done : system.enter registers = some next) :
    ∃ task, system.sched.current () = some task ∧
      next.sched = system.sched ∧ next.kstack = system.kstack ∧
      next.ustack = registers .rsp ∧
      next.saved = update system.saved task (some (syscallEntry registers)) ∧
      next.entered = update system.entered task registers ∧
      next.resumed = system.resumed ∧ next.forked = system.forked := by
  obtain ⟨task, isCurrent, _, rfl⟩ := enter_eq done
  refine ⟨task, isCurrent, rfl, rfl, rfl, ?_, rfl, rfl, rfl⟩
  rw [sound.kstack task isCurrent]

theorem Sound.enter (sound : system.Sound)
    (done : system.enter registers = some next) : next.Sound := by
  obtain ⟨task, isCurrent, sched, kstack, _, saved, entered, resumed, _⟩ := sound.enter_spec done
  refine ⟨sched ▸ sound.sched, ?_, ?_, ?_, resumed ▸ sound.restored⟩
  · rw [sched, kstack]
    exact sound.kstack
  · intro other inside
    rw [sched]
    by_cases same : other = task
    · rw [same]
      exact sound.sched.current_alive isCurrent
    · rw [saved, update_of_ne same] at inside
      exact sound.alive other inside
  · intro other frame isFrame
    rw [saved] at isFrame
    rw [entered]
    by_cases same : other = task
    · subst other
      rw [update_self, Option.some.injEq] at isFrame
      rw [update_self]
      exact isFrame.symm
    · rw [update_of_ne same] at isFrame
      rw [update_of_ne same]
      exact sound.frames other frame isFrame

theorem Sound.leave (sound : system.Sound) {value : BitVec 64}
    (done : system.leave value = some next) : next.Sound := by
  obtain ⟨task, isCurrent, left⟩ := bind_eq_some_iff.mp done
  obtain ⟨frame, saved, rfl⟩ := map_eq_some_iff.mp left
  have kept : ∀ other, update system.saved task none other ≠ none →
      update system.saved task none other = system.saved other := by
    intro other inside
    by_cases same : other = task
    · subst other
      exact absurd (update_self _ _ _) inside
    · exact update_of_ne same _ _
  refine ⟨sound.sched, ?_, ?_, ?_, ?_⟩
  · intro other isOther
    exact Option.some.inj (isCurrent.symm.trans isOther)
  · intro other inside
    exact sound.alive other (kept other inside ▸ inside)
  · intro other own isOwn
    have isFrame : update system.saved task none other = some own := isOwn
    apply sound.frames other own
    rw [← kept other (by rw [isFrame]; exact some_ne_none own)]
    exact isFrame
  · intro resumption member register isKept
    rcases mem_cons.mp member with rfl | before
    · rw [sound.frames task frame saved]
      exact syscallExit_syscallEntry _ _ _ isKept
    · exact sound.restored resumption before register isKept

theorem fork_eq {child : Nat} {record : Task} (done : system.fork child record = some next) :
    ∃ task frame added, system.sched.current () = some task ∧ system.saved task = some frame ∧
      system.schedule (.add child record) = some added ∧
      next = { added with
        forked := ⟨task, system.entered task,
          forkFrame frame system.ustack⟩ :: system.forked } := by
  obtain ⟨task, isCurrent, forks⟩ := bind_eq_some_iff.mp done
  obtain ⟨frame, isFrame, adds⟩ := bind_eq_some_iff.mp forks
  obtain ⟨sched, added, rfl⟩ := map_eq_some_iff.mp adds
  exact ⟨task, frame, _, isCurrent, isFrame, map_eq_some_iff.mpr ⟨sched, added, rfl⟩, rfl⟩

theorem step_sound (sound : system.Sound) {op : SyscallOp}
    (done : system.step op = some next) : next.Sound := by
  cases op with
  | enter registers => exact sound.enter done
  | leave value => exact sound.leave done
  | fork child record =>
    obtain ⟨_, _, added, _, _, scheduled, rfl⟩ := fork_eq done
    have addedSound := sound.schedule scheduled
    exact ⟨addedSound.sched, addedSound.kstack, addedSound.alive,
      addedSound.frames, addedSound.restored⟩
  | sched op => exact sound.schedule done

/-- Everybody inside a call has the stack pointer in `percpu()`, and everybody
who came out of one has got his own. -/
structure OwnStacks (system : Syscalls) : Prop where
  slot : ∀ task, system.saved task ≠ none → system.ustack = system.entered task .rsp
  resumed : ∀ resumption ∈ system.resumed, resumption.loaded .rsp = resumption.entered .rsp
  forked : ∀ resumption ∈ system.forked, resumption.loaded .rsp = resumption.entered .rsp

theorem OwnStacks.schedule (own : system.OwnStacks) (sound : system.Sound)
    (done : system.schedule op = some next) :
    next.OwnStacks := by
  obtain ⟨_, ustack, entered, resumed, forked⟩ := schedule_eq done
  refine ⟨?_, resumed ▸ own.resumed, forked ▸ own.forked⟩
  intro task inside
  rw [ustack, entered]
  apply own.slot
  rw [← (sound.schedule_saved done inside).1]
  exact inside

theorem OwnStacks.step (own : system.OwnStacks) (sound : system.Sound)
    {op : SyscallOp} (shares : system.SharesStack op)
    (done : system.step op = some next) : next.OwnStacks := by
  cases op with
  | enter registers =>
    obtain ⟨task, isCurrent, _, _, ustack, saved, entered, resumed, forked⟩ := sound.enter_spec done
    refine ⟨?_, resumed ▸ own.resumed, forked ▸ own.forked⟩
    intro other inside
    rw [ustack, entered]
    by_cases same : other = task
    · subst other
      rw [update_self]
    · rw [saved, update_of_ne same] at inside
      rw [update_of_ne same]
      exact (shares other (sound.alive other inside).1 inside).symm
  | leave value =>
    obtain ⟨task, isCurrent, left⟩ := bind_eq_some_iff.mp done
    obtain ⟨frame, isFrame, rfl⟩ := map_eq_some_iff.mp left
    have inside : system.saved task ≠ none := by
      rw [isFrame]
      exact some_ne_none frame
    refine ⟨?_, ?_, own.forked⟩
    · intro other stays
      apply own.slot
      intro outside
      apply stays
      by_cases same : other = task
      · subst other
        exact update_self _ _ _
      · exact (update_of_ne same _ _).trans outside
    · intro resumption member
      rcases mem_cons.mp member with rfl | before
      · exact own.slot task inside
      · exact own.resumed resumption before
  | fork child record =>
    obtain ⟨task, frame, added, _, isFrame, scheduled, rfl⟩ := fork_eq done
    have addedOwn := own.schedule sound scheduled
    have inside : system.saved task ≠ none := by
      rw [isFrame]
      exact some_ne_none frame
    refine ⟨addedOwn.slot, addedOwn.resumed, ?_⟩
    intro resumption member
    rcases mem_cons.mp member with rfl | before
    · exact own.slot task inside
    · exact own.forked resumption before
  | sched op => exact own.schedule sound done

theorem boot_sound (idleTask : Nat) : (boot idleTask).Sound := by
  refine ⟨initial_sound _ _ _, ?_, ?_, ?_, ?_⟩
  · intro task isCurrent
    cases isCurrent
  · intro task inside
    exact absurd rfl inside
  · intro task frame isFrame
    cases isFrame
  · intro resumption member
    cases member

/-- Whatever is switched to during a call, it returns with the kept registers of
its entry. -/
theorem restores_registers {idleTask : Nat} {ops : List SyscallOp}
    (run : runOps step (boot idleTask) ops = some system) :
    ∀ resumption ∈ system.resumed, ∀ register, register.isKept = true →
      resumption.loaded register = resumption.entered register :=
  (runOps_invariant (fun _ _ _ sound done => step_sound sound done)
    (boot_sound idleTask) run).restored

theorem boot_ownStacks (idleTask : Nat) : (boot idleTask).OwnStacks := by
  refine ⟨?_, ?_, ?_⟩
  · intro task inside
    exact absurd rfl inside
  · intro resumption member
    cases member
  · intro resumption member
    cases member

/-- In every run in which tasks enter calls only with the stack pointer of all
that are inside, every call returns to the stack that it was made on, and every
forked task starts on the stack of its parent. -/
theorem returns_to_own_stack {idleTask : Nat} {ops : List SyscallOp}
    (shares : AlongOps step SharesStack (boot idleTask) ops)
    (run : runOps step (boot idleTask) ops = some system) :
    (∀ resumption ∈ system.resumed, resumption.loaded .rsp = resumption.entered .rsp) ∧
    ∀ resumption ∈ system.forked, resumption.loaded .rsp = resumption.entered .rsp := by
  have kept : system.Sound ∧ system.OwnStacks := by
    apply runOps_invariant_along _ _ shares run
    · rintro before op after ⟨sound, own⟩ isShared done
      exact ⟨step_sound sound done, own.step sound isShared done⟩
    · exact ⟨boot_sound idleTask, boot_ownStacks idleTask⟩
  exact ⟨kept.2.resumed, kept.2.forked⟩

/-- The registers of a task whose stack pointer has a value. -/
def frameAt (rsp : BitVec 64) : Frame
  | .rsp => rsp
  | register => setupFrame register

/-- Two tasks with a stack each.  The first one sleeps in a call, and the second
one makes a call meanwhile. -/
def sleepRun (first second : BitVec 64) : List SyscallOp :=
  [.sched (.add 1 ⟨1, 1, .user, .ready, 0, some 10⟩),
    .sched (.add 2 ⟨2, 2, .user, .ready, 0, some 11⟩),
    .sched (.again () 0), .enter (frameAt first),
    .sched (.sleep () 0 10), .sched (.again () 0), .enter (frameAt second),
    .leave 0, .sched (.again () 20), .leave 0]

/-- With one stack pointer both calls return to it. -/
theorem returns_to_own_stack_shared :
    ∃ system, runOps step (boot 0) (sleepRun 4096 4096) = some system ∧
      system.resumed.length = 2 ∧
        ∀ resumption ∈ system.resumed, resumption.loaded .rsp = resumption.entered .rsp := by
  have facts : ∃ system ∈ runOps step (boot 0) (sleepRun 4096 4096), system.resumed.length = 2 := by
    decide +kernel
  have shares : AlongOps step SharesStack (boot 0) (sleepRun 4096 4096) := by
    decide +kernel
  obtain ⟨system, run, both⟩ := facts
  exact ⟨system, run, both, (returns_to_own_stack shares run).1⟩

theorem restores_registers_sleeper :
    ∃ system, runOps step (boot 0) (sleepRun 4096 8192) = some system ∧
      system.resumed.length = 2 ∧
        ∀ resumption ∈ system.resumed, resumption.loaded .rip = resumption.entered .rip := by
  obtain ⟨system, run, both⟩ : ∃ system ∈ runOps step (boot 0) (sleepRun 4096 8192),
      system.resumed.length = 2 := by
    decide +kernel
  exact ⟨system, run, both, fun resumption member =>
    restores_registers run resumption member .rip rfl⟩

/-- The task that has slept returns to the stack pointer of the other one. -/
theorem sleeper_returns_to_other_stack : ∃ system ∈ runOps step (boot 0) (sleepRun 4096 8192),
      ∃ resumption ∈ system.resumed, resumption.task = 1 ∧
        resumption.entered .rsp = 4096 ∧ resumption.loaded .rsp = 8192 := by
  decide +kernel

end Syscalls

end SeekOs.Proc
