import SeekOs.Proc.LifecycleEffects

/-!
# The owners of argument and environment blocks

Each block is held by one field of one task from its allocation on, until the
task frees it.  While `sched_execve` runs, the old blocks are held by its two
local variables.  It loses track of them in two cases: a count of zero leaves
the field of the task as it is, so that the block it frees is still in the
field, and a timer interrupt in front of the calls of `kfree` never comes back
to them.
-/

namespace SeekOs.Proc

open SeekOs.Base SeekOs.Fs SeekOs.Lib Function List Option Sched

section

variable (args : Nat × ArgField → Args)

/-- Who holds a block: the fields of the tasks and the variables `old_u_argv`
and `old_u_envp`. -/
def holders (old : ArgField → Option Nat) : (Nat × ArgField) ⊕ ArgField → Option Nat :=
  Sum.elim (Args.block ∘ args) old

structure HeldBy (old : ArgField → Option Nat) (blocks : Blocks) : Prop where
  owns : Owns (holders args old) blocks.trace
  numbered : ∀ event ∈ blocks.trace, event.item < blocks.count
  counted : ∀ owner, (args owner).block ≠ none → 0 < (args owner).count

/-- The arguments once both fields of a task are cleared. -/
def emptied (task : Nat) (owner : Nat × ArgField) : Args :=
  if owner.1 = task then { args owner with block := none } else args owner

end

section

variable (args : Nat × ArgField → Args)
include args

theorem holders_update (old : ArgField → Option Nat) (owner : Nat × ArgField) (new : Args) :
    holders (update args owner new) old = update (holders args old) (.inl owner) new.block := by
  rw [holders, holders, comp_update, Sum.update_elim_inl]

theorem holders_update_old (old : ArgField → Option Nat) (field : ArgField) (block : Option Nat) :
    holders args (update old field block) = update (holders args old) (.inr field) block := by
  rw [holders, holders, Sum.update_elim_inr]

theorem emptied_eq (task : Nat) : emptied args task = update
      (update args (task, .argv) { args (task, .argv) with block := none })
      (task, .envp) { args (task, .envp) with block := none } := by
  funext owner
  rcases owner with ⟨other, field⟩
  by_cases same : other = task
  · subst other
    cases field with
    | argv => simp [emptied]
    | envp => simp [emptied]
  · have notArgv : (other, field) ≠ (task, .argv) := by simp [same]
    have notEnvp : (other, field) ≠ (task, .envp) := by simp [same]
    rw [update_of_ne notEnvp, update_of_ne notArgv]
    exact if_neg same

@[simp] theorem emptied_block (task : Nat)
    (field : ArgField) : (emptied args task (task, field)).block = none := by
  rw [emptied, if_pos rfl]

end

variable {owner : Nat × ArgField}

variable {args : Nat × ArgField → Args}

theorem emptied_of_none {task : Nat} (none : (args owner).block = none) :
    emptied args task owner = args owner := by
  rw [emptied]
  split
  · rw [← none]
  · rfl

namespace HeldBy

variable {old : ArgField → Option Nat}
  {blocks : Blocks}

section

variable (held : HeldBy args old blocks) {block : Nat}

include held

theorem item_lt {holder : (Nat × ArgField) ⊕ ArgField}
    (points : holders args old holder = some block) : block < blocks.count :=
  held.numbered _ (held.owns.held points).1

theorem recount {new : Nat × ArgField → Args}
    (same : ∀ owner, (new owner).block = (args owner).block)
    (counted : ∀ owner, (new owner).block ≠ none → 0 < (new owner).count) :
    HeldBy new old blocks := by
  refine ⟨?_, held.numbered, counted⟩
  have blocksSame : Args.block ∘ new = Args.block ∘ args := funext same
  rw [holders, blocksSame]
  exact held.owns

private theorem counted_update {new : Args} (positive : new.block ≠ none → 0 < new.count)
    (other : Nat × ArgField)
    (some : (update args owner new other).block ≠ none) :
    0 < (update args owner new other).count := by
  by_cases same : other = owner
  · subst other
    rw [update_self] at some ⊢
    exact positive some
  · rw [update_of_ne same] at some ⊢
    exact held.counted other some

theorem alloc (vacant : (args owner).block = none) {count : Int} (positive : 0 < count)
    (contents : Nat → List UInt8) :
    HeldBy (update args owner ⟨count, some blocks.count⟩) old
      ⟨blocks.count + 1, contents, .alloc blocks.count :: blocks.trace⟩ := by
  refine ⟨?_, ?_, held.counted_update fun _ => positive⟩
  · rw [holders_update]
    apply held.owns.alloc
    · exact vacant
    · intro event member
      exact Nat.ne_of_lt (held.numbered event member)
  · intro event member
    rcases mem_cons.mp member with rfl | earlier
    · exact Nat.lt_succ_self _
    · exact Nat.lt_succ_of_lt (held.numbered event earlier)

theorem read (owner : Nat × ArgField) (points : (args owner).block = some block) :
    HeldBy args old { blocks with trace := .read block :: blocks.trace } := by
  have atOwner : holders args old (.inl owner) = some block := points
  refine ⟨held.owns.read atOwner, ?_, held.counted⟩
  intro event member
  rcases mem_cons.mp member with rfl | earlier
  · exact held.item_lt atOwner
  · exact held.numbered event earlier

/-- The log after the block of a holder was freed, if there was one. -/
private theorem owns_freed (holder : (Nat × ArgField) ⊕ ArgField) :
    Owns (update (holders args old) holder none)
        (((holders args old holder).map UseEvent.free).toList ++ blocks.trace) ∧
      ∀ event ∈ ((holders args old holder).map UseEvent.free).toList ++
        blocks.trace, event.item < blocks.count := by
  cases points : holders args old holder with
  | none =>
    have unchanged : update (holders args old) holder none = holders args old := by
      rw [← points, update_eq_self]
    refine ⟨?_, held.numbered⟩
    rw [unchanged]
    exact held.owns
  | some block =>
    refine ⟨held.owns.free points, ?_⟩
    intro event member
    rcases mem_cons.mp member with rfl | earlier
    · exact held.item_lt points
    · exact held.numbered event earlier

theorem free (owner : Nat × ArgField) :
    HeldBy (update args owner { args owner with block := none }) old
      { blocks with
        trace := ((args owner).block.map UseEvent.free).toList ++
          blocks.trace } := by
  obtain ⟨owns, numbered⟩ := held.owns_freed (.inl owner)
  refine ⟨?_, numbered, held.counted_update fun some => absurd rfl some⟩
  rw [holders_update]
  exact owns

theorem freeOld (field : ArgField) : HeldBy args (update old field none) { blocks with
        trace := ((old field).map UseEvent.free).toList ++
          blocks.trace } := by
  obtain ⟨owns, numbered⟩ := held.owns_freed (.inr field)
  refine ⟨?_, numbered, held.counted⟩
  rw [holders_update_old]
  exact owns

theorem take (owner : Nat × ArgField) (field : ArgField) (vacant : old field = none) :
    HeldBy (update args owner { args owner with block := none })
      (update old field (args owner).block) blocks := by
  refine ⟨?_, held.numbered, held.counted_update fun some => absurd rfl some⟩
  rw [holders_update_old, holders_update]
  exact held.owns.move Sum.inl_ne_inr vacant

end

theorem takeBoth (held : HeldBy args (fun _ => none) blocks) (task : Nat) :
    HeldBy (emptied args task) (fun field => (args (task, field)).block)
      blocks := by
  have tookArgv := held.take (task, .argv) .argv rfl
  have tookBoth := tookArgv.take (task, .envp) .envp (by simp)
  rw [update_of_ne (by simp), ← emptied_eq] at tookBoth
  have locals : update (update (fun _ => none) .argv
      (args (task, .argv)).block) .envp (args (task, .envp)).block =
        fun field => (args (task, field)).block := by
    funext field
    cases field with
    | argv => simp
    | envp => simp
  rw [← locals]
  exact tookBoth

end HeldBy

namespace Kernel

variable {cpus : Type} {φ ι δ : Type*} {kernel after : Kernel cpus φ ι δ}
  {ops : FileOps φ ι δ} {lookup : ι → Text → LookupResult ι}
variable {task event : Nat} {record : Task} {sched : Sched cpus} {field : ArgField}
  {strings : List Text} {next : Sched cpus}

/-- Outside of `sched_execve` all blocks are held by fields. -/
def Held (kernel : Kernel cpus φ ι δ) : Prop :=
  HeldBy kernel.argsOf (fun _ => none) kernel.blocks

/-- A task whose fields hold no block. -/
def Bare (kernel : Kernel cpus φ ι δ) (task : Nat) : Prop :=
  ∀ field, (kernel.argsOf (task, field)).block = none

theorem setupArgs_other (field : ArgField) (task : Nat) (strings : List Text)
    (other : owner ≠ (task, field)) :
    (setupArgs field kernel task strings).argsOf owner = kernel.argsOf owner := by
  by_cases empty : strings = []
  · rw [setupArgs, if_pos empty]
  · rw [setupArgs, if_neg empty, argsOf_setArgs, update_of_ne other]
    rfl

theorem freeArgs_argsOf (field : ArgField) (task : Nat) : (freeArgs field kernel task).argsOf =
      update kernel.argsOf (task, field) { kernel.argsOf (task, field) with block := none } := by
  rw [freeArgs, argsOf_setArgs, freeBlock_eq]
  rfl

/-- A field without a block gets a new one, unless the list is empty. -/
theorem setupArgs_heldBy {kernel : Kernel cpus φ ι δ} {old : ArgField → Option Nat}
    (held : HeldBy args old kernel.blocks)
    (vacant : (args (task, field)).block = none)
    (keeps : strings = [] → args (task, field) = kernel.argsOf (task, field)) :
    HeldBy (update args (task, field) ((setupArgs field kernel task strings).argsOf (task, field)))
      old (setupArgs field kernel task strings).blocks := by
  by_cases empty : strings = []
  · rw [setupArgs, if_pos empty, ← keeps empty, update_eq_self]
    exact held
  · rw [setupArgs, if_neg empty, argsOf_setArgs, update_self]
    apply held.alloc vacant
    exact Int.natCast_pos.mpr (length_pos_iff.mpr empty)

theorem setupArgs_held (held : kernel.Held) (vacant : (kernel.argsOf (task, field)).block = none) :
    (setupArgs field kernel task strings).Held := by
  have updated : update kernel.argsOf (task, field)
      ((setupArgs field kernel task strings).argsOf (task, field)) =
        (setupArgs field kernel task strings).argsOf := by
    rw [update_eq_iff]
    refine ⟨rfl, ?_⟩
    intro owner other
    exact (setupArgs_other field task strings other).symm
  rw [Held, ← updated]
  exact setupArgs_heldBy held vacant fun _ => rfl

theorem freeArgs_held (held : kernel.Held) (field : ArgField) (task : Nat) :
    (freeArgs field kernel task).Held := by
  rw [Held, freeArgs_argsOf]
  have freed := HeldBy.free held (task, field)
  rw [freeArgs, freeBlock_eq]
  exact freed

theorem readArgs_argsOf (field : ArgField) (task : Nat) :
    (readArgs field kernel task).argsOf = kernel.argsOf := by
  rw [readArgs]
  split
  · rfl
  · split
    · rfl
    · rfl

theorem readArgs_held (held : kernel.Held) (field : ArgField) (task : Nat) :
    (readArgs field kernel task).Held := by
  rw [Held, readArgs_argsOf, readArgs]
  split
  · exact held
  · rename_i block points
    split
    · exact HeldBy.read held (task, field) points
    · exact held

theorem freeBoth_argsOf (task : Nat) :
    (freeArgs .envp (freeArgs .argv kernel task) task).argsOf = emptied kernel.argsOf task := by
  rw [freeArgs_argsOf, freeArgs_argsOf, emptied_eq, update_of_ne (by simp)]

theorem freeBoth_bare (task : Nat) :
    (freeArgs .envp (freeArgs .argv kernel task) task).Bare task := by
  intro field
  rw [freeBoth_argsOf, emptied_block]

theorem Bare.freeBoth (bare : kernel.Bare task) (other : Nat) :
    (freeArgs .envp (freeArgs .argv kernel other) other).Bare task := by
  intro field
  rw [freeBoth_argsOf, emptied_of_none (bare field)]
  exact bare field

section Create

theorem taskCreate_argsOf (task event : Nat) (name : Text) (mode : TaskMode)
    (owner : Nat × ArgField) :
    (kernel.taskCreate task event name mode).1.argsOf owner =
      if owner.1 = task then ⟨0, none⟩ else kernel.argsOf owner := by
  rw [argsOf, argsOf]
  by_cases same : owner.1 = task
  · rw [if_pos same, same]
    simp [taskCreate]
  · rw [if_neg same]
    simp [taskCreate, allocTid, same]

theorem taskCreate_held (held : kernel.Held) (bare : kernel.Bare task)
    (event : Nat) (name : Text) (mode : TaskMode) :
    (kernel.taskCreate task event name mode).1.Held := by
  apply HeldBy.recount held
  · rintro ⟨other, field⟩
    rw [taskCreate_argsOf]
    split
    · rename_i same
      subst same
      exact (bare field).symm
    · rfl
  · intro owner
    rw [taskCreate_argsOf]
    split
    · intro some
      exact absurd rfl some
    · exact held.counted owner

/-- A prepared task holds what was set up for it, and nobody else is
touched. -/
theorem prepareTask_held (held : kernel.Held) (bare : kernel.Bare task)
    (event : Nat) (path : Text) (argv : List Text) (cwd : Option Text)
    (envp : List Text) :
    (kernel.prepareTask task event path argv cwd envp).1.Held ∧
      ∀ owner : Nat × ArgField, owner.1 ≠ task →
        (kernel.prepareTask task event path argv cwd envp).1.argsOf owner =
          kernel.argsOf owner := by
  let created := (kernel.taskCreate task event (execName path) .user).1
  have createdHeld : created.Held := taskCreate_held held bare event _ _
  have createdArgs : ∀ field, (created.argsOf (task, field)).block = none := by
    intro field
    rw [taskCreate_argsOf, if_pos rfl]
  let pathed := created.taskSetupPath task path
  have pathedArgs : pathed.argsOf = created.argsOf := argsOf_updateProcess fun _ => rfl
  have pathedHeld : pathed.Held := by
    rw [Held, pathedArgs]
    exact createdHeld
  let named := pathed.taskSetupArgv task argv
  have namedHeld : named.Held := by
    apply setupArgs_held pathedHeld
    rw [pathedArgs]
    exact createdArgs .argv
  have namedArgs : ∀ owner, owner ≠ (task, .argv) → named.argsOf owner = created.argsOf owner := by
    intro owner different
    rw [← pathedArgs]
    exact setupArgs_other .argv task argv different
  obtain ⟨placed, isPlaced, placedArgs, placedBlocks⟩ : ∃ placed,
      (kernel.prepareTask task event path argv cwd envp).1 = setupArgs .envp placed task envp ∧
        placed.argsOf = named.argsOf ∧ placed.blocks = named.blocks := by
    cases cwd with
    | none => exact ⟨named, rfl, rfl, rfl⟩
    | some cwd => exact ⟨_, rfl, argsOf_updateProcess fun _ => rfl, rfl⟩
  have placedHeld : placed.Held := by
    rw [Held, placedArgs, placedBlocks]
    exact namedHeld
  rw [isPlaced]
  refine ⟨?_, ?_⟩
  · apply setupArgs_held placedHeld
    rw [placedArgs, namedArgs _ (by simp)]
    exact createdArgs .envp
  · intro owner other
    have notArgv : owner ≠ (task, .argv) := fun same => other (by rw [same])
    have notEnvp : owner ≠ (task, .envp) := fun same => other (by rw [same])
    rw [setupArgs_other .envp task envp notEnvp, placedArgs,
      namedArgs owner notArgv, taskCreate_argsOf, if_neg other]

end Create

section Fork

/-- A copied field of a child: it gets a block of its own if the parent has
one. -/
theorem copyArgs_effect (kernel : Kernel cpus φ ι δ) (field : ArgField) (parent child : Nat)
    (same : kernel.argsOf (child, field) = kernel.argsOf (parent, field))
    (counted : (kernel.argsOf (parent, field)).block ≠ none →
      0 < (kernel.argsOf (parent, field)).count) :
    ∃ copy, (copyArgs field kernel parent child).argsOf = update kernel.argsOf (child, field) copy ∧
      ∀ args old, HeldBy args old kernel.blocks →
        args (parent, field) = kernel.argsOf (parent, field) →
        (args (child, field)).block = none → parent ≠ child →
        HeldBy (update args (child, field) copy) old
          (copyArgs field kernel parent child).blocks := by
  cases points : (kernel.argsOf (parent, field)).block with
  | none =>
    have unchanged : copyArgs field kernel parent child = kernel := by
      have source : ((kernel.processes parent).args field).block = none := points
      simp only [copyArgs, source]
    refine ⟨kernel.argsOf (parent, field), ?_, ?_⟩
    · rw [unchanged, ← same, update_eq_self]
    · intro args old held _ vacant _
      rw [unchanged]
      refine ⟨?_, held.numbered, ?_⟩
      · rw [holders_update, points, ← vacant]
        have unmoved : update (holders args old)
            (.inl (child, field)) (args (child, field)).block =
              holders args old := update_eq_self _ _
        rw [unmoved]
        exact held.owns
      · intro owner
        by_cases isChild : owner = (child, field)
        · rw [isChild, update_self, points]
          exact fun some => absurd rfl some
        · rw [update_of_ne isChild]
          exact held.counted owner
  | some block =>
    have positive := counted (by rw [points]; exact some_ne_none _)
    have source : ((kernel.processes parent).args field).block = some block := points
    have count : 0 < ((kernel.processes parent).args field).count := positive
    refine ⟨⟨(kernel.argsOf (parent, field)).count, some kernel.blocks.count⟩, ?_, ?_⟩
    · simp only [copyArgs, source, if_pos count]
      exact argsOf_setArgs child field _
    · intro args old held atParent vacant apart
      simp only [copyArgs, source, if_pos count]
      have allocated := held.alloc vacant positive
        (update kernel.blocks.contents kernel.blocks.count (kernel.blocks.contents block))
      apply allocated.read (parent, field)
      rw [update_of_ne (by simp [apart]), atParent]
      exact points

theorem taskFork_held (held : kernel.Held) {child : Nat}
    (bare : kernel.Bare child) (apart : task ≠ child) {saved : Frame}
    {ustack : BitVec 64} {forked : Kernel cpus φ ι δ}
    (done : kernel.taskFork task child event .enough saved ustack = some (forked, some record)) :
    forked.Held ∧ ∀ owner : Nat × ArgField, owner.1 ≠ child →
      forked.argsOf owner = kernel.argsOf owner := by
  obtain ⟨_, _, rfl⟩ := taskFork_enough done
  generalize start : kernel.withChild task child event saved ustack = copied
  have copiedBlocks : copied.blocks = kernel.blocks := by
    rw [← start]
    rfl
  have childArgs : ∀ field, copied.argsOf (child, field) = kernel.argsOf (task, field) := by
    intro field
    simp [← start, withChild, argsOf]
  have otherArgs : ∀ owner : Nat × ArgField, owner.1 ≠ child →
      copied.argsOf owner = kernel.argsOf owner := by
    intro owner other
    simp [← start, withChild, argsOf, other]
  have taskArgs : ∀ field, copied.argsOf (task, field) = kernel.argsOf (task, field) :=
    fun field => otherArgs (task, field) apart
  obtain ⟨first, firstArgs, firstHeld⟩ :=
    copyArgs_effect copied .argv task child (by rw [childArgs, taskArgs])
      (by rw [taskArgs]; exact held.counted _)
  generalize copyArgs .argv copied task child = middle at firstArgs firstHeld
  have middleTask : middle.argsOf (task, .envp) = kernel.argsOf (task, .envp) := by
    rw [firstArgs, update_of_ne (by simp), taskArgs]
  have middleChild : middle.argsOf (child, .envp) = kernel.argsOf (task, .envp) := by
    rw [firstArgs, update_of_ne (by simp), childArgs]
  obtain ⟨second, secondArgs, secondHeld⟩ :=
    copyArgs_effect middle .envp task child (by rw [middleChild, middleTask])
      (by rw [middleTask]; exact held.counted _)
  -- the two copies replace everything that the child got from its parent
  have finalArgs : (copyArgs .envp middle task child).argsOf =
      update (update kernel.argsOf (child, .argv) first) (child, .envp) second := by
    rw [secondArgs, firstArgs]
    funext owner
    rcases owner with ⟨other, field⟩
    by_cases isChild : other = child
    · subst other
      cases field with
      | argv => simp
      | envp => simp
    · have notArgv : (other, field) ≠ (child, .argv) := by simp [isChild]
      have notEnvp : (other, field) ≠ (child, .envp) := by simp [isChild]
      rw [update_of_ne notEnvp, update_of_ne notArgv, update_of_ne notEnvp, update_of_ne notArgv]
      exact otherArgs (other, field) isChild
  refine ⟨?_, ?_⟩
  · rw [Held, finalArgs]
    apply secondHeld
    · apply firstHeld
      · rw [copiedBlocks]
        exact held
      · exact (taskArgs .argv).symm
      · exact bare .argv
      · exact apart
    · rw [update_of_ne (by simp), middleTask]
    · rw [update_of_ne (by simp)]
      exact bare .envp
    · exact apart
  · intro owner other
    have notArgv : owner ≠ (child, .argv) := fun same => other (by rw [same])
    have notEnvp : owner ≠ (child, .envp) := fun same => other (by rw [same])
    rw [finalArgs, update_of_ne notEnvp, update_of_ne notArgv]

end Fork

section Execve

variable (kernel)

/-- What `sched_execve` asks for: a field that keeps its block because the new
list is empty has none, and no block is left to free when the timer
interrupts. -/
def ExecveFrees (task : Nat) (argv envp : List Text) (ending : ExecveEnd) : Prop :=
  (argv = [] → (kernel.argsOf (task, .argv)).block = none) ∧
    (envp = [] → (kernel.argsOf (task, .envp)).block = none) ∧
    match ending with
    | .frees => True
    | .interruptedSecond => (kernel.argsOf (task, .envp)).block = none
    | .interruptedFirst => kernel.Bare task

instance  (task : Nat) : Decidable (kernel.Bare task) :=
  decidable_of_iff
    ((kernel.argsOf (task, .argv)).block = none ∧ (kernel.argsOf (task, .envp)).block = none)
    ⟨fun both field => field.casesOn both.1 both.2, fun bare => ⟨bare .argv, bare .envp⟩⟩

instance  (task : Nat) (argv envp : List Text) :
    (ending : ExecveEnd) → Decidable (kernel.ExecveFrees task argv envp ending)
  | .frees => inferInstanceAs (Decidable (_ ∧ _ ∧ True))
  | .interruptedSecond =>
    inferInstanceAs (Decidable (_ ∧ _ ∧ (kernel.argsOf (task, .envp)).block = none))
  | .interruptedFirst =>
    inferInstanceAs (Decidable (_ ∧ _ ∧ kernel.Bare task))

variable {kernel}

variable {ending : ExecveEnd}

/-- The variables `old_u_argv` and `old_u_envp` are freed, as far as there is
something to free. -/
theorem freeOldArgs_heldBy {blocks : Blocks} {oldArgs : ArgField → Args}
    (held : HeldBy args (fun field => (oldArgs field).block) blocks)
    (frees : match ending with
      | .frees => True
      | .interruptedSecond => (oldArgs .envp).block = none
      | .interruptedFirst => ∀ field, (oldArgs field).block = none) :
    HeldBy args (fun _ => none) { blocks with
      trace := oldFrees oldArgs ending ++ blocks.trace } := by
  have argvFreed := held.freeOld .argv
  have bothFreed := argvFreed.freeOld .envp
  cases ending with
  | frees =>
    have allFreed : update (update
        (fun field => (oldArgs field).block) .argv none) .envp none = fun _ => none := by
      funext field
      cases field with
      | argv => simp
      | envp => simp
    rw [allFreed] at bothFreed
    simpa [oldFrees] using bothFreed
  | interruptedSecond =>
    have allFreed : update (fun field => (oldArgs field).block) .argv none = fun _ => none := by
      funext field
      cases field with
      | argv => simp
      | envp => simpa using frees
    rw [allFreed] at argvFreed
    exact argvFreed
  | interruptedFirst =>
    have allFree : (fun field => (oldArgs field).block) = fun _ => none := funext frees
    rw [allFree] at held
    exact held

/-- Replacing an image frees the old blocks and leaves the new ones with the
task. -/
theorem schedExecve_held (held : kernel.Held) {path : Text} {argv envp : List Text}
    (frees : kernel.ExecveFrees task argv envp ending)
    {setup : Kernel cpus φ ι δ}
    (isSetup : setup = ((kernel.taskSetupPath task path).taskSetupArgv task
      argv).taskSetupEnv task envp) :
    HeldBy setup.argsOf (fun _ => none) { setup.blocks with
        trace := oldFrees (kernel.processes task).args ending ++
          setup.blocks.trace } ∧
      ∀ owner : Nat × ArgField, owner.1 ≠ task → setup.argsOf owner = kernel.argsOf owner := by
  obtain ⟨keepsArgv, keepsEnvp, ends⟩ := frees
  let pathed := kernel.taskSetupPath task path
  have pathedArgs : pathed.argsOf = kernel.argsOf := argsOf_updateProcess fun _ => rfl
  let named := pathed.taskSetupArgv task argv
  have setupIs : setup = setupArgs .envp named task envp := isSetup
  have namedOther : ∀ owner, owner ≠ (task, .argv) → named.argsOf owner = kernel.argsOf owner := by
    intro owner different
    rw [← pathedArgs]
    exact setupArgs_other .argv task argv different
  have setupOther : ∀ owner, owner ≠ (task, .envp) → setup.argsOf owner = named.argsOf owner := by
    intro owner different
    rw [setupIs]
    exact setupArgs_other .envp task envp different
  -- both old blocks go to the local variables
  have taken : HeldBy (emptied kernel.argsOf task)
      (fun field => (kernel.argsOf (task, field)).block) pathed.blocks :=
    HeldBy.takeBoth held task
  -- the new blocks go to the empty fields
  have namedHeld : HeldBy
      (update (emptied kernel.argsOf task) (task, .argv) (named.argsOf (task, .argv)))
      (fun field => (kernel.argsOf (task, field)).block) named.blocks := by
    apply setupArgs_heldBy taken (emptied_block _ _ _)
    intro empty
    rw [pathedArgs]
    exact emptied_of_none (keepsArgv empty)
  have setupHeld : HeldBy
      (update
        (update (emptied kernel.argsOf task) (task, .argv)
          (named.argsOf (task, .argv))) (task, .envp)
        (setup.argsOf (task, .envp)))
      (fun field => (kernel.argsOf (task, field)).block) setup.blocks := by
    rw [setupIs]
    apply setupArgs_heldBy namedHeld
    · rw [update_of_ne (by simp)]
      exact emptied_block _ _ _
    · intro empty
      rw [update_of_ne (by simp), namedOther _ (by simp)]
      exact emptied_of_none (keepsEnvp empty)
  have final : update
      (update (emptied kernel.argsOf task) (task, .argv) (named.argsOf (task, .argv))) (task, .envp)
      (setup.argsOf (task, .envp)) = setup.argsOf := by
    rw [update_eq_iff]
    refine ⟨rfl, ?_⟩
    rintro ⟨other, field⟩ notEnvp
    by_cases isArgv : (other, field) = (task, .argv)
    · rw [isArgv, update_self, setupOther _ (by simp)]
    · have elsewhere : other ≠ task := by
        rintro rfl
        cases field with
        | argv => exact isArgv rfl
        | envp => exact notEnvp rfl
      rw [update_of_ne isArgv, setupOther _ notEnvp, namedOther _ isArgv]
      exact if_neg elsewhere
  rw [final] at setupHeld
  refine ⟨freeOldArgs_heldBy setupHeld ?_, ?_⟩
  · cases ending with
    | frees => trivial
    | interruptedSecond => exact ends
    | interruptedFirst => exact ends
  · intro owner elsewhere
    rw [setupOther _ fun same => elsewhere (by rw [same]),
      namedOther _ fun same => elsewhere (by rw [same])]

end Execve

/-- A task that is not there, or that has exited. -/
def Ended (sched : Sched cpus) (task : Nat) : Prop :=
  task ∉ sched.live ∨ sched.stateOf task = .zombie

theorem Ended.of_moved (moved : Sched.Moved sched next) (ended : Ended next task) :
    Ended sched task := by
  rcases ended with reaped | zombie
  · left
    rw [← moved.live]
    exact reaped
  · exact .inr (moved.zombie task zombie)

section Runs

variable [Fintype cpus] {cpu : cpus}

structure Tidy (kernel : Kernel cpus φ ι δ) : Prop where
  sound : kernel.sched.Sound
  held : kernel.Held
  ended : ∀ task, Ended kernel.sched task → kernel.Bare task

theorem Tidy.current_alive (tidy : kernel.Tidy) (isCurrent : kernel.sched.current cpu = some task) :
    ¬Ended kernel.sched task := by
  obtain ⟨isLive, notZombie⟩ := tidy.sound.current_alive isCurrent
  rintro (reaped | zombie)
  · exact reaped isLive
  · exact notZombie zombie

/-- Only the files, the answers and the ids change, or the scheduler moves
tasks. -/
theorem Tidy.of_moved (tidy : kernel.Tidy) (sound : after.sched.Sound)
    (moved : Sched.Moved kernel.sched after.sched) (held : after.Held)
    (args : after.argsOf = kernel.argsOf) : after.Tidy := by
  refine ⟨sound, held, ?_⟩
  intro task ended field
  rw [args]
  exact tidy.ended task (ended.of_moved moved) field

theorem schedAdd_added (added : sched.schedAdd task record = some next) :
    task ∉ sched.live ∧ ¬Ended next task ∧
      ∀ other, other ≠ task → Ended next other → Ended sched other := by
  obtain ⟨isNew, ready, live, _, tasks⟩ := schedAdd_spec added
  refine ⟨isNew, ?_, ?_⟩
  · rintro (reaped | zombie)
    · rw [live] at reaped
      exact reaped (Finset.mem_insert_self task sched.live)
    · rw [stateOf, tasks, update_self, ready] at zombie
      cases zombie
  · intro other different ended
    rcases ended with reaped | zombie
    · left
      intro isLive
      rw [live] at reaped
      exact reaped (Finset.mem_insert_of_mem isLive)
    · right
      rw [stateOf, tasks, update_of_ne different] at zombie
      exact zombie

theorem Tidy.fresh (tidy : kernel.Tidy) (added : (kernel.sched.updateEvent event fun _ =>
      ⟨.unknown, 0, 0⟩).schedAdd task record = some sched) :
    kernel.Bare task :=
  tidy.ended task (.inl (schedAdd_added added).1)

theorem Tidy.of_add (tidy : kernel.Tidy) (sound : after.sched.Sound)
    (added : (kernel.sched.updateEvent event fun _ =>
      ⟨.unknown, 0, 0⟩).schedAdd task record = some after.sched)
    (held : after.Held) (others : ∀ owner : Nat × ArgField, owner.1 ≠ task →
      after.argsOf owner = kernel.argsOf owner) : after.Tidy := by
  obtain ⟨_, alive, before⟩ := schedAdd_added added
  refine ⟨sound, held, ?_⟩
  intro other ended field
  have different : other ≠ task := by
    rintro rfl
    exact alive ended
  rw [others (other, field) different]
  exact tidy.ended other (before other different ended) field

theorem boot_tidy (tables : FileTables φ ι δ) (idleTasks : cpus → Nat) :
    (boot tables idleTasks : Kernel cpus φ ι δ).Tidy := by
  refine ⟨boot_sound tables idleTasks, ⟨?_, ?_, ?_⟩, ?_⟩
  · apply Owns.nothing
    intro holder
    cases holder with
    | inl owner => rfl
    | inr field => rfl
  · intro event member
    exact absurd member not_mem_nil
  · intro owner some
    exact absurd rfl some
  · intro task _ field
    rfl

variable [DecidableEq cpus]

theorem Tidy.of_exit (tidy : kernel.Tidy) {exitcode : Int} (sound : after.sched.Sound)
    (done : kernel.schedExit ops cpu exitcode = some after) :
    after.Tidy := by
  obtain ⟨task, tables, isCurrent, rfl⟩ := schedExit_eq done
  refine ⟨sound, freeArgs_held (freeArgs_held tidy.held .argv task) .envp task, ?_⟩
  intro other ended
  by_cases isTask : other = task
  · subst other
    exact freeBoth_bare task
  · apply Bare.freeBoth
    apply tidy.ended
    rcases ended with reaped | zombie
    · exact .inl reaped
    · right
      simpa [Sched.stateOf, Sched.schedExit, Sched.updateTask, isTask] using zombie

/-- What a call of `sched_execve` must meet. -/
def Frees (kernel : Kernel cpus φ ι δ) : KernelOp cpus → Prop
  | .execve cpu _ path argv envp ending =>
    path ≠ [] → ∀ task ∈ kernel.sched.current cpu, kernel.ExecveFrees task argv envp ending
  | _ => True

omit [Fintype cpus] [DecidableEq cpus] in
instance (kernel : Kernel cpus φ ι δ) : DecidablePred kernel.Frees
  | .execve cpu _ path argv envp ending =>
    inferInstanceAs (Decidable (path ≠ [] →
      ∀ task ∈ kernel.sched.current cpu, kernel.ExecveFrees task argv envp ending))
  | .createKernelTask _ _ _ => .isTrue trivial
  | .execveFirst _ _ _ _ _ _ _ => .isTrue trivial
  | .spawn _ _ _ _ _ => .isTrue trivial
  | .fork _ _ _ _ _ _ => .isTrue trivial
  | .start _ _ => .isTrue trivial
  | .exit _ _ => .isTrue trivial
  | .wait _ _ => .isTrue trivial
  | .sched _ => .isTrue trivial

theorem step_tidy (tidy : kernel.Tidy) {op : KernelOp cpus} (frees : kernel.Frees op)
    (stepped : kernel.step ops lookup op = some after) : after.Tidy := by
  have sound := step_sound tidy.sound stepped
  cases op with
  | createKernelTask task event name =>
    obtain ⟨sched, added, rfl⟩ := createKernelTask_eq stepped
    apply tidy.of_add sound added
    · exact taskCreate_held tidy.held (tidy.fresh added) event name .kernel
    · intro owner other
      exact (taskCreate_argsOf task event name .kernel owner).trans (if_neg other)
  | execveFirst cpu task event path argv cwd envp =>
    obtain ⟨sched, added, rfl⟩ := schedExecveFirst_eq stepped
    obtain ⟨held, others⟩ := prepareTask_held tidy.held (tidy.fresh added) event path argv cwd envp
    exact tidy.of_add sound added held others
  | spawn cpu task event path argv =>
    obtain ⟨current, sched, _, added, rfl⟩ := schedSpawn_eq stepped
    obtain ⟨held, others⟩ := prepareTask_held tidy.held (tidy.fresh added)
      event path argv (some (kernel.processes current).cwd) []
    exact tidy.of_add sound added held others
  | fork cpu child event memory saved ustack =>
    obtain ⟨task, isCurrent, rest⟩ := bind_eq_some_iff.mp stepped
    obtain ⟨⟨forked, created, value⟩, forking, same⟩ := map_eq_some_iff.mp rest
    cases same
    rcases schedFork_cases isCurrent forking with
      ⟨_, _, _, rfl⟩ | ⟨_, _, _, _, same⟩ | ⟨_, _, copied, record, sched, copying, added, _, _, rfl⟩
    · have args : (kernel.updateProcess task fun process =>
          { process with isFork := false }).argsOf = kernel.argsOf :=
        argsOf_updateProcess fun _ => rfl
      apply tidy.of_moved sound (.refl _)
      · rw [Held]
        exact args ▸ tidy.held
      · exact args
    · rcases same with rfl | rfl
      · exact tidy.of_moved sound (.refl _) tidy.held rfl
      · exact tidy.of_moved sound (.refl _) tidy.held rfl
    · have apart : task ≠ child := by
        rintro rfl
        exact tidy.current_alive isCurrent (.inl (schedAdd_added added).1)
      obtain ⟨held, others⟩ := taskFork_held tidy.held (tidy.fresh added) apart copying
      exact tidy.of_add sound added held others
  | execve cpu event path argv envp ending =>
    rcases schedExecve_cases stepped with ⟨_, rfl⟩ |
      ⟨named, task, sched, tables, setup, isCurrent, executed, isSetup, rfl⟩
    · exact tidy
    · obtain ⟨held, others⟩ := schedExecve_held tidy.held (frees named task isCurrent) isSetup
      rw [freeOldArgs_eq] at sound ⊢
      generalize isReset : updateProcess
        { setup with tables := tables, sched := sched } task _ = reset
        at sound ⊢
      have args : reset.argsOf = setup.argsOf := by
        rw [← isReset]
        exact argsOf_updateProcess fun _ => rfl
      have blocks : reset.blocks = setup.blocks := by
        rw [← isReset]
        rfl
      have schedIs : reset.sched = sched := by
        rw [← isReset]
        rfl
      rw [← args, ← blocks] at held
      refine ⟨sound, held, ?_⟩
      intro other ended field
      have before : Ended kernel.sched other := by
        apply Ended.of_moved (moved_execve executed)
        rw [← schedIs]
        exact ended
      have elsewhere : other ≠ task := by
        rintro rfl
        exact tidy.current_alive isCurrent before
      change (reset.argsOf (other, field)).block = none
      rw [args, others (other, field) elsewhere]
      exact tidy.ended other before field
  | start cpu loads =>
    obtain ⟨task, tables, running, isCurrent, _, rfl, results⟩ := start_cases stepped
    generalize isRunning : updateProcess { kernel with tables := tables }
      task (fun process => { process with started := true }) = running
      at results
    have args : running.argsOf = kernel.argsOf := by
      rw [← isRunning]
      exact argsOf_updateProcess fun _ => rfl
    have blocks : running.blocks = kernel.blocks := by rw [← isRunning]; rfl
    have sched : running.sched = kernel.sched := by rw [← isRunning]; rfl
    have runningTidy : running.Tidy := by
      apply tidy.of_moved
      · rw [sched]
        exact tidy.sound
      · rw [sched]
        exact .refl _
      · rw [Held, args, blocks]
        exact tidy.held
      · exact args
    rcases results with ⟨_, rfl⟩ | ⟨_, rfl | ended⟩
    · exact runningTidy.of_moved sound (.refl _) runningTidy.held rfl
    · apply runningTidy.of_moved sound
      · rw [readArgs_sched, readArgs_sched]
        exact .refl _
      · exact readArgs_held (readArgs_held runningTidy.held .argv task) .envp task
      · rw [readArgs_argsOf, readArgs_argsOf]
    · exact runningTidy.of_exit sound ended
  | exit cpu exitcode => exact tidy.of_exit sound stepped
  | wait cpu tid =>
    rcases schedWait_cases stepped with rfl | ⟨task, zombie, tables, _, search, sched, waited, rfl⟩
    · exact tidy
    · have reaped := schedWait_found search waited
      refine ⟨sound, freeArgs_held (freeArgs_held tidy.held .argv zombie) .envp zombie, ?_⟩
      intro other ended
      by_cases isZombie : other = zombie
      · subst other
        exact freeBoth_bare zombie
      · apply Bare.freeBoth
        apply tidy.ended
        rw [reaped] at ended
        rcases ended with gone | isEnded
        · left
          intro isLive
          exact gone (Finset.mem_erase.mpr ⟨isZombie, isLive⟩)
        · right
          simpa [stateOf, updateTask, isZombie] using isEnded
  | sched op =>
    obtain ⟨moves, sched, moved, rfl⟩ := step_sched_eq stepped
    exact tidy.of_moved sound (moved_of_step moves moved) tidy.held rfl

/-- Every block has one owner until it is freed, is freed at most once and not
used afterwards, and belongs to a task that has not ended. -/
structure BlocksOwned (kernel : Kernel cpus φ ι δ) : Prop where
  used : WellUsed kernel.blocks.trace
  owned : ∀ block, .alloc block ∈ kernel.blocks.trace →
    .free block ∉ kernel.blocks.trace → ∃! owner, (kernel.argsOf owner).block = some block
  freed : ∀ block, .free block ∈ kernel.blocks.trace →
    kernel.blocks.trace.count (.free block) = 1 ∧ ∀ owner, (kernel.argsOf owner).block ≠ some block
  ended : ∀ task, task ∉ kernel.sched.live ∨
    kernel.sched.stateOf task = .zombie → ∀ field, (kernel.argsOf (task, field)).block = none

omit [DecidableEq cpus] in
theorem Tidy.blocksOwned (tidy : kernel.Tidy) : kernel.BlocksOwned := by
  have owns := tidy.held.owns
  refine ⟨owns.used, ?_, ?_, tidy.ended⟩
  · intro block allocated unfreed
    obtain ⟨holder, points⟩ := owns.owned ⟨allocated, unfreed⟩
    cases holder with
    | inl owner =>
      refine ⟨owner, points, ?_⟩
      intro other otherPoints
      have pointsOther : holders kernel.argsOf (fun _ => none)
          (.inl other) = some block := otherPoints
      exact Sum.inl_injective (owns.unique pointsOther points)
    | inr field => cases points
  · intro block freed
    have atLeast := count_pos_iff.mpr freed
    have atMost := owns.used.free_count block
    refine ⟨by omega, ?_⟩
    intro owner points
    have held : holders kernel.argsOf (fun _ => none) (.inl owner) = some block := points
    exact (owns.held held).2 freed

/-- In every history whose calls of `sched_execve` find what they free, every
block has one owner, and is freed once and not used afterwards. -/
theorem blocksOwned_of_run (ops : FileOps φ ι δ)
    (lookup : ι → Text → LookupResult ι) (tables : FileTables φ ι δ)
    (idleTasks : cpus → Nat) (steps : List (KernelOp cpus))
    (final : Kernel cpus φ ι δ)
    (frees : AlongOps (step ops lookup) Frees (boot tables idleTasks) steps)
    (run : runOps (step ops lookup) (boot tables idleTasks) steps =
      some final) : final.BlocksOwned := by
  have tidy : final.Tidy :=
    runOps_invariant_along
      (fun _ _ _ isTidy condition stepped =>
        step_tidy isTidy condition stepped)
      (boot_tidy tables idleTasks) frees run
  exact tidy.blocksOwned

end Runs

/-- The first program starts with an argument and a variable, forks, and
executes another image with one of each; the child gets the processor, and
exits. -/
def argumentRun : List (KernelOp Unit) :=
  [.execveFirst () 10 20 programPath [[0x61]] (some [slash]) [[0x50]],
    .sched (.again () 1), .start () true,
    .fork () 11 21 .enough (fun _ => 0) 0,
    .execve () 22 programPath [[0x62]] [[0x51]] .frees,
    .sched (.again () 2), .start () true, .exit () 0]

theorem blocksOwned_of_run_argument :
    ∃ final, runOps (step ramfsFileOps programLookup) programBoot argumentRun = some final ∧
      final.BlocksOwned := by
  obtain ⟨final, run⟩ := isSome_iff_exists.mp
    (by decide +kernel : (runOps (step ramfsFileOps programLookup)
      programBoot argumentRun).isSome = true)
  have frees : AlongOps (step ramfsFileOps programLookup) Frees programBoot
      argumentRun := by
    decide +kernel
  exact ⟨final, run, blocksOwned_of_run ramfsFileOps programLookup _ _ argumentRun final frees run⟩

/-- The first program, which has an environment, executes an image with a new
one, and exits. -/
def environmentRun (envp : List Text) (ending : ExecveEnd) : List (KernelOp Unit) :=
  [.execveFirst () 10 20 programPath [] (some [slash]) [[0x50]],
    .sched (.again () 1), .start () true,
    .execve () 21 programPath [[0x62]] envp ending,
    .sched (.again () 2), .start () true, .exit () 0]

/-- Without a new environment the block of the old one stays in the task: it is
read after it was freed, and freed again.  When the timer interrupts in time, an old block is
never freed and belongs to nobody. -/
theorem old_environment_misused :
    (∃ kernel ∈ runOps (step ramfsFileOps programLookup) programBoot (environmentRun [] .frees),
      kernel.blocks.trace = [.free 0, .free 1, .read 0, .read 1, .free 0,
        .alloc 1, .read 0, .alloc 0] ∧
      ¬kernel.BlocksOwned) ∧
    ∃ kernel ∈ runOps (step ramfsFileOps programLookup) programBoot
        (environmentRun [[0x51]] .interruptedSecond),
      kernel.blocks.trace = [.free 2, .free 1, .read 2, .read 1, .alloc 2,
        .alloc 1, .read 0, .alloc 0] ∧
      ¬kernel.BlocksOwned := by
  refine ⟨?_, ?_⟩
  · have facts : ∃ kernel ∈ runOps (step ramfsFileOps programLookup)
        programBoot (environmentRun [] .frees),
        kernel.blocks.trace = [.free 0, .free 1, .read 0, .read 1, .free 0,
          .alloc 1, .read 0, .alloc 0] := by
      decide +kernel
    obtain ⟨kernel, run, trace⟩ := facts
    refine ⟨kernel, run, trace, ?_⟩
    intro owned
    have used := owned.used
    rw [trace] at used
    exact absurd used (by decide)
  · have facts : ∃ kernel ∈ runOps (step ramfsFileOps programLookup)
        programBoot (environmentRun [[0x51]] .interruptedSecond),
        kernel.blocks.trace = [.free 2, .free 1, .read 2, .read 1, .alloc 2,
          .alloc 1, .read 0, .alloc 0] ∧
        kernel.sched.stateOf 10 = .zombie ∧ kernel.sched.live = {10} := by
      decide +kernel
    obtain ⟨kernel, run, trace, zombie, live⟩ := facts
    refine ⟨kernel, run, trace, ?_⟩
    intro owned
    obtain ⟨⟨task, field⟩, points, _⟩ := owned.owned 0 (by rw [trace]; decide)
      (by rw [trace]; decide)
    have ended : task ∉ kernel.sched.live ∨ kernel.sched.stateOf task = .zombie := by
      rw [live, Finset.mem_singleton]
      by_cases same : task = 10
      · rw [same]
        exact .inr zombie
      · exact .inl same
    rw [owned.ended task ended field] at points
    cases points

end Kernel

end SeekOs.Proc
