import SeekOs.Fs.WorkingDirectory

/-!
# The buffers of the calls that take a path

`sys_open`, `sys_chdir`, `sched_execve` and `sched_spawn` copy a path and have it
resolved.  Every buffer on the way has 256 bytes, apart from the copy of
`sys_open`, which is as long as it needs to be.  Here the resolver is followed
through the contents of its buffers.
-/

namespace SeekOs.Fs

open SeekOs.Lib List Option

variable {ι : Type*} {rest : List Token}

/-! ## The code -/

/-- A buffer of `VFS_MAX_PATH_LENGTH` zeros. -/
def pathBuffer : List UInt8 :=
  List.replicate vfsMaxPathLength 0

/-- `temp_path` of `sys_open`, which comes from `kzalloc`. -/
def sysOpenCopy (path : Text) : Option (List UInt8) :=
  let pathlen := min path.length vfsMaxPathLength
  store (List.replicate (pathlen + 1) 0) 0 (path.take pathlen)

/-- `temp_path` of `sched_execve` and of `sched_spawn`. -/
def tempPathCopy (path : Text) : Option (List UInt8) :=
  store pathBuffer 0 path

/-- `full_path` of `sys_chdir`, as `vfs_get_full_path` fills it with a text, and
the working directory of the task. -/
def chdirCopies (fullPath : Text) : Option (List UInt8 × List UInt8) := do
  let copyLen := min fullPath.length (vfsMaxPathLength - 1)
  let copied ← store pathBuffer 0 (fullPath.take copyLen)
  let buff ← store copied copyLen [0]
  let plen ← textLength buff
  let plen := if vfsMaxPathLength ≤ plen then vfsMaxPathLength - 1 else plen
  let cwd ← store pathBuffer 0 (buff.take plen)
  return (buff, cwd)

/-- What `tmppath` and `nextpath` hold after each call of `vfs_next_path` in the
loop of `vfs_resolve_path`. -/
def loopBuffers (lookup : ι → Text → LookupResult ι) :
    Nat → Vfs ι → List UInt8 → List UInt8 → Option Nat → Nat → List (List UInt8)
  | 0, _, _, _, _, _ => []
  | fuel + 1, vfs, tmppath, nextpath, current, parent =>
    match vfsNextPath tmppath nextpath vfsMaxPathLength true with
    | none => []
    | some (hasnext, tmppath, nextpath) =>
      tmppath :: nextpath ::
        if !hasnext then []
        else
          match resolveComponent lookup vfs current parent (textOf nextpath) with
          | .ok (vfs, some (current, parent)) =>
            loopBuffers lookup fuel vfs tmppath nextpath current parent
          | _ => []

section

variable (lookup : ι → Text → LookupResult ι)

/-- What the buffers of `vfs_resolve_path` hold on the way. -/
def resolveBuffers (vfs : Vfs ι) (cwd path : Text) : List (List UInt8) :=
  match vfs.vfsRoot with
  | none => []
  | some root =>
    if path = [slash] then []
    else
      match wholePath cwd path with
      | none => []
      | some whole =>
        whole ::
          match (textLength whole).bind fun length =>
              store pathBuffer 0 (whole.take length) with
          | none => []
          | some tmppath =>
            tmppath :: loopBuffers lookup (vfsMaxPathLength + 1) vfs tmppath pathBuffer none root

/-! ## Buffers that are kept -/

/-- The buffer has its size, and a terminator in it. -/
def Terminated (size : Nat) (buffer : List UInt8) : Prop :=
  buffer.length = size ∧ (0 : UInt8) ∈ buffer

/-- The resolver writes inside its buffers and leaves a terminator in each. -/
structure ResolverKept (vfs : Vfs ι) (cwd path : Text) : Prop where
  inside : vfsResolvePath lookup vfs cwd path ≠ .error .overrun
  terminated : ∀ buffer ∈ resolveBuffers lookup vfs cwd path, Terminated vfsMaxPathLength buffer

inductive PathCall where
  | sysOpen
  | sysChdir
  | schedExecve
  | schedSpawn
  deriving DecidableEq

/-- The path of a program is copied, and resolved when the program is loaded;
`task_setup_path` shortens it before. -/
def ProgramKept (vfs : Vfs ι) (cwd path : Text) : Prop :=
  ∃ copy, tempPathCopy path = some copy ∧ Terminated vfsMaxPathLength copy ∧
    ResolverKept lookup vfs cwd ((textOf copy).take (vfsMaxPathLength - 1))

/-- The call and what it makes of the path: its own copies, and the resolver on
the text that reaches it. -/
def PathCall.Kept (vfs : Vfs ι) (cwd path : Text) : PathCall → Prop
  | .sysOpen =>
    ∃ copy, sysOpenCopy path = some copy ∧ Terminated (min path.length vfsMaxPathLength + 1) copy ∧
      ResolverKept lookup vfs cwd (textOf copy)
  | .sysChdir =>
    ResolverKept lookup vfs cwd path ∧
      ∀ fullPath : Text, (0 : UInt8) ∉ fullPath →
        ∃ buff copy, chdirCopies fullPath = some (buff, copy) ∧ Terminated vfsMaxPathLength buff ∧
          Terminated vfsMaxPathLength copy
  | .schedExecve =>
    -- an empty path is refused
    path = [] ∨ ProgramKept lookup vfs cwd path
  | .schedSpawn => ProgramKept lookup vfs cwd path

end

/-- The resolver has nothing to do, or the path fits its buffers together with
the working directory. -/
def ResolverFits (vfs : Vfs ι) (cwd path : Text) : Prop :=
  vfs.vfsRoot = none ∨ path = [slash] ∨ FitsPath cwd path

/-- A path that is resolved fits, and that of a program fits `temp_path`. -/
def PathCall.Fits (vfs : Vfs ι) (cwd path : Text) : PathCall → Prop
  | .sysOpen | .sysChdir => ResolverFits vfs cwd path
  | .schedExecve =>
    path = [] ∨ path.length < vfsMaxPathLength ∧ ResolverFits vfs cwd path
  | .schedSpawn =>
    path.length < vfsMaxPathLength ∧ ResolverFits vfs cwd path

/-! ## The tokenizer -/

theorem terminated_of_holds {size : Nat} {buffer text : List UInt8}
    (holds : HoldsText size buffer text) : Terminated size buffer := by
  refine ⟨holds.length, ?_⟩
  have short := holds.short
  rw [holds.cells]
  apply mem_append_right
  exact mem_replicate.mpr ⟨by omega, rfl⟩

theorem pathBuffer_holds : HoldsText vfsMaxPathLength pathBuffer [] := HoldsText.empty (by decide)

theorem length_joined_tail (first second : Text) (rest : List Text) :
    (joined (second :: rest)).length ≤ (joined (first :: second :: rest)).length := by
  rw [joined_cons, length_append, length_cons]
  omega

theorem tokens_extent (segments : List Text) :
    ∀ token ∈ tokens segments, token.extent ≤ 2 * (joined segments).length := by
  induction segments using tokens.induct with
  | case1 => simp [tokens]
  | case2 => simp [tokens]
  | case3 name nonempty => simp [tokens]
  | case4 name => simp [tokens]
  | case5 name segment segments induction =>
    intro token member
    have longer := (length_joined_tail name segment segments).trans
      (length_joined_tail [] name (segment :: segments))
    rcases mem_cons.mp member with rfl | later
    · dsimp only
      omega
    · have short := induction token later
      omega
  | case6 byte bytes segment segments induction =>
    intro token member
    have longer := length_joined_tail (byte :: bytes) segment segments
    rcases mem_cons.mp member with rfl | later
    · dsimp only
      omega
    · have short := induction token later
      omega

theorem tokens_first_largest (segments : List Text) {token : Token}
    (cut : tokens segments = token :: rest) :
    ∀ later ∈ rest, later.extent ≤ token.extent := by
  intro later member
  induction segments using tokens.induct with
  | case1 => cases cut
  | case2 => cases cut
  | case3 name nonempty =>
    rw [tokens] at cut
    · cases cut
      cases member
    · exact nonempty
  | case4 name =>
    cases cut
    cases member
  | case5 name segment segments _ =>
    cases cut
    have short := tokens_extent _ later member
    have longer := (length_joined_tail name segment segments).trans
      (length_joined_tail [] name (segment :: segments))
    dsimp only
    omega
  | case6 byte bytes segment segments _ =>
    cases cut
    have short := tokens_extent _ later member
    have longer := length_joined_tail (byte :: bytes) segment segments
    dsimp only
    omega

section Resolver

variable {lookup : ι → Text → LookupResult ι} {vfs : Vfs ι} {cwd path : Text}

theorem crossMount_inside (vfs : Vfs ι) (dentry : Nat) :
    crossMount vfs dentry ≠ .error .overrun := by
  unfold crossMount
  split
  · exact nofun
  · exact nofun

theorem resolveName_inside (vfs : Vfs ι) (parent : Nat) (name : Text) :
    resolveName lookup vfs parent name ≠ .error .overrun := by
  have mapped : ∀ (vfs after : Vfs ι) (dentry : Nat),
      (crossMount vfs dentry).map (fun found => (after, some found)) ≠ .error .overrun := by
    intro vfs after dentry failed
    apply crossMount_inside vfs dentry
    cases result : crossMount vfs dentry with
    | error fault =>
      rw [result] at failed
      exact congrArg Except.error (Except.error.inj failed)
    | ok found =>
      rw [result] at failed
      cases failed
  unfold resolveName
  split
  · exact mapped _ _ _
  · split
    · exact nofun
    · dsimp only
      split
      · exact nofun
      · exact mapped _ _ _
      · exact mapped _ _ _

theorem resolveComponent_inside (vfs : Vfs ι) (current : Option Nat)
    (parent : Nat) (component : Text) :
    resolveComponent lookup vfs current parent component ≠ .error .overrun := by
  unfold resolveComponent
  split
  · exact nofun
  · split
    · split
      · exact nofun
      · exact nofun
    · intro failed
      cases named : resolveName lookup vfs parent component with
      | error fault =>
        rw [named] at failed
        cases Except.error.inj failed
        exact resolveName_inside vfs parent component named
      | ok found =>
        rw [named] at failed
        cases failed

theorem resolveTokens_inside (current : Option Nat)
    (parent : Nat) (fits : ∀ token ∈ rest, token.Fits) :
    resolveTokens lookup vfs current parent rest ≠ .error .overrun := by
  induction rest generalizing vfs current parent with
  | nil => simp [resolveTokens]
  | cons token rest induction =>
    have first := fits token mem_cons_self
    have others : ∀ later ∈ rest, later.Fits :=
      fun later member => fits later (mem_cons_of_mem token member)
    rw [resolveTokens, if_neg (not_not_intro first)]
    split
    · simp
    · split
      · rename_i fault failed
        rintro ⟨⟩
        exact resolveComponent_inside vfs current parent token.name failed
      · simp
      · exact induction _ _ others

theorem loopBuffers_terminated {segments : List Text}
    {tmppath nextpath : List UInt8} {current : Option Nat} {parent : Nat}
    (fuel : Nat)
    (holds : HoldsText vfsMaxPathLength tmppath (joined segments))
    (proper : Segments segments)
    (next : Terminated vfsMaxPathLength nextpath)
    (fits : ∀ token ∈ tokens segments, token.Fits) :
    ∀ buffer ∈ loopBuffers lookup fuel vfs tmppath nextpath current parent,
      Terminated vfsMaxPathLength buffer := by
  induction fuel generalizing vfs segments tmppath nextpath current parent with
  | zero => exact nofun
  | succ fuel induction =>
    cases cut : tokens segments with
    | nil =>
      have empty := holds
      rw [joined_of_no_tokens cut] at empty
      rw [loopBuffers, vfsNextPath_end empty]
      intro buffer member
      simp only [Bool.not_false, if_true, mem_cons, not_mem_nil, or_false] at member
      rcases member with rfl | rfl
      · exact terminated_of_holds holds
      · exact next
    | cons token rest =>
      obtain ⟨shortened, component, remaining, cutOff⟩ :=
        (vfsNextPath_token holds proper next.1 cut).1 (fits token (cut ▸ mem_cons_self))
      have others : ∀ later ∈ tokens remaining, later.Fits := by
        intro later member
        rw [cutOff.tokensEq] at member
        exact fits later (cut ▸ mem_cons_of_mem token member)
      rw [loopBuffers, cutOff.result]
      intro buffer member
      rcases mem_cons.mp member with rfl | member
      · exact terminated_of_holds cutOff.holds
      rcases mem_cons.mp member with rfl | member
      · exact terminated_of_holds cutOff.component
      · split at member
        · cases member
        · split at member
          · exact induction cutOff.holds cutOff.proper
              (terminated_of_holds cutOff.component) others buffer member
          · cases member

theorem resolveBuffers_terminated (cwdProper : (0 : UInt8) ∉ cwd) (pathProper : (0 : UInt8) ∉ path)
    (fits : FitsPath cwd path) :
    ∀ buffer ∈ resolveBuffers lookup vfs cwd path, Terminated vfsMaxPathLength buffer := by
  obtain ⟨short, fitting⟩ := fits
  obtain ⟨whole, wholeEq, wholeHolds⟩ := wholePath_holds cwdProper pathProper short
  obtain ⟨tmppath, tmppathEq, tmppathHolds⟩ :=
    pathBuffer_holds.append wholeHolds.proper (by simpa using short)
  rw [length_nil] at tmppathEq
  have segmented := tmppathHolds
  rw [← joined_splitOn (absolutePath cwd path)] at segmented
  unfold resolveBuffers
  split
  · exact nofun
  · split
    · exact nofun
    · simp only [wholeEq, wholeHolds.textLength, bind_some, wholeHolds.take, tmppathEq]
      intro buffer member
      rcases mem_cons.mp member with rfl | member
      · exact terminated_of_holds wholeHolds
      rcases mem_cons.mp member with rfl | member
      · exact terminated_of_holds tmppathHolds
      · exact loopBuffers_terminated _ segmented
          (segments_splitOn wholeHolds.proper) (terminated_of_holds pathBuffer_holds)
          fitting buffer member

/-- The resolver keeps to its buffers exactly if it has nothing to resolve, or
the path fits: the first token decides about all of them. -/
theorem resolverKept_iff (cwdProper : (0 : UInt8) ∉ cwd) (pathProper : (0 : UInt8) ∉ path) :
    ResolverKept lookup vfs cwd path ↔ ResolverFits vfs cwd path := by
  unfold ResolverFits
  cases isRoot : vfs.vfsRoot with
  | none =>
    refine iff_of_true ⟨?_, ?_⟩ (.inl rfl)
    · rw [vfsResolvePath, isRoot]
      simp
    · rw [resolveBuffers, isRoot]
      simp
  | some root =>
    by_cases isSlash : path = [slash]
    · refine iff_of_true ⟨?_, ?_⟩ (.inr (.inl isSlash))
      · rw [vfsResolvePath, isRoot]
        dsimp only
        rw [if_pos isSlash]
        simp
      · rw [resolveBuffers, isRoot]
        dsimp only
        rw [if_pos isSlash]
        simp
    constructor
    · intro kept
      have inside := kept.inside
      refine .inr (.inr ?_)
      by_cases short : (absolutePath cwd path).length < vfsMaxPathLength
      case neg =>
        exact absurd (vfsResolvePath_overrun isRoot isSlash cwdProper
          pathProper (Nat.le_of_not_lt short)) inside
      rw [vfsResolvePath_tokens lookup isRoot isSlash cwdProper pathProper short] at inside
      refine ⟨short, ?_⟩
      cases cut : tokens ((absolutePath cwd path).splitOn slash) with
      | nil => simp
      | cons token rest =>
        have first : token.Fits := by
          by_contra overrun
          rw [cut, resolveTokens, if_pos overrun] at inside
          exact inside rfl
        intro later member
        rcases mem_cons.mp member with rfl | behind
        · exact first
        · exact (tokens_first_largest _ cut later behind).trans first
    · intro fits
      obtain fits := (fits.resolve_left (by simp)).resolve_left isSlash
      refine ⟨?_, resolveBuffers_terminated cwdProper pathProper fits⟩
      rw [vfsResolvePath_tokens lookup isRoot isSlash cwdProper pathProper fits.1]
      exact resolveTokens_inside none root fits.2

end Resolver

/-! ## The callers -/

section Callers

variable {lookup : ι → Text → LookupResult ι} {vfs : Vfs ι} {cwd path : Text}

theorem length_absolutePath (cwd path : Text) : path.length ≤ (absolutePath cwd path).length := by
  unfold absolutePath
  split
  · exact le_refl _
  · split
    · rw [length_append]
      omega
    · rw [length_append, length_cons]
      omega

theorem FitsPath.short (fits : FitsPath cwd path) : path.length < vfsMaxPathLength :=
  (length_absolutePath cwd path).trans_lt fits.1

/-- `sys_open` copies at most 256 bytes. -/
theorem sysOpenCopy_holds (pathProper : (0 : UInt8) ∉ path) : ∃ copy, sysOpenCopy path = some copy ∧
      HoldsText (min path.length vfsMaxPathLength + 1) copy (path.take vfsMaxPathLength) := by
  have taken : path.take (min path.length vfsMaxPathLength) = path.take vfsMaxPathLength := by
    rw [Nat.min_comm, ← take_take, take_length]
  have proper : (0 : UInt8) ∉ path.take vfsMaxPathLength :=
    fun member => pathProper (mem_of_mem_take member)
  have empty : HoldsText (min path.length vfsMaxPathLength + 1)
      (List.replicate (min path.length vfsMaxPathLength + 1) (0 : UInt8)) [] :=
    HoldsText.empty (Nat.succ_pos _)
  obtain ⟨copy, copyEq, copyHolds⟩ := empty.append proper (by
    rw [length_nil, length_take]
    omega)
  refine ⟨copy, ?_, copyHolds⟩
  simp only [sysOpenCopy, taken]
  exact copyEq

theorem fitsPath_take :
    path.take vfsMaxPathLength = [slash] ∨ FitsPath cwd (path.take vfsMaxPathLength) ↔
      path = [slash] ∨ FitsPath cwd path := by
  by_cases short : path.length < vfsMaxPathLength
  · rw [take_of_length_le short.le]
  · have full : (path.take vfsMaxPathLength).length = vfsMaxPathLength := by
      rw [length_take]
      omega
    refine iff_of_false ?_ ?_
    · rintro (isSlash | fits)
      · rw [isSlash] at full
        exact absurd full (by decide)
      · exact absurd fits.short (by omega)
    · rintro (rfl | fits)
      · exact short (by decide)
      · exact short fits.short

/-- The copies of `sys_chdir` are cut to 255 bytes. -/
theorem chdirCopies_terminated {fullPath : Text} (proper : (0 : UInt8) ∉ fullPath) :
    ∃ buff copy, chdirCopies fullPath = some (buff, copy) ∧
      Terminated vfsMaxPathLength buff ∧ Terminated vfsMaxPathLength copy := by
  have short : (fullPath.take (min fullPath.length
      (vfsMaxPathLength - 1))).length < vfsMaxPathLength := by
    rw [length_take]
    unfold vfsMaxPathLength
    omega
  have taken : (fullPath.take (min fullPath.length
      (vfsMaxPathLength - 1))).length = min fullPath.length (vfsMaxPathLength - 1) := by
    rw [length_take]
    omega
  obtain ⟨buff, buffEq, holds⟩ := pathBuffer_holds.append
    (fun member => proper (mem_of_mem_take member)) (by
      rw [length_nil, Nat.zero_add]
      exact short)
  rw [length_nil] at buffEq
  rw [nil_append] at holds
  have ended := holds.terminate
  rw [taken] at ended
  refine ⟨buff, buff, ?_, terminated_of_holds holds, terminated_of_holds holds⟩
  simp only [chdirCopies, buffEq, bind_eq_bind, bind_some, ended,
    holds.textLength, if_neg (Nat.not_le_of_lt short), holds.take]
  rfl

theorem tempPathCopy_holds (pathProper : (0 : UInt8) ∉ path)
    (short : path.length < vfsMaxPathLength) :
    ∃ copy, tempPathCopy path = some copy ∧ HoldsText vfsMaxPathLength copy path := by
  obtain ⟨copy, copyEq, copyHolds⟩ := pathBuffer_holds.append pathProper (by rw [length_nil]; omega)
  exact ⟨copy, copyEq, copyHolds⟩

/-- `temp_path` has no bound: it keeps a terminator only for shorter paths. -/
theorem tempPathCopy_short (pathProper : (0 : UInt8) ∉ path)
    {copy : List UInt8} (copied : tempPathCopy path = some copy)
    (terminated : Terminated vfsMaxPathLength copy) :
    path.length < vfsMaxPathLength := by
  by_contra long
  have overrun := pathBuffer_holds.append_overrun pathProper (by rw [length_nil]; omega)
  rw [tempPathCopy] at copied
  rw [length_nil, copied, bind_some] at overrun
  exact not_mem_of_textLength overrun terminated.2

/-- A program is started within the buffers exactly if its path fits
`temp_path` and the resolver. -/
theorem programKept_iff (cwdProper : (0 : UInt8) ∉ cwd) (pathProper : (0 : UInt8) ∉ path) :
    ProgramKept lookup vfs cwd path ↔
      path.length < vfsMaxPathLength ∧ ResolverFits vfs cwd path := by
  constructor
  · rintro ⟨copy, copied, terminated, kept⟩
    have short := tempPathCopy_short pathProper copied terminated
    obtain ⟨same, sameEq, holds⟩ := tempPathCopy_holds pathProper short
    rw [copied] at sameEq
    cases sameEq
    rw [holds.textOf, take_of_length_le (by omega)] at kept
    exact ⟨short, (resolverKept_iff cwdProper pathProper).mp kept⟩
  · rintro ⟨short, fits⟩
    obtain ⟨copy, copied, holds⟩ := tempPathCopy_holds pathProper short
    refine ⟨copy, copied, terminated_of_holds holds, ?_⟩
    rw [holds.textOf, take_of_length_le (by omega)]
    exact (resolverKept_iff cwdProper pathProper).mpr fits

end Callers

/-- The calls keep to their path buffers exactly if the path fits. -/
theorem path_buffers_kept_iff (lookup : ι → Text → LookupResult ι) (vfs : Vfs ι)
    (call : PathCall) {cwd path : Text} (cwdProper : (0 : UInt8) ∉ cwd)
    (pathProper : (0 : UInt8) ∉ path) :
    call.Kept lookup vfs cwd path ↔ call.Fits vfs cwd path := by
  cases call with
  | sysOpen =>
    obtain ⟨copy, copied, holds⟩ := sysOpenCopy_holds pathProper
    have proper : (0 : UInt8) ∉ path.take vfsMaxPathLength := holds.proper
    have resolved : ResolverKept lookup vfs cwd (textOf copy) ↔ ResolverFits vfs cwd path := by
      rw [holds.textOf, resolverKept_iff cwdProper proper]
      exact or_congr_right fitsPath_take
    constructor
    · rintro ⟨other, otherEq, _, kept⟩
      rw [copied] at otherEq
      cases otherEq
      exact resolved.mp kept
    · intro fits
      exact ⟨copy, copied, terminated_of_holds holds, resolved.mpr fits⟩
  | sysChdir =>
    constructor
    · rintro ⟨kept, _⟩
      exact (resolverKept_iff cwdProper pathProper).mp kept
    · intro fits
      exact ⟨(resolverKept_iff cwdProper pathProper).mpr fits,
        fun _ proper => chdirCopies_terminated proper⟩
  | schedExecve =>
    exact or_congr_right (programKept_iff cwdProper pathProper)
  | schedSpawn => exact programKept_iff cwdProper pathProper

/-- Every component of `/dev/ttyfs` fits. -/
theorem path_buffers_kept_ttyfs :
    ∃ vfs, runExcept (vfsStep bootLookup) vfsInit bootOps = .ok vfs ∧ vfs.vfsRoot ≠ none ∧
      PathCall.sysOpen.Kept bootLookup vfs [slash] ttyfsPath := by
  have outcome : Outcome (fun vfs : Vfs BootNode => vfs.vfsRoot ≠ none)
      (fun _ => False) (runExcept (vfsStep bootLookup) vfsInit bootOps) := by
    decide +kernel
  obtain ⟨vfs, reached, rooted⟩ := outcome.exists_ok
  refine ⟨vfs, reached, rooted, ?_⟩
  apply (path_buffers_kept_iff bootLookup vfs .sysOpen (by decide) (by decide)).mpr
  exact .inr (.inr (by rw [FitsPath]; decide))

/-- The path `/a/b...b`, with two hundred letters. -/
def longNamePath : Text :=
  [slash, 0x61, slash] ++ List.replicate 200 0x62

/-- The path has 203 bytes, and clearing what was moved runs over the end of
`tmppath`. -/
theorem long_name_overruns :
    ∃ vfs, runExcept (vfsStep bootLookup) vfsInit bootOps = .ok vfs ∧ longNamePath.length = 203 ∧
      vfsResolvePath bootLookup vfs [slash] longNamePath = .error .overrun ∧
      ¬PathCall.sysOpen.Kept bootLookup vfs [slash] longNamePath := by
  have outcome : Outcome
      (fun vfs => (vfsResolvePath bootLookup vfs [slash] longNamePath).map
        Prod.snd = .error .overrun)
      (fun _ => False) (runExcept (vfsStep bootLookup) vfsInit bootOps) := by
    decide +kernel
  obtain ⟨vfs, reached, overrun⟩ := outcome.exists_ok
  have overruns : vfsResolvePath bootLookup vfs [slash] longNamePath = .error .overrun := by
    cases resolved : vfsResolvePath bootLookup vfs [slash] longNamePath with
    | ok result =>
      rw [resolved] at overrun
      cases overrun
    | error panic =>
      rw [resolved] at overrun
      cases overrun
      rfl
  refine ⟨vfs, reached, by decide +kernel, overruns, ?_⟩
  rintro ⟨copy, copied, _, kept⟩
  obtain ⟨same, sameEq, holds⟩ := @sysOpenCopy_holds longNamePath (by decide +kernel)
  rw [copied] at sameEq
  cases sameEq
  rw [holds.textOf] at kept
  exact kept.inside overruns

end SeekOs.Fs
