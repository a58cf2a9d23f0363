import SeekOs.Fs.FileTable
import SeekOs.Fs.FullPath

/-!
# The working directory

`sys_chdir` makes the full path of the dentry it opened the working directory.
A relative path then leads where the path given to `sys_chdir`, a slash and
the relative path would have led, as long as neither of the two texts meets a
defect of the resolver.
-/

namespace SeekOs.Fs

open List

open SeekOs.Lib

variable {ι : Type*}
variable {text path cwd target : Text} {dentry : Nat}

/-- `sys_chdir`: the tree, the working directory and the result.  The handle
that is opened and closed again is left out; `vfs_open` crosses a mount on the
dentry that the path leads to. -/
def sysChdir (lookup : ι → Text → LookupResult ι) (isDirectory : ι → Bool)
    (vfs : Vfs ι) (cwd path : Text) : Except Fault (Vfs ι × Text × Int) :=
  match vfsResolvePath lookup vfs cwd path with
  | .error fault => .error fault
  | .ok (vfs, none) => .ok (vfs, cwd, enoent)
  | .ok (vfs, some dentry) =>
    match crossMount vfs dentry with
    | .error fault => .error fault
    | .ok opened =>
      if !(nodeOf vfs opened).any isDirectory then
        .ok (vfs, cwd, -1)
      else
        match vfsGetFullPath vfs opened vfsMaxPathLength with
        | .error fault => .error fault
        | .ok fullPath => .ok (vfs, fullPath.take (vfsMaxPathLength - 1), 0)

/-! ## Two ways to a relative path -/

section Chdir

variable {lookup : ι → Text → LookupResult ι} {vfs after : Vfs ι} {root : Nat}
  {isDirectory : ι → Bool} {newCwd : Text} {next : Vfs ι}

theorem resolveTokens_congr {first second : List Token}
    (names : first.map Token.name = second.map Token.name)
    (firstFits : ∀ token ∈ first, token.Fits)
    (secondFits : ∀ token ∈ second, token.Fits) (current : Option Nat)
    (parent : Nat) :
    resolveTokens lookup vfs current parent first =
      resolveTokens lookup vfs current parent second := by
  induction first generalizing vfs second current parent with
  | nil => rw [map_eq_nil_iff.mp names.symm]
  | cons token first induction =>
    obtain ⟨other, second, rfl, nameEq, names⟩ := map_eq_cons_iff.mp names.symm
    have onward := fun (vfs : Vfs ι) current parent =>
      @induction vfs second names.symm
        (fun token member => firstFits token (mem_cons_of_mem _ member))
        (fun token member =>
          secondFits token (mem_cons_of_mem _ member))
        current parent
    have fits := firstFits token mem_cons_self
    have otherFits := secondFits other mem_cons_self
    rw [resolveTokens, resolveTokens, if_neg (not_not_intro fits),
      if_neg (not_not_intro otherFits), nameEq]
    cases resolveComponent lookup vfs current parent token.name with
    | error fault => rfl
    | ok stepped =>
      obtain ⟨after, cursors⟩ := stepped
      cases cursors with
      | none => rfl
      | some cursors =>
        dsimp only
        rw [onward]

/-- The components come to a name, and only `.` and `..` stand before it. -/
def NamesEntry (components : List Text) : Prop :=
  ∃ front name back, components = front ++ name :: back ∧
    (∀ dots ∈ front, dots = dot ∨ dots = dotDot) ∧
    name ≠ [] ∧ name ≠ dot ∧ name ≠ dotDot

/-- At the root it does not matter that `current` is null before the first
name. -/
theorem resolveTokens_root (selfParent : (vfs.dentries root).dParent = root)
    {rest : List Token} (entry : NamesEntry (rest.map Token.name)) :
    resolveTokens lookup vfs none root rest = resolveTokens lookup vfs (some root) root rest := by
  obtain ⟨front, name, back, names, dots, nonempty, notDot, notDotDot⟩ := entry
  induction front generalizing rest with
  | nil =>
    obtain ⟨token, rest, rfl, rfl, _⟩ := map_eq_cons_iff.mp names
    simp only [resolveTokens, resolveComponent, nonempty, notDot, notDotDot, if_false]
  | cons first front induction =>
    obtain ⟨token, rest, rfl, nameEq, names⟩ := map_eq_cons_iff.mp names
    have onward := induction names fun dots member =>
      ‹∀ dots ∈ first :: front, dots = dot ∨ dots = dotDot› dots (mem_cons_of_mem first member)
    rw [resolveTokens, resolveTokens, nameEq]
    rcases dots first mem_cons_self with rfl | rfl
    · have nonempty : dot ≠ [] := by decide
      simp only [resolveComponent, nonempty, if_true, if_false]
      rw [onward]
    · have nonempty : dotDot ≠ [] := by decide
      have different : dotDot ≠ dot := by decide
      simp only [resolveComponent, nonempty, different, if_true, if_false, selfParent]
      rw [onward]

/-- The tokens of a path that does not end in a slash, and of what follows
it. -/
theorem tokens_append {front back : List Text} (nonempty : back ≠ [])
    (ends : ∀ last ∈ front.getLast?, last ≠ []) (some : front ≠ []) :
    (tokens (front ++ back)).map Token.name =
      (tokens front).map Token.name ++ (tokens back).map Token.name := by
  obtain ⟨first, back, rfl⟩ := exists_cons_of_ne_nil nonempty
  induction front using tokens.induct with
  | case1 => exact absurd rfl some
  | case2 => exact absurd rfl (ends [] rfl)
  | case3 name isName =>
    have isName := ends name rfl
    rw [singleton_append, tokens_cons_name isName, tokens_cons_name isName]
    rfl
  | case4 name => simp [tokens]
  | case5 name segment segments induction =>
    have rest := induction (by simpa using ends) (by simp)
    simp only [cons_append, tokens, map_cons] at rest ⊢
    rw [rest]
  | case6 byte bytes segment segments induction =>
    have rest := induction (by simpa using ends) (by simp)
    simp only [cons_append, tokens, map_cons] at rest ⊢
    rw [rest]

theorem splitOn_ends (nonempty : text ≠ []) (noSlash : text.getLast? ≠ some slash) :
    ∀ last ∈ (text.splitOn slash).getLast?, last ≠ [] := by
  rintro last isLast rfl
  obtain ⟨front, frontEq⟩ := List.getLast?_eq_some_iff.mp isLast
  have whole := joined_splitOn text
  rw [frontEq] at whole
  by_cases alone : front = []
  · subst alone
    exact nonempty whole.symm
  · apply noSlash
    rw [← whole, joined_concat alone, List.getLast?_concat]

/-- A working directory and a path that fit the buffers token by token. -/
def FitsPath (cwd path : Text) : Prop :=
  (absolutePath cwd path).length < vfsMaxPathLength ∧
    ∀ token ∈ tokens ((absolutePath cwd path).splitOn slash), token.Fits

/-- The path ends in a name, has no empty component, and leads to a dentry
that reads back and that nothing is mounted on. -/
structure Steady (after : Vfs ι) (root dentry : Nat) (cwd path : Text) :
    Prop where
  nonempty : path ≠ []
  ends : path.getLast? ≠ some slash
  named : ∀ token ∈ tokens ((absolutePath cwd path).splitOn slash), token.name ≠ []
  uncovered : mountOf after dentry = none
  reads : ReadsBack after root dentry

theorem opens_of_relative (nonempty : path ≠ [])
    (relative : path.head? ≠ some slash) : Opens (path.splitOn slash) := by
  obtain ⟨byte, bytes, rfl⟩ := exists_cons_of_ne_nil nonempty
  have notSlash : byte ≠ slash := by simpa using relative
  obtain ⟨first, rest, split⟩ := exists_cons_of_ne_nil (splitOn_ne_nil slash bytes)
  rw [splitOn_cons_eq_if_modifyHead, if_neg (by simpa using notSlash), split]
  simp [Opens]

theorem absolutePath_append (nonempty : path ≠ []) (rest : Text) :
    absolutePath cwd (path ++ slash :: rest) = absolutePath cwd path ++ slash :: rest := by
  have head : (path ++ slash :: rest).head? = path.head? :=
    List.head?_append_of_ne_nil path nonempty
  unfold absolutePath
  rw [head]
  split
  · rfl
  split
  · simp
  · simp

theorem absolutePath_ends (nonempty : path ≠ []) (ends : path.getLast? ≠ some slash) :
    absolutePath cwd path ≠ [] ∧ (absolutePath cwd path).getLast? ≠ some slash := by
  unfold absolutePath
  split
  · exact ⟨nonempty, ends⟩
  split
  · refine ⟨by simp [nonempty], ?_⟩
    rwa [List.getLast?_append_of_ne_nil _ nonempty]
  · refine ⟨by simp, ?_⟩
    rw [List.getLast?_append_of_ne_nil _ (cons_ne_nil _ _)]
    obtain ⟨byte, bytes, rfl⟩ := exists_cons_of_ne_nil nonempty
    rwa [List.getLast?_cons_cons]

/-- What the working directory is after a change to a dentry that nothing is
mounted on. -/
theorem sysChdir_text (resolved : vfsResolvePath lookup vfs cwd path = .ok (after, some dentry))
    (uncovered : mountOf after dentry = none)
    (changed : sysChdir lookup isDirectory vfs cwd path = .ok (next, newCwd, 0)) :
    next = after ∧ ∃ text,
      vfsGetFullPath after dentry vfsMaxPathLength = .ok text ∧
        newCwd = text.take (vfsMaxPathLength - 1) := by
  simp only [sysChdir, resolved, crossMount] at changed
  cases inodeEq : (after.dentries dentry).dInode with
  | none =>
    rw [inodeEq] at changed
    cases changed
  | some inode =>
    have noMount : inode.iMountpoint = none := by
      simpa [mountOf, inodeEq] using uncovered
    simp only [inodeEq, noMount, Option.getD_none] at changed
    split at changed
    · cases changed
    · cases textEq : vfsGetFullPath after dentry vfsMaxPathLength with
      | error fault =>
        rw [textEq] at changed
        cases changed
      | ok text =>
        rw [textEq] at changed
        cases changed
        exact ⟨rfl, text, rfl, rfl⟩

theorem absolutePath_proper (cwdProper : (0 : UInt8) ∉ cwd) (pathProper : (0 : UInt8) ∉ path) :
    (0 : UInt8) ∉ absolutePath cwd path := by
  have notSlash : (0 : UInt8) ≠ slash := by decide
  unfold absolutePath
  split
  · exact pathProper
  split
  · simp [cwdProper, pathProper]
  · simp [cwdProper, pathProper, notSlash]

theorem tokens_proper (proper : (0 : UInt8) ∉ text) {token : Token}
    (member : token ∈ tokens (text.splitOn slash))
    (nonempty : token.name ≠ []) :
    slash ∉ token.name ∧ (0 : UInt8) ∉ token.name := by
  have kept : token.name ∈ ((tokens (text.splitOn slash)).map Token.name).filter (· ≠ []) := by
    rw [mem_filter]
    exact ⟨mem_map_of_mem member, by simpa using nonempty⟩
  rw [tokens_names, mem_filter] at kept
  exact segments_splitOn proper token.name kept.1

theorem resolve_from_path (tree : MountTree lookup vfs)
    (isRoot : vfs.vfsRoot = some root) (cwdProper : (0 : UInt8) ∉ cwd)
    (pathProper : (0 : UInt8) ∉ path)
    (resolved : vfsResolvePath lookup vfs cwd path = .ok (after, some dentry))
    (steady : Steady after root dentry cwd path)
    (targetProper : (0 : UInt8) ∉ target)
    (fits : FitsPath cwd (path ++ slash :: target)) :
    ∃ rest,
      rest.map Token.name = (tokens (target.splitOn slash)).map Token.name ∧
        (∀ token ∈ rest, token.Fits) ∧
        vfsResolvePath lookup after cwd (path ++ slash :: target) =
          resolveTokens lookup after (some dentry) dentry rest := by
  have isRootAfter : after.vfsRoot = some root :=
    (Links.environment (vfsResolvePath_links resolved)).2.trans isRoot
  have notSlash : path ≠ [slash] := by
    intro isSlash
    apply steady.ends
    rw [isSlash]
    rfl
  have short : (absolutePath cwd path).length < vfsMaxPathLength := by
    by_contra long
    rw [vfsResolvePath_overrun isRoot notSlash cwdProper pathProper
      (Nat.le_of_not_lt long)] at resolved
    cases resolved
  rw [vfsResolvePath_tokens lookup isRoot notSlash cwdProper pathProper short] at resolved
  have absoluteProper := absolutePath_proper cwdProper pathProper
  have leads := leads_of_resolveTokens tree (Or.inl rfl) (tree.root root isRoot).1
    (fun token member => ⟨steady.named token member,
      tokens_proper absoluteProper member (steady.named token member)⟩)
    resolved (Leads.nil root)
  obtain ⟨nonempty, ends⟩ := absolutePath_ends steady.nonempty steady.ends
  have names := tokens_append (splitOn_ne_nil slash target) (splitOn_ends nonempty ends)
    (splitOn_ne_nil slash (absolutePath cwd path))
  rw [← splitOn_append_cons_self, ← absolutePath_append steady.nonempty] at names
  obtain ⟨front, rest, tokensEq, frontNames, restNames⟩ := map_eq_append_iff.mp names
  have allFit := fits.2
  rw [tokensEq] at allFit
  refine ⟨rest, restNames, fun token member => allFit token (mem_append_right _ member), ?_⟩
  have notSlash : path ++ slash :: target ≠ [slash] := by
    intro isSlash
    have lengths := congrArg List.length isSlash
    have positive := length_pos_iff.mpr steady.nonempty
    simp only [length_append, length_cons, length_nil] at lengths
    omega
  have noNul : (0 : UInt8) ≠ slash := by decide
  rw [vfsResolvePath_tokens lookup isRootAfter notSlash cwdProper
    (by simp [pathProper, targetProper, noNul]) fits.1, tokensEq]
  exact (leads front rest frontNames).1 fun token member => allFit token (mem_append_left _ member)

/-- The new way to a relative path leads through the dentry, too. -/
theorem resolve_from_fullPath (tree : MountTree lookup vfs)
    (isRoot : vfs.vfsRoot = some root) (reads : ReadsBack vfs root dentry)
    (isText : vfsGetFullPath vfs dentry vfsMaxPathLength = .ok text)
    (relative : target.head? ≠ some slash) (nonempty : target ≠ [])
    (targetProper : (0 : UInt8) ∉ target)
    (fits : FitsPath (text.take (vfsMaxPathLength - 1)) target) :
    ∃ rest,
      rest.map Token.name = (tokens (target.splitOn slash)).map Token.name ∧
        (∀ token ∈ rest, token.Fits) ∧
        vfsResolvePath lookup vfs (text.take (vfsMaxPathLength - 1)) target =
          resolveTokens lookup vfs (if dentry = root then none else some dentry) dentry rest := by
  have opens := opens_of_relative nonempty relative
  have notSlash : target ≠ [slash] := by
    rintro rfl
    exact relative rfl
  obtain ⟨steps, visible, inner, short, _⟩ := reads
  by_cases isEmpty : steps = []
  · subst isEmpty
    obtain rfl := visible.eq_root
    rw [vfsGetFullPath_root isRoot] at isText
    cases isText
    have whole : ([slash] : Text).take (vfsMaxPathLength - 1) = [slash] := rfl
    rw [whole] at fits ⊢
    have absolute : absolutePath [slash] target = slash :: target := by
      rw [absolutePath, if_neg relative, if_pos rfl]
      rfl
    have split : (slash :: target).splitOn slash = [] :: target.splitOn slash :=
      splitOn_append_cons_self [] target
    refine ⟨_, ?_, fits.2, ?_⟩
    · rw [absolute, split, tokens_skip opens]
    · rw [vfsResolvePath_tokens lookup isRoot notSlash (by decide) targetProper fits.1, if_pos rfl]
  · obtain ⟨textEq, proper⟩ := visible.vfsGetFullPath tree isRoot isEmpty short
    rw [textEq] at isText
    cases isText
    have shorter := (stripSlash_length (stepsText steps)).trans_lt short
    have whole : (stripSlash (stepsText steps)).take (vfsMaxPathLength - 1) =
        stripSlash (stepsText steps) :=
      take_of_length_le (by omega)
    rw [whole] at fits ⊢
    have stepsProper := visible.proper tree
    have absolute : absolutePath (stripSlash (stepsText steps)) target =
        stripSlash (stepsText steps) ++ slash :: target := by
      rw [absolutePath, if_neg relative, if_neg (stripSlash_absolute stepsProper isEmpty).2]
    have names := (tokens_fullPath stepsProper
      (fun step member => (stepsProper step
        (mem_of_mem_dropLast member)).plain_iff.mpr (inner step member))
      isEmpty).2 target opens
    rw [← absolute] at names
    obtain ⟨front, rest, tokensEq, frontNames, restNames⟩ := map_eq_append_iff.mp names
    have allFit := fits.2
    rw [tokensEq] at allFit
    refine ⟨rest, restNames, fun token member => allFit token (mem_append_right _ member), ?_⟩
    rw [vfsResolvePath_tokens lookup isRoot notSlash
      (fun member => proper (stripSlash_subset member)) targetProper fits.1,
      tokensEq, if_neg (visible.ne_root tree isEmpty)]
    have leads := (visible.leads tree front rest frontNames).1
      fun token member => allFit token (mem_append_left _ member)
    rw [if_neg isEmpty] at leads
    exact leads

/-- After a change of the working directory along a steady path, a relative
path leads where it leads from there. -/
theorem chdir_resolves (tree : MountTree lookup vfs) (isRoot : vfs.vfsRoot = some root)
    (cwdProper : (0 : UInt8) ∉ cwd)
    (pathProper : (0 : UInt8) ∉ path)
    (resolved : vfsResolvePath lookup vfs cwd path = .ok (after, some dentry))
    (changed : sysChdir lookup isDirectory vfs cwd path =
      .ok (next, newCwd, 0)) (steady : Steady after root dentry cwd path)
    (relative : target.head? ≠ some slash) (nonempty : target ≠ [])
    (targetProper : (0 : UInt8) ∉ target) (entry : dentry ≠ root ∨
      NamesEntry ((tokens (target.splitOn slash)).map Token.name))
    (fitsNew : FitsPath newCwd target)
    (fitsOld : FitsPath cwd (path ++ slash :: target)) :
    vfsResolvePath lookup next newCwd target =
      vfsResolvePath lookup next cwd (path ++ slash :: target) := by
  obtain ⟨rfl, text, isText, rfl⟩ := sysChdir_text resolved steady.uncovered changed
  have links := vfsResolvePath_links resolved
  have treeNext := tree.links links
  have isRootNext : next.vfsRoot = some root := (Links.environment links).2.trans isRoot
  obtain ⟨oldRest, oldNames, oldFits, oldEq⟩ := resolve_from_path tree isRoot
    cwdProper pathProper resolved steady targetProper fitsOld
  obtain ⟨newRest, newNames, newFits, newEq⟩ := resolve_from_fullPath treeNext
    isRootNext steady.reads isText relative nonempty targetProper fitsNew
  rw [oldEq, newEq, ← resolveTokens_congr (newNames.trans oldNames.symm) newFits oldFits]
  split
  · next atRoot =>
      subst atRoot
      apply resolveTokens_root (treeNext.root dentry isRootNext).2
      rw [newNames]
      exact entry.resolve_left (fun notRoot => notRoot rfl)
  · rfl

end Chdir

def devDevPath : Text := slash :: devName ++ slash :: devName

def slashesPath : Text :=
  slash :: devName ++ slash :: slash :: slash :: devName

/-- The volume is mounted as the root and once more on its own `dev`. -/
@[irreducible] def volumeTwiceOps : List (VfsOp BootNode) :=
  [.registerFs ⟨fat32Name, [slash], some .volume⟩, .mountFs [slash] [slash] fat32Name,
    .mountFs [slash] (slash :: devName) fat32Name,
    .resolvePath [slash] devDevPath]

end SeekOs.Fs
