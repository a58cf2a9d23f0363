import Mathlib.Logic.Relation
import SeekOs.Fs.Vfs

/-!
# What the operations change in the dentry tree

Resolving a path changes the tree only by linking names that a lookup has
filled, and mounting a file system only by a new root dentry.  Every invariant
of the tree is therefore a matter of these changes, one by one.
-/

namespace SeekOs.Fs

open SeekOs.Lib List Option

variable {ι : Type*}

/-! ## The names that are looked up -/

/-- A name that the resolver looks up in a directory. -/
structure ComponentName (name : Text) : Prop where
  nonempty : name ≠ []
  noSlash : slash ∉ name
  noNul : (0 : UInt8) ∉ name
  notDot : name ≠ dot
  notDotDot : name ≠ dotDot

theorem copyComponent_no_slash {text : Text} {next filled : List UInt8}
    {nextI count : Nat} {foundSlash : Bool}
    (copied : copyComponent text next nextI = some (foundSlash, count, filled))
    (noSlash : slash ∉ next) : slash ∉ filled := by
  induction text generalizing next nextI count with
  | nil =>
    cases copied
    exact noSlash
  | cons byte text induction =>
    rw [copyComponent] at copied
    split at copied
    · cases copied
      exact noSlash
    · next notSlash =>
        obtain ⟨stored, storedEq, copied⟩ := bind_eq_some_iff.mp copied
        obtain ⟨⟨_, _, result⟩, restCopied, isResult⟩ := bind_eq_some_iff.mp copied
        cases isResult
        apply induction restCopied
        intro member
        rcases mem_of_store storedEq member with old | new
        · exact noSlash old
        · exact notSlash (mem_singleton.mp new).symm

/-- The tokenizer never copies a slash, and it reports a component only if it
is not empty. -/
theorem vfsNextPath_component {path next shortened component : List UInt8}
    {nextlen : Nat} {skiproot hasnext : Bool}
    (cut : vfsNextPath path next nextlen skiproot = some (hasnext, shortened, component))
    (noSlash : slash ∉ next) :
    slash ∉ component ∧ (hasnext = true → textOf component ≠ []) := by
  obtain ⟨pathlen, _, cut⟩ := bind_eq_some_iff.mp cut
  split at cut
  · cases cut
    exact ⟨noSlash, fun isTrue => by cases isTrue⟩
  obtain ⟨cleared, clearedEq, cut⟩ := bind_eq_some_iff.mp cut
  obtain ⟨⟨_, _, filled⟩, copied, cut⟩ := bind_eq_some_iff.mp cut
  obtain ⟨found, foundEq, isFound, rfl⟩ : ∃ found,
      textLength filled = some found ∧ decide (0 < found) = hasnext ∧ filled = component := by
    dsimp only at cut
    split at cut
    · obtain ⟨_, _, cut⟩ := bind_eq_some_iff.mp cut
      obtain ⟨_, _, cut⟩ := bind_eq_some_iff.mp cut
      obtain ⟨found, foundEq, cut⟩ := bind_eq_some_iff.mp cut
      cases cut
      exact ⟨found, foundEq, rfl, rfl⟩
    · obtain ⟨_, _, cut⟩ := bind_eq_some_iff.mp cut
      obtain ⟨found, foundEq, cut⟩ := bind_eq_some_iff.mp cut
      cases cut
      exact ⟨found, foundEq, rfl, rfl⟩
  constructor
  · apply copyComponent_no_slash copied
    intro member
    rcases mem_of_store clearedEq member with old | new
    · exact noSlash old
    · have isNul := eq_of_mem_replicate new
      cases isNul
  · intro isTrue isEmpty
    simp only [textLength, isEmpty, length_nil] at foundEq
    split at foundEq
    · cases foundEq
      rw [isTrue] at isFound
      cases isFound
    · cases foundEq

theorem textOf_proper {component : List UInt8} (noSlash : slash ∉ component) :
    slash ∉ textOf component ∧ (0 : UInt8) ∉ textOf component := by
  constructor
  · intro member
    exact noSlash (takeWhile_subset _ member)
  · intro member
    simpa using mem_takeWhile_imp member

/-! ## The changes -/

section Changes

variable (lookup : ι → Text → LookupResult ι)

/-- A name that is not cached yet is found and linked into its directory. -/
inductive Link : Vfs ι → Vfs ι → Prop where
  | intro {vfs : Vfs ι} {directory : Nat} {inode : Inode ι} {name : Text}
      {iPdata : ι} (isName : ComponentName name)
      (inodeEq : (vfs.dentries directory).dInode = some inode)
      (uncached : findSubdir vfs directory name = none)
      (found : lookup inode.iPdata name = .filled iPdata) :
      Link vfs (vfs.linkSubdir directory name (some ⟨iPdata, none⟩))

/-- What resolving a path can do to the tree. -/
abbrev Links : Vfs ι → Vfs ι → Prop :=
  Relation.ReflTransGen (Link lookup)

/-- One change of the dentry tree or of the mounts. -/
inductive Change : Vfs ι → Vfs ι → Prop where
  | registerFs (vfs : Vfs ι) (fs : VfsFs ι) : Change vfs (vfsRegisterFs vfs fs)
  | link {vfs next : Vfs ι} (link : Link lookup vfs next) : Change vfs next
  | unmountRoot (vfs : Vfs ι) : Change vfs { vfs with vfsRoot := none }
  | mountRoot {vfs : Vfs ι} {fs : VfsFs ι} {iPdata : ι}
      (registered : fs ∈ vfs.vfsFsList) (made : fs.mksb = some iPdata) :
      Change vfs { vfs.makeRoot fs iPdata vfs.dentryCount with
        vfsRoot := some vfs.dentryCount }
  | mountOn {vfs : Vfs ι} {fs : VfsFs ι} {iPdata : ι} {dentry : Nat}
      {inode : Inode ι} (registered : fs ∈ vfs.vfsFsList)
      (made : fs.mksb = some iPdata)
      (inodeEq : (vfs.dentries dentry).dInode = some inode) :
      Change vfs (Vfs.makeRoot { vfs with
        dentries := Function.update vfs.dentries dentry
          { vfs.dentries dentry with
            dInode := some { inode with
              iMountpoint := some vfs.dentryCount } } } fs iPdata dentry)

/-- Any number of changes. -/
abbrev Changes : Vfs ι → Vfs ι → Prop :=
  Relation.ReflTransGen (Change lookup)

variable {lookup} {vfs after : Vfs ι} {parent : Nat} {name : Text} {found : Option Nat}

theorem Changes.invariant {property : Vfs ι → Prop}
    (changes : Changes lookup vfs after) (initial : property vfs)
    (preserved : ∀ before next, Change lookup before next →
      property before → property next) : property after := by
  induction changes with
  | refl => exact initial
  | tail _ change induction => exact preserved _ _ change induction

theorem Links.changes (links : Links lookup vfs after) : Changes lookup vfs after := by
  induction links with
  | refl => exact .refl
  | tail _ link induction => exact induction.tail (.link link)

theorem Links.count_le (links : Links lookup vfs after) : vfs.dentryCount ≤ after.dentryCount := by
  induction links with
  | refl => exact Nat.le_refl _
  | tail _ link induction =>
    cases link
    exact Nat.le_succ_of_le induction

/-- Linking names leaves the registered file systems and the root alone. -/
theorem Links.environment (links : Links lookup vfs after) :
    after.vfsFsList = vfs.vfsFsList ∧ after.vfsRoot = vfs.vfsRoot := by
  induction links with
  | refl => exact ⟨rfl, rfl⟩
  | tail _ link induction =>
    cases link
    exact induction

theorem linkSubdir_inode (vfs : Vfs ι) (parent : Nat) (name : Text) (inode : Option (Inode ι)) :
    ((vfs.linkSubdir parent name inode).dentries vfs.dentryCount).dInode =
      inode := by
  simp only [Vfs.linkSubdir, Vfs.allocate, Function.update_apply]
  split
  · next same => simp [same]
  · simp

theorem resolveName_links (isName : ComponentName name)
    (resolved : resolveName lookup vfs parent name = .ok (after, found)) :
    Links lookup vfs after := by
  unfold resolveName at resolved
  split at resolved
  · next child _ =>
      cases crossed : crossMount vfs child with
      | error fault =>
        rw [crossed] at resolved
        cases resolved
      | ok dentry =>
        rw [crossed] at resolved
        cases resolved
        exact .refl
  next uncached =>
  split at resolved
  · cases resolved
    exact .refl
  next inode inodeEq =>
  cases result : lookup inode.iPdata name with
  | null =>
    rw [result] at resolved
    cases resolved
    exact .refl
  | filled iPdata =>
    have fresh := linkSubdir_inode vfs parent name (some ⟨iPdata, none⟩)
    simp only [result, crossMount, fresh] at resolved
    cases resolved
    exact .single (.intro isName inodeEq uncached result)
  | unfilled =>
    -- The new dentry has no inode, and the crossing faults on it.
    have fresh := linkSubdir_inode vfs parent name none
    simp only [result, crossMount, fresh] at resolved
    cases resolved

theorem resolveComponent_links {current : Option Nat} {cursors : Option (Option Nat × Nat)}
    (nonempty : name ≠ []) (proper : slash ∉ name ∧ (0 : UInt8) ∉ name)
    (resolved : resolveComponent lookup vfs current parent name = .ok (after, cursors)) :
    Links lookup vfs after := by
  unfold resolveComponent at resolved
  split at resolved
  · cases resolved
    exact .refl
  next notDot =>
  split at resolved
  · split at resolved
    · cases resolved
      exact .refl
    · cases resolved
      exact .refl
  next notDotDot =>
  cases result : resolveName lookup vfs parent name with
  | error fault =>
    rw [result] at resolved
    cases resolved
  | ok pair =>
    rw [result] at resolved
    cases resolved
    exact resolveName_links ⟨nonempty, proper.1, proper.2, notDot, notDotDot⟩ result

theorem resolveLoop_links {fuel parent : Nat}
    {tmppath nextpath : List UInt8} {current found : Option Nat}
    (noSlash : slash ∉ nextpath)
    (resolved : resolveLoop lookup fuel vfs tmppath nextpath current parent = .ok (after, found)) :
    Links lookup vfs after := by
  induction fuel generalizing vfs tmppath nextpath current parent with
  | zero => cases resolved
  | succ fuel induction =>
    rw [resolveLoop] at resolved
    split at resolved
    · cases resolved
    next hasnext shortened component cut =>
    obtain ⟨noSlash, nonempty⟩ := vfsNextPath_component cut noSlash
    split at resolved
    · cases resolved
      exact .refl
    next unfinished =>
    have nonempty := nonempty (by simpa using unfinished)
    split at resolved
    · cases resolved
    · next step =>
        cases resolved
        exact resolveComponent_links nonempty (textOf_proper noSlash) step
    · next step =>
        have first := resolveComponent_links nonempty (textOf_proper noSlash) step
        exact first.trans (induction noSlash resolved)

theorem vfsResolvePath_links {cwd path : Text}
    (resolved : vfsResolvePath lookup vfs cwd path = .ok (after, found)) :
    Links lookup vfs after := by
  unfold vfsResolvePath at resolved
  split at resolved
  · cases resolved
    exact .refl
  split at resolved
  · cases resolved
    exact .refl
  split at resolved
  · cases resolved
  split at resolved
  · cases resolved
  simp only at resolved
  split at resolved
  · cases resolved
  apply resolveLoop_links _ resolved
  intro member
  have isNul := eq_of_mem_replicate member
  cases isNul

theorem vfsMountFs_changes {cwd path fsName : Text} {result : Int}
    (mounted : vfsMountFs lookup vfs cwd path fsName = .ok (after, result)) :
    Changes lookup vfs after := by
  unfold vfsMountFs at mounted
  split at mounted
  · cases mounted
  next fs isFs =>
  have registered : fs ∈ vfs.vfsFsList := List.mem_of_find?_eq_some isFs
  split at mounted
  · split at mounted
    · cases mounted
      exact .single (.unmountRoot vfs)
    · next made =>
        cases mounted
        exact .single (.mountRoot registered made)
  · split at mounted
    · cases mounted
    · next resolved =>
        cases mounted
        exact (vfsResolvePath_links resolved).changes
    · next resolved =>
        have links := vfsResolvePath_links resolved
        rw [← links.environment.1] at registered
        split at mounted
        · next made inodeEq =>
            cases mounted
            exact links.changes.tail (.mountOn registered made inodeEq)
        · cases mounted

theorem vfsStep_changes {op : VfsOp ι} (stepped : vfsStep lookup vfs op = .ok after) :
    Changes lookup vfs after := by
  cases op with
  | registerFs fs =>
    cases stepped
    exact .single (.registerFs vfs fs)
  | mountFs cwd path fsName =>
    cases result : vfsMountFs lookup vfs cwd path fsName with
    | error fault =>
      rw [vfsStep, result] at stepped
      cases stepped
    | ok mounted =>
      rw [vfsStep, result] at stepped
      cases stepped
      exact vfsMountFs_changes result
  | resolvePath cwd path =>
    cases result : vfsResolvePath lookup vfs cwd path with
    | error fault =>
      rw [vfsStep, result] at stepped
      cases stepped
    | ok resolved =>
      rw [vfsStep, result] at stepped
      cases stepped
      exact (vfsResolvePath_links result).changes

end Changes

end SeekOs.Fs
