import SeekOs.Fs.PathResolution

/-!
# The tree of dentries over FAT32, ramfs and ttyfs

Every dentry in a `d_subdirs` list stands for a name that the file system of
the list's owner knows.  The resolver keeps this up as long as it runs, but
`ramfs_lookup` answers a missing name like one that is there, and the resolver
then dereferences the inode that nobody made.
-/

namespace SeekOs.Fs

open SeekOs.Lib Function List Option

/-! ## The lookups of the file systems -/

/-- The private data of an inode, by the file system it belongs to. -/
inductive FsNode (φ ρ : Type*) where
  | fat32 (data : φ)
  | ramfs (data : ρ)
  | ttyfs
  deriving DecidableEq

/-- What the volumes and the archive hold. -/
structure FsContents (φ ρ : Type*) where
  /-- The directory attribute of a FAT32 node. -/
  isDir : φ → Bool
  dirSearch : φ → Text → Option φ
  ustarLookup : ρ → Text → Option ρ

variable {φ ρ : Type*} (contents : FsContents φ ρ)

def fat32Lookup (data : φ) (name : Text) : LookupResult (FsNode φ ρ) :=
  if contents.isDir data then
    match contents.dirSearch data name with
    | none => .null
    | some found => .filled (.fat32 found)
  else
    .null

/-- `ramfs_lookup` returns the dentry it was given whether or not the archive
has the name. -/
def ramfsLookup (data : ρ) (name : Text) : LookupResult (FsNode φ ρ) :=
  match contents.ustarLookup data name with
  | none => .unfilled
  | some found => .filled (.ramfs found)

def ttyfsLookup (_name : Text) : LookupResult (FsNode φ ρ) :=
  .null

/-- The `lookup` operation of an inode. -/
def fsLookup : FsNode φ ρ → Text → LookupResult (FsNode φ ρ)
  | .fat32 data, name => fat32Lookup contents data name
  | .ramfs data, name => ramfsLookup contents data name
  | .ttyfs, name => ttyfsLookup name

/-! ## The invariant -/

section Tree

variable {ι : Type*}

/-- What the inode of a dentry stands for in its file system. -/
def nodeOf (vfs : Vfs ι) (number : Nat) : Option ι :=
  (vfs.dentries number).dInode.map Inode.iPdata

/-- The tree of dentries.  A dentry without a number yet is blank. -/
structure DentryTree (lookup : ι → Text → LookupResult ι) (vfs : Vfs ι) :
    Prop where
  inodes : ∀ owner, ∀ child ∈ (vfs.dentries owner).dSubdirs, (vfs.dentries child).dInode.isSome
  parents : ∀ owner, ∀ child ∈ (vfs.dentries owner).dSubdirs, (vfs.dentries child).dParent = owner
  names : ∀ owner, ((vfs.dentries owner).dSubdirs.map fun child =>
    (vfs.dentries child).dName).Nodup
  exist : ∀ owner, ∀ child ∈ (vfs.dentries owner).dSubdirs,
    ∃ data ∈ nodeOf vfs owner, ∃ found ∈ nodeOf vfs child,
      lookup data (vfs.dentries child).dName = .filled found
  blank : ∀ number, vfs.dentryCount ≤ number →
    (vfs.dentries number).dInode = none ∧ (vfs.dentries number).dSubdirs = []

namespace DentryTree

variable {lookup : ι → Text → LookupResult ι} {vfs next : Vfs ι}
variable {number owner child directory : Nat} {inode : Inode ι} {dentry : Dentry ι}

theorem init : DentryTree lookup vfsInit where
  inodes := fun owner child member => by cases member
  parents := fun owner child member => by cases member
  names := fun owner => nodup_nil
  exist := fun owner child member => by cases member
  blank := fun number _ => ⟨rfl, rfl⟩

/-- The dentries that exist keep their names, parents and nodes. -/
structure Keeps (vfs next : Vfs ι) : Prop where
  name : ∀ number < vfs.dentryCount, (next.dentries number).dName = (vfs.dentries number).dName
  parent : ∀ number < vfs.dentryCount,
    (next.dentries number).dParent = (vfs.dentries number).dParent
  node : ∀ number < vfs.dentryCount, nodeOf next number = nodeOf vfs number

theorem inode_of_node {data : ι} (node : data ∈ nodeOf vfs number) :
    (vfs.dentries number).dInode.isSome := by
  obtain ⟨inode, inodeEq, _⟩ := map_eq_some_iff.mp node
  rw [inodeEq]
  rfl

theorem allocate_dentries (dentry : Dentry ι) (different : number ≠ vfs.dentryCount) :
    (vfs.allocate dentry).dentries number = vfs.dentries number := by
  simp [Vfs.allocate, different]

theorem keeps_allocate (vfs : Vfs ι) (dentry : Dentry ι) : Keeps vfs (vfs.allocate dentry) := by
  constructor
  · intro number small
    rw [allocate_dentries dentry small.ne]
  · intro number small
    rw [allocate_dentries dentry small.ne]
  · intro number small
    rw [nodeOf, allocate_dentries dentry small.ne, nodeOf]

/-- The tree with something mounted on a dentry. -/
def covered (vfs : Vfs ι) (dentry : Nat) (inode : Inode ι) (mounted : Nat) :
    Vfs ι :=
  { vfs with
    dentries := update vfs.dentries dentry
      { vfs.dentries dentry with
        dInode := some { inode with iMountpoint := some mounted } } }

theorem keeps_covered {dentry : Nat}
    (inodeEq : (vfs.dentries dentry).dInode = some inode) (mounted : Nat) :
    Keeps vfs (covered vfs dentry inode mounted) := by
  constructor
  · intro number _
    simp only [covered, update_apply]
    split
    · next same => rw [same]
    · rfl
  · intro number _
    simp only [covered, update_apply]
    split
    · next same => rw [same]
    · rfl
  · intro number _
    simp only [covered, nodeOf, update_apply]
    split
    · next same =>
        rw [same, inodeEq]
        rfl
    · rfl

theorem subdirs_covered (dentry : Nat) (inode : Inode ι) (mounted owner : Nat) :
    ((covered vfs dentry inode mounted).dentries owner).dSubdirs =
      (vfs.dentries owner).dSubdirs := by
  simp only [covered, update_apply]
  split
  · next same => rw [same]
  · rfl

section

variable (tree : DentryTree lookup vfs)
include tree

theorem lt_of_inode (filled : (vfs.dentries number).dInode.isSome) : number < vfs.dentryCount := by
  by_contra large
  rw [(tree.blank number (Nat.le_of_not_lt large)).1] at filled
  cases filled

theorem child_lt (member : child ∈ (vfs.dentries owner).dSubdirs) : child < vfs.dentryCount :=
  tree.lt_of_inode (tree.inodes owner child member)

theorem owner_lt (member : child ∈ (vfs.dentries owner).dSubdirs) : owner < vfs.dentryCount := by
  by_contra large
  rw [(tree.blank owner (Nat.le_of_not_lt large)).2] at member
  cases member

theorem exist_of_keeps (keeps : Keeps vfs next) (member : child ∈ (vfs.dentries owner).dSubdirs) :
    ∃ data ∈ nodeOf next owner, ∃ found ∈ nodeOf next child,
      lookup data (next.dentries child).dName = .filled found := by
  have small := tree.child_lt member
  obtain ⟨data, node, found, foundNode, exist⟩ := tree.exist owner child member
  rw [← keeps.node owner (tree.owner_lt member)] at node
  rw [← keeps.node child small] at foundNode
  rw [← keeps.name child small] at exist
  exact ⟨data, node, found, foundNode, exist⟩

theorem names_of_keeps (keeps : Keeps vfs next) (owner : Nat) :
    ((vfs.dentries owner).dSubdirs.map fun child =>
        (next.dentries child).dName) =
      (vfs.dentries owner).dSubdirs.map fun child =>
        (vfs.dentries child).dName := by
  apply map_congr_left
  intro child member
  exact keeps.name child (tree.child_lt member)

theorem of_keeps (keeps : Keeps vfs next)
    (subdirs : ∀ owner, (next.dentries owner).dSubdirs = (vfs.dentries owner).dSubdirs)
    (blank : ∀ number, next.dentryCount ≤ number →
      (next.dentries number).dInode = none ∧ (next.dentries number).dSubdirs = []) :
    DentryTree lookup next := by
  have exist : ∀ owner, ∀ child ∈ (next.dentries owner).dSubdirs,
      ∃ data ∈ nodeOf next owner, ∃ found ∈ nodeOf next child,
        lookup data (next.dentries child).dName = .filled found := by
    intro owner child member
    rw [subdirs] at member
    exact tree.exist_of_keeps keeps member
  constructor
  · intro owner child member
    obtain ⟨_, _, found, foundNode, _⟩ := exist owner child member
    exact inode_of_node foundNode
  · intro owner child member
    rw [subdirs] at member
    rw [keeps.parent child (tree.child_lt member)]
    exact tree.parents owner child member
  · intro owner
    rw [subdirs, tree.names_of_keeps keeps]
    exact tree.names owner
  · exact exist
  · exact blank

theorem subdirs_allocate (childless : dentry.dSubdirs = []) (owner : Nat) :
    ((vfs.allocate dentry).dentries owner).dSubdirs = (vfs.dentries owner).dSubdirs := by
  by_cases isNew : owner = vfs.dentryCount
  · rw [isNew, (tree.blank _ (Nat.le_refl _)).2]
    simpa [Vfs.allocate] using childless
  · rw [allocate_dentries dentry isNew]

theorem allocate (childless : dentry.dSubdirs = []) : DentryTree lookup (vfs.allocate dentry) := by
  apply tree.of_keeps (keeps_allocate vfs dentry) (tree.subdirs_allocate childless)
  intro number large
  have new : vfs.dentryCount < number := large
  rw [allocate_dentries dentry new.ne']
  exact tree.blank number new.le

theorem cover {dentry : Nat} (inodeEq : (vfs.dentries dentry).dInode = some inode) (mounted : Nat) :
    DentryTree lookup (covered vfs dentry inode mounted) := by
  have small : dentry < vfs.dentryCount := tree.lt_of_inode (by rw [inodeEq]; rfl)
  apply tree.of_keeps (keeps_covered inodeEq mounted) (subdirs_covered dentry inode mounted)
  intro number large
  have different : number ≠ dentry := (small.trans_le large).ne'
  simp only [covered, update_of_ne different]
  exact tree.blank number large

omit tree in
theorem linkSubdir_dentries (small : directory < vfs.dentryCount) (name : Text)
    (inode : Option (Inode ι)) :
    (vfs.linkSubdir directory name inode).dentries vfs.dentryCount = ⟨name, inode, directory, []⟩ ∧
      (vfs.linkSubdir directory name inode).dentries directory =
        { vfs.dentries directory with
          dSubdirs := (vfs.dentries directory).dSubdirs ++ [vfs.dentryCount] } ∧
      ∀ number, number ≠ directory → number ≠ vfs.dentryCount →
        (vfs.linkSubdir directory name inode).dentries number = vfs.dentries number := by
  refine ⟨?_, ?_, ?_⟩
  · simp [Vfs.linkSubdir, Vfs.allocate, small.ne']
  · simp [Vfs.linkSubdir, Vfs.allocate, small.ne, Base.dlistAddPrev]
  · intro number notDirectory notNew
    simp [Vfs.linkSubdir, Vfs.allocate, notDirectory, notNew]

omit tree in
theorem keeps_linkSubdir (small : directory < vfs.dentryCount) (name : Text)
    (inode : Option (Inode ι)) :
    Keeps vfs (vfs.linkSubdir directory name inode) := by
  obtain ⟨_, atDirectory, elsewhere⟩ := linkSubdir_dentries small name inode
  constructor
  · intro number smaller
    by_cases same : number = directory
    · rw [same, atDirectory]
    · rw [elsewhere number same smaller.ne]
  · intro number smaller
    by_cases same : number = directory
    · rw [same, atDirectory]
    · rw [elsewhere number same smaller.ne]
  · intro number smaller
    by_cases same : number = directory
    · rw [same, nodeOf, atDirectory, nodeOf]
    · rw [nodeOf, elsewhere number same smaller.ne, nodeOf]

theorem mem_linkSubdir (small : directory < vfs.dentryCount) {name : Text}
    {inode : Option (Inode ι)} :
    child ∈ ((vfs.linkSubdir directory name inode).dentries owner).dSubdirs ↔
      child ∈ (vfs.dentries owner).dSubdirs ∨ owner = directory ∧ child = vfs.dentryCount := by
  obtain ⟨atNew, atDirectory, elsewhere⟩ := linkSubdir_dentries small name inode
  by_cases isNew : owner = vfs.dentryCount
  · rw [isNew, atNew, (tree.blank _ (Nat.le_refl _)).2]
    simp [small.ne']
  by_cases same : owner = directory
  · rw [same, atDirectory]
    simp
  · rw [elsewhere owner same isNew]
    simp [same]

theorem link {name : Text} {iPdata : ι} (inodeEq : (vfs.dentries directory).dInode = some inode)
    (uncached : findSubdir vfs directory name = none)
    (found : lookup inode.iPdata name = .filled iPdata) :
    DentryTree lookup (vfs.linkSubdir directory name (some ⟨iPdata, none⟩)) := by
  have small : directory < vfs.dentryCount := tree.lt_of_inode (by rw [inodeEq]; rfl)
  obtain ⟨atNew, atDirectory, elsewhere⟩ := linkSubdir_dentries small name (some ⟨iPdata, none⟩)
  have keeps := keeps_linkSubdir small name (some ⟨iPdata, none⟩)
  have members := fun owner child => (@mem_linkSubdir _ lookup vfs owner
    child directory tree small name (some ⟨iPdata, none⟩)).mp
  have countEq :
      (vfs.linkSubdir directory name (some ⟨iPdata, none⟩)).dentryCount = vfs.dentryCount + 1 := rfl
  generalize vfs.linkSubdir directory name (some ⟨iPdata, none⟩) = next
    at atNew atDirectory elsewhere keeps members countEq ⊢
  have exist : ∀ owner, ∀ child ∈ (next.dentries owner).dSubdirs,
      ∃ data ∈ nodeOf next owner, ∃ found ∈ nodeOf next child,
        lookup data (next.dentries child).dName = .filled found := by
    intro owner child member
    rcases members owner child member with old | ⟨rfl, rfl⟩
    · exact tree.exist_of_keeps keeps old
    · refine ⟨inode.iPdata, ?_, iPdata, ?_, ?_⟩
      · simp [nodeOf, atDirectory, inodeEq]
      · simp [nodeOf, atNew]
      · rw [atNew]
        exact found
  constructor
  · intro owner child member
    obtain ⟨_, _, _, foundNode, _⟩ := exist owner child member
    exact inode_of_node foundNode
  · intro owner child member
    rcases members owner child member with old | ⟨rfl, rfl⟩
    · rw [keeps.parent child (tree.child_lt old)]
      exact tree.parents owner child old
    · rw [atNew]
  · intro owner
    by_cases isNew : owner = vfs.dentryCount
    · rw [isNew, atNew]
      exact nodup_nil
    by_cases same : owner = directory
    · -- The resolver has looked through all names of the directory.
      rw [same, atDirectory, map_append, tree.names_of_keeps keeps, map_singleton, atNew]
      refine nodup_append'.mpr ⟨tree.names directory, nodup_singleton name, ?_⟩
      rw [disjoint_singleton]
      intro taken
      obtain ⟨child, member, nameEq⟩ := mem_map.mp taken
      have missed := List.find?_eq_none.mp uncached child member
      exact missed (by simpa using nameEq)
    · rw [elsewhere owner same isNew, tree.names_of_keeps keeps]
      exact tree.names owner
  · exact exist
  · intro number large
    rw [countEq] at large
    have new : vfs.dentryCount < number := large
    rw [elsewhere number (small.trans new).ne' new.ne']
    exact tree.blank number new.le

theorem change (change : Change lookup vfs next) : DentryTree lookup next := by
  cases change with
  | registerFs fs =>
    exact ⟨tree.inodes, tree.parents, tree.names, tree.exist, tree.blank⟩
  | link link =>
    cases link with
    | intro _ inodeEq uncached found =>
      exact tree.link inodeEq uncached found
  | unmountRoot =>
    exact ⟨tree.inodes, tree.parents, tree.names, tree.exist, tree.blank⟩
  | @mountRoot fs iPdata =>
    have made : DentryTree lookup (vfs.makeRoot fs iPdata vfs.dentryCount) := tree.allocate rfl
    exact ⟨made.inodes, made.parents, made.names, made.exist, made.blank⟩
  | mountOn _ _ inodeEq => exact (tree.cover inodeEq _).allocate rfl

end

theorem step (vfs : Vfs ι) (op : VfsOp ι) (next : Vfs ι) (tree : DentryTree lookup vfs)
    (stepped : vfsStep lookup vfs op = .ok next) :
    DentryTree lookup next :=
  (vfsStep_changes stepped).invariant tree fun _ _ changed tree =>
    tree.change changed

end DentryTree

end Tree

/-! ## Where the resolver dereferences a null inode -/

section Missing

/-- The resolver asks a ramfs directory for a name that its archive does not
have. -/
def RamfsMisses (vfs : Vfs (FsNode φ ρ)) (directory : Nat) (name : Text) :
    Prop :=
  findSubdir vfs directory name = none ∧
    ∃ data, nodeOf vfs directory = some (.ramfs data) ∧ contents.ustarLookup data name = none

/-- Following the tokens from the cursors `current` and `parent` on, the
resolver comes to a name that a ramfs misses.  An empty token and a token that
does not fit the buffer stop it before. -/
def MissesInRamfs : Vfs (FsNode φ ρ) → Option Nat → Nat → List Token → Prop
  | _, _, _, [] => False
  | vfs, current, parent, token :: rest =>
    token.Fits ∧ token.name ≠ [] ∧
      if token.name = dot then
        MissesInRamfs vfs current parent rest
      else if token.name = dotDot then
        let up := current.map fun dentry => (vfs.dentries dentry).dParent
        MissesInRamfs vfs up (up.getD parent) rest
      else
        RamfsMisses contents vfs parent token.name ∨
          match enterName (fsLookup contents) vfs parent token.name with
          | (_, none) => False
          | (after, some next) => MissesInRamfs after (some next) next rest

/-- The resolution of a path comes to a name that a ramfs misses. -/
def AsksMissing (vfs : Vfs (FsNode φ ρ)) (cwd path : Text) : Prop :=
  ∃ root ∈ vfs.vfsRoot, path ≠ [slash] ∧
    (absolutePath cwd path).length < vfsMaxPathLength ∧
      MissesInRamfs contents vfs none root (tokens ((absolutePath cwd path).splitOn slash))

variable {contents} {vfs : Vfs (FsNode φ ρ)}

theorem fsLookup_unfilled {node : FsNode φ ρ} {name : Text} :
    fsLookup contents node name = .unfilled ↔
      ∃ data, node = .ramfs data ∧ contents.ustarLookup data name = none := by
  cases node with
  | fat32 data =>
    simp only [fsLookup, fat32Lookup]
    split
    · split
      · simp
      · simp
    · simp
  | ramfs data =>
    simp only [fsLookup, ramfsLookup]
    split
    · next missing => simpa using missing
    · next found => simp [found]
  | ttyfs => simp [fsLookup, ttyfsLookup]

theorem leavesUnfilled_iff {directory : Nat} {name : Text} :
    LeavesUnfilled (fsLookup contents) vfs directory name ↔
      RamfsMisses contents vfs directory name := by
  refine and_congr_right fun _ => ?_
  constructor
  · rintro ⟨inode, inodeEq, unfilled⟩
    obtain ⟨data, dataEq, missing⟩ := fsLookup_unfilled.mp unfilled
    refine ⟨data, ?_, missing⟩
    rw [nodeOf, inodeEq, map_some, dataEq]
  · rintro ⟨data, node, missing⟩
    obtain ⟨inode, inodeEq, dataEq⟩ := map_eq_some_iff.mp node
    exact ⟨inode, inodeEq, fsLookup_unfilled.mpr ⟨data, dataEq, missing⟩⟩

/-- The loop faults on a null inode exactly when it comes to a name that a
ramfs misses. -/
theorem resolveTokens_null {rest : List Token} {current : Option Nat}
    {parent : Nat} (linked : Linked vfs) :
    resolveTokens (fsLookup contents) vfs current parent rest = .error .nullPointer ↔
      MissesInRamfs contents vfs current parent rest := by
  induction rest generalizing vfs current parent with
  | nil => simp [resolveTokens, MissesInRamfs]
  | cons token rest induction =>
    rw [MissesInRamfs]
    by_cases fits : token.Fits
    case neg => simp [resolveTokens, fits]
    by_cases isEmpty : token.name = []
    · simp [resolveTokens, fits, isEmpty]
    simp only [fits, isEmpty, ne_eq, not_false_eq_true, true_and]
    by_cases isDot : token.name = dot
    · rw [if_pos isDot, resolveTokens_onward fits isEmpty (if_pos isDot)]
      exact induction linked
    rw [if_neg isDot]
    by_cases isDotDot : token.name = dotDot
    · rw [if_pos isDotDot, ← induction linked]
      cases current with
      | none =>
        rw [resolveTokens_onward fits isEmpty]
        simp [resolveComponent, isDotDot, dot, dotDot]
      | some dentry =>
        rw [resolveTokens_onward fits isEmpty]
        simp [resolveComponent, isDotDot, dot, dotDot]
    rw [if_neg isDotDot]
    by_cases misses : RamfsMisses contents vfs parent token.name
    · have stopped := (resolveName_eq linked parent token.name).2 (leavesUnfilled_iff.mpr misses)
      simp [resolveTokens, fits, isEmpty, resolveComponent, isDot,
        isDotDot, stopped, Except.map, misses]
    have resolved := fun current : Option Nat =>
      @resolveComponent_name _ (fsLookup contents) vfs current parent
        linked _ isDot isDotDot (leavesUnfilled_iff.not.mpr misses)
    have stillLinked := linked.enterName (fsLookup contents) parent token.name
    simp only [misses, false_or]
    cases entered : enterName (fsLookup contents) vfs parent token.name with
    | mk after found =>
      rw [entered] at stillLinked resolved
      cases found with
      | none =>
        rw [resolveTokens_missing fits isEmpty (resolved _)]
        simp
      | some next =>
        rw [resolveTokens_onward fits isEmpty (resolved _)]
        exact induction stillLinked

theorem vfsResolvePath_null (linked : Linked vfs) {cwd path : Text}
    (cwdProper : (0 : UInt8) ∉ cwd) (pathProper : (0 : UInt8) ∉ path) :
    vfsResolvePath (fsLookup contents) vfs cwd path = .error .nullPointer ↔
      AsksMissing contents vfs cwd path := by
  unfold AsksMissing
  cases isRoot : vfs.vfsRoot with
  | none => simp [vfsResolvePath, isRoot]
  | some root =>
    by_cases isSlash : path = [slash]
    · simp [vfsResolvePath, isRoot, isSlash]
    by_cases short : (absolutePath cwd path).length < vfsMaxPathLength
    · rw [vfsResolvePath_tokens (fsLookup contents) isRoot isSlash
        cwdProper pathProper short, resolveTokens_null linked]
      simp [isSlash, short]
    · rw [vfsResolvePath_overrun isRoot isSlash cwdProper pathProper (Nat.le_of_not_lt short)]
      simp [short]

end Missing

/-- After any mounts and resolutions that came to an end, the dentries form a
tree of names that exist, and the next resolution dereferences a null inode
exactly when it asks a ramfs for a name that is missing there. -/
theorem dentry_tree_of_run (ops : List (VfsOp (FsNode φ ρ))) {vfs : Vfs (FsNode φ ρ)}
    (reached : runExcept (vfsStep (fsLookup contents)) vfsInit ops = .ok vfs) :
    DentryTree (fsLookup contents) vfs ∧
      ∀ cwd path : Text, (0 : UInt8) ∉ cwd → (0 : UInt8) ∉ path →
        (vfsResolvePath (fsLookup contents) vfs cwd path = .error .nullPointer ↔
          AsksMissing contents vfs cwd path) := by
  have linked : Linked vfs := runExcept_invariant vfsStep_linked Linked.init reached
  refine ⟨runExcept_invariant DentryTree.step DentryTree.init reached, ?_⟩
  intro cwd path cwdProper pathProper
  exact vfsResolvePath_null linked cwdProper pathProper

/-! ## A small archive -/

/-- An archive with the directory `dev` alone; the data of a node is its
`filename`. -/
def devArchive : FsContents Unit Text where
  isDir := fun _ => true
  dirSearch := fun _ _ => none
  ustarLookup := fun filename name =>
    if filename = [] ∧ name = devName then some devName else none

def ramfsName : Text := [0x72, 0x61, 0x6d, 0x66, 0x73]

/-- The archive is mounted as the root, and its directory is looked up. -/
@[irreducible] def archiveOps : List (VfsOp (FsNode Unit Text)) :=
  [.registerFs ⟨ramfsName, [], some (.ramfs [])⟩, .mountFs [slash] [slash] ramfsName,
    .resolvePath [slash] (slash :: devName)]

theorem dentry_tree_of_run_archive :
    ∃ vfs, runExcept (vfsStep (fsLookup devArchive)) vfsInit archiveOps = .ok vfs ∧
      DentryTree (fsLookup devArchive) vfs ∧
      AsksMissing devArchive vfs [slash] (slash :: ttyfsName) := by
  have outcome : Outcome
      (fun vfs => (vfsResolvePath (fsLookup devArchive) vfs [slash]
        (slash :: ttyfsName)).map Prod.snd = .error .nullPointer)
      (fun _ => False)
      (runExcept (vfsStep (fsLookup devArchive)) vfsInit archiveOps) := by
    decide +kernel
  obtain ⟨vfs, reached, faults⟩ := outcome.exists_ok
  obtain ⟨tree, null⟩ := dentry_tree_of_run devArchive archiveOps reached
  refine ⟨vfs, reached, tree, ?_⟩
  apply (null [slash] (slash :: ttyfsName) (by decide) (by decide)).mp
  cases resolved : vfsResolvePath (fsLookup devArchive) vfs [slash] (slash :: ttyfsName) with
  | ok result =>
    rw [resolved] at faults
    cases faults
  | error fault =>
    rw [resolved] at faults
    cases faults
    rfl

/-- Looking up a name that the archive does not have is the end of the
kernel. -/
theorem missing_name_faults : (runExcept (vfsStep (fsLookup devArchive)) vfsInit
      (archiveOps ++ [.resolvePath [slash] (slash :: ttyfsName)])).map
        (fun _ => ()) = .error .nullPointer := by
  decide +kernel

end SeekOs.Fs
