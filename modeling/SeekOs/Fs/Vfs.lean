import SeekOs.Base.LinkedList
import SeekOs.Fs.Path

/-!
# The virtual file system: dentries, mounts and path resolution

Dentries are numbered in the order of their allocation, and every dentry owns
its inode.  A superblock matters only through its root dentry, so a mount point
records that dentry.  What the mounted file systems hold is behind the `lookup`
operation of their inodes.
-/

namespace SeekOs.Fs

open SeekOs.Base SeekOs.Lib Function

/-- Why the kernel stops in a call. -/
inductive Fault where
  /-- A write behind the end of a path buffer. -/
  | overrun
  | nullPointer
  /-- The panic of `vfs_mount_fs` on an unknown name. -/
  | notFoundFilesystem
  /-- A loop has not ended. -/
  | diverged
  deriving DecidableEq

/-- What `lookup` does with the dentry it is given.  `ramfs_lookup` returns the
dentry of a missing name without an inode. -/
inductive LookupResult (ι : Type*) where
  | null
  | filled (iPdata : ι)
  | unfilled
  deriving DecidableEq

structure Inode (ι : Type*) where
  iPdata : ι
  iMountpoint : Option Nat

structure Dentry (ι : Type*) where
  dName : Text
  dInode : Option (Inode ι)
  dParent : Nat
  dSubdirs : List Nat

/-- A file system: the name it is registered under, the name of its root
dentry, and the root inode data of a new superblock, if `mksb` makes one. -/
structure VfsFs (ι : Type*) where
  fsName : Text
  rootName : Text
  mksb : Option ι

structure Vfs (ι : Type*) where
  vfsRoot : Option Nat
  vfsFsList : List (VfsFs ι)
  dentries : Nat → Dentry ι
  dentryCount : Nat

variable {ι : Type*}

def vfsInit : Vfs ι where
  vfsRoot := none
  vfsFsList := []
  dentries := fun _ => ⟨[], none, 0, []⟩
  dentryCount := 0

section

variable (vfs : Vfs ι)

def vfsRegisterFs (fs : VfsFs ι) : Vfs ι :=
  { vfs with vfsFsList := dlistAddPrev vfs.vfsFsList fs }

def vfsGetFs (name : Text) : Option (VfsFs ι) :=
  vfs.vfsFsList.find? fun fs => name = fs.fsName

/-- Put a dentry at the next number. -/
def Vfs.allocate (dentry : Dentry ι) : Vfs ι :=
  { vfs with
    dentries := update vfs.dentries vfs.dentryCount dentry
    dentryCount := vfs.dentryCount + 1 }

/-- Allocate a dentry and link it into the `d_subdirs` of its parent. -/
def Vfs.linkSubdir (parent : Nat) (name : Text) (inode : Option (Inode ι)) : Vfs ι :=
  let allocated := vfs.allocate ⟨name, inode, parent, []⟩
  let owner := allocated.dentries parent
  { allocated with
    dentries := update allocated.dentries parent
      { owner with
        dSubdirs := dlistAddPrev owner.dSubdirs vfs.dentryCount } }

/-- The walk over the cached children of a directory. -/
def findSubdir (parent : Nat) (name : Text) : Option Nat :=
  (vfs.dentries parent).dSubdirs.find? fun child =>
    (vfs.dentries child).dName = name

/-- Go to the root of the file system mounted on a dentry, if there is one. -/
def crossMount (dentry : Nat) : Except Fault Nat :=
  match (vfs.dentries dentry).dInode with
  | none => .error .nullPointer
  | some inode => .ok (inode.iMountpoint.getD dentry)

end

section Resolve

variable (lookup : ι → Text → LookupResult ι)

/-- The part of the loop of `vfs_resolve_path` that looks a name up: first
among the cached children, then in the file system. -/
def resolveName (vfs : Vfs ι) (parent : Nat) (name : Text) : Except Fault (Vfs ι × Option Nat) :=
  match findSubdir vfs parent name with
  | some child =>
    (crossMount vfs child).map fun dentry => (vfs, some dentry)
  | none =>
    match (vfs.dentries parent).dInode with
    | none => .ok (vfs, none)
    | some inode =>
      let enter (filled : Option (Inode ι)) :=
        let linked := vfs.linkSubdir parent name filled
        (crossMount linked vfs.dentryCount).map fun dentry =>
          (linked, some dentry)
      match lookup inode.iPdata name with
      | .null => .ok (vfs, none)
      | .filled iPdata => enter (some ⟨iPdata, none⟩)
      | .unfilled => enter none

/-- What one component does to the cursors `current` and `parent`; there are
none left when a name is not found. -/
def resolveComponent (vfs : Vfs ι) (current : Option Nat) (parent : Nat)
    (component : Text) : Except Fault (Vfs ι × Option (Option Nat × Nat)) :=
  if component = dot then
    .ok (vfs, some (current, parent))
  else if component = dotDot then
    match current with
    | none => .ok (vfs, some (none, parent))
    | some dentry =>
      let up := (vfs.dentries dentry).dParent
      .ok (vfs, some (some up, up))
  else
    (resolveName lookup vfs parent component).map fun (after, found) =>
      (after, found.map fun dentry => (some dentry, dentry))

def resolveLoop : Nat → Vfs ι → List UInt8 → List UInt8 → Option Nat → Nat →
    Except Fault (Vfs ι × Option Nat)
  | 0, _, _, _, _, _ => .error .diverged
  | fuel + 1, vfs, tmppath, nextpath, current, parent =>
    match vfsNextPath tmppath nextpath vfsMaxPathLength true with
    | none => .error .overrun
    | some (hasnext, tmppath, nextpath) =>
      if !hasnext then
        .ok (vfs, current)
      else
        match resolveComponent lookup vfs current parent (textOf nextpath) with
        | .error fault => .error fault
        | .ok (vfs, none) => .ok (vfs, none)
        | .ok (vfs, some (current, parent)) =>
          resolveLoop fuel vfs tmppath nextpath current parent

/-- The text in `whole_path`: the path itself, or the path behind the working
directory of the task. -/
def wholePath (cwd path : Text) : Option (List UInt8) := do
  let buffer := List.replicate vfsMaxPathLength 0
  if path.head? = some slash then
    store buffer 0 path
  else do
    let directory ← store buffer 0 cwd
    let separated ←
      if cwd = [slash] then
        some directory
      else do
        let length ← textLength directory
        store directory length [slash]
    let length ← textLength separated
    store separated length path

def vfsResolvePath (vfs : Vfs ι) (cwd path : Text) : Except Fault (Vfs ι × Option Nat) :=
  match vfs.vfsRoot with
  | none => .ok (vfs, none)
  | some root =>
    if path = [slash] then
      .ok (vfs, some root)
    else
      match wholePath cwd path with
      | none => .error .overrun
      | some whole =>
        match textLength whole with
        | none => .error .overrun
        | some length =>
          let buffer := List.replicate vfsMaxPathLength 0
          match store buffer 0 (whole.take length) with
          | none => .error .overrun
          | some tmppath =>
            resolveLoop lookup (vfsMaxPathLength + 1) vfs tmppath buffer none root

/-- The root dentry of a new superblock, with the parent it ends up with. -/
def Vfs.makeRoot (vfs : Vfs ι) (fs : VfsFs ι) (iPdata : ι) (parent : Nat) : Vfs ι :=
  vfs.allocate ⟨fs.rootName, some ⟨iPdata, none⟩, parent, []⟩

def vfsMountFs (vfs : Vfs ι) (cwd path fsName : Text) : Except Fault (Vfs ι × Int) :=
  match vfsGetFs vfs fsName with
  | none => .error .notFoundFilesystem
  | some fs =>
    if path = [slash] then
      match fs.mksb with
      | none => .ok ({ vfs with vfsRoot := none }, 0)
      | some iPdata =>
        .ok ({ vfs.makeRoot fs iPdata vfs.dentryCount with
          vfsRoot := some vfs.dentryCount }, 0)
    else
      match vfsResolvePath lookup vfs cwd path with
      | .error fault => .error fault
      | .ok (vfs, none) => .ok (vfs, -1)
      | .ok (vfs, some dentry) =>
        match fs.mksb, (vfs.dentries dentry).dInode with
        | some iPdata, some inode =>
          let covered := { vfs.dentries dentry with
            dInode := some { inode with
              iMountpoint := some vfs.dentryCount } }
          let mounted :=
            { vfs with
              dentries := update vfs.dentries dentry covered }
          .ok (mounted.makeRoot fs iPdata dentry, 0)
        | _, _ => .error .nullPointer

inductive VfsOp (ι : Type*) where
  | registerFs (fs : VfsFs ι)
  | mountFs (cwd path fsName : Text)
  | resolvePath (cwd path : Text)

def vfsStep (vfs : Vfs ι) : VfsOp ι → Except Fault (Vfs ι)
  | .registerFs fs => .ok (vfsRegisterFs vfs fs)
  | .mountFs cwd path fsName =>
    (vfsMountFs lookup vfs cwd path fsName).map Prod.fst
  | .resolvePath cwd path =>
    (vfsResolvePath lookup vfs cwd path).map Prod.fst

end Resolve

end SeekOs.Fs
