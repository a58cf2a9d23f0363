import SeekOs.Fs.Vfs
import SeekOs.Lib.MachineInt

/-!
# Open files

Every task has a list of open `vfs_file_t` records.  The records are numbered
in the order of their allocation, and a number is not used again, so that the
calls of the file systems' `close` operations and the calls of `kfree` can be
told apart for good: they are logged.

A task only searches and edits its own list, so each call is one step.  What a
mounted file system does is behind the operations of its inodes.
-/

namespace SeekOs.Fs

open SeekOs.Base SeekOs.Lib Function

inductive OpenMode where
  | read
  | write
  | readwrite
  deriving DecidableEq

/-- `SEEK_SET`, `SEEK_CUR`, `SEEK_END` and the other values of `wence`. -/
inductive Wence where
  | set
  | cur
  | fromEnd
  | other
  deriving DecidableEq

/-- The part of `vfs_file_t` that a file system writes. -/
structure FilePrivate (δ : Type*) where
  fPdata : Option δ
  fPos : Nat
  deriving DecidableEq

/-- The part of `vfs_file_t` that a file system reads. -/
structure FsFile (δ : Type*) extends FilePrivate δ where
  fHandle : Int
  fOpenmode : OpenMode
  isConsole : Bool
  deriving DecidableEq

structure VfsFile (ι δ : Type*) extends FsFile δ where
  fDentry : Nat
  fInode : ι
  count : Int
  deriving DecidableEq

/-- The record that `vfs_copy` makes of another one. -/
def VfsFile.copied {ι δ : Type*} (record : VfsFile ι δ) : VfsFile ι δ :=
  { record with fPdata := none }

/-- `vfs_file_ops_t`, over the state of the mounted file systems, the data of
an inode and the private data of an open file.  An operation without a result
stops the kernel. -/
structure FileOps (φ ι δ : Type*) where
  openFile : φ → ι → FsFile δ → Option (φ × FilePrivate δ)
  closeFile : φ → ι → FsFile δ → Option (φ × Int)
  readFile : φ → ι → FsFile δ → Int → Option (φ × FilePrivate δ × Int × List UInt8)
  writeFile : φ → ι → FsFile δ → List UInt8 → Option (φ × FilePrivate δ × Int)
  lseekFile : φ → ι → FsFile δ → Int → Wence → Option (φ × FilePrivate δ × Int)

/-- The dentries, the state of the mounted file systems, the file records and
the `open_files` of every task.  `closed` and `freed` are the records whose
`close` operation was called and which `kfree` was called for, the last call
first. -/
structure FileTables (φ ι δ : Type*) where
  vfs : Vfs ι
  mounted : φ
  files : Nat → VfsFile ι δ
  fileCount : Nat
  vfsNextHandleCount : Int
  openFiles : Nat → List Nat
  closed : List Nat
  freed : List Nat

def vfsMinHandle : Int := 100

def enoent : Int := -2

namespace FileTables

variable {φ ι δ : Type*}

def boot (vfs : Vfs ι) (mounted : φ) (blank : VfsFile ι δ) : FileTables φ ι δ where
  vfs := vfs
  mounted := mounted
  files := fun _ => blank
  fileCount := 0
  vfsNextHandleCount := vfsMinHandle
  openFiles := fun _ => []
  closed := []
  freed := []

section

variable (tables : FileTables φ ι δ)

def handle (file : Nat) : Int :=
  (tables.files file).fHandle

/-- The search of a handle in the list of a task. -/
def findFile (task : Nat) (fh : Int) : Option Nat :=
  (tables.openFiles task).find? fun file => tables.handle file = fh

def findConsole (task : Nat) (fh : Int) : Option Nat :=
  (tables.openFiles task).find? fun file =>
    decide (tables.handle file = fh) && (tables.files file).isConsole

def setOpenFiles (task : Nat) (files : List Nat) : FileTables φ ι δ :=
  { tables with openFiles := update tables.openFiles task files }

def updateFile (file : Nat) (change : VfsFile ι δ → VfsFile ι δ) : FileTables φ ι δ :=
  { tables with
    files := update tables.files file (change (tables.files file)) }

def addCount (file : Nat) (change : Int) : FileTables φ ι δ :=
  tables.updateFile file fun record =>
    { record with count := record.count + change }

/-- Allocate a record and put it at the end of the list of a task. -/
def addFile (task : Nat) (record : VfsFile ι δ) : FileTables φ ι δ :=
  { tables with
    files := update tables.files tables.fileCount record
    fileCount := tables.fileCount + 1
    openFiles := update tables.openFiles task
      (dlistAddPrev (tables.openFiles task) tables.fileCount) }

end

variable (ops : FileOps φ ι δ)

/-- The part that `vfs_open` and `vfs_open_console` share, for the dentry a
path was resolved to. -/
def openAt (tables : FileTables φ ι δ) (task dentry : Nat) (fh : Int)
    (openmode : OpenMode) (isConsole : Bool) : Option (FileTables φ ι δ) :=
  match crossMount tables.vfs dentry with
  | .error _ => none
  | .ok target =>
    match (tables.vfs.dentries target).dInode with
    | none => none
    | some inode =>
      let file : FsFile δ := ⟨⟨none, 0⟩, fh, openmode, isConsole⟩
      (ops.openFile tables.mounted inode.iPdata file).map
        fun (mounted, opened) =>
          { tables with mounted := mounted }.addFile task
            ⟨{ file with toFilePrivate := opened }, target, inode.iPdata, 1⟩

variable (lookup : ι → Text → LookupResult ι)

section

variable (tables : FileTables φ ι δ)

variable (task : Nat)

def vfsOpen (cwd path : Text) (openmode : OpenMode) : Option (FileTables φ ι δ × Int) :=
  match vfsResolvePath lookup tables.vfs cwd path with
  | .error _ => none
  | .ok (vfs, none) => some ({ tables with vfs := vfs }, enoent)
  | .ok (vfs, some dentry) =>
    let fh := toInt32 (tables.vfsNextHandleCount + 1)
    let counted := { tables with vfs := vfs, vfsNextHandleCount := fh }
    (counted.openAt ops task dentry fh openmode false).map fun opened => (opened, fh)

def vfsOpenConsole (cwd path : Text) (fh : Int) : Option (FileTables φ ι δ × Int) :=
  match vfsResolvePath lookup tables.vfs cwd path with
  | .error _ => none
  | .ok (vfs, none) => some ({ tables with vfs := vfs }, enoent)
  | .ok (vfs, some dentry) =>
    ({ tables with vfs := vfs }.openAt ops task dentry fh .readwrite
      true).map fun opened => (opened, fh)

/-- Call the `close` operation of a file, take it from the list of a task and
free it. -/
def dispose (task file : Nat) : Option (FileTables φ ι δ × Int) :=
  let record := tables.files file
  (ops.closeFile tables.mounted record.fInode record.toFsFile).map
    fun (mounted, result) =>
      ({ tables with
          mounted := mounted
          openFiles := update tables.openFiles task
            (dlistRemoveEntry (tables.openFiles task) file)
          closed := file :: tables.closed
          freed := file :: tables.freed }, result)

def vfsClose (fh : Int) : Option (FileTables φ ι δ × Int) :=
  match tables.findFile task fh with
  | none => some (tables, -1)
  | some file =>
    let counted := tables.addCount file (-1)
    if 0 < (counted.files file).count then
      some (counted, 0)
    else
      counted.dispose ops task file

def vfsCloseConsole (fh : Int) : Option (FileTables φ ι δ × Int) :=
  match tables.findConsole task fh with
  | none => some (tables, -1)
  | some file => tables.dispose ops task file

/-- Store what an operation of a file system has left in a file. -/
def setPrivate (mounted : φ) (file : Nat) (after : FilePrivate δ) : FileTables φ ι δ :=
  { tables with mounted := mounted }.updateFile file fun record =>
    { record with toFilePrivate := after }

/-- What a read through a file record returns. -/
def readResult (file : Nat) (len : Int) : Option (Int × List UInt8) :=
  let record := tables.files file
  (ops.readFile tables.mounted record.fInode record.toFsFile len).map fun (_, _, result) => result

def vfsRead (fh len : Int) : Option (FileTables φ ι δ × Int × List UInt8) :=
  match tables.findFile task fh with
  | none => some (tables, 0, [])
  | some file =>
    let record := tables.files file
    (ops.readFile tables.mounted record.fInode record.toFsFile len).map
      fun (mounted, after, result, bytes) =>
        (tables.setPrivate mounted file after, result, bytes)

def vfsWrite (fh : Int) (bytes : List UInt8) : Option (FileTables φ ι δ × Int) :=
  match tables.findFile task fh with
  | none => some (tables, 0)
  | some file =>
    let record := tables.files file
    (ops.writeFile tables.mounted record.fInode record.toFsFile bytes).map
      fun (mounted, after, result) =>
        (tables.setPrivate mounted file after, result)

def vfsLseek (fh offset : Int) (wence : Wence) : Option (FileTables φ ι δ × Int) :=
  match tables.findFile task fh with
  | none => some (tables, 0)
  | some file =>
    let record := tables.files file
    (ops.lseekFile tables.mounted record.fInode record.toFsFile offset
      wence).map fun (mounted, after, result) =>
        (tables.setPrivate mounted file after, result)

/-- The body of the loop of `vfs_copy`. -/
def copyFile (dest : Nat) (tables : FileTables φ ι δ) (file : Nat) : FileTables φ ι δ :=
  if (tables.files file).isConsole then
    tables
  else
    let counted := tables.addCount file 1
    counted.addFile dest (counted.files file).copied

def vfsCopy (dest src : Nat) : FileTables φ ι δ :=
  (tables.openFiles src).foldl (copyFile dest) tables

end

/-- The loop of `_task_close_all_files`, called by the task `current`, with the
number of rounds it may still take. -/
def closeAllLoop (current task : Nat) : Nat → FileTables φ ι δ → Option (FileTables φ ι δ)
  | 0, tables => some tables
  | fuel + 1, tables =>
    match tables.openFiles task with
    | [] => some tables
    | file :: rest =>
      let unlinked := tables.setOpenFiles task rest
      let close :=
        if (tables.files file).isConsole then
          unlinked.vfsCloseConsole ops current (tables.handle file)
        else
          unlinked.vfsClose ops current (tables.handle file)
      close.bind fun (closed, _) => closeAllLoop current task fuel closed

/-- `_task_close_all_files`: every round unlinks an entry. -/
def taskCloseAllFiles (tables : FileTables φ ι δ) (current task : Nat) :
    Option (FileTables φ ι δ) :=
  closeAllLoop ops current task (tables.openFiles task).length tables

end FileTables

/-! ## The files of the initial archive -/

/-- The fields of `ramfs_ustar_data_t` that the file operations read. -/
structure RamfsData where
  size : Int
  dataOffset : Nat
  deriving DecidableEq

def ramfsRead (rdBuff : List UInt8) (udata : RamfsData) (filep : FsFile Unit) (len : Int) :
    Option (List UInt8 × FilePrivate Unit × Int × List UInt8) :=
  if len = 0 then
    some (rdBuff, filep.toFilePrivate, 0, [])
  else if toSizeT udata.size ≤ filep.fPos then
    some (rdBuff, filep.toFilePrivate, -1, [])
  else
    let size :=
      if toSizeT udata.size < toSizeT (filep.fPos + len) then
        toInt32 (udata.size - filep.fPos)
      else
        len
    -- a negative size makes memcpy run over all of memory
    if size < 0 then
      none
    else
      some (rdBuff, ⟨filep.fPdata, toSizeT (filep.fPos + size)⟩, 0,
        (rdBuff.drop (udata.dataOffset + filep.fPos)).take size.toNat)

def ramfsLseek (rdBuff : List UInt8) (udata : RamfsData)
    (filep : FsFile Unit) (offset : Int) (wence : Wence) :
    Option (List UInt8 × FilePrivate Unit × Int) :=
  let moved : Option Nat := match wence with
    | .set => if offset < 0 then none else some (toSizeT offset)
    | .cur =>
      if offset < 0 ∧ (filep.fPos : Int) < -offset then
        none
      else
        some (toSizeT (filep.fPos + offset))
    | .fromEnd =>
      if 0 < offset then none else some (toSizeT (udata.size + offset))
    | .other => none
  match moved with
  | none => some (rdBuff, filep.toFilePrivate, -1)
  | some position =>
    let bounded := min position (toSizeT udata.size)
    some (rdBuff, ⟨filep.fPdata, bounded⟩, toInt32 bounded)

/-- `ramfs_file_ops`; opening and closing a file of the archive do nothing. -/
def ramfsFileOps : FileOps (List UInt8) RamfsData Unit where
  openFile := fun rdBuff _ file => some (rdBuff, file.toFilePrivate)
  closeFile := fun rdBuff _ _ => some (rdBuff, 0)
  readFile := ramfsRead
  writeFile := fun rdBuff _ file _ => some (rdBuff, file.toFilePrivate, -1)
  lseekFile := ramfsLseek

end SeekOs.Fs
