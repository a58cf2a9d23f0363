import SeekOs.Fat32.File
import SeekOs.Fs.FileTable

/-!
# The file operations of the FAT file system

The `vfs_file_ops_t` of `fat32.c`.  Every operation runs under `fat_lock`.
-/

namespace SeekOs.Fat32

open SeekOs.Fs SeekOs.Lib

structure InodeData where
  startClus : Nat
  fileSize : Nat
  attr : UInt8
  isRoot : Bool
  dirSect : Nat
  dirIdx : Nat
  deriving DecidableEq

/-- The record of `fat32_open` before it seeks. -/
def newFile (idata : InodeData) (mode : OpenMode) : File where
  dirSect := idata.dirSect
  dirIdx := idata.dirIdx
  sclust := idata.startClus
  clust := idata.startClus
  sect := 0xffffffff
  size := idata.fileSize
  offset := 0
  attr := idata.attr
  flags :=
    { write := mode ≠ .read
      read := true
      accessed := false
      modified := false
      fileDirty := false }
  buf := ByteBlock.zero

/-- What an operation leaves in `f_pdata` and `f_pos`. -/
def keptFile (file : File) : FilePrivate File :=
  ⟨some file, file.offset⟩

def seekOf : Wence → Option Seek
  | .set => some .start
  | .cur => some .curr
  | .fromEnd => some .fromEnd
  | .other => none

namespace Volume

variable (vol : Volume)

variable (fat : Fat)

/-- The result of the seek is ignored. -/
def fat32Open (idata : InodeData) (filep : FsFile File) : Option (Fat × FilePrivate File) :=
  (vol.fatFileSeek 0 .start (fat, newFile idata filep.fOpenmode)).map
    fun (_, after) => (after.1, keptFile after.2)

/-- The result of `fat_file_sync` is ignored. -/
def fat32Close (_idata : InodeData) (filep : FsFile File) : Option (Fat × Int) :=
  match filep.fPdata with
  | none => some (fat, 0)
  | some file =>
    (vol.fatFileSync (fat, file)).map fun (_, after) => (after.1, 0)

def fat32Read (_idata : InodeData) (filep : FsFile File)
    (len : Int) : Option (Fat × FilePrivate File × Int × List UInt8) :=
  match filep.fPdata with
  | none => some (fat, filep.toFilePrivate, -1, [])
  | some file =>
    if len ≤ 0 then
      some (fat, filep.toFilePrivate, 0, [])
    else
      (vol.fatFileRead len.toNat (fat, file)).map fun (result, after) =>
        match result with
        | .error _ => (after.1, keptFile after.2, -1, [])
        | .ok (bytes, err) =>
          (after.1, keptFile after.2, if err.isSome then -1 else 0, bytes)

def fat32Write (_idata : InodeData) (filep : FsFile File)
    (buffer : List UInt8) : Option (Fat × FilePrivate File × Int) :=
  match filep.fPdata with
  | none => some (fat, filep.toFilePrivate, -1)
  | some file =>
    if buffer = [] then
      some (fat, filep.toFilePrivate, 0)
    else
      (vol.fatFileWrite buffer (fat, file)).map fun (result, after) =>
        (after.1, keptFile after.2,
          match result with
          | .error _ => -1
          | .ok _ => 0)

def fat32Lseek (_idata : InodeData) (filep : FsFile File)
    (offset : Int) (wence : Wence) : Option (Fat × FilePrivate File × Int) :=
  match filep.fPdata, seekOf wence with
  | some file, some seek =>
    (vol.fatFileSeek offset seek (fat, file)).map fun (result, after) =>
      (after.1, keptFile after.2,
        match result with
        | .error _ => -1
        | .ok () => toInt32 after.2.offset)
  | _, _ => some (fat, filep.toFilePrivate, -1)

def fat32FileOps : FileOps Fat InodeData File where
  openFile := vol.fat32Open
  closeFile := vol.fat32Close
  readFile := vol.fat32Read
  writeFile := vol.fat32Write
  lseekFile := vol.fat32Lseek

end Volume

end SeekOs.Fat32
