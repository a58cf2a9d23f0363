import SeekOs.Fat32.Calls
import SeekOs.Fs.FileTable

/-!
# The entries that readdir shows

`sys_readdir` looks for the type of an entry in its size.  The type field of the
user's record is written only for the sizes 1 and 2, the numbers of
`VFS_NODE_FILE` and `VFS_NODE_DIRECTOR`, and an empty directory, for which the
file systems allocate no array, is taken for an error.
-/

namespace SeekOs.Fs

open SeekOs.Base SeekOs.Lib SeekOs.Fat32 List

/-- The types that the file systems give the entries of a directory. -/
inductive VfsNodeType where
  | file
  | director
  deriving DecidableEq

/-- The value of the type as a member of `vfs_inode_type_t`. -/
def VfsNodeType.value : VfsNodeType → UInt32
  | .file => 1
  | .director => 2

structure VfsDirent where
  name : Text
  type : VfsNodeType
  sz : UInt32
  deriving DecidableEq

/-- `struct dirent`, as it lies in the user's buffer. -/
structure Dirent where
  name : List UInt8
  type : Int
  sz : UInt32
  deriving DecidableEq

def sizeofDirent : Int := 264

def direntDirectory : Int := 0

def direntFile : Int := 1

def enobufs : Int := 105

/-- A header of the archive for a child of the directory. -/
structure UstarChild where
  name : Text
  size : Int
  isDirectory : Bool

/-- What the scan of a directory comes to, in order. -/
inductive DirScan where
  | fat32 (infos : List DirInfo)
  | ramfs (children : List UstarChild)

def fat32Iterate (infos : List DirInfo) : List VfsDirent :=
  (infos.filter fun info => info.name ≠ dot ∧ info.name ≠ dotDot).map fun info =>
    ⟨info.name, if info.attr &&& Volume.fatAttrDir ≠ 0 then .director else .file, .ofNat info.size⟩

def ramfsIterate (children : List UstarChild) : List VfsDirent :=
  children.map fun child =>
    ⟨child.name, if child.isDirectory then .director else .file, .ofInt child.size⟩

def DirScan.iterate : DirScan → List VfsDirent
  | .fat32 infos => fat32Iterate infos
  | .ramfs children => ramfsIterate children

variable {φ ι δ : Type*}

/-- The entries of the directory that the handle is open on; `scan` has no value
for the other inodes.  The array of no entries is the null pointer. -/
def vfsIterate (tables : FileTables φ ι δ) (scan : φ → ι → Option DirScan) (task : Nat) (fh : Int) :
    List VfsDirent :=
  match tables.findFile task fh with
  | none => []
  | some file => ((scan tables.mounted (tables.files file).fInode).map DirScan.iterate).getD []

/-- One round of the loop of `sys_readdir`. -/
def Dirent.fill (dp : Dirent) (entry : VfsDirent) : Dirent where
  name :=
    let nlen := min entry.name.length 255
    entry.name.take nlen ++ 0 :: dp.name.drop (nlen + 1)
  type :=
    if entry.sz = VfsNodeType.file.value then direntFile
    else if entry.sz = VfsNodeType.director.value then direntDirectory
    else dp.type
  sz := entry.sz

def fillDirents : List VfsDirent → List Dirent → List Dirent
  | entry :: entries, dp :: data => dp.fill entry :: fillDirents entries data
  | _, data => data

/-- The result and the buffer, whose size in bytes is `sz`. -/
def sysReaddir (tables : FileTables φ ι δ) (scan : φ → ι → Option DirScan) (task : Nat) (h : Int)
    (data : List Dirent) (sz : Int) : Int × List Dirent :=
  match vfsIterate tables scan task h with
  | [] => (-enobufs, data)
  | dirent =>
    if sz < toInt32 (dirent.length * sizeofDirent) then (-enobufs, data)
    else (dirent.length, fillDirents dirent data)

/-- The number that stands for the type in a `struct dirent`. -/
def VfsNodeType.shown : VfsNodeType → Int
  | .file => direntFile
  | .director => direntDirectory

def VfsDirent.Shown (entry : VfsDirent) (dp : Dirent) : Prop :=
  (∃ rest, dp.name = entry.name.take 255 ++ 0 :: rest) ∧ dp.sz = entry.sz ∧
    dp.type = entry.type.shown

/-- The size of the entry is the number of its type, or that of no type and the
record of the user already shows the type. -/
def VfsDirent.Fortunate (entry : VfsDirent) (dp : Dirent) : Prop :=
  entry.sz = entry.type.value ∨ entry.sz ≠ 1 ∧ entry.sz ≠ 2 ∧ dp.type = entry.type.shown

theorem shown_fill_iff (entry : VfsDirent) (dp : Dirent) :
    entry.Shown (dp.fill entry) ↔ entry.Fortunate dp := by
  have name : ∃ rest, (dp.fill entry).name = entry.name.take 255 ++ 0 :: rest :=
    ⟨_, by simp only [Dirent.fill]; rw [min_comm, ← take_eq_take_min]⟩
  have type : (dp.fill entry).type = entry.type.shown ↔ entry.Fortunate dp := by
    cases isType : entry.type <;>
      simp [Dirent.fill, VfsDirent.Fortunate, VfsNodeType.value, VfsNodeType.shown, isType,
        direntFile, direntDirectory] <;> grind
  exact ⟨fun shown => type.mp shown.2.2, fun fortunate => ⟨name, rfl, type.mpr fortunate⟩⟩

theorem shown_fillDirents_iff (entries : List VfsDirent) (data : List Dirent) :
    Forall₂ VfsDirent.Shown entries ((fillDirents entries data).take entries.length) ↔
      Forall₂ VfsDirent.Fortunate entries (data.take entries.length) := by
  induction entries generalizing data with
  | nil => simp
  | cons entry entries induction =>
    cases data with
    | nil => simp [fillDirents]
    | cons dp data => simp [fillDirents, shown_fill_iff, induction]

/-- For an open directory and a buffer that is large enough, `sys_readdir` returns
the number of entries and shows them exactly if there are some and the type of
each of them comes out by chance. -/
theorem readdir_faithful_iff (tables : FileTables φ ι δ) (scan : φ → ι → Option DirScan)
    (task : Nat) (h : Int) {file : Nat} (isOpen : tables.findFile task h = some file)
    {found : DirScan} (scanned : scan tables.mounted (tables.files file).fInode = some found)
    (data : List Dirent) {sz : Int} (small : sz < 2 ^ 31)
    (large : found.iterate.length * sizeofDirent ≤ sz) :
    ((sysReaddir tables scan task h data sz).1 = found.iterate.length ∧
      Forall₂ VfsDirent.Shown found.iterate
        ((sysReaddir tables scan task h data sz).2.take found.iterate.length)) ↔
      found.iterate ≠ [] ∧
        Forall₂ VfsDirent.Fortunate found.iterate (data.take found.iterate.length) := by
  have entries : vfsIterate tables scan task h = found.iterate := by
    simp [vfsIterate, isOpen, scanned]
  unfold sysReaddir
  rw [entries]
  cases isEntries : found.iterate with
  | nil => simp [enobufs]
  | cons entry rest =>
    rw [isEntries] at large
    have fits := toInt32_of_range
      (mul_nonneg (Int.natCast_nonneg (entry :: rest).length) (by decide)) (large.trans_lt small)
    simp only [fits, if_neg (not_lt.mpr large), shown_fillDirents_iff]
    simp

/-- A task with one directory open under handle 100. -/
def directoryTables (found : DirScan) : FileTables Unit DirScan Unit :=
  { FileTables.boot vfsInit () ⟨⟨⟨none, 0⟩, 100, .read, false⟩, 0, found, 1⟩ with
    openFiles := fun _ => [0] }

def blankDirent (type : Int) : Dirent := ⟨replicate 256 0, type, 0⟩

/-- A file of one byte. -/
theorem readdir_faithful_byte :
    let found := DirScan.ramfs [⟨[97], 1, false⟩]
    let answer := sysReaddir (directoryTables found) (fun _ => some) 0 100 [blankDirent 0] 264
    answer.1 = found.iterate.length ∧
      Forall₂ VfsDirent.Shown found.iterate (answer.2.take found.iterate.length) :=
  (readdir_faithful_iff _ _ _ _ rfl rfl _ (by decide) (by decide)).mpr
    ⟨by decide, .cons (.inl rfl) .nil⟩

/-- An empty directory is an error, and a directory shows as the file that the
buffer was filled with before. -/
theorem readdir_unfaithful :
    (sysReaddir (directoryTables (.ramfs [])) (fun _ => some) 0 100 [] 0).1 = -enobufs ∧
      (sysReaddir (directoryTables (.ramfs [⟨[97], 0, true⟩])) (fun _ => some) 0 100
        [blankDirent direntFile] 264).2.map Dirent.type = [direntFile] := by
  decide

end SeekOs.Fs
