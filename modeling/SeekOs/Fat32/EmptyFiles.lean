import SeekOs.Fat32.Extension
import SeekOs.Fat32.Handles

/-!
# Files without a cluster

The directory entry of an empty file has start cluster 0.  No call of
`fat32.c` treats this cluster apart from the others: its sectors are two
clusters in front of the data, where the tables are, and its chain starts in the
first entry of the table.  An empty file can be opened, read and closed, but
writing to it or removing it damages the volume.
-/

namespace SeekOs.Fat32

open SeekOs.Fs SeekOs.Lib SeekOs.Lib.Action Function Option Volume WriteBack

/-- A call on one of the handles of an empty file, or `fat_unlink`. -/
inductive EmptyOp where
  | call (op : HandleOp)
  | unlink (path : Text)

section

variable (vol : Volume)

variable (idata : InodeData)

def emptyStep (handles : Handles) : EmptyOp → Option Handles
  | .call op => handles.step vol idata op
  | .unlink path =>
    (vol.fatUnlink path (handles.fat, Volume.stackDir)).map
      fun (_, after) => { handles with fat := after.1 }

variable (disk : Nat → Sector)

/-- The bytes of a disk that the calls on an empty file may change: its directory
entry, the counters, and the entries and sectors of clusters that are free. -/
def MayWrite (sect : Nat) (index : Fin 512) : Prop :=
  sect = vol.infoSect ∨
    (sect = idata.dirSect ∧ idata.dirIdx ≤ index.val ∧ index.val < idata.dirIdx + 32) ∨
    ∃ clust ∈ vol.freeClusts disk,
      (index.val / 4 = clust % 128 ∧ (sect = itemSect vol.fatSect clust ∨
        vol.mirrorSect ≠ 0 ∧ sect = itemSect vol.mirrorSect clust)) ∨
      ∃ off < vol.clustSize, sect = vol.offSect clust off

structure FrameKept (before after : Nat → Sector) : Prop where
  reserved : ∀ clust < 2, vol.link after clust = vol.link before clust
  others : ∀ sect index, ¬MayWrite vol idata before sect index →
    after sect index = before sect index

/-- The calls that leave an empty file without a cluster: nothing is stored, the
position stays in the first cluster, and the file is not removed. -/
def LeavesEmpty (handles : Handles) : EmptyOp → Prop
  | .call (.write handle buffer) =>
    buffer = [] ∨ ∀ filep ∈ handles.files handle, filep.fOpenmode = .read
  | .call (.seek handle offset wence) =>
    ∀ filep ∈ handles.files handle, ∀ file ∈ filep.fPdata,
      ∀ seek ∈ seekOf wence,
        (Volume.seekBase file seek : Int) + offset < vol.clustSize ∨
          0xffffffff < (Volume.seekBase file seek : Int) + offset
  | .call _ => True
  | .unlink _ => False

/-- An empty file whose directory entry lies outside of the first table and of
the sectors of cluster 0. -/
structure EmptyFile : Prop where
  start : idata.startClus = 0
  size : idata.fileSize = 0
  table : itemSect vol.fatSect 0 ≠ idata.dirSect
  apart : ∀ off < vol.clustSize, vol.offSect 0 off ≠ idata.dirSect
  known : vol.offSect 0 0 ≠ 0xffffffff

/-! ## A handle in cluster 0 -/

structure EmptyHandle (filep : FsFile File) (file : File) : Prop where
  opened : Handles.Opened idata filep false file
  clust : file.clust = 0
  size : file.size = 0
  inside : file.offset < vol.clustSize
  sect : file.sect = vol.offSect 0 file.offset
  clean : file.flags.fileDirty = false
  buf : file.buf = disk file.sect

/-- Nothing on the disk has changed but the access date, and the open handles
hold what is there. -/
structure StillEmpty (handles : Handles) : Prop where
  tidy : handles.fat.Tidy
  info : handles.fat.infoDirty = false
  fresh : handles.fat.cache.address = idata.dirSect →
    handles.fat.cache.block = handles.fat.disk idata.dirSect
  kept : ∀ sect index, ¬(sect = idata.dirSect ∧
      (index.val = idata.dirIdx + 18 ∨ index.val = idata.dirIdx + 19)) →
    handles.fat.disk sect index = disk sect index
  opened : ∀ handle filep file, handles.files handle = some filep →
    filep.fPdata = some file → EmptyHandle vol idata disk filep file

theorem Volume.placedFile_flags (file : File) (clust off : Nat) :
    (vol.placedFile file clust off).flags = file.flags := rfl

end

variable {file : File}

theorem Volume.switchedFat_clean (fat : Fat) {ssect : Nat} (clean : file.flags.fileDirty = false) :
    switchedFat fat file ssect = fat := by
  unfold switchedFat
  simp [clean]

variable {fat : Fat} {off : Nat} {offset : Int}

theorem Volume.meets_fatFileSeek_near (vol : Volume) (quiet : fat.Quiet)
    {seek : Seek} (isOff : seekBase file seek + offset = off)
    (small : off ≤ 0xffffffff) (inside : file.offset < vol.clustSize)
    (near : off < vol.clustSize) (clean : file.flags.fileDirty = false)
    {returns : Unit → Fat × File → Prop} {fails : FatErr → Fat × File → Prop}
    {hangs : Prop} :
    Meets (vol.fatFileSeek offset seek) (fat, file) hangs returns fails ↔
      returns () (fat, switchedFile fat.disk (vol.placedFile file file.clust off) file.sect) := by
  have forwards : ¬off / vol.clustSize < file.offset / vol.clustSize := by
    rw [Nat.div_eq_of_lt inside]
    exact Nat.not_lt_zero _
  have links : vol.seekLinks file off = 0 := by
    rw [seekLinks, if_neg forwards, Nat.div_eq_of_lt near, Nat.zero_sub]
  have start : vol.seekStart file off = file := if_neg forwards
  have stays : (vol.placedFile file file.clust off).flags.fileDirty = false := by
    rw [placedFile_flags, clean]
  rw [vol.meets_fatFileSeek isOff small, links, start, followLoop, meets_pure,
    vol.meets_finishSeek quiet, switchedFat_clean fat stays]

variable {written : Bool}

section Steps

variable {vol : Volume} {idata : InodeData} {disk : Nat → Sector}
  {handles next : Handles} {handle : Nat} {filep : FsFile File}

theorem EmptyHandle.accessed (held : EmptyHandle vol idata disk filep file) :
    EmptyHandle vol idata disk filep
      { file with flags := { file.flags with accessed := true } } where
  opened := ⟨held.opened.dirSect, held.opened.dirIdx, held.opened.write,
    held.opened.modified⟩
  clust := held.clust
  size := held.size
  inside := held.inside
  sect := held.sect
  clean := held.clean
  buf := held.buf

theorem EmptyHandle.moved {now : Nat → Sector}
    (opened : Handles.Opened idata filep false file) (size : file.size = 0)
    (clean : file.flags.fileDirty = false)
    (buf : vol.offSect 0 off = file.sect → file.buf = disk file.sect)
    (near : off < vol.clustSize)
    (same : now (vol.offSect 0 off) = disk (vol.offSect 0 off)) :
    EmptyHandle vol idata disk filep (switchedFile now (vol.placedFile file 0 off) file.sect) where
  opened := ⟨opened.dirSect, opened.dirIdx, opened.write, opened.modified⟩
  clust := rfl
  size := size
  inside := near
  sect := rfl
  clean := by
    change (file.flags.fileDirty && _) = false
    rw [clean, Bool.false_and]
  buf := by
    change (if vol.offSect 0 off = file.sect then file.buf
      else now (vol.offSect 0 off)) = disk (vol.offSect 0 off)
    split
    · rename_i stays
      rw [stays]
      exact buf stays
    · exact same

theorem EmptyHandle.fatFileRead (held : EmptyHandle vol idata disk filep file) (len : Nat) :
    Meets (vol.fatFileRead len) (fat, file) False
      (fun _ after => after.1 = fat ∧ EmptyHandle vol idata disk filep after.2)
      (fun _ after => after.1 = fat ∧ EmptyHandle vol idata disk filep after.2) := by
  rw [Volume.fatFileRead, meets_bind, getFile, meets_bind, meets_get, meets_pure]
  split
  · rw [meets_bind, meets_fail]
    exact ⟨rfl, held⟩
  · rw [meets_bind, modifyFile, meets_modify]
    cases len with
    | zero =>
      exact ⟨rfl, held.accessed⟩
    | succ len =>
      have atEnd : ¬file.offset < file.size := by
        rw [held.size]
        exact Nat.not_lt_zero _
      rw [readLoop, meets_bind, getFile, meets_bind, meets_get,
        meets_pure, if_neg atEnd, meets_pure]
      exact ⟨rfl, held.accessed⟩
      · exact Nat.succ_ne_zero len

section

variable (still : StillEmpty vol idata disk handles)
include still

theorem StillEmpty.sector {sect : Nat} (apart : sect ≠ idata.dirSect) :
    handles.fat.disk sect = disk sect := by
  funext index
  apply still.kept
  rintro ⟨same, _⟩
  exact apart same

theorem StillEmpty.setFile {after : FilePrivate File} (opened : ∀ file, after.fPdata = some file →
      EmptyHandle vol idata disk filep file) :
    StillEmpty vol idata disk (handles.setFile handles.fat handle filep after written) where
  tidy := still.tidy
  info := still.info
  fresh := still.fresh
  kept := still.kept
  opened := by
    intro other otherFilep file isOpen holds
    by_cases same : other = handle
    · subst same
      have placed : (handles.setFile handles.fat other filep after
          written).files other = some { filep with toFilePrivate := after } :=
        update_self other _ _
      cases placed.symm.trans isOpen
      have held := opened file holds
      exact ⟨⟨held.opened.dirSect, held.opened.dirIdx, held.opened.write,
        held.opened.modified⟩, held.clust, held.size, held.inside, held.sect,
        held.clean, held.buf⟩
    · apply still.opened other otherFilep file _ holds
      rw [← isOpen]
      exact (update_of_ne same _ _).symm

theorem StillEmpty.unchanged (isOpen : handles.files handle = some filep) :
    StillEmpty vol idata disk (handles.setFile handles.fat handle filep
      filep.toFilePrivate written) := by
  apply still.setFile
  intro file holds
  exact still.opened handle filep file isOpen holds

end

theorem stillEmpty_read (still : StillEmpty vol idata disk handles) {len : Int}
    (stepped : handles.step vol idata (.read handle len) = some next) :
    StillEmpty vol idata disk next := by
  obtain ⟨filep, isOpen, stepped⟩ := bind_eq_some_iff.mp stepped
  obtain ⟨⟨fat, after, result⟩, read, placed⟩ := map_eq_some_iff.mp stepped
  cases placed
  unfold fat32Read at read
  split at read
  · cases read
    exact still.unchanged isOpen
  · rename_i file holds
    split at read
    · cases read
      exact still.unchanged isOpen
    · obtain ⟨⟨outcome, fatAfter, fileAfter⟩, ran, kept⟩ := map_eq_some_iff.mp read
      have held := still.opened handle filep file isOpen holds
      obtain ⟨same, heldAfter⟩ := (held.fatFileRead len.toNat).of_outcome ran
      subst same
      have placed : StillEmpty vol idata disk (handles.setFile handles.fat handle
          filep (keptFile fileAfter) (handles.written handle)) := by
        apply still.setFile
        intro kept isKept
        cases isKept
        exact heldAfter
      cases outcome with
      | error error =>
        cases kept
        exact placed
      | ok value =>
        cases kept
        exact placed

theorem stillEmpty_write (still : StillEmpty vol idata disk handles) {buffer : List UInt8}
    (leaves : LeavesEmpty vol handles (.call (.write handle buffer)))
    (stepped : handles.step vol idata (.write handle buffer) = some next) :
    StillEmpty vol idata disk next := by
  obtain ⟨filep, isOpen, stepped⟩ := bind_eq_some_iff.mp stepped
  obtain ⟨⟨fat, after, result⟩, wrote, placed⟩ := map_eq_some_iff.mp stepped
  cases placed
  unfold fat32Write at wrote
  split at wrote
  · cases wrote
    exact still.unchanged isOpen
  · rename_i file holds
    split at wrote
    · cases wrote
      exact still.unchanged isOpen
    · rename_i nonempty
      obtain ⟨⟨outcome, fatAfter, fileAfter⟩, ran, kept⟩ := map_eq_some_iff.mp wrote
      cases kept
      have held := still.opened handle filep file isOpen holds
      have reads := (leaves.resolve_left nonempty) filep isOpen
      have denied : file.flags.write = false := by
        rw [held.opened.write, reads]
        rfl
      rcases (vol.fatFileWrite_leaves still.tidy buffer).of_outcome ran with
        ⟨same, _⟩ | ⟨writes, _⟩
      · cases same
        apply still.setFile
        intro kept isKept
        cases isKept
        exact held
      · rw [denied] at writes
        cases writes

theorem Volume.entryCache_fresh (tidy : fat.Tidy)
    (fresh : fat.cache.address = file.dirSect → fat.cache.block = fat.disk file.dirSect)
    (current : fat.disk file.sect = file.buf)
    (same : (entryCache fat file).address = file.dirSect) :
    (entryCache fat file).block = (entryCache fat file).view file.dirSect := by
  unfold entryCache at same ⊢
  split at same
  · rename_i marked
    have edited := edit_current
      ((fat.cache.poke file.sect file.buf).load file.dirSect) (putEntry file)
    rw [WriteBack.Current, same] at edited
    rw [if_pos marked]
    exact edited
  · rename_i unmarked
    rw [if_neg unmarked, poke_view_of_tidy tidy, ← current, update_eq_self]
    exact fresh same

theorem Volume.synced_of_info (info : fat.infoDirty = false) :
    vol.synced fat = fat.setCache fat.cache.sync := by
  unfold synced
  rw [info]
  rfl

section

variable (empty : EmptyFile vol idata)
include empty

section

variable (still : StillEmpty vol idata disk handles)
include still

theorem StillEmpty.seek (opened : Handles.Opened idata filep false file) (clust : file.clust = 0)
    (size : file.size = 0) (inside : file.offset < vol.clustSize)
    (clean : file.flags.fileDirty = false) {seek : Seek}
    (isOff : seekBase file seek + offset = off)
    (small : off ≤ 0xffffffff) (near : off < vol.clustSize)
    (buf : vol.offSect 0 off = file.sect → file.buf = disk file.sect)
    {result : Except FatErr Unit} {after : Fat × File}
    (sought : vol.fatFileSeek offset seek (handles.fat, file) = some (result, after)) :
    StillEmpty vol idata disk
      (handles.setFile after.1 handle filep (keptFile after.2) written) := by
  have moves : Meets (vol.fatFileSeek offset seek) (handles.fat, file) False
      (fun _ after => after.1 = handles.fat ∧ EmptyHandle vol idata disk filep after.2)
      (fun _ after => after.1 = handles.fat ∧ EmptyHandle vol idata disk filep after.2) := by
    rw [vol.meets_fatFileSeek_near still.tidy.quiet isOff small inside near clean, clust]
    refine ⟨rfl, ?_⟩
    apply EmptyHandle.moved opened size clean buf near
    exact still.sector (empty.apart off near)
  obtain ⟨same, held⟩ := moves.of_outcome sought
  rw [same]
  apply still.setFile
  intro kept isKept
  cases isKept
  exact held

theorem stillEmpty_open {mode : OpenMode}
    (stepped : handles.step vol idata (.open handle mode) = some next) :
    StillEmpty vol idata disk next := by
  unfold Handles.step at stepped
  dsimp only at stepped
  split at stepped
  · cases stepped
  · obtain ⟨⟨fat, after⟩, opened, placed⟩ := map_eq_some_iff.mp stepped
    cases placed
    obtain ⟨⟨result, fatAfter, file⟩, sought, kept⟩ := map_eq_some_iff.mp opened
    cases kept
    have positive : 0 < vol.clustSize := by
      unfold clustSize
      positivity
    apply still.seek empty ⟨rfl, rfl, rfl, fun _ => rfl⟩ empty.start
      empty.size positive rfl rfl (Nat.zero_le _) positive _ sought
    intro same
    exact absurd same empty.known

theorem stillEmpty_seek {wence : Wence}
    (leaves : LeavesEmpty vol handles (.call (.seek handle offset wence)))
    (stepped : handles.step vol idata (.seek handle offset wence) = some next) :
    StillEmpty vol idata disk next := by
  obtain ⟨filep, isOpen, stepped⟩ := bind_eq_some_iff.mp stepped
  obtain ⟨⟨fat, after, result⟩, sought, placed⟩ := map_eq_some_iff.mp stepped
  cases placed
  unfold fat32Lseek at sought
  split at sought
  · rename_i file seek holds isSeek
    obtain ⟨⟨outcome, fatAfter, fileAfter⟩, ran, kept⟩ := map_eq_some_iff.mp sought
    cases kept
    have held := still.opened handle filep file isOpen holds
    by_cases outside : (seekBase file seek : Int) + offset < 0 ∨
        0xffffffff < (seekBase file seek : Int) + offset
    · have fails : Meets (vol.fatFileSeek offset seek) (handles.fat, file)
          False (fun _ after => after = (handles.fat, file))
          (fun _ after => after = (handles.fat, file)) := by
        rw [ReadsTable.fatFileSeek_range outside]
      cases fails.of_outcome ran
      apply still.setFile
      intro kept isKept
      cases isKept
      exact held
    · obtain ⟨off, isOff⟩ := Int.eq_ofNat_of_zero_le
        (Int.not_lt.mp fun negative => outside (.inl negative))
      have near := leaves filep isOpen file holds seek isSeek
      apply still.seek empty held.opened held.clust held.size held.inside
        held.clean isOff (by omega) (by omega) _ ran
      exact fun _ => held.buf
  · cases sought
    exact still.unchanged isOpen

theorem stillEmpty_close (stepped : handles.step vol idata (.close handle) = some next) :
    StillEmpty vol idata disk next := by
  obtain ⟨filep, isOpen, stepped⟩ := bind_eq_some_iff.mp stepped
  obtain ⟨⟨fat, result⟩, closed, placed⟩ := map_eq_some_iff.mp stepped
  have others : ∀ other otherFilep file, update handles.files handle none other = some otherFilep →
      otherFilep.fPdata = some file →
      EmptyHandle vol idata disk otherFilep file := by
    intro other otherFilep file otherOpen holds
    by_cases same : other = handle
    · subst same
      rw [update_self] at otherOpen
      cases otherOpen
    · rw [update_of_ne same] at otherOpen
      exact still.opened other otherFilep file otherOpen holds
  cases holds : filep.fPdata with
  | none =>
    rw [fat32Close, holds] at closed
    cases closed
    cases placed
    exact ⟨still.tidy, still.info, still.fresh, still.kept, others⟩
  | some file =>
    have held := still.opened handle filep file isOpen holds
    have tidy := still.tidy
    have synced : vol.synced (handles.fat.setCache
        (entryCache handles.fat file)) = handles.fat.setCache (entryCache handles.fat file).sync :=
      synced_of_info still.info
    rw [Handles.fat32Close_eq tidy.quiet holds, synced] at closed
    cases closed
    cases placed
    have fresh := still.fresh
    rw [← held.opened.dirSect] at fresh
    have current : handles.fat.disk file.sect = file.buf := by
      rw [held.buf, held.sect]
      exact still.sector (empty.apart _ held.inside)
    have stored := (entryCache handles.fat file).sync_store
    refine ⟨⟨tidy.quiet, sync_dirty _⟩, still.info, ?_, ?_, others⟩
    · intro same
      change (entryCache handles.fat file).sync.address = _ at same
      change (entryCache handles.fat file).sync.block =
        (entryCache handles.fat file).sync.store idata.dirSect
      rw [sync_address, ← held.opened.dirSect] at same
      rw [sync_block, stored, ← held.opened.dirSect]
      exact entryCache_fresh tidy fresh current same
    · intro sect index date
      change (entryCache handles.fat file).sync.store sect index = _
      rw [stored, ← still.kept sect index date]
      rw [← held.opened.dirSect, ← held.opened.dirIdx] at date
      exact entryCache_current tidy (held.opened.modified rfl) fresh current sect index date

omit still in
theorem step_stillEmpty {op : EmptyOp} (leaves : LeavesEmpty vol handles op)
    (still : StillEmpty vol idata disk handles)
    (stepped : emptyStep vol idata handles op = some next) :
    StillEmpty vol idata disk next := by
  cases op with
  | unlink path => exact leaves.elim
  | call op =>
    cases op with
    | «open» handle mode => exact stillEmpty_open empty still stepped
    | read handle len => exact stillEmpty_read still stepped
    | write handle buffer => exact stillEmpty_write still leaves stepped
    | seek handle offset wence =>
      exact stillEmpty_seek empty still leaves stepped
    | close handle => exact stillEmpty_close empty still stepped

theorem StillEmpty.frameKept : FrameKept vol idata disk handles.fat.disk where
  reserved := by
    intro clust isReserved
    have first : itemSect vol.fatSect clust = itemSect vol.fatSect 0 := by
      unfold itemSect
      omega
    unfold link
    rw [first, still.sector empty.table]
  others := by
    intro sect index denied
    apply still.kept
    rintro ⟨same, date⟩
    exact denied (.inr (.inl ⟨same, by omega, by omega⟩))

end

end

end Steps

/-- The first entry of the root is free, and the second one, `a`, has no
cluster. -/
def emptyDisk : Nat → Sector :=
  update (tinyDisk smallTable 2) 34
    (putSfn (putSfnName [0x61]) fatAttrArchive 0 32 (ByteBlock.zero.write 0 [0xe5]))

def emptyData : InodeData where
  startClus := 0
  fileSize := 0
  attr := fatAttrArchive
  isRoot := false
  dirSect := 34
  dirIdx := 32

def emptyPath : Text :=
  [0x2f] ++ rootName ++ [0x2f, 0x61]

def unopened (fat : Fat) : Handles where
  fat := fat
  files := fun _ => none
  written := fun _ => false

theorem emptyFile_of_shape {vol : Volume}
    (shape : itemSect vol.fatSect 0 ≠ 34 ∧ (∀ off < vol.clustSize, vol.offSect 0 off ≠ 34) ∧
      vol.offSect 0 0 ≠ 0xffffffff) : EmptyFile vol emptyData :=
  ⟨rfl, rfl, shape.1, shape.2.1, shape.2.2⟩

end SeekOs.Fat32
