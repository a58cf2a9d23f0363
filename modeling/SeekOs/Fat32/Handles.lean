import SeekOs.Fat32.TableSteps
import SeekOs.Fat32.VfsOps
import SeekOs.Lib.Runs

/-!
# Several handles of one file

Handles of one inode are opened, read, moved, written and closed in any order.
Closing a handle writes its buffer to the disk whether or not the handle was
written to, so it takes back what another handle has stored in the same sector
since the buffer was filled.
-/

namespace SeekOs.Fat32

open SeekOs.Fs SeekOs.Lib SeekOs.Lib.Action Function Option Volume WriteBack

/-- The volume and the open handles of one inode.  `written` records the handles
that were written to since they were opened. -/
structure Handles where
  fat : Fat
  files : Nat → Option (FsFile File)
  written : Nat → Bool

inductive HandleOp where
  | open (handle : Nat) (mode : OpenMode)
  | read (handle : Nat) (len : Int)
  | write (handle : Nat) (buffer : List UInt8)
  | seek (handle : Nat) (offset : Int) (wence : Wence)
  | close (handle : Nat)

namespace Handles

def setFile (handles : Handles) (fat : Fat) (handle : Nat)
    (filep : FsFile File) (after : FilePrivate File) (written : Bool) :
    Handles where
  fat := fat
  files := update handles.files handle
    (some { filep with toFilePrivate := after })
  written := update handles.written handle written

variable (vol : Volume) (idata : InodeData)

/-- Each call runs under `fat_lock`. -/
def step (handles : Handles) : HandleOp → Option Handles
  | .open handle mode =>
    match handles.files handle with
    | some _ => none
    | none =>
      let filep : FsFile File := ⟨⟨none, 0⟩, handle, mode, false⟩
      (vol.fat32Open handles.fat idata filep).map fun (fat, after) =>
        handles.setFile fat handle filep after false
  | .read handle len =>
    (handles.files handle).bind fun filep =>
      (vol.fat32Read handles.fat idata filep len).map fun (fat, after, _) =>
        handles.setFile fat handle filep after (handles.written handle)
  | .write handle buffer =>
    (handles.files handle).bind fun filep =>
      (vol.fat32Write handles.fat idata filep buffer).map
        fun (fat, after, _) =>
          handles.setFile fat handle filep after
            (handles.written handle || decide (filep.fOpenmode ≠ .read ∧ buffer ≠ []))
  | .seek handle offset wence =>
    (handles.files handle).bind fun filep =>
      (vol.fat32Lseek handles.fat idata filep offset wence).map
        fun (fat, after, _) =>
          handles.setFile fat handle filep after (handles.written handle)
  | .close handle =>
    (handles.files handle).bind fun filep =>
      (vol.fat32Close handles.fat idata filep).map fun (fat, _) =>
        { handles with
          fat := fat
          files := update handles.files handle none }

/-- Only the access date of the directory entry of the inode is changed, and the
counters of the volume. -/
def KeepsData (before after : Fat) : Prop :=
  ∀ sect, sect ≠ vol.infoSect → ∀ index : Fin 512,
    ¬(sect = idata.dirSect ∧ (index.val = idata.dirIdx + 18 ∨ index.val = idata.dirIdx + 19)) →
    after.disk sect index = before.disk sect index

end Handles

/-! ## The buffer of the volume is clean between calls -/

/-- No disk operation fails, and nothing is to be written back. -/
structure Fat.Tidy (fat : Fat) : Prop where
  quiet : fat.Quiet
  clean : fat.cache.dirty = false

namespace Volume

variable (vol : Volume) {fat : Fat}
variable {fat : Fat} {file : File}

theorem synced_clean (fat : Fat) : (vol.synced fat).cache.dirty = false := by
  unfold synced
  split
  · exact sync_dirty _
  · exact sync_dirty _

theorem synced_quiet (quiet : fat.Quiet) : (vol.synced fat).Quiet := by
  unfold synced
  split
  · exact quiet
  · exact quiet

theorem getFat_tidy (clust : Nat) : Keeps (vol.getFat clust) Fat.Tidy := by
  intro fat tidy
  have loaded : (fat.setCache (fat.cache.load (itemSect vol.fatSect clust))).Tidy :=
    ⟨tidy.quiet, load_dirty_of_clean _ tidy.clean⟩
  rw [meets_getFat vol tidy.quiet]
  split
  · exact loaded
  · exact loaded

theorem scanLoop_tidy (fuel : Nat) (seen : Option ClustFlags) (clust : Nat) :
    Keeps (vol.scanLoop fuel seen clust) Fat.Tidy := by
  induction fuel generalizing seen clust with
  | zero => exact Keeps.hang
  | succ fuel induction =>
    apply Keeps.get.bind
    intro fat
    apply Keeps.ite
    · exact Keeps.fail_bind _ _
    · apply (vol.getFat_tidy _).outcome.bind
      rintro (error | ⟨val, flags⟩)
      · exact Keeps.fail _
      · exact Keeps.ite (Keeps.pure _) (induction _ _)

theorem findFree_tidy (prev : Nat) : Keeps (vol.findFree prev) Fat.Tidy := by
  apply Keeps.get.bind
  intro fat
  apply Keeps.ite
  · exact vol.scanLoop_tidy _ _ _
  · apply (vol.getFat_tidy _).bind
    rintro ⟨val, flags⟩
    exact Keeps.ite (Keeps.pure _) (vol.scanLoop_tidy _ _ _)

/-- The table is edited only when a cluster was found, and then written back. -/
theorem stretchChain_tidy (prev : Nat) : Keeps (vol.stretchChain prev) Fat.Tidy := by
  have dirtied : Keeps setInfoDirty Fat.Tidy :=
    Keeps.modify fun fat tidy => ⟨tidy.quiet, tidy.clean⟩
  apply dirtied.bind
  intro _
  apply (vol.findFree_tidy prev).bind
  intro clust fat tidy
  have ends : ∀ fat : Fat, fat.Quiet →
      Meets (vol.syncFs >>= fun _ => pure clust) fat True
        (fun _ => Fat.Tidy) (fun _ => Fat.Tidy) := by
    intro fat quiet
    rw [meets_bind, meets_syncFs vol quiet]
    exact ⟨vol.synced_quiet quiet, vol.synced_clean _⟩
  rw [meets_bind, meets_putFat vol tidy.quiet]
  split
  · rw [meets_bind, meets_putFat vol (Fat.quiet_setCache.mpr tidy.quiet), meets_bind, meets_modify]
    exact ends _ tidy.quiet
  · rw [meets_bind, meets_modify]
    exact ends _ tidy.quiet

/-- Two states of a handle, with no write in between. -/
structure Unmodified (file after : File) : Prop where
  dirSect : after.dirSect = file.dirSect
  dirIdx : after.dirIdx = file.dirIdx
  write : after.flags.write = file.flags.write
  modified : after.flags.modified = file.flags.modified

/-- What a call leaves of the volume and a file, as long as it is neither
`fat_file_write` nor `fat_file_sync`. -/
def Steady (file : File) (state : Fat × File) : Prop :=
  state.1.Tidy ∧ Unmodified file state.2

theorem onFst_steady {α : Type} {act : FatM α}
    (tidy : Keeps act Fat.Tidy) : Keeps act.onFst (Steady file) :=
  tidy.onFst (Unmodified file)

theorem modifyFile_steady {change : File → File}
    (unmodified : ∀ current, Unmodified current (change current)) :
    Keeps (modifyFile change) (Steady file) := by
  apply Keeps.modify
  rintro ⟨fat, current⟩ ⟨tidy, same⟩
  have changed := unmodified current
  exact ⟨tidy,
    { dirSect := changed.dirSect.trans same.dirSect
      dirIdx := changed.dirIdx.trans same.dirIdx
      write := changed.write.trans same.write
      modified := changed.modified.trans same.modified }⟩

theorem getFile_steady (file : File) : Keeps getFile (Steady file) :=
  Keeps.get.bind fun _ => Keeps.pure _

theorem diskWrite_tidy (data : Sector) (sect : Nat) : Keeps (diskWrite data sect) Fat.Tidy := by
  intro fat tidy
  rw [meets_diskWrite tidy.quiet]
  exact ⟨tidy.quiet, tidy.clean⟩

theorem diskRead_tidy (sect : Nat) : Keeps (diskRead sect) Fat.Tidy := by
  intro fat tidy
  rw [meets_diskRead tidy.quiet]
  exact tidy

variable {file : File}

theorem followLoop_steady (count : Nat) : Keeps (vol.followLoop count) (Steady file) := by
  induction count with
  | zero => exact Keeps.pure _
  | succ count induction =>
    apply (getFile_steady file).bind
    intro current
    apply (onFst_steady (vol.getFat_tidy current.clust)).bind
    rintro ⟨val, flags⟩
    have moves : ∀ next : Nat, Keeps
        (modifyFile (fun file => { file with clust := next }) >>=
          fun _ => vol.followLoop count) (Steady file) := by
      intro next
      refine Keeps.bind (modifyFile_steady fun _ => ⟨rfl, rfl, rfl, rfl⟩) ?_
      intro _
      exact induction
    apply Keeps.ite
    · exact Keeps.fail_bind _ _
    · apply Keeps.ite
      · exact (onFst_steady (vol.stretchChain_tidy current.clust)).bind moves
      · exact (Keeps.pure val).bind moves

theorem switchBuf_steady (ssect : Nat) : Keeps (switchBuf ssect) (Steady file) := by
  apply (getFile_steady file).bind
  intro current
  have reads : Keeps ((diskRead current.sect).onFst >>= fun data =>
      modifyFile fun file => { file with buf := data }) (Steady file) := by
    apply (onFst_steady (diskRead_tidy current.sect)).bind
    intro data
    exact modifyFile_steady fun _ => ⟨rfl, rfl, rfl, rfl⟩
  apply Keeps.ite
  · apply Keeps.ite
    · apply (onFst_steady (diskWrite_tidy current.buf ssect)).bind
      intro _
      refine Keeps.bind (modifyFile_steady fun _ => ⟨rfl, rfl, rfl, rfl⟩) ?_
      intro _
      exact reads
    · exact reads
  · exact Keeps.pure _

theorem fatFileSeek_steady (offset : Int) (seek : Seek) :
    Keeps (vol.fatFileSeek offset seek) (Steady file) := by
  apply (getFile_steady file).bind
  intro current
  have ends : ∀ off : Nat, Keeps
      (modifyFile (fun file =>
          { file with sect := vol.seekSect file off, offset := off }) >>=
        fun _ => switchBuf current.sect) (Steady file) := by
    intro off
    refine Keeps.bind (modifyFile_steady fun _ => ⟨rfl, rfl, rfl, rfl⟩) ?_
    intro _
    exact switchBuf_steady current.sect
  apply Keeps.ite
  · exact Keeps.fail_bind _ _
  · apply Keeps.ite
    · refine Keeps.bind (modifyFile_steady fun _ => ⟨rfl, rfl, rfl, rfl⟩) ?_
      intro _
      exact (vol.followLoop_steady _).bind fun _ => ends _
    · exact (vol.followLoop_steady _).bind fun _ => ends _

theorem readLoop_steady (fuel len : Nat) : Keeps (vol.readLoop fuel len) (Steady file) := by
  induction fuel generalizing len with
  | zero =>
    cases len with
    | zero => exact Keeps.pure _
    | succ len => exact Keeps.hang
  | succ fuel induction =>
    cases len with
    | zero => exact Keeps.pure _
    | succ len =>
      apply (getFile_steady file).bind
      intro current
      apply Keeps.ite
      · apply (vol.fatFileSeek_steady _ _).outcome.bind
        rintro (error | _)
        · exact Keeps.pure _
        · apply (induction _).bind
          rintro ⟨rest, error⟩
          exact Keeps.pure _
      · exact Keeps.pure _

theorem fatFileRead_steady (len : Nat) : Keeps (vol.fatFileRead len) (Steady file) := by
  apply (getFile_steady file).bind
  intro current
  apply Keeps.ite
  · exact Keeps.fail_bind _ _
  · refine Keeps.bind (modifyFile_steady fun _ => ⟨rfl, rfl, rfl, rfl⟩) ?_
    intro _
    exact vol.readLoop_steady _ _

theorem writeLoop_steady (fuel : Nat) (src : List UInt8) :
    Keeps (vol.writeLoop fuel src) (Steady file) := by
  induction fuel generalizing src with
  | zero =>
    cases src with
    | nil => exact Keeps.pure _
    | cons byte src => exact Keeps.hang
  | succ fuel induction =>
    cases src with
    | nil => exact Keeps.pure _
    | cons byte src =>
      apply (getFile_steady file).bind
      intro current
      refine Keeps.bind (modifyFile_steady fun _ => ⟨rfl, rfl, rfl, rfl⟩) ?_
      intro _
      apply (vol.fatFileSeek_steady _ _).outcome.bind
      rintro (error | _)
      · exact Keeps.pure _
      · exact (induction _).bind fun rest => Keeps.pure _

/-- A handle that may not write is left alone by `fat_file_write`. -/
def WriteLeaves (fat : Fat) (file : File) (after : Fat × File) : Prop :=
  (after = (fat, file) ∧ file.flags.write = false) ∨
    (file.flags.write = true ∧
      Steady
        { file with
          flags := { file.flags with modified := true, accessed := true } }
        after)

theorem fatFileWrite_leaves (tidy : fat.Tidy) (src : List UInt8) :
    Meets (vol.fatFileWrite src) (fat, file) True
      (fun _ => WriteLeaves fat file) (fun _ => WriteLeaves fat file) := by
  rw [fatFileWrite, meets_bind, getFile, meets_bind, meets_get, meets_pure]
  split
  · rename_i denied
    refine .inl ⟨rfl, ?_⟩
    simpa using denied
  · rename_i allowed
    have writes : file.flags.write = true := by simpa using allowed
    have written : Keeps (vol.writeLoop src.length src >>= fun bytes =>
        modifyFile (fun file =>
          { file with size := max file.size file.offset }) >>= fun _ => pure bytes)
        (Steady
          { file with
            flags :=
              { file.flags with modified := true, accessed := true } }) := by
      apply (vol.writeLoop_steady src.length src).bind
      intro bytes
      refine Keeps.bind (modifyFile_steady fun _ => ⟨rfl, rfl, rfl, rfl⟩) ?_
      intro _
      exact Keeps.pure bytes
    apply (written _ ⟨tidy, rfl, rfl, rfl, rfl⟩).imp id
    · intro value after steady
      exact .inr ⟨writes, steady⟩
    · intro error after steady
      exact .inr ⟨writes, steady⟩

/-! ## What closing a handle writes -/

/-- The buffer of the volume after `fat_file_sync` has changed the entry of the
file. -/
def entryCache (fat : Fat) (file : File) : WriteBack Nat Sector :=
  let written := fat.cache.poke file.sect file.buf
  if file.flags.accessed ∨ file.flags.modified then
    (written.load file.dirSect).edit (putEntry file)
  else
    written

theorem meets_fatFileSync (quiet : fat.Quiet) (file : File)
    {returns : Unit → Fat × File → Prop} {fails : FatErr → Fat × File → Prop}
    {hangs : Prop} :
    Meets vol.fatFileSync (fat, file) hangs returns fails ↔
      returns () (vol.synced (fat.setCache (entryCache fat file)),
        { file with
          flags :=
            { file.flags with accessed := false, modified := false } }) := by
  rw [fatFileSync, meets_bind, getFile, meets_bind, meets_get, meets_pure,
    meets_bind, meets_onFst, meets_diskWrite quiet]
  unfold entryCache
  split
  · simp only [meets_bind, meets_onFst, meets_updateBuf, meets_editBuf,
      meets_syncFs, Fat.quiet_setCache, quiet, modifyFile, meets_modify]
    rfl
  · simp only [meets_bind, meets_onFst, meets_syncFs, Fat.quiet_setCache, quiet,
      modifyFile, meets_modify]

theorem synced_disk (fat : Fat) {sect : Nat} (other : sect ≠ vol.infoSect) :
    (vol.synced fat).disk sect = fat.cache.view sect := by
  unfold synced
  split
  · have edited := edit_view (fat.cache.sync.load vol.infoSect)
      (putFsInfo fat.lastUsed fat.freeCnt)
    rw [load_address, load_view, sync_view] at edited
    calc _ = ((fat.cache.sync.load vol.infoSect).edit
            (putFsInfo fat.lastUsed fat.freeCnt)).view sect :=
          congrFun (sync_store _) sect
      _ = fat.cache.view sect := by
          rw [edited, update_of_ne other]
  · exact congrFun fat.cache.sync_store sect

theorem poke_view_of_tidy (tidy : fat.Tidy) (sect : Nat) (data : Sector) :
    (fat.cache.poke sect data).view = update fat.disk sect data := by
  rw [poke_view (by simp [tidy.clean]), view_of_clean tidy.clean]

/-- The sector of the handle is written, unless it holds the directory entry. -/
theorem entryCache_sect (tidy : fat.Tidy) (apart : file.sect ≠ file.dirSect) :
    (entryCache fat file).view file.sect = file.buf := by
  have poked : (fat.cache.poke file.sect file.buf).view file.sect = file.buf := by
    rw [poke_view_of_tidy tidy, update_self]
  unfold entryCache
  split
  · rw [edit_view, load_address, load_view, update_of_ne apart, poked]
  · exact poked

/-- A handle that was not written to and whose buffer is the sector on the disk
changes the access date only. -/
theorem entryCache_current (tidy : fat.Tidy) (unmodified : file.flags.modified = false)
    (fresh : fat.cache.address = file.dirSect → fat.cache.block = fat.disk file.dirSect)
    (current : fat.disk file.sect = file.buf) (sect : Nat) (index : Fin 512)
    (other : ¬(sect = file.dirSect ∧
      (index.val = file.dirIdx + 18 ∨ index.val = file.dirIdx + 19))) :
    (entryCache fat file).view sect index = fat.disk sect index := by
  have poked : (fat.cache.poke file.sect file.buf).view = fat.disk := by
    rw [poke_view_of_tidy tidy, ← current, update_eq_self]
  unfold entryCache
  split
  · have loaded : ((fat.cache.poke file.sect file.buf).load
        file.dirSect).block = fat.disk file.dirSect := by
      rw [load_block, poked]
      intro held
      rw [poked]
      exact fresh held
    rw [edit_view, load_address, load_view, poked, loaded]
    by_cases own : sect = file.dirSect
    · subst own
      rw [update_self]
      rename_i marked
      have accessed : file.flags.accessed = true := by
        simpa [unmodified] using marked
      simp only [putEntry, accessed, unmodified, if_true, Bool.false_eq_true,
        if_false, putAccDate, ByteBlock.putWord16]
      apply ByteBlock.write_of_outside
      intro after
      simp only [ByteBlock.bytes16, List.length_cons, List.length_nil]
      omega
    · rw [update_of_ne own]
  · rw [poked]

end Volume

namespace Handles

variable (vol : Volume) (idata : InodeData)
variable {file : File} {written : Bool} {next : Handles}

/-- A handle knows the directory entry of its inode, and is not modified unless
it was written to. -/
structure Opened (filep : FsFile File) (written : Bool) (file : File) :
    Prop where
  dirSect : file.dirSect = idata.dirSect
  dirIdx : file.dirIdx = idata.dirIdx
  write : file.flags.write = decide (filep.fOpenmode ≠ .read)
  modified : written = false → file.flags.modified = false

structure Sound (handles : Handles) : Prop where
  tidy : handles.fat.Tidy
  opened : ∀ handle filep file, handles.files handle = some filep →
    filep.fPdata = some file →
    Opened idata filep (handles.written handle) file

variable {vol idata} {handles : Handles} {handle : Nat} {filep : FsFile File} {fat : Fat}

theorem Opened.unmodified {after : File} (opened : Opened idata filep written file)
    (unmodified : Volume.Unmodified file after) :
    Opened idata filep written after where
  dirSect := unmodified.dirSect.trans opened.dirSect
  dirIdx := unmodified.dirIdx.trans opened.dirIdx
  write := unmodified.write.trans opened.write
  modified := fun unwritten =>
    unmodified.modified.trans (opened.modified unwritten)

section

variable (sound : Sound idata handles)

include sound

theorem Sound.setFile (tidy : fat.Tidy) {after : FilePrivate File}
    (opened : ∀ file, after.fPdata = some file → Opened idata filep written file) :
    Sound idata (handles.setFile fat handle filep after written) where
  tidy := tidy
  opened := by
    intro other otherFilep file isOpen holds
    by_cases same : other = handle
    · subst same
      have placed : (handles.setFile fat other filep after written).files
          other = some { filep with toFilePrivate := after } :=
        update_self other _ _
      cases placed.symm.trans isOpen
      have written : (handles.setFile fat other filep after written).written
          other = written := update_self other _ _
      rw [written]
      have placed := opened file holds
      exact ⟨placed.dirSect, placed.dirIdx, placed.write, placed.modified⟩
    · have kept : handles.files other = some otherFilep := by
        rw [← isOpen]
        exact (update_of_ne same _ _).symm
      have written : (handles.setFile fat handle filep after written).written
          other = handles.written other := update_of_ne same _ _
      rw [written]
      exact sound.opened other otherFilep file kept holds

/-- A call that fails or returns and leaves its handle unmodified. -/
theorem Sound.steady (isOpen : handles.files handle = some filep)
    (holds : filep.fPdata = some file) {after : Fat × File}
    (steady : Volume.Steady file after) :
    Sound idata (handles.setFile after.1 handle filep (keptFile after.2)
      (handles.written handle)) := by
  apply sound.setFile steady.1
  intro kept same
  cases same
  exact (sound.opened handle filep file isOpen holds).unmodified steady.2

theorem Sound.unchanged (isOpen : handles.files handle = some filep)
    (more : written = false → handles.written handle = false) :
    Sound idata (handles.setFile handles.fat handle filep filep.toFilePrivate written) := by
  apply sound.setFile sound.tidy
  intro file holds
  have opened := sound.opened handle filep file isOpen holds
  exact ⟨opened.dirSect, opened.dirIdx, opened.write,
    fun unwritten => opened.modified (more unwritten)⟩

theorem sound_open {mode : OpenMode}
    (stepped : handles.step vol idata (.open handle mode) = some next) :
    Sound idata next := by
  unfold step at stepped
  dsimp only at stepped
  split at stepped
  · cases stepped
  · obtain ⟨⟨fat, after⟩, opened, placed⟩ := map_eq_some_iff.mp stepped
    cases placed
    obtain ⟨⟨result, fatAfter, file⟩, sought, kept⟩ := map_eq_some_iff.mp opened
    cases kept
    have steady : Volume.Steady (newFile idata mode) (fatAfter, file) :=
      (vol.fatFileSeek_steady 0 .start).of_outcome ⟨sound.tidy, rfl, rfl, rfl, rfl⟩ sought
    apply sound.setFile steady.1
    intro kept same
    cases same
    exact Opened.unmodified ⟨rfl, rfl, rfl, fun _ => rfl⟩ steady.2

theorem sound_read {len : Int} (stepped : handles.step vol idata (.read handle len) = some next) :
    Sound idata next := by
  obtain ⟨filep, isOpen, stepped⟩ := bind_eq_some_iff.mp stepped
  obtain ⟨⟨fat, after, result⟩, read, placed⟩ := map_eq_some_iff.mp stepped
  cases placed
  unfold fat32Read at read
  split at read
  · cases read
    exact sound.unchanged isOpen id
  · rename_i file holds
    split at read
    · cases read
      exact sound.unchanged isOpen id
    · obtain ⟨⟨outcome, fatAfter, fileAfter⟩, ran, kept⟩ := map_eq_some_iff.mp read
      have steady : Volume.Steady file (fatAfter, fileAfter) :=
        (vol.fatFileRead_steady len.toNat).of_outcome ⟨sound.tidy, rfl, rfl, rfl, rfl⟩ ran
      have placed := sound.steady isOpen holds steady
      cases outcome with
      | error error =>
        cases kept
        exact placed
      | ok value =>
        cases kept
        exact placed

theorem sound_seek {offset : Int} {wence : Wence}
    (stepped : handles.step vol idata (.seek handle offset wence) = some next) :
    Sound idata next := by
  obtain ⟨filep, isOpen, stepped⟩ := bind_eq_some_iff.mp stepped
  obtain ⟨⟨fat, after, result⟩, sought, placed⟩ := map_eq_some_iff.mp stepped
  cases placed
  unfold fat32Lseek at sought
  split at sought
  · rename_i file seek holds _
    obtain ⟨⟨outcome, fatAfter, fileAfter⟩, ran, kept⟩ := map_eq_some_iff.mp sought
    have steady : Volume.Steady file (fatAfter, fileAfter) :=
      (vol.fatFileSeek_steady offset seek).of_outcome ⟨sound.tidy, rfl, rfl, rfl, rfl⟩ ran
    cases kept
    exact sound.steady isOpen holds steady
  · cases sought
    exact sound.unchanged isOpen id

theorem sound_write {buffer : List UInt8}
    (stepped : handles.step vol idata (.write handle buffer) = some next) :
    Sound idata next := by
  obtain ⟨filep, isOpen, stepped⟩ := bind_eq_some_iff.mp stepped
  obtain ⟨⟨fat, after, result⟩, wrote, placed⟩ := map_eq_some_iff.mp stepped
  cases placed
  have more : (handles.written handle || decide (filep.fOpenmode ≠ .read ∧ buffer ≠ [])) = false →
      handles.written handle = false :=
    fun unwritten => (Bool.or_eq_false_iff.mp unwritten).1
  unfold fat32Write at wrote
  split at wrote
  · cases wrote
    exact sound.unchanged isOpen more
  · rename_i file holds
    split at wrote
    · cases wrote
      exact sound.unchanged isOpen more
    · rename_i nonempty
      obtain ⟨⟨outcome, fatAfter, fileAfter⟩, ran, kept⟩ := map_eq_some_iff.mp wrote
      cases kept
      have opened := sound.opened handle filep file isOpen holds
      rcases (vol.fatFileWrite_leaves sound.tidy buffer).of_outcome ran with
        ⟨same, denied⟩ | ⟨writes, steady⟩
      · cases same
        apply sound.setFile sound.tidy
        intro kept same
        cases same
        exact ⟨opened.dirSect, opened.dirIdx, opened.write,
          fun unwritten => opened.modified (more unwritten)⟩
      · apply sound.setFile steady.1
        intro kept same
        cases same
        refine ⟨steady.2.dirSect.trans opened.dirSect, steady.2.dirIdx.trans opened.dirIdx,
          steady.2.write.trans opened.write, ?_⟩
        intro unwritten
        have denied := (Bool.or_eq_false_iff.mp unwritten).2
        rw [opened.write] at writes
        exact absurd ⟨of_decide_eq_true writes, nonempty⟩ (of_decide_eq_false denied)

end

theorem fat32Close_eq (quiet : fat.Quiet) (holds : filep.fPdata = some file) :
    vol.fat32Close fat idata filep = some (vol.synced (fat.setCache (entryCache fat file)), 0) := by
  have synced := Meets.eq_some ((vol.meets_fatFileSync quiet file).mpr ⟨rfl, rfl⟩)
  rw [fat32Close, holds]
  dsimp only
  rw [synced]
  rfl

theorem sound_close (sound : Sound idata handles)
    (stepped : handles.step vol idata (.close handle) = some next) :
    Sound idata next := by
  obtain ⟨filep, isOpen, stepped⟩ := bind_eq_some_iff.mp stepped
  obtain ⟨⟨fat, result⟩, closed, placed⟩ := map_eq_some_iff.mp stepped
  have tidy : fat.Tidy := by
    cases holds : filep.fPdata with
    | none =>
      rw [fat32Close, holds] at closed
      cases closed
      exact sound.tidy
    | some file =>
      rw [fat32Close_eq sound.tidy.quiet holds] at closed
      cases closed
      exact ⟨vol.synced_quiet sound.tidy.quiet, vol.synced_clean _⟩
  rw [← placed]
  refine ⟨tidy, ?_⟩
  intro other otherFilep file isOpen holds
  dsimp only at isOpen
  by_cases same : other = handle
  · subst same
    rw [update_self] at isOpen
    cases isOpen
  · rw [update_of_ne same] at isOpen
    exact sound.opened other otherFilep file isOpen holds

theorem step_sound {op : HandleOp} (sound : Sound idata handles)
    (stepped : handles.step vol idata op = some next) :
    Sound idata next := by
  cases op with
  | «open» handle mode => exact sound_open sound stepped
  | read handle len => exact sound_read sound stepped
  | write handle buffer => exact sound_write sound stepped
  | seek handle offset wence => exact sound_seek sound stepped
  | close handle => exact sound_close sound stepped

/-- In every run, closing a handle that was not written to leaves the disk alone
if the buffer of the handle is still the sector on the disk, and only then if
this sector is one of the file. -/
theorem close_keeps_data {start next : Handles} {ops : List HandleOp}
    (tidy : start.fat.Tidy) (none : ∀ handle, start.files handle = none)
    (run : runOps (step vol idata) start ops = some handles)
    (isOpen : handles.files handle = some filep) {file : File}
    (holds : filep.fPdata = some file)
    (unwritten : handles.written handle = false)
    (fresh : handles.fat.cache.address = idata.dirSect →
      handles.fat.cache.block = handles.fat.disk idata.dirSect)
    (closed : handles.step vol idata (.close handle) = some next) :
    (handles.fat.disk file.sect = file.buf → KeepsData vol idata handles.fat next.fat) ∧
      (KeepsData vol idata handles.fat next.fat →
        file.sect ≠ vol.infoSect → file.sect ≠ idata.dirSect →
        handles.fat.disk file.sect = file.buf) := by
  have initial : Sound idata start := by
    refine ⟨tidy, ?_⟩
    intro handle filep file isOpen
    rw [none handle] at isOpen
    cases isOpen
  have sound : Sound idata handles :=
    runOps_invariant (fun _ _ _ sound stepped => step_sound sound stepped) initial run
  have opened := sound.opened handle filep file isOpen holds
  obtain ⟨filep', isOpen', stepped⟩ := bind_eq_some_iff.mp closed
  cases isOpen.symm.trans isOpen'
  rw [fat32Close_eq sound.tidy.quiet holds] at stepped
  have disk : ∀ sect, sect ≠ vol.infoSect → next.fat.disk sect =
      (entryCache handles.fat file).view sect := by
    intro sect other
    cases stepped
    exact vol.synced_disk _ other
  rw [← opened.dirSect] at fresh ⊢
  constructor
  · intro current sect other index date
    rw [← opened.dirSect, ← opened.dirIdx] at date
    rw [disk sect other]
    exact entryCache_current sound.tidy (opened.modified unwritten) fresh current sect index date
  · intro keeps other apart
    funext index
    have kept := keeps file.sect other index fun own => apart (own.1.trans opened.dirSect.symm)
    rw [← kept, disk file.sect other, entryCache_sect sound.tidy apart]

/-- A volume with two clusters of one sector each: the directory, and a file of
one byte. -/
def smallVolume : Volume where
  name := []
  clustShift := 0
  clustMsk := 0
  clustCnt := 4
  infoSect := 1
  fatSect := 2
  mirrorSect := 0
  dataSect := 3
  rootClust := 2

def smallFile : InodeData where
  startClus := 3
  fileSize := 1
  attr := fatAttrArchive
  isRoot := false
  dirSect := 3
  dirIdx := 0

/-- The disk is empty, and no handle is open. -/
def smallStart : Handles where
  fat :=
    { cache := ⟨fun _ => ByteBlock.zero, 0, ByteBlock.zero, false⟩
      infoDirty := false
      lastUsed := 3
      freeCnt := 0
      gBuf := ByteBlock.zero
      faults := [] }
  files := fun _ => none
  written := fun _ => false

/-- A reader opens the file, and a writer stores a byte and closes. -/
def sharedRun : List HandleOp :=
  [.open 0 .read, .open 1 .write, .write 1 [65], .close 1]

/-- The handle of the reader was not written to, and closing it takes the byte
back. -/
theorem reader_close_undoes_write :
    ∃ handles ∈ runOps (step smallVolume smallFile) smallStart sharedRun,
      handles.written 0 = false ∧
        ∃ next ∈ handles.step smallVolume smallFile (.close 0),
          ¬KeepsData smallVolume smallFile handles.fat next.fat := by
  obtain ⟨handles, run, unwritten, next, closed, before, after⟩ :
      ∃ handles ∈ runOps (step smallVolume smallFile) smallStart sharedRun,
        handles.written 0 = false ∧
          ∃ next ∈ handles.step smallVolume smallFile (.close 0),
            handles.fat.disk 4 0 = 65 ∧ next.fat.disk 4 0 = 0 := by
    decide +kernel
  refine ⟨handles, run, unwritten, next, closed, ?_⟩
  intro keeps
  have same := keeps 4 (by decide) 0 (by decide)
  rw [before, after] at same
  exact absurd same (by decide)

/-- The reader closes before the writer writes. -/
theorem close_keeps_data_early :
    ∃ handles ∈ runOps (step smallVolume smallFile) smallStart [.open 0 .read, .open 1 .write],
      ∃ next ∈ handles.step smallVolume smallFile (.close 0),
        KeepsData smallVolume smallFile handles.fat next.fat := by
  obtain ⟨handles, run, unwritten, fresh, ⟨next, closed, _⟩, filep, isOpen, file, holds, current⟩ :
      ∃ handles ∈ runOps (step smallVolume smallFile) smallStart [.open 0 .read, .open 1 .write],
        handles.written 0 = false ∧ handles.fat.cache.address ≠ smallFile.dirSect ∧
          (∃ next ∈ handles.step smallVolume smallFile (.close 0), next.written 0 = false) ∧
          ∃ filep ∈ handles.files 0, ∃ file ∈ filep.fPdata,
            handles.fat.disk file.sect = file.buf := by
    decide +kernel
  have tidy : smallStart.fat.Tidy := ⟨rfl, rfl⟩
  refine ⟨handles, run, next, closed, ?_⟩
  exact (close_keeps_data tidy (fun _ => rfl) run isOpen holds unwritten
    (fun held => absurd held fresh) closed).1 current

end Handles

end SeekOs.Fat32
