import SeekOs.Fat32.Chains
import SeekOs.Fat32.Handles
import SeekOs.Fat32.Mount

/-!
# The two copies of the table

A FAT32 volume has two copies of its table.  In `ext_flags` a clear bit 7 asks
for both of them to be kept up to date, and a set one for only the active copy
to be used.  `fat_mount` takes the bit the other way round, so on a volume that
asks for two equal copies `put_fat` writes only one of them.  The copies of such
a volume agree as long as nothing changes an entry.
-/

namespace SeekOs.Fat32

open SeekOs.Fs SeekOs.Lib SeekOs.Lib.Action Option Volume ByteBlock WriteBack

namespace Bpb

variable (bpb : Bpb) (lba : Nat)

def firstFat : Nat :=
  (lba + bpb.resSectCnt) % 2 ^ 32

def secondFat : Nat :=
  (lba + bpb.resSectCnt + bpb.sectPerFat32) % 2 ^ 32

/-- A sector of one of the copies, which follow each other. -/
def inTables (sect : Nat) : Prop :=
  (sect + (2 ^ 32 - bpb.firstFat lba)) % 2 ^ 32 < 2 * bpb.sectPerFat32

instance (sect : Nat) : Decidable (bpb.inTables lba sect) :=
  inferInstanceAs (Decidable (_ < _))

/-- The copies have the same 28 bits in every entry. -/
def InStep (disk : Nat → Sector) : Prop :=
  ∀ clust < bpb.sectPerFat32 * 128,
    itemVal (disk (itemSect (bpb.firstFat lba) clust)) clust =
      itemVal (disk (itemSect (bpb.secondFat lba) clust)) clust

variable {bpb lba} {clust : Nat}

theorem firstFat_inTables (inside : clust < bpb.sectPerFat32 * 128) :
    bpb.inTables lba (itemSect (bpb.firstFat lba) clust) := by
  have row : clust / 128 < bpb.sectPerFat32 := (Nat.div_lt_iff_lt_mul (by omega)).mpr inside
  have reduced : bpb.firstFat lba < 2 ^ 32 := Nat.mod_lt _ (by omega)
  unfold inTables itemSect
  omega

theorem secondFat_inTables (inside : clust < bpb.sectPerFat32 * 128) :
    bpb.inTables lba (itemSect (bpb.secondFat lba) clust) := by
  unfold inTables itemSect secondFat firstFat
  omega

theorem volume_inTables {name : Text} (inside : clust < (bpb.volume lba name).clustCnt) :
    bpb.inTables lba (itemSect (bpb.volume lba name).fatSect clust) := by
  have below : clust < bpb.sectPerFat32 * 128 := lt_of_lt_of_le inside (Nat.mod_le _ _)
  have isFat : (bpb.volume lba name).fatSect = bpb.firstFat lba ∨
      (bpb.volume lba name).fatSect = bpb.secondFat lba := by
    change (if _ then _ else _) = _ ∨ (if _ then _ else _) = _
    split
    · exact .inl rfl
    · exact .inr rfl
  rcases isFat with isFirst | isSecond
  · rw [isFirst]
    exact firstFat_inTables below
  · rw [isSecond]
    exact secondFat_inTables below

end Bpb

/-! ## Nothing was stored in the tables -/

/-- A reader finds the tables as they were on a given disk. -/
structure Untouched (bpb : Bpb) (lba : Nat) (disk : Nat → Sector) (fat : Fat) :
    Prop where
  quiet : fat.Quiet
  infoClean : fat.infoDirty = false
  kept : ∀ sect, bpb.inTables lba sect → fat.cache.view sect = disk sect
  current : bpb.inTables lba fat.cache.address → fat.cache.Current

namespace Untouched

variable {bpb : Bpb} {lba : Nat} {disk : Nat → Sector} {fat : Fat}

section

variable (untouched : Untouched bpb lba disk fat)

include untouched

theorem load (sect : Nat) : Untouched bpb lba disk (fat.setCache (fat.cache.load sect)) where
  quiet := untouched.quiet
  infoClean := untouched.infoClean
  kept other inside := by
    rw [Fat.setCache_cache, load_view]
    exact untouched.kept other inside
  current inside := by
    apply fat.cache.load_current
    intro same
    apply untouched.current
    rw [Fat.setCache_cache, load_address] at inside
    rwa [same]

theorem sync : Untouched bpb lba disk (fat.setCache fat.cache.sync) where
  quiet := untouched.quiet
  infoClean := untouched.infoClean
  kept sect inside := by
    rw [Fat.setCache_cache, sync_view]
    exact untouched.kept sect inside
  current inside := by
    rw [Fat.setCache_cache, sync_address] at inside
    exact (untouched.current inside).sync

theorem edit (change : Sector → Sector) (outside : ¬bpb.inTables lba fat.cache.address) :
    Untouched bpb lba disk (fat.setCache (fat.cache.edit change)) where
  quiet := untouched.quiet
  infoClean := untouched.infoClean
  kept sect inside := by
    have other : sect ≠ fat.cache.address := by
      rintro rfl
      exact outside inside
    rw [Fat.setCache_cache, WriteBack.edit_view, Function.update_of_ne other]
    exact untouched.kept sect inside
  current _ := fat.cache.edit_current change

theorem poke {sect : Nat} (data : Sector) (outside : ¬bpb.inTables lba sect) :
    Untouched bpb lba disk (fat.setCache (fat.cache.poke sect data)) := by
  have same : ∀ other, bpb.inTables lba other →
      (fat.cache.poke sect data).view other = fat.cache.view other := by
    intro other inside
    have apart : other ≠ sect := by
      rintro rfl
      exact outside inside
    simp [WriteBack.view, WriteBack.poke, apart]
  exact
    { quiet := untouched.quiet
      infoClean := untouched.infoClean
      kept := fun other inside =>
        (same other inside).trans (untouched.kept other inside)
      current := fun inside =>
        (untouched.current inside).trans (same _ inside).symm }

theorem synced (vol : Volume) : Untouched bpb lba disk (vol.synced fat) := by
  have clean := untouched.infoClean
  unfold Volume.synced
  rw [clean, if_neg Bool.false_ne_true]
  exact untouched.sync

end

/-- Chains are read as they stand in the tables of an untouched volume. -/
theorem writesSafely {name : Text} {before : Fat} (untouched : Untouched bpb lba disk before) :
    WritesSafely (bpb.volume lba name) before.cache.view
      (Untouched bpb lba disk) (¬bpb.inTables lba ·) where
  quiet _ held := held.quiet
  load _ sect held := held.load sect
  gBuf _ _ held := ⟨held.quiet, held.infoClean, held.kept, held.current⟩
  entry fat held clust inside := by
    have isTable := Bpb.volume_inTables inside
    have loaded : (fat.cache.load (itemSect (bpb.volume lba name).fatSect clust)).block =
        fat.cache.view (itemSect (bpb.volume lba name).fatSect clust) := by
      apply fat.cache.load_block
      intro same
      rw [← same] at isTable ⊢
      exact held.current isTable
    rw [loaded, held.kept _ isTable, untouched.kept _ isTable]
  poke _ _ data outside held := held.poke data outside

end Untouched

/-! ## Calls that leave the tables alone -/

namespace FatSystem

/-- The call changes no entry of the tables.  Files are opened without being
created or extended, and are read and written where their chains have clusters
already; what is written lies outside of the tables. -/
def LeavesTables (vol : Volume) (bpb : Bpb) (lba : Nat) (system : FatSystem) :
    FatCall → Prop
  | .fileOpen _ _ flags _ => flags.create = false ∧ flags.append = false
  | .fileClose handle =>
    ∀ file ∈ system.files handle, ¬bpb.inTables lba file.sect ∧ ¬bpb.inTables lba file.dirSect
  | .fileRead handle len =>
    ∀ file ∈ system.files handle,
      ¬bpb.inTables lba file.sect ∧
        (file.offset < file.size →
          (vol.follow system.fat.cache.view
            (min (file.offset + len) file.size / vol.clustSize -
              file.offset / vol.clustSize) file.clust).isSome)
  | .fileWrite handle src =>
    ∀ file ∈ system.files handle,
      ¬bpb.inTables lba file.sect ∧ file.offset + src.length ≤ 0xffffffff ∧
        (vol.follow system.fat.cache.view
          ((file.offset + src.length) / vol.clustSize -
            file.offset / vol.clustSize) file.clust).isSome ∧
        ∀ count ≤ (file.offset + src.length) / vol.clustSize - file.offset / vol.clustSize,
          ∀ clust ∈ vol.follow system.fat.cache.view count file.clust,
            ∀ part ≤ vol.clustMsk, ¬bpb.inTables lba ((vol.clustToSect clust + part) % 2 ^ 32)
  | .fileSeek handle offset seek =>
    ∀ file ∈ system.files handle,
      ¬bpb.inTables lba file.sect ∧
        (vol.clustFor system.fat.cache.view file (Volume.seekBase file seek + offset).toNat).isSome
  | .fileSync handle =>
    ∀ file ∈ system.files handle, ¬bpb.inTables lba file.sect ∧ ¬bpb.inTables lba file.dirSect
  | .unlink _ => False
  | .dirCreate _ _ => False
  | _ => True

instance (vol : Volume) (bpb : Bpb) (lba : Nat) (system : FatSystem) :
    DecidablePred (LeavesTables vol bpb lba system)
  | .fileOpen _ _ _ _ => inferInstanceAs (Decidable (_ ∧ _))
  | .fileClose _ => inferInstanceAs (Decidable (∀ file ∈ _, _ ∧ _))
  | .fileRead _ _ => inferInstanceAs (Decidable (∀ file ∈ _, _ ∧ (_ → _)))
  | .fileWrite _ _ => inferInstanceAs (Decidable (∀ file ∈ _, _ ∧ _ ∧ _ ∧ _))
  | .fileSeek _ _ _ => inferInstanceAs (Decidable (∀ file ∈ _, _ ∧ _))
  | .fileSync _ => inferInstanceAs (Decidable (∀ file ∈ _, _ ∧ _))
  | .unlink _ => inferInstanceAs (Decidable False)
  | .stat _ _ => inferInstanceAs (Decidable True)
  | .dirCreate _ _ => inferInstanceAs (Decidable False)
  | .dirOpen _ _ => inferInstanceAs (Decidable True)
  | .dirRead _ => inferInstanceAs (Decidable True)
  | .dirNext _ => inferInstanceAs (Decidable True)
  | .dirRewind _ => inferInstanceAs (Decidable True)
  | .sync => inferInstanceAs (Decidable True)

variable {bpb : Bpb} {lba : Nat} {disk : Nat → Sector} {name : Text} {system next : FatSystem}
  {α : Type} {handle : Nat} {fat : Fat}

theorem onFile_untouched {act : FileM α} (stepped : system.onFile handle act = some next)
    (meets : ∀ file ∈ system.files handle,
      Meets act (system.fat, file) True (fun _ after => Untouched bpb lba disk after.1)
        (fun _ after => Untouched bpb lba disk after.1)) :
    Untouched bpb lba disk next.fat := by
  obtain ⟨file, isFile, stepped⟩ := bind_eq_some_iff.mp stepped
  obtain ⟨⟨result, after⟩, returned, rfl⟩ := map_eq_some_iff.mp stepped
  exact (meets file isFile).of_outcome returned

theorem onDir_untouched {act : DirM α} (untouched : Untouched bpb lba disk system.fat)
    (stepped : system.onDir handle act = some next)
    (kept : Keeps act fun state => Untouched bpb lba disk state.1) :
    Untouched bpb lba disk next.fat := by
  obtain ⟨dir, _, stepped⟩ := bind_eq_some_iff.mp stepped
  obtain ⟨⟨result, after⟩, returned, rfl⟩ := map_eq_some_iff.mp stepped
  exact kept.of_outcome (by exact untouched) returned

theorem fatFileSync_untouched {vol : Volume} {file : File} (untouched : Untouched bpb lba disk fat)
    (placed : ¬bpb.inTables lba file.sect)
    (listed : ¬bpb.inTables lba file.dirSect) :
    Meets vol.fatFileSync (fat, file) True (fun _ after => Untouched bpb lba disk after.1)
      (fun _ after => Untouched bpb lba disk after.1) := by
  rw [meets_fatFileSync vol untouched.quiet]
  apply Untouched.synced
  have written := untouched.poke file.buf placed
  unfold entryCache
  split
  · apply (written.load file.dirSect).edit
    rw [Fat.setCache_cache, load_address]
    exact listed
  · exact written

theorem fatFileOpen_untouched {path : Text} {flags : Volume.OpenFlags} {buf : Sector}
    (untouched : Untouched bpb lba disk fat) (existing : flags.create = false)
    (atStart : flags.append = false) :
    Meets ((bpb.volume lba name).fatFileOpen path flags buf) fat True
      (fun _ => Untouched bpb lba disk) (fun _ => Untouched bpb lba disk) := by
  have writes : WritesSafely (bpb.volume lba name) fat.cache.view
      (Untouched bpb lba disk) (¬bpb.inTables lba ·) := untouched.writesSafely
  rw [fatFileOpen, meets_bind, meets_withSnd, existing, atStart]
  apply (writes.findFile (bpb.volume lba name) path _ untouched).imp id
  · rintro sfn ⟨found, dir⟩ untouchedFound
    change Meets (((bpb.volume lba name).fatFileSeek 0 Seek.start).withSnd
      (fileOf flags dir sfn buf) >>= _) found _ _ _
    rw [meets_bind, meets_withSnd]
    have seeks : Meets ((bpb.volume lba name).fatFileSeek 0 .start)
        (found, fileOf flags dir sfn buf) True _ _ :=
      writes.fatFileSeek untouchedFound
        (fun dirty => absurd (show false = true from dirty) Bool.false_ne_true)
        0 .start (by
          intro off isOff
          have isZero : off = 0 := by
            simpa [seekBase] using isOff.symm
          rw [isZero]
          exact ⟨_, clustFor_start _ rfl⟩)
    apply seeks.imp id
    · rintro _ ⟨after, file⟩ untouchedAfter
      exact untouchedAfter
    · rintro _ ⟨after, file⟩ untouchedAfter
      exact untouchedAfter
  · rintro _ ⟨after, dir⟩ untouchedAfter
    exact untouchedAfter

theorem step_untouched {call : FatCall} (untouched : Untouched bpb lba disk system.fat)
    (leaves : LeavesTables (bpb.volume lba name) bpb lba system call)
    (stepped : system.step (bpb.volume lba name) call = some next) :
    Untouched bpb lba disk next.fat := by
  have writes : WritesSafely (bpb.volume lba name) system.fat.cache.view
      (Untouched bpb lba disk) (¬bpb.inTables lba ·) := untouched.writesSafely
  cases call with
  | fileOpen handle path flags buf =>
    obtain ⟨⟨result, fat⟩, returned, rfl⟩ := map_eq_some_iff.mp stepped
    exact (fatFileOpen_untouched untouched leaves.1 leaves.2).of_outcome returned
  | fileClose handle =>
    obtain ⟨closed, synced, rfl⟩ := map_eq_some_iff.mp stepped
    apply onFile_untouched synced
    intro file isFile
    exact fatFileSync_untouched untouched (leaves file isFile).1 (leaves file isFile).2
  | fileRead handle len =>
    apply onFile_untouched stepped
    intro file isFile
    obtain ⟨placed, found⟩ := leaves file isFile
    apply writes.fatFileRead untouched (fun _ => placed)
    intro inside
    exact isSome_iff_exists.mp (found inside)
  | fileWrite handle src =>
    apply onFile_untouched stepped
    intro file isFile
    obtain ⟨placed, small, found, passed⟩ := leaves file isFile
    obtain ⟨last, isLast⟩ := isSome_iff_exists.mp found
    apply writes.fatFileWrite untouched placed small isLast
    intro count clust within isClust off
    exact passed count within clust isClust _ Nat.and_le_right
  | fileSeek handle offset seek =>
    apply onFile_untouched stepped
    intro file isFile
    obtain ⟨placed, found⟩ := leaves file isFile
    apply writes.fatFileSeek untouched fun _ => placed
    intro off isOff
    rw [isOff, Int.toNat_natCast] at found
    exact isSome_iff_exists.mp found
  | fileSync handle =>
    apply onFile_untouched stepped
    intro file isFile
    exact fatFileSync_untouched untouched (leaves file isFile).1 (leaves file isFile).2
  | unlink path => exact leaves.elim
  | stat path stack =>
    obtain ⟨⟨result, after⟩, returned, rfl⟩ := map_eq_some_iff.mp stepped
    exact (writes.fatStat (bpb.volume lba name) path stack).of_outcome (by exact untouched) returned
  | dirCreate handle path => exact leaves.elim
  | dirOpen handle path =>
    obtain ⟨⟨result, after⟩, returned, rfl⟩ := map_eq_some_iff.mp stepped
    exact (writes.fatDirOpen (bpb.volume lba name) path).of_outcome (by exact untouched) returned
  | dirRead handle =>
    exact onDir_untouched untouched stepped (writes.fatDirRead (bpb.volume lba name))
  | dirNext handle =>
    exact onDir_untouched untouched stepped (writes.dirNext (bpb.volume lba name))
  | dirRewind handle =>
    apply onDir_untouched untouched stepped
    apply LoadClosed.getDir.bind
    intro dir
    exact LoadClosed.dirAtClust (bpb.volume lba name) dir.sclust
  | sync =>
    obtain ⟨⟨result, fat⟩, returned, rfl⟩ := map_eq_some_iff.mp stepped
    have meets : Meets (bpb.volume lba name).syncFs system.fat True
        (fun _ => Untouched bpb lba disk)
        (fun _ => Untouched bpb lba disk) := by
      rw [meets_syncFs _ untouched.quiet]
      exact untouched.synced _
    exact meets.of_outcome returned

end FatSystem

variable {lba : Nat}

variable {bpb : Bpb}

variable {disk : Nat → Sector}

theorem Mounted.untouched {name : Text} {vol : Volume} {fat : Fat}
    (mounted : Mounted disk name bpb lba vol fat)
    (apart : ¬bpb.inTables lba 0) :
    Untouched bpb lba disk fat where
  quiet := mounted.quiet
  infoClean := mounted.infoClean
  kept sect _ := by
    rw [mounted.cache, view_of_clean rfl]
  current inside := by
    rw [mounted.cache] at inside
    exact absurd inside apart

/-- On every mounted volume the copies of the table agree after `fat_sync`, if
they did when it was mounted and every call since then left the tables alone. -/
theorem tables_stay_in_step {partition : Fin 4} {name : Text}
    {disk : Nat → Sector} {gBuf : Sector} {lba : Nat} {bpb : Bpb}
    {probed fat : Fat} {vol : Volume} {calls : List FatCall}
    {system synced : FatSystem}
    (found : probe partition (newFat disk gBuf) = some (.ok (lba, bpb), probed))
    (mounted : fatMount partition name (newFat disk gBuf) = some (.ok vol, fat))
    (agree : bpb.InStep lba disk) (apart : ¬bpb.inTables lba 0)
    (along : AlongOps (fun system call => system.step vol call)
      (FatSystem.LeavesTables vol bpb lba) (.idle fat) calls)
    (run : runOps (fun system call => system.step vol call) (.idle fat) calls = some system)
    (sync : system.step vol .sync = some synced) :
    bpb.InStep lba synced.fat.disk := by
  have isMounted := fatMount_mounted found mounted
  cases isMounted.geometry
  have untouched : Untouched bpb lba disk system.fat := by
    have preserved : ∀ before call after, Untouched bpb lba disk before.fat →
        FatSystem.LeavesTables (bpb.volume lba name) bpb lba before call →
        before.step (bpb.volume lba name) call = some after →
        Untouched bpb lba disk after.fat := by
      intro before call after held leaves stepped
      exact FatSystem.step_untouched held leaves stepped
    exact runOps_invariant_along preserved (isMounted.untouched apart) along run
  have leaves : FatSystem.LeavesTables (bpb.volume lba name) bpb lba system .sync := trivial
  have untouchedSynced : Untouched bpb lba disk synced.fat :=
    FatSystem.step_untouched untouched leaves sync
  obtain ⟨⟨result, final⟩, returned, rfl⟩ := map_eq_some_iff.mp sync
  have clean : final.cache.dirty = false := by
    have meets : Meets (bpb.volume lba name).syncFs system.fat True
        (fun _ after => after.cache.dirty = false)
        (fun _ after => after.cache.dirty = false) := by
      rw [meets_syncFs _ untouched.quiet]
      exact synced_clean _ _
    exact meets.of_outcome returned
  have same : ∀ sect, bpb.inTables lba sect → final.disk sect = disk sect := by
    intro sect inside
    rw [← untouchedSynced.kept sect inside, view_of_clean clean]
  intro clust inside
  rw [same _ (Bpb.firstFat_inTables inside), same _ (Bpb.secondFat_inTables inside)]
  exact agree clust inside

/-! ## The small volume -/

/-- Two copies with the same first sector and nothing in the others. -/
theorem inStep_of_first (first : bpb.firstFat lba = 32) (second : bpb.secondFat lba = 544)
    (length : bpb.sectPerFat32 = 512) (same : disk 32 = disk 544)
    (empty : ∀ sect, 32 < sect → sect < 1056 → sect ≠ 544 → disk sect = zero) :
    bpb.InStep lba disk := by
  intro clust inside
  have isFirst : itemSect 32 clust = 32 + clust / 128 := Nat.mod_eq_of_lt (by omega)
  have isSecond : itemSect 544 clust = 544 + clust / 128 := Nat.mod_eq_of_lt (by omega)
  rw [first, second, isFirst, isSecond]
  by_cases start : clust / 128 = 0
  · rw [start, Nat.add_zero, Nat.add_zero, same]
  · rw [empty _ (by omega) (by omega) (by omega), empty _ (by omega) (by omega) (by omega)]

def createFlags : Volume.OpenFlags where
  write := true
  read := true
  append := false
  trunc := false
  create := true

def pathA : Text :=
  [0x2f, 0x72, 0x6f, 0x6f, 0x74, 0x2f, 0x61]

/-- The volume asks for two equal copies; a file is created, and the entry of its
cluster is missing in the second copy. -/
theorem created_file_not_mirrored : ∃ lba bpb probed vol fat system synced,
      probe 0 (newFat (smallDisk 0) zero) = some (.ok (lba, bpb), probed) ∧
      fatMount 0 rootName (newFat (smallDisk 0) zero) = some (.ok vol, fat) ∧
      bpb.extFlagMirror = false ∧ bpb.InStep lba (smallDisk 0) ∧
      runOps (fun system call => FatSystem.step system vol call) (.idle fat)
        [.fileOpen 0 pathA createFlags zero] = some system ∧
      system.step vol .sync = some synced ∧
      ¬bpb.InStep lba synced.fat.disk := by
  have evaluated : Meets (probe 0) (newFat (smallDisk 0) zero) False
      (fun place _ =>
        (place.2.extFlagMirror = false ∧ place.2.firstFat place.1 = 32 ∧
          place.2.secondFat place.1 = 544 ∧ place.2.sectPerFat32 = 512) ∧
        Mounts (smallDisk 0) fun vol fat =>
          ∃ system ∈ runOps (fun system call => FatSystem.step system vol call)
              (.idle fat) [.fileOpen 0 pathA createFlags zero],
            ∃ synced ∈ system.step vol .sync,
              itemVal (synced.fat.disk 32) 3 ≠ itemVal (synced.fat.disk 544) 3)
      (fun _ _ => False) := by
    decide +kernel
  obtain ⟨⟨lba, bpb⟩, probed, found, ⟨mirror, first, second, length⟩, rest⟩ :=
    evaluated.exists_returned
  obtain ⟨vol, fat, mounted, system, run, synced, sync, differ⟩ := rest.exists_returned
  refine ⟨lba, bpb, probed, vol, fat, system, synced, found, mounted, mirror, ?_, run, sync, ?_⟩
  · apply inStep_of_first first second length rfl
    intro sect above below other
    unfold smallDisk
    split <;> first | omega | rfl
  · intro agree
    have same := agree 3 (by rw [length]; decide)
    rw [first, second] at same
    exact differ same

/-- The small volume with an empty file `a`, which has a cluster. -/
def filedDisk : Nat → Sector
  | 0 => smallBoot 0
  | 1 => smallInfo
  | 32 => smallTable.putWord32 12 0x0fffffff
  | 544 => smallTable.putWord32 12 0x0fffffff
  | 1056 => putSfn (putSfnName [0x61]) fatAttrArchive 3 0 ByteBlock.zero
  | _ => ByteBlock.zero

/-- The file is opened, written in its cluster and closed. -/
def filedCalls : List FatCall :=
  [.fileOpen 0 pathA { createFlags with create := false } ByteBlock.zero,
    .fileWrite 0 [1, 2, 3], .fileClose 0]

theorem tables_stay_in_step_filed : ∃ lba bpb probed vol fat system synced,
      probe 0 (newFat filedDisk zero) = some (.ok (lba, bpb), probed) ∧
      fatMount 0 rootName (newFat filedDisk zero) = some (.ok vol, fat) ∧
      bpb.extFlagMirror = false ∧ bpb.InStep lba filedDisk ∧
      runOps (fun system call => FatSystem.step system vol call) (.idle fat)
        filedCalls = some system ∧
      system.step vol .sync = some synced ∧
      bpb.InStep lba synced.fat.disk := by
  have evaluated : Meets (probe 0) (newFat filedDisk zero) False
      (fun place _ =>
        (place.2.extFlagMirror = false ∧ place.2.firstFat place.1 = 32 ∧
          place.2.secondFat place.1 = 544 ∧ place.2.sectPerFat32 = 512 ∧
          ¬place.2.inTables place.1 0) ∧
        Mounts filedDisk fun vol fat =>
          AlongOps (fun system call => FatSystem.step system vol call)
            (FatSystem.LeavesTables vol place.2 place.1) (.idle fat)
            filedCalls ∧
          ∃ system ∈ runOps (fun system call => FatSystem.step system vol call)
              (.idle fat) filedCalls,
            ∃ synced ∈ system.step vol .sync, synced.fat.disk 1057 0 = 1)
      (fun _ _ => False) := by
    decide +kernel
  obtain ⟨⟨lba, bpb⟩, probed, found, ⟨mirror, first, second, length, apart⟩,
    rest⟩ := evaluated.exists_returned
  obtain ⟨vol, fat, mounted, along, system, run, synced, sync, _⟩ := rest.exists_returned
  have agree : bpb.InStep lba filedDisk := by
    apply inStep_of_first first second length rfl
    intro sect above below other
    unfold filedDisk
    split <;> first | omega | rfl
  exact ⟨lba, bpb, probed, vol, fat, system, synced, found, mounted, mirror,
    agree, run, sync, tables_stay_in_step found mounted agree apart along run sync⟩

end SeekOs.Fat32
