import SeekOs.Fat32.Walks

/-!
# Moving along the chain of a file

As long as the chain of a file has the clusters that it asks for,
`fat_file_seek` follows the links of the table and takes no cluster.  The only
writes are then those of the buffer of the handle.
-/

namespace SeekOs.Fat32

open SeekOs.Lib SeekOs.Lib.Action Volume Nat

namespace Volume

variable (vol : Volume)
variable {fat : Fat} {fails : FatErr → Fat × File → Prop} {hangs : Prop}
  {returns : Unit → Fat × File → Prop}

/-- The value of an entry in a table that is given by its sectors. -/
def link (table : Nat → Sector) (clust : Nat) : Nat :=
  itemVal (table (itemSect vol.fatSect clust)) clust

/-- The cluster that is a number of links away, if there are as many. -/
def follow (table : Nat → Sector) : Nat → Nat → Option Nat
  | 0, clust => some clust
  | count + 1, clust =>
    if clust < vol.clustCnt ∧ vol.clustFlags (vol.link table clust) = some .used then
      follow table count (vol.link table clust)
    else
      none

theorem follow_add (table : Nat → Sector) (first second clust : Nat) :
    vol.follow table (first + second) clust =
      (vol.follow table first clust).bind (vol.follow table second) := by
  induction first generalizing clust with
  | zero =>
    rw [zero_add]
    rfl
  | succ first induction =>
    rw [Nat.succ_add_eq_add_succ, Nat.add_succ, follow, follow]
    split
    · exact induction _
    · rfl

theorem follow_of_le {table : Nat → Sector} {first total clust last : Nat}
    (found : vol.follow table total clust = some last)
    (le : first ≤ total) :
    ∃ middle, vol.follow table first clust = some middle ∧
      vol.follow table (total - first) middle = some last := by
  rw [← Nat.add_sub_cancel' le, follow_add] at found
  exact Option.bind_eq_some_iff.mp found

def clustSize : Nat :=
  512 * 2 ^ vol.clustShift

/-- The cluster of a file for an offset, as `fat_file_seek` looks for it: from
the cluster at hand, or from the first one. -/
def clustFor (table : Nat → Sector) (file : File) (off : Nat) : Option Nat :=
  if off / vol.clustSize < file.offset / vol.clustSize then
    vol.follow table (off / vol.clustSize) file.sclust
  else
    vol.follow table (off / vol.clustSize - file.offset / vol.clustSize) file.clust

variable {vol} in
/-- A handle at the start stays in its cluster when it seeks to the start. -/
theorem clustFor_start (table : Nat → Sector) {file : File} (atStart : file.offset = 0) :
    vol.clustFor table file 0 = some file.clust := by
  rw [clustFor, atStart, if_neg (lt_irrefl _), Nat.sub_self]
  rfl

/-- The sector of an offset, in its cluster. -/
def offSect (clust off : Nat) : Nat :=
  (vol.clustToSect clust + (off / 512 &&& vol.clustMsk)) % 2 ^ 32

/-- The volume after `fat_file_seek` has left a sector. -/
def switchedFat (fat : Fat) (file : File) (ssect : Nat) : Fat :=
  if file.sect ≠ ssect ∧ file.flags.fileDirty then
    fat.setCache (fat.cache.poke ssect file.buf)
  else
    fat

/-- The handle after `fat_file_seek` has left a sector. -/
def switchedFile (disk : Nat → Sector) (file : File) (ssect : Nat) : File :=
  { file with
    buf := if file.sect = ssect then file.buf else disk file.sect
    flags :=
      { file.flags with
        fileDirty := file.flags.fileDirty && decide (file.sect = ssect) } }

/-- A handle at an offset in a cluster. -/
def placedFile (file : File) (clust off : Nat) : File :=
  { file with clust := clust, sect := vol.offSect clust off, offset := off }

/-- A handle with bytes of a write in its buffer. -/
def storedFile (file : File) (bytes : List UInt8) : File :=
  { file with
    buf := file.buf.write (file.offset % 512) bytes
    flags := { file.flags with fileDirty := true } }

theorem meets_switchBuf (quiet : fat.Quiet) (file : File) (ssect : Nat) :
    Meets (switchBuf ssect) (fat, file) hangs returns fails ↔
      returns () (switchedFat fat file ssect,
        switchedFile (switchedFat fat file ssect).disk file ssect) := by
  rw [switchBuf, meets_bind, getFile, meets_bind, meets_get, meets_pure]
  unfold switchedFat switchedFile
  by_cases same : file.sect = ssect
  · subst same
    simp
  · cases dirty : file.flags.fileDirty with
    | false =>
      have unchanged : { file.flags with fileDirty := false } = file.flags := by
        rw [← dirty]
      simp [same, meets_bind, meets_onFst, meets_diskRead quiet, modifyFile, unchanged]
    | true =>
      simp [same, meets_bind, meets_onFst, meets_diskWrite quiet, meets_diskRead, quiet, modifyFile]

/-- The end of `fat_file_seek`, once the cluster is found. -/
def finishSeek (off ssect : Nat) : FileM Unit := do
  modifyFile fun file =>
    { file with sect := vol.seekSect file off, offset := off }
  switchBuf ssect

theorem meets_finishSeek (quiet : fat.Quiet) (file : File) (off ssect : Nat) :
    Meets (vol.finishSeek off ssect) (fat, file) hangs returns fails ↔
      returns () (switchedFat fat (vol.placedFile file file.clust off) ssect,
        switchedFile (switchedFat fat (vol.placedFile file file.clust off) ssect).disk
          (vol.placedFile file file.clust off) ssect) := by
  rw [finishSeek, meets_bind, modifyFile, meets_modify]
  exact meets_switchBuf quiet _ _

/-- The handle from which `fat_file_seek` follows the chain. -/
def seekStart (file : File) (off : Nat) : File :=
  if off / vol.clustSize < file.offset / vol.clustSize then
    { file with
      clust := file.sclust
      sect := vol.clustToSect file.sclust
      offset := 0 }
  else
    file

/-- The number of links that `fat_file_seek` follows. -/
def seekLinks (file : File) (off : Nat) : Nat :=
  if off / vol.clustSize < file.offset / vol.clustSize then
    off / vol.clustSize
  else
    off / vol.clustSize - file.offset / vol.clustSize

theorem meets_fatFileSeek {file : File} {offset : Int} {seek : Seek} {off : Nat}
    (isOff : seekBase file seek + offset = off) (small : off ≤ 0xffffffff) :
    Meets (vol.fatFileSeek offset seek) (fat, file) hangs returns fails ↔
      Meets (vol.followLoop (vol.seekLinks file off)) (fat, vol.seekStart file off) hangs
        (fun _ after =>
          Meets (vol.finishSeek off file.sect) after hangs returns fails)
        fails := by
  have inRange : ¬((seekBase file seek : Int) + offset < 0 ∨
      0xffffffff < (seekBase file seek : Int) + offset) := by
    omega
  have isNat : ((seekBase file seek : Int) + offset).toNat = off := by
    rw [isOff]
    rfl
  rw [fatFileSeek, meets_bind, getFile, meets_bind, meets_get, meets_pure,
    if_neg (by exact inRange)]
  simp only [isNat]
  unfold seekLinks seekStart
  by_cases backwards : off / vol.clustSize < file.offset / vol.clustSize
  · rw [if_pos (by exact backwards), if_pos backwards, if_pos backwards,
      meets_bind, modifyFile, meets_modify, meets_bind]
    rfl
  · rw [if_neg (by exact backwards), if_neg backwards, if_neg backwards, meets_bind]
    rfl

end Volume

/-- A property of volumes that loading a sector cannot change, and that says what
is in the table. -/
structure ReadsTable (vol : Volume) (table : Nat → Sector)
    (holds : Fat → Prop) : Prop extends LoadClosed holds where
  entry : ∀ fat, holds fat → ∀ clust < vol.clustCnt,
    (fat.cache.load (itemSect vol.fatSect clust)).block = table (itemSect vol.fatSect clust)

namespace ReadsTable

variable {vol : Volume} {table : Nat → Sector} {holds : Fat → Prop}
  (reads : ReadsTable vol table holds)
variable {fat : Fat}
include reads

theorem getFat (held : holds fat) {clust : Nat} (inside : clust < vol.clustCnt)
    {flags : ClustFlags}
    (isEntry : vol.clustFlags (vol.link table clust) = some flags) :
    Meets (vol.getFat clust) fat False
      (fun result after =>
        result = (vol.link table clust, flags) ∧ holds after)
      (fun _ _ => False) := by
  rw [meets_getFat vol (reads.quiet fat held), reads.entry fat held clust inside]
  have isFlags : vol.clustFlags (itemVal (table (itemSect vol.fatSect clust)) clust) = some flags :=
    isEntry
  rw [isFlags]
  exact ⟨rfl, reads.load fat _ held⟩

/-- The loop of `fat_file_seek` ends in the cluster that `follow` finds. -/
theorem followLoop (count : Nat) :
    ∀ {fat : Fat} {file : File} {last : Nat}, holds fat →
      vol.follow table count file.clust = some last →
      Meets (vol.followLoop count) (fat, file) False
        (fun _ after => holds after.1 ∧ after.2 = { file with clust := last })
        (fun _ _ => False) := by
  induction count with
  | zero =>
    intro fat file last held found
    cases found
    exact ⟨held, rfl⟩
  | succ count induction =>
    intro fat file last held found
    rw [Volume.follow] at found
    split at found
    · rename_i linked
      rw [Volume.followLoop, meets_bind, getFile, meets_bind, meets_get,
        meets_pure, meets_bind, meets_onFst]
      apply (reads.getFat held linked.1 linked.2).mono
      rintro result after ⟨rfl, heldAfter⟩
      exact induction heldAfter found
    · cases found

theorem fatFileSeek {file : File} (held : holds fat) {offset : Int}
    {seek : Seek} {off clust : Nat}
    (isOff : seekBase file seek + offset = off)
    (small : off ≤ 0xffffffff)
    (found : vol.clustFor table file off = some clust) :
    Meets (vol.fatFileSeek offset seek) (fat, file) False
      (fun _ after => ∃ loaded, holds loaded ∧
        after.1 = switchedFat loaded (vol.placedFile file clust off) file.sect ∧
        after.2 = switchedFile after.1.disk (vol.placedFile file clust off) file.sect)
      (fun _ _ => False) := by
  have start : vol.follow table (vol.seekLinks file off)
      (vol.seekStart file off).clust = some clust := by
    unfold clustFor at found
    unfold seekLinks seekStart
    split at found
    · rename_i backwards
      rw [if_pos backwards, if_pos backwards]
      exact found
    · rename_i forwards
      rw [if_neg forwards, if_neg forwards]
      exact found
  have placed : vol.placedFile { vol.seekStart file off with clust := clust }
      clust off = vol.placedFile file clust off := by
    unfold seekStart
    split
    · rfl
    · rfl
  rw [vol.meets_fatFileSeek isOff small]
  apply (reads.followLoop _ held start).mono
  rintro _ ⟨moved, current⟩ ⟨heldMoved, isCurrent⟩
  subst isCurrent
  rw [vol.meets_finishSeek (reads.quiet moved heldMoved)]
  refine ⟨moved, heldMoved, ?_, ?_⟩
  · rw [placed]
  · rw [placed]

omit reads in
theorem fatFileSeek_range {file : File} {offset : Int} {seek : Seek}
    {hangs : Prop} {returns : Unit → Fat × File → Prop}
    {fails : FatErr → Fat × File → Prop}
    (outside : (seekBase file seek : Int) + offset < 0 ∨
      0xffffffff < (seekBase file seek : Int) + offset) :
    Meets (vol.fatFileSeek offset seek) (fat, file) hangs returns fails ↔
      fails .eof (fat, file) := by
  rw [Volume.fatFileSeek, meets_bind, getFile, meets_bind, meets_get, meets_pure,
    if_pos (by exact outside), meets_bind, meets_fail]

end ReadsTable

/-- Storing a sector past the buffer of the volume keeps the property, if the
sector is safe. -/
structure WritesSafely (vol : Volume) (table : Nat → Sector)
    (holds : Fat → Prop) (safe : Nat → Prop) : Prop
    extends ReadsTable vol table holds where
  poke : ∀ fat sect data, safe sect → holds fat → holds (fat.setCache (fat.cache.poke sect data))

namespace WritesSafely

variable {vol : Volume} {table : Nat → Sector} {holds : Fat → Prop}
  {safe : Nat → Prop} (writes : WritesSafely vol table holds safe)
variable {fat : Fat} {file : File}
include writes

theorem switchedFat {ssect : Nat} (held : holds fat)
    (flushed : file.flags.fileDirty = true → safe ssect) :
    holds (switchedFat fat file ssect) := by
  unfold Volume.switchedFat
  split
  · rename_i leaves
    exact writes.poke fat ssect _ (flushed leaves.2) held
  · exact held

omit writes in
/-- A buffer that is still to be written belongs to the sector it was filled
from. -/
theorem switchedFile_safe {disk : Nat → Sector} {clust off : Nat}
    (flushed : file.flags.fileDirty = true → safe file.sect) :
    (switchedFile disk (vol.placedFile file clust off) file.sect).flags.fileDirty = true →
      safe (switchedFile disk (vol.placedFile file clust off) file.sect).sect := by
  intro dirty
  have both : file.flags.fileDirty = true ∧ vol.offSect clust off = file.sect := by
    have stillDirty : (file.flags.fileDirty &&
        decide (vol.offSect clust off = file.sect)) = true := dirty
    simpa using stillDirty
  change safe (vol.offSect clust off)
  rw [both.2]
  exact flushed both.1

/-- A seek for which the file has a cluster, or that is out of range. -/
theorem fatFileSeek (held : holds fat)
    (flushed : file.flags.fileDirty = true → safe file.sect) (offset : Int)
    (seek : Seek)
    (found : ∀ off : Nat, seekBase file seek + offset = off →
      ∃ clust, vol.clustFor table file off = some clust) :
    Meets (vol.fatFileSeek offset seek) (fat, file) True
      (fun _ after => holds after.1) (fun _ after => holds after.1) := by
  by_cases outside : (seekBase file seek : Int) + offset < 0 ∨
      0xffffffff < (seekBase file seek : Int) + offset
  · rw [ReadsTable.fatFileSeek_range outside]
    exact held
  · obtain ⟨off, isOff⟩ := Int.eq_ofNat_of_zero_le
      (show 0 ≤ (seekBase file seek : Int) + offset by omega)
    obtain ⟨clust, isClust⟩ := found off isOff
    apply (writes.toReadsTable.fatFileSeek held isOff (by omega) isClust).returning
    rintro _ ⟨after, _⟩ ⟨loaded, heldLoaded, rfl, _⟩
    exact writes.switchedFat heldLoaded flushed

theorem seekOn {cnt total last : Nat} (held : holds fat)
    (flushed : file.flags.fileDirty = true → safe file.sect)
    (small : file.offset + cnt ≤ 0xffffffff)
    (before : file.offset + cnt ≤ total) (found : vol.follow table
      (total / vol.clustSize - file.offset / vol.clustSize) file.clust = some last) :
    Meets (vol.fatFileSeek cnt .curr) (fat, file) False
      (fun _ after => holds after.1 ∧ ∃ clust,
        vol.follow table ((file.offset + cnt) / vol.clustSize -
          file.offset / vol.clustSize) file.clust = some clust ∧
        vol.follow table (total / vol.clustSize -
          (file.offset + cnt) / vol.clustSize) clust = some last ∧
        after.2 = switchedFile after.1.disk
          (vol.placedFile file clust (file.offset + cnt)) file.sect)
      (fun _ _ => False) := by
  have grows : file.offset / vol.clustSize ≤ (file.offset + cnt) / vol.clustSize :=
    Nat.div_le_div_right (Nat.le_add_right _ _)
  have ends : (file.offset + cnt) / vol.clustSize ≤ total / vol.clustSize :=
    Nat.div_le_div_right before
  obtain ⟨clust, isClust, rest⟩ := vol.follow_of_le found (Nat.sub_le_sub_right ends _)
  have left : total / vol.clustSize - file.offset / vol.clustSize -
      ((file.offset + cnt) / vol.clustSize - file.offset / vol.clustSize) =
      total / vol.clustSize - (file.offset + cnt) / vol.clustSize := by
    omega
  rw [left] at rest
  have target : vol.clustFor table file (file.offset + cnt) = some clust := by
    rw [clustFor, if_neg (not_lt.mpr grows)]
    exact isClust
  have isOff : ((seekBase file .curr : Nat) : Int) + (cnt : Int) =
      (file.offset + cnt : Nat) := (Int.natCast_add _ _).symm
  apply (writes.toReadsTable.fatFileSeek held isOff small target).mono
  rintro _ ⟨after, moved⟩ ⟨loaded, heldLoaded, rfl, isMoved⟩
  exact ⟨writes.switchedFat heldLoaded flushed, clust, isClust, rest, isMoved⟩

theorem readLoop (fuel : Nat) :
    ∀ {len : Nat} {fat : Fat} {file : File}, holds fat →
      (file.flags.fileDirty = true → safe file.sect) →
      (file.offset < file.size → ∃ last, vol.follow table
        (min (file.offset + len) file.size / vol.clustSize -
          file.offset / vol.clustSize) file.clust = some last) →
      Meets (vol.readLoop fuel len) (fat, file) True
        (fun _ after => holds after.1) (fun _ after => holds after.1) := by
  induction fuel with
  | zero =>
    intro len fat file held _ _
    cases len with
    | zero => exact held
    | succ len => trivial
  | succ fuel induction =>
    intro len fat file held flushed found
    cases len with
    | zero => exact held
    | succ len =>
      rw [Volume.readLoop, meets_bind, getFile, meets_bind, meets_get, meets_pure]
      by_cases inside : file.offset < file.size
      · rw [if_pos (by exact inside), meets_bind, meets_outcome]
        set cnt := min (len + 1) (min (512 - file.offset % 512)
          (file.size - file.offset)) with isCnt
        by_cases small : file.offset + cnt ≤ 0xffffffff
        · obtain ⟨last, isLast⟩ := found inside
          have before : file.offset + cnt ≤ min (file.offset + (len + 1)) file.size := by
            omega
          apply (writes.seekOn held flushed small before isLast).returning
          rintro _ ⟨after, moved⟩ ⟨heldAfter, clust, _, rest, isMoved⟩
          change moved = switchedFile after.disk _ _ at isMoved
          subst isMoved
          apply Meets.bind
          · apply induction heldAfter (switchedFile_safe flushed)
            · intro _
              have same : file.offset + cnt + (len + 1 - cnt) = file.offset + (len + 1) := by
                omega
              exact ⟨last, same ▸ rest⟩
          · intro _ _ heldFinal
            exact heldFinal
        · rw [ReadsTable.fatFileSeek_range]
          · exact held
          · right
            change (0xffffffff : Int) < (file.offset : Int) + (cnt : Int)
            omega
      · rw [if_neg (by exact inside)]
        exact held
      · exact succ_ne_zero len

theorem fatFileRead {len : Nat} (held : holds fat)
    (flushed : file.flags.fileDirty = true → safe file.sect)
    (found : file.offset < file.size → ∃ last, vol.follow table
      (min (file.offset + len) file.size / vol.clustSize -
        file.offset / vol.clustSize) file.clust = some last) :
    Meets (vol.fatFileRead len) (fat, file) True
      (fun _ after => holds after.1) (fun _ after => holds after.1) := by
  rw [Volume.fatFileRead, meets_bind, getFile, meets_bind, meets_get, meets_pure]
  cases file.flags.read with
  | false => exact held
  | true =>
    exact writes.readLoop len held flushed found

theorem writeLoop (fuel : Nat) :
    ∀ {src : List UInt8} {fat : Fat} {file : File} {last : Nat}, holds fat →
      safe file.sect → file.offset + src.length ≤ 0xffffffff →
      vol.follow table
        ((file.offset + src.length) / vol.clustSize -
          file.offset / vol.clustSize) file.clust = some last →
      (∀ count clust, count ≤ (file.offset + src.length) / vol.clustSize -
          file.offset / vol.clustSize →
        vol.follow table count file.clust = some clust →
        ∀ off, safe (vol.offSect clust off)) →
      Meets (vol.writeLoop fuel src) (fat, file) True
        (fun _ after => holds after.1) (fun _ after => holds after.1) := by
  induction fuel with
  | zero =>
    intro src fat file last held _ _ _ _
    cases src with
    | nil => exact held
    | cons byte src => trivial
  | succ fuel induction =>
    intro src fat file last held placed small found passed
    cases src with
    | nil => exact held
    | cons byte src =>
      rw [Volume.writeLoop, meets_bind, getFile, meets_bind, meets_get,
        meets_pure, meets_bind, modifyFile, meets_modify, meets_bind,
        meets_outcome]
      · set cnt := min (byte :: src).length (512 - file.offset % 512) with isCnt
        have le : cnt ≤ (byte :: src).length := min_le_left _ _
        have seeks : Meets (vol.fatFileSeek cnt .curr)
            (fat, storedFile file ((byte :: src).take cnt)) False
            _ _ :=
          writes.seekOn held (fun _ => placed) (show file.offset + cnt ≤ 0xffffffff by omega)
            (Nat.add_le_add_left le _) found
        apply seeks.returning
        rintro _ ⟨after, moved⟩ ⟨heldAfter, clust, there, rest, isMoved⟩
        change moved = switchedFile after.disk _ _ at isMoved
        subst isMoved
        have grows : file.offset / vol.clustSize ≤ (file.offset + cnt) / vol.clustSize :=
          Nat.div_le_div_right (Nat.le_add_right _ _)
        have ends : (file.offset + cnt) / vol.clustSize ≤
            (file.offset + (byte :: src).length) / vol.clustSize :=
          Nat.div_le_div_right (Nat.add_le_add_left le _)
        have same : file.offset + cnt + ((byte :: src).drop cnt).length =
            file.offset + (byte :: src).length := by
          rw [List.length_drop]
          omega
        apply Meets.bind
        · apply induction heldAfter
          · exact passed _ clust (Nat.sub_le_sub_right ends _) there _
          · exact same.le.trans small
          · exact same ▸ rest
          · intro count farther within isFarther
            change count ≤ (file.offset + cnt +
              ((byte :: src).drop cnt).length) / vol.clustSize -
                (file.offset + cnt) / vol.clustSize at within
            rw [same] at within
            have through : vol.follow table
                ((file.offset + cnt) / vol.clustSize -
                  file.offset / vol.clustSize + count) file.clust =
                some farther := by
              rw [vol.follow_add, show vol.follow table
                ((file.offset + cnt) / vol.clustSize - file.offset / vol.clustSize) file.clust =
                some clust from there]
              exact isFarther
            exact passed _ farther (by omega) through
        · intro _ _ heldFinal
          exact heldFinal
      · exact List.cons_ne_nil byte src

theorem fatFileWrite {src : List UInt8} {last : Nat} (held : holds fat)
    (placed : safe file.sect) (small : file.offset + src.length ≤ 0xffffffff)
    (found : vol.follow table
      ((file.offset + src.length) / vol.clustSize -
        file.offset / vol.clustSize) file.clust = some last)
    (passed : ∀ count clust, count ≤
        (file.offset + src.length) / vol.clustSize - file.offset / vol.clustSize →
      vol.follow table count file.clust = some clust →
      ∀ off, safe (vol.offSect clust off)) :
    Meets (vol.fatFileWrite src) (fat, file) True
      (fun _ after => holds after.1) (fun _ after => holds after.1) := by
  rw [Volume.fatFileWrite, meets_bind, getFile, meets_bind, meets_get, meets_pure]
  cases file.flags.write with
  | false => exact held
  | true =>
    rw [if_neg (by decide), meets_bind, modifyFile, meets_modify]
    apply Meets.bind
    · exact writes.writeLoop src.length held placed small found passed
    · intro _ _ heldAfter
      exact heldAfter

end WritesSafely

end SeekOs.Fat32
