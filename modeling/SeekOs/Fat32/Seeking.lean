import SeekOs.Fat32.Extension

/-!
# Seeks that fail

`fat_file_seek` moves the cluster of a handle link by link, and the offset only
at the end.  When a link cannot be followed or made, the offset is still the old
one, so the handle is right only if it has not moved yet.  Going back is always
possible, because the clusters up to the present one are there.
-/

namespace SeekOs.Fat32

open SeekOs.Lib SeekOs.Lib.Action Volume ByteBlock

namespace Volume

variable {vol : Volume} {table table' : Nat → Sector} {lastUsed : Nat} {count : Nat}

theorem isClust_of_follow : ∀ {first last : Nat}, vol.IsClust first →
      vol.follow table count first = some last → vol.IsClust last := by
  induction count with
  | zero =>
    rintro first last isFirst ⟨⟩
    exact isFirst
  | succ count induction =>
    intro first last isFirst found
    rw [follow] at found
    split at found
    · rename_i linked
      exact induction (isClust_of_used linked.2) found
    · cases found

theorem reaches_of_follow : ∀ {first last : Nat}, vol.follow table count first = some last →
      vol.Reaches table lastUsed count first := by
  induction count with
  | zero => exact fun _ => trivial
  | succ count induction =>
    intro first last found
    rw [follow] at found
    split at found
    · rename_i linked
      rw [reaches_used linked.2]
      exact induction found
    · cases found

theorem follow_of_links
    (used : ∀ other, vol.IsClust other → vol.clustFlags (vol.link table other) = some .used →
      vol.link table' other = vol.link table other) :
    ∀ {first last : Nat}, vol.IsClust first → vol.follow table count first = some last →
      vol.follow table' count first = some last := by
  induction count with
  | zero => exact fun _ found => found
  | succ count induction =>
    intro first last isFirst found
    rw [follow] at found
    split at found
    · rename_i linked
      have kept := used first isFirst linked.2
      rw [follow_used isFirst (by rw [kept]; exact linked.2), kept]
      exact induction (isClust_of_used linked.2) found
    · cases found

end Volume

/-- The cluster and the sector of the handle are those of its offset, and its
buffer holds the sector, unless it is still to be written. -/
structure Coherent (vol : Volume) (fat : Fat) (file : File) : Prop where
  start : vol.IsClust file.sclust
  small : file.offset ≤ 0xffffffff
  chain : vol.follow fat.cache.view (file.offset / vol.clustSize) file.sclust = some file.clust
  sect : file.sect = vol.offSect file.clust file.offset
  buf : file.flags.fileDirty = false → file.buf = fat.cache.view file.sect

/-- If the seek fails, the handle is coherent, and a buffer that is still to be
written belongs to the same sector as before. -/
def SeekKeeps (vol : Volume) (fat : Fat) (file : File) (offset : Int)
    (seek : Seek) : Prop :=
  Meets (vol.fatFileSeek offset seek) (fat, file) True (fun _ _ => True)
    (fun _ after => Coherent vol after.1 after.2 ∧
      (after.2.flags.fileDirty = true → after.2.sect = file.sect ∧ after.2.buf = file.buf))

namespace Coherent

variable {vol : Volume} {fat : Fat} {file : File} (coherent : Coherent vol fat file)
include coherent

theorem isClust : vol.IsClust file.clust := isClust_of_follow coherent.start coherent.chain

theorem follow_back {off : Nat} (backwards : off / vol.clustSize < file.offset / vol.clustSize) :
    ∃ clust, vol.follow fat.cache.view (off / vol.clustSize) file.sclust = some clust := by
  obtain ⟨clust, found, _⟩ := vol.follow_of_le coherent.chain backwards.le
  exact ⟨clust, found⟩

/-- A handle that has left its cluster, with its old offset, is not coherent. -/
theorem not_moved {after : Fat} {clust : Nat} (used : ∀ other, vol.IsClust other →
      vol.clustFlags (vol.link fat.cache.view other) = some .used →
      vol.link after.cache.view other = vol.link fat.cache.view other)
    (moved : clust ≠ file.clust) :
    ¬Coherent vol after { file with clust := clust } := by
  intro coherentAfter
  have same := follow_of_links used coherent.start coherent.chain
  have there : vol.follow after.cache.view (file.offset / vol.clustSize)
      file.sclust = some clust := coherentAfter.chain
  rw [same] at there
  exact moved (Option.some.inj there).symm

end Coherent

/-- A file of one cluster, which was just opened. -/
def tinyFile : File where
  dirSect := 34
  dirIdx := 0
  sclust := 3
  clust := 3
  sect := 35
  size := 512
  offset := 0
  attr := 0
  flags := ⟨true, true, false, false, false⟩
  buf := ByteBlock.zero

variable {vol : Volume}

theorem coherent_tiny {fat : Fat} (tiny : IsTiny vol fat)
    (shown : vol.offSect 3 0 = 35 ∧ fat.cache.view 35 = zero) :
    Coherent vol fat tinyFile where
  start := by
    have count := tiny.1.1
    change 2 ≤ 3 ∧ 3 < vol.clustCnt
    omega
  small := Nat.zero_le _
  chain := by
    change vol.follow fat.cache.view (0 / vol.clustSize) 3 = some 3
    rw [Nat.zero_div]
    rfl
  sect := shown.1.symm
  buf _ := shown.2.symm

/-- A disk whose fifth operation fails. -/
def failingFat (fat : Fat) : Fat :=
  { fat with faults := [false, false, false, false, true] }

/-- The tiny file after a write. -/
def writtenFile : File :=
  { tinyFile with flags := { tinyFile.flags with fileDirty := true } }

/-- One seek leaves the handle in a cluster that is not that of its offset, and
another leaves the buffer for another sector. -/
private theorem not_seekKeeps {fat fat' : Fat}
    {file file' : File} {offset offset' : Int} {seek seek' : Seek}
    (spoils :
      Meets (vol.fatFileSeek offset seek) (fat, file) False (fun _ _ => False)
        (fun _ after => vol.follow after.1.cache.view
          (after.2.offset / vol.clustSize) after.2.sclust ≠ some after.2.clust) ∧
      Meets (vol.fatFileSeek offset' seek') (fat', file') False (fun _ _ => False)
        (fun _ after => after.2.flags.fileDirty = true ∧ after.2.sect ≠ file'.sect)) :
    ¬SeekKeeps vol fat file offset seek ∧ ¬SeekKeeps vol fat' file' offset' seek' := by
  constructor
  · intro keeps
    apply spoils.1.clash keeps
    · exact fun _ _ returned => returned.elim
    · exact fun _ _ moved kept => moved kept.1.chain
  · intro keeps
    apply spoils.2.clash keeps
    · exact fun _ _ returned => returned.elim
    · exact fun _ _ misplaced kept => misplaced.2 (kept.2 misplaced.1).1

end SeekOs.Fat32
