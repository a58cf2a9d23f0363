import SeekOs.Fat32.Seeking
import SeekOs.Fat32.VfsOps

/-!
# What a write reports

`fat_file_write` keeps the error of its seek in a variable of the loop body and
returns another one, which is never set.  It counts bytes before the seek that
may fail, and takes the size from the offset afterwards.  So its report is right
exactly if no seek fails: the offsets are small enough, and there is a cluster,
or a free one, for each of them.
-/

namespace SeekOs.Fat32

open SeekOs.Fs SeekOs.Lib SeekOs.Lib.Action Function List Volume ByteBlock

namespace Volume

variable (vol : Volume)

/-- The sectors of clusters are apart from the tables and the counters. -/
def DataApart : Prop :=
  ∀ clust, vol.IsClust clust → ∀ off, ¬vol.IsSystem (vol.offSect clust off)

variable {vol} {table table' : Nat → Sector} {lastUsed freeCnt : Nat} {fat : Fat}

/-! ## Storing sectors apart from the table -/

theorem link_update {sect clust : Nat} (data : Sector)
    (apart : ¬vol.IsSystem sect) (inside : clust < vol.clustCnt) :
    vol.link (update table sect data) clust = vol.link table clust := by
  have other : itemSect vol.fatSect clust ≠ sect := by
    rintro rfl
    exact apart (.inl ⟨clust, inside, .inl rfl⟩)
  unfold link
  rw [update_of_ne other]

theorem freeClusts_congr
    (links : ∀ clust < vol.clustCnt, vol.link table' clust = vol.link table clust) :
    vol.freeClusts table' = vol.freeClusts table := by
  ext clust
  rw [mem_freeClusts, mem_freeClusts]
  constructor
  · rintro ⟨isClust, free⟩
    exact ⟨isClust, (links clust isClust.2).symm.trans free⟩
  · rintro ⟨isClust, free⟩
    exact ⟨isClust, (links clust isClust.2).trans free⟩

theorem LaidOut.ready_congr (laidOut : vol.LaidOut)
    (links : ∀ clust < vol.clustCnt, vol.link table' clust = vol.link table clust) (prev : Nat) :
    vol.Ready table' lastUsed prev ↔ vol.Ready table lastUsed prev := by
  unfold Ready FreeApart
  rw [links _ (laidOut.nextClust_lt prev)]
  constructor
  · rintro (next | ⟨clust, two_le, inside, apart, free⟩)
    · exact .inl next
    · rw [links clust inside] at free
      exact .inr ⟨clust, two_le, inside, apart, free⟩
  · rintro (next | ⟨clust, two_le, inside, apart, free⟩)
    · exact .inl next
    · rw [← links clust inside] at free
      exact .inr ⟨clust, two_le, inside, apart, free⟩

theorem LaidOut.reaches_congr (laidOut : vol.LaidOut)
    (links : ∀ clust < vol.clustCnt, vol.link table' clust = vol.link table clust) (count : Nat) :
    ∀ {clust : Nat}, vol.IsClust clust →
      (vol.Reaches table' lastUsed count clust ↔ vol.Reaches table lastUsed count clust) := by
  induction count with
  | zero => exact fun _ => Iff.rfl
  | succ count induction =>
    intro clust isClust
    rw [Reaches, Reaches, links clust isClust.2, laidOut.ready_congr links, freeClusts_congr links]
    apply or_congr _ Iff.rfl
    apply and_congr_right
    intro used
    exact induction (isClust_of_used used)

theorem reaches_of_add {first second : Nat} :
    ∀ {clust : Nat}, vol.Reaches table lastUsed (first + second) clust →
      vol.Reaches table lastUsed first clust := by
  induction first with
  | zero => exact fun _ => trivial
  | succ first induction =>
    intro clust reaches
    rw [Nat.succ_add] at reaches
    rcases reaches with ⟨used, onward⟩ | ⟨last, ready, enough⟩
    · exact .inl ⟨used, induction onward⟩
    · exact .inr ⟨last, ready, by omega⟩

theorem Usable.poke (usable : vol.Usable table lastUsed freeCnt fat) {sect : Nat}
    (data : Sector) (apart : ¬vol.IsSystem sect)
    (notLoaded : fat.cache.address ≠ sect) :
    vol.Usable (update table sect data) lastUsed freeCnt
      (fat.setCache (fat.cache.poke sect data)) := by
  have view : (fat.cache.poke sect data).view = update table sect data := by
    rw [WriteBack.poke_view, usable.serves.view]
    exact fun loaded => notLoaded loaded.2.symm
  refine ⟨⟨usable.serves.quiet, view, ?_, usable.serves.lastUsed,
    usable.serves.freeCnt⟩, ?_, usable.positive, usable.known⟩
  · intro nonzero
    have current := usable.serves.current nonzero
    unfold WriteBack.Current at current ⊢
    rw [Fat.setCache_cache, view]
    change fat.cache.block = update table sect data fat.cache.address
    rw [update_of_ne notLoaded, current, usable.serves.view]
  · intro clust two_le inside
    rw [link_update data apart inside]
    exact usable.valid clust two_le inside

end Volume

/-- All bytes of a write can be taken: the offset behind them is small enough,
and the links to it can be followed. -/
def Volume.Accepts (vol : Volume) (table : Nat → Sector) (lastUsed : Nat)
    (file : File) (len : Nat) : Prop :=
  file.offset + len ≤ 0xffffffff ∧
    vol.Reaches table lastUsed ((file.offset + len) / vol.clustSize -
      file.offset / vol.clustSize) file.clust

section Accepts

variable {vol : Volume} {table table' : Nat → Sector} {lastUsed lastUsed' : Nat}
  {file file' : File} {cnt len : Nat}

private theorem links_add (file : File) (le : cnt ≤ len) :
    (file.offset + len) / vol.clustSize - file.offset / vol.clustSize =
      (file.offset + cnt) / vol.clustSize - file.offset / vol.clustSize +
        ((file.offset + len) / vol.clustSize - (file.offset + cnt) / vol.clustSize) := by
  have starts : file.offset / vol.clustSize ≤ (file.offset + cnt) / vol.clustSize :=
    Nat.div_le_div_right (Nat.le_add_right _ _)
  have grows : (file.offset + cnt) / vol.clustSize ≤ (file.offset + len) / vol.clustSize :=
    Nat.div_le_div_right (Nat.add_le_add_left le _)
  omega

theorem Volume.Accepts.reaches (accepts : vol.Accepts table lastUsed file len) (le : cnt ≤ len) :
    vol.Reaches table lastUsed ((file.offset + cnt) / vol.clustSize -
      file.offset / vol.clustSize) file.clust := by
  have reaches := accepts.2
  rw [links_add file le] at reaches
  exact reaches_of_add reaches

/-- After some of the bytes, the others are accepted if all bytes were. -/
theorem Volume.accepts_rest (le : cnt ≤ len) (offset : file'.offset = file.offset + cnt)
    (more : ∀ more, vol.Reaches table' lastUsed' more file'.clust ↔
      vol.Reaches table lastUsed ((file.offset + cnt) / vol.clustSize -
        file.offset / vol.clustSize + more) file.clust) :
    vol.Accepts table' lastUsed' file' (len - cnt) ↔ vol.Accepts table lastUsed file len := by
  have ends : file'.offset + (len - cnt) = file.offset + len := by
    omega
  unfold Accepts
  rw [ends, more, offset, links_add file le]

end Accepts

/-! ## One seek of a write -/

/-- A handle in its cluster, on a volume whose buffer holds no sector of that
cluster. -/
structure Writer (vol : Volume) (table : Nat → Sector) (lastUsed freeCnt : Nat)
    (fat : Fat) (file : File) : Prop where
  usable : vol.Usable table lastUsed freeCnt fat
  isClust : vol.IsClust file.clust
  small : file.offset ≤ 0xffffffff
  sect : file.sect = vol.offSect file.clust file.offset
  apart : ∀ off, fat.cache.address ≠ vol.offSect file.clust off

variable {fat : Fat}

variable {vol : Volume}

theorem Writer.accepts_nil {table : Nat → Sector} {lastUsed freeCnt : Nat} {file : File}
    (writer : Writer vol table lastUsed freeCnt fat file) :
    vol.Accepts table lastUsed file 0 := by
  refine ⟨writer.small, ?_⟩
  rw [Nat.add_zero, Nat.sub_self]
  trivial

/-- What the loop of a write leaves behind: all bytes if they are accepted, and
an offset before their end if not. -/
def Written (accepts : Prop) (file : File) (len bytes : Nat)
    (after : Fat × File) : Prop :=
  after.2.size = file.size ∧
    ((accepts ∧ bytes = len ∧ after.2.offset = file.offset + len) ∨
      (¬accepts ∧ after.2.offset < file.offset + len))

section Writer

variable {table : Nat → Sector} {lastUsed freeCnt : Nat} {file : File} (laidOut : vol.LaidOut) (dataApart : vol.DataApart)
include laidOut dataApart

/-- The seek behind some bytes succeeds if the links to their end can be
followed, and what can be reached from there could be reached before. -/
theorem Writer.seek (writer : Writer vol table lastUsed freeCnt fat file)
    {cnt : Nat} (small : file.offset + cnt ≤ 0xffffffff) :
    Meets (vol.fatFileSeek cnt .curr) (fat, file)
      (¬vol.Reaches table lastUsed ((file.offset + cnt) / vol.clustSize -
        file.offset / vol.clustSize) file.clust)
      (fun _ after => after.2.offset = file.offset + cnt ∧ after.2.size = file.size ∧
        ∃ table' lastUsed' freeCnt', Writer vol table' lastUsed' freeCnt' after.1 after.2 ∧
          ∀ more, vol.Reaches table' lastUsed' more after.2.clust ↔
            vol.Reaches table lastUsed ((file.offset + cnt) / vol.clustSize -
              file.offset / vol.clustSize + more) file.clust)
      (fun _ after => after.2.offset = file.offset ∧ after.2.size = file.size ∧
        ¬vol.Reaches table lastUsed ((file.offset + cnt) / vol.clustSize -
          file.offset / vol.clustSize) file.clust) := by
  have isOff : (seekBase file .curr : Int) + (cnt : Int) =
      (file.offset + cnt : Nat) := (Int.natCast_add _ _).symm
  have forwards : ¬(file.offset + cnt) / vol.clustSize < file.offset / vol.clustSize :=
    not_lt.mpr (Nat.div_le_div_right (Nat.le_add_right _ _))
  rw [vol.meets_fatFileSeek isOff small, seekLinks, seekStart, if_neg forwards, if_neg forwards]
  apply (laidOut.followLoop _ writer.usable writer.isClust).imp
  · exact fun endless => endless.1
  · rintro _ ⟨moved, current⟩ ⟨table', lastUsed', freeCnt', clust, usableMoved,
      isCurrent, moves, address⟩
    subst isCurrent
    rw [vol.meets_finishSeek usableMoved.serves.quiet]
    refine ⟨rfl, rfl, ?_⟩
    -- The buffer of the volume holds neither the old nor the new sector.
    have notLoaded : ∀ off, moved.cache.address ≠ vol.offSect file.clust off ∧
        moved.cache.address ≠ vol.offSect clust off := by
      intro off
      split at address
      · rename_i none
        have stays : clust = file.clust := by
          have chain := moves.chain
          rw [none] at chain
          exact (Option.some.inj chain).symm
        change moved = fat at address
        rw [address, stays]
        exact ⟨writer.apart off, writer.apart off⟩
      · constructor
        · intro same
          apply dataApart file.clust writer.isClust off
          rw [← same]
          exact address
        · intro same
          apply dataApart clust moves.isClust off
          rw [← same]
          exact address
    unfold switchedFat
    split
    · have apart := dataApart file.clust writer.isClust file.offset
      rw [← writer.sect] at apart
      refine ⟨_, lastUsed', freeCnt', ⟨usableMoved.poke _ apart ?_,
        moves.isClust, small, rfl, fun off => (notLoaded off).2⟩, ?_⟩
      · rw [writer.sect]
        exact (notLoaded _).1
      · intro more
        exact (laidOut.reaches_congr (fun other inside => link_update _ apart inside) more
          moves.isClust).trans (moves.more more)
    · exact ⟨table', lastUsed', freeCnt', ⟨usableMoved, moves.isClust, small, rfl,
        fun off => (notLoaded off).2⟩, moves.more⟩
  · rintro error ⟨after, current⟩ ⟨_, _, _, clust, _, isCurrent, stuck⟩
    subst isCurrent
    exact ⟨rfl, rfl, stuck.blocked⟩

/-- The loop of a write: it returns all bytes if all seeks succeed, and stops
before the end of the bytes otherwise. -/
theorem Writer.writeLoop (fuel : Nat) :
    ∀ {src : List UInt8} {table : Nat → Sector} {lastUsed freeCnt : Nat}
      {fat : Fat} {file : File}, src.length ≤ fuel →
      Writer vol table lastUsed freeCnt fat file →
      Meets (vol.writeLoop fuel src) (fat, file) (¬vol.Accepts table lastUsed file src.length)
        (Written (vol.Accepts table lastUsed file src.length) file src.length)
        (fun _ _ => False) := by
  induction fuel with
  | zero =>
    intro src table lastUsed freeCnt fat file enough writer
    obtain rfl : src = [] := eq_nil_of_length_eq_zero (Nat.le_zero.mp enough)
    exact ⟨rfl, .inl ⟨writer.accepts_nil, rfl, rfl⟩⟩
  | succ fuel induction =>
    intro src table lastUsed freeCnt fat file enough writer
    cases src with
    | nil => exact ⟨rfl, .inl ⟨writer.accepts_nil, rfl, rfl⟩⟩
    | cons byte src =>
      rw [Volume.writeLoop, meets_bind, getFile, meets_bind, meets_get,
        meets_pure, meets_bind, modifyFile, meets_modify, meets_bind,
        meets_outcome]
      · set cnt := min (byte :: src).length (512 - file.offset % 512) with isCnt
        have length : (byte :: src).length = src.length + 1 := rfl
        have le : cnt ≤ (byte :: src).length := Nat.min_le_left _ _
        have stored : Writer vol table lastUsed freeCnt fat
            (storedFile file ((byte :: src).take cnt)) :=
          ⟨writer.usable, writer.isClust, writer.small, writer.sect, writer.apart⟩
        by_cases small : file.offset + cnt ≤ 0xffffffff
        · apply (Writer.seek laidOut dataApart stored small).imp
          · exact fun blocked accepts => blocked (accepts.reaches le)
          · rintro _ ⟨after, moved⟩ ⟨offset, size, table', lastUsed', freeCnt', writerAfter, more⟩
            have same := accepts_rest le offset more
            have rest : ((byte :: src).drop cnt).length = (byte :: src).length - cnt := length_drop
            have onward := induction (show ((byte :: src).drop cnt).length ≤
              fuel by omega) writerAfter
            rw [rest, propext same] at onward
            apply onward.bind
            rintro bytes final ⟨finalSize, outcome⟩
            refine ⟨finalSize.trans size, ?_⟩
            change moved.offset = file.offset + cnt at offset
            rcases outcome with ⟨accepts, rfl, finalOffset⟩ | ⟨refuses, finalOffset⟩
            · change final.2.offset = moved.offset + _ at finalOffset
              exact .inl ⟨accepts, by omega, by omega⟩
            · change final.2.offset < moved.offset + _ at finalOffset
              exact .inr ⟨refuses, by omega⟩
          · rintro error ⟨after, moved⟩ ⟨offset, size, blocked⟩
            change moved.offset = file.offset at offset
            refine ⟨size, .inr ⟨?_, ?_⟩⟩
            · exact fun accepts => blocked (accepts.reaches le)
            · change moved.offset < _
              omega
        · rw [ReadsTable.fatFileSeek_range]
          · refine ⟨rfl, .inr ⟨?_, ?_⟩⟩
            · rintro ⟨inRange, _⟩
              omega
            · change file.offset < _
              omega
          · right
            change (0xffffffff : Int) < (file.offset : Int) + (cnt : Int)
            omega
      · exact cons_ne_nil byte src

theorem Writer.fatFileWrite (writer : Writer vol table lastUsed freeCnt fat file)
    (writable : file.flags.write = true) (src : List UInt8) :
    Meets (vol.fatFileWrite src) (fat, file) (¬vol.Accepts table lastUsed file src.length)
      (fun bytes after => after.2.size = max file.size after.2.offset ∧
        ((vol.Accepts table lastUsed file src.length ∧ bytes = src.length ∧
          after.2.offset = file.offset + src.length) ∨
        (¬vol.Accepts table lastUsed file src.length ∧ after.2.offset < file.offset + src.length)))
      (fun _ _ => False) := by
  have marked : Writer vol table lastUsed freeCnt fat
      { file with
        flags := { file.flags with modified := true, accessed := true } } :=
    ⟨writer.usable, writer.isClust, writer.small, writer.sect, writer.apart⟩
  rw [Volume.fatFileWrite, meets_bind, getFile, meets_bind, meets_get,
    meets_pure, writable, if_neg (by decide), meets_bind, modifyFile,
    meets_modify]
  apply (Writer.writeLoop laidOut dataApart src.length le_rfl marked).bind
  rintro bytes ⟨after, moved⟩ ⟨size, outcome⟩
  refine ⟨?_, outcome⟩
  change max moved.size moved.offset = max file.size moved.offset
  rw [size]

end Writer

/-- A write that returns without an error has taken all bytes, and one that
returns an error has taken a part of them; and `fat32_write` tells which. -/
def WriteHonest (vol : Volume) (fat : Fat) (file : File) (src : List UInt8) :
    Prop :=
  Meets (vol.fatFileWrite src) (fat, file) False
    (fun bytes after => bytes = src.length ∧ after.2.offset = file.offset + src.length ∧
      after.2.size = max file.size after.2.offset)
    (fun _ after => ∃ stored < src.length, after.2.offset = file.offset + stored ∧
      after.2.size = max file.size after.2.offset) ∧
  ∀ idata filep, filep.toFilePrivate = keptFile file →
    ∃ after kept answer,
      vol.fat32Write fat idata filep src = some (after, kept, answer) ∧
        (answer = -1 ↔ kept.fPos ≠ file.offset + src.length)

/-- The report of a write is right exactly if all its bytes can be taken. -/
theorem write_honest_iff {vol : Volume} {fat : Fat} {file : File}
    (laidOut : vol.LaidOut) (dataApart : vol.DataApart)
    (usable : vol.Usable fat.cache.view fat.lastUsed fat.freeCnt fat)
    (coherent : Coherent vol fat file)
    (apart : ∀ off, fat.cache.address ≠ vol.offSect file.clust off)
    (writable : file.flags.write = true) (src : List UInt8) :
    WriteHonest vol fat file src ↔ vol.Accepts fat.cache.view fat.lastUsed file src.length := by
  have writer : Writer vol fat.cache.view fat.lastUsed fat.freeCnt fat file :=
    ⟨usable, coherent.isClust, coherent.small, coherent.sect, apart⟩
  have outcome := Writer.fatFileWrite laidOut dataApart writer writable src
  constructor
  · intro honest
    by_contra refuses
    apply honest.1.clash (outcome.imp (fun _ => trivial)
      (fun _ _ returned => returned) (fun _ _ failed => failed))
    · rintro bytes after ⟨_, offset, _⟩ ⟨_, accepted | stopped⟩
      · exact refuses accepted.1
      · omega
    · exact fun _ _ _ failed => failed
  · intro accepts
    have returns : Meets (vol.fatFileWrite src) (fat, file) False
        (fun bytes after => bytes = src.length ∧ after.2.offset = file.offset + src.length ∧
          after.2.size = max file.size after.2.offset)
        (fun _ _ => False) := by
      apply outcome.imp
      · exact fun refuses => refuses accepts
      · rintro bytes after ⟨size, ⟨_, all, offset⟩ | ⟨refuses, _⟩⟩
        · exact ⟨all, offset, size⟩
        · exact absurd accepts refuses
      · exact fun _ _ failed => failed
    obtain ⟨bytes, after, returned, all, offset, size⟩ := returns.exists_returned
    constructor
    · rw [Meets, returned]
      exact ⟨all, offset, size⟩
    · rintro idata ⟨filep, handle, mode, console⟩ rfl
      by_cases empty : src = []
      · rw [empty]
        exact ⟨fat, keptFile file, 0, rfl, by simp [keptFile]⟩
      · refine ⟨after.1, keptFile after.2, 0, ?_, ?_⟩
        · change (if src = [] then _ else _) = _
          rw [if_neg empty, returned]
          rfl
        · simp [keptFile, offset]

/-! ## The tiny file -/

theorem IsTiny.offSect (tiny : IsTiny vol fat)
    (shape : vol.clustShift = 0 ∧ vol.clustMsk = 0 ∧ vol.dataSect = 34)
    {clust : Nat} (isClust : vol.IsClust clust) (off : Nat) :
    vol.offSect clust off = clust + 32 := by
  obtain ⟨shift, mask, data⟩ := shape
  obtain ⟨two_le, inside⟩ := isClust
  have count := tiny.1.1
  unfold Volume.offSect Volume.clustToSect
  rw [shift, mask, data, Nat.and_zero]
  omega

theorem IsTiny.dataApart (tiny : IsTiny vol fat)
    (shape : vol.clustShift = 0 ∧ vol.clustMsk = 0 ∧ vol.dataSect = 34) :
    vol.DataApart := by
  obtain ⟨⟨count, table, mirror, info⟩, _⟩ := id tiny
  intro clust isClust off
  rw [tiny.offSect shape isClust]
  have two_le := isClust.1
  rintro (⟨other, inside, isTable | ⟨mirrored, _⟩⟩ | isInfo)
  · unfold itemSect at isTable
    omega
  · exact mirrored mirror
  · omega

/-- Three bytes fit into the cluster of the tiny file. -/
theorem write_honest_tiny : ∃ vol fat, fatMount 0 rootName (newFat (tinyDisk fullTable 2) zero) =
        some (.ok vol, fat) ∧ WriteHonest vol fat tinyFile [1, 2, 3] := by
  have evaluated : Mounts (tinyDisk fullTable 2) fun vol fat =>
      IsTiny vol fat ∧ fat.lastUsed = 2 ∧
      (vol.offSect 3 0 = 35 ∧ fat.cache.view 35 = zero) ∧
      (vol.clustShift = 0 ∧ vol.clustMsk = 0 ∧ vol.dataSect = 34) := by
    decide +kernel
  obtain ⟨vol, fat, mounted, tiny, hint, shown, shape⟩ := evaluated.exists_returned
  have usable : vol.Usable fat.cache.view fat.lastUsed fat.freeCnt fat :=
    ⟨tiny.serves, tiny.validEntries, by omega, by omega⟩
  have coherent := coherent_tiny tiny shown
  have apart : ∀ off, fat.cache.address ≠ vol.offSect tinyFile.clust off := by
    intro off
    rw [tiny.offSect shape coherent.isClust, tiny.2.1.2]
    exact nofun
  refine ⟨vol, fat, mounted, ?_⟩
  rw [write_honest_iff tiny.laidOut (tiny.dataApart shape) usable coherent apart rfl]
  refine ⟨by decide, ?_⟩
  have stays : (0 + 3) / vol.clustSize - 0 / vol.clustSize = 0 := by
    unfold clustSize
    rw [shape.1]
    rfl
  change vol.Reaches _ _ ((0 + 3) / vol.clustSize - 0 / vol.clustSize) _
  rw [stays]
  trivial

/-- The tiny file is filled on a full volume: no error is returned, and the
offset has not moved. -/
theorem write_error_lost : ∃ vol fat src,
      fatMount 0 rootName (newFat (tinyDisk fullTable 2) zero) = some (.ok vol, fat) ∧
      Coherent vol fat tinyFile ∧ tinyFile.flags.write = true ∧
      (∃ after, vol.fatFileWrite src (fat, tinyFile) =
        some (.ok src.length, after) ∧ after.2.offset = 0) ∧
      ¬WriteHonest vol fat tinyFile src := by
  have evaluated : Mounts (tinyDisk fullTable 2) fun vol fat =>
      IsTiny vol fat ∧ (vol.offSect 3 0 = 35 ∧ fat.cache.view 35 = zero) ∧
      ∃ src ∈ [List.replicate 512 1], src ≠ [] ∧
        Meets (vol.fatFileWrite src) (fat, tinyFile) False
          (fun bytes after => bytes = src.length ∧ after.2.offset = 0)
          (fun _ _ => False) := by
    decide +kernel
  obtain ⟨vol, fat, mounted, tiny, shown, src, _, nonempty, stops⟩ := evaluated.exists_returned
  obtain ⟨_, after, returned, rfl, offset⟩ := stops.exists_returned
  refine ⟨vol, fat, src, mounted, coherent_tiny tiny shown, rfl,
    ⟨after, returned, offset⟩, fun honest => ?_⟩
  obtain ⟨_, moved, _⟩ := honest.1.of_returned returned
  rw [offset] at moved
  have empty : src.length = 0 := by
    omega
  exact nonempty (eq_nil_of_length_eq_zero empty)

end SeekOs.Fat32
