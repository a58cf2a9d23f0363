import SeekOs.Fat32.Seeking

/-!
# Handles that only read

A read ends with a seek to the position behind the last byte, and the seek takes
a cluster if the chain has none for that position.  So a file whose size is that
of its clusters grows when it is read to its end.
-/

namespace SeekOs.Fat32

open SeekOs.Lib SeekOs.Lib.Action List Volume ByteBlock

/-- A call on a handle that is not written: `fat_file_read`, or `fat_file_seek`
with the offset that leads to a position. -/
inductive ReadOp where
  | read (len : Nat)
  | seek (target : Nat) (whence : Seek)

namespace ReadOp

/-- Seeks stay in the file. -/
def InRange (size : Nat) : ReadOp → Prop
  | .read _ => True
  | .seek target _ => target ≤ size

/-- The call returns its error, if there is one. -/
def perform (vol : Volume) : ReadOp → FileM (Option FatErr)
  | .read len => do
      match ← (vol.fatFileRead len).outcome with
      | .error err => pure (some err)
      | .ok (_, err) => pure err
  | .seek target whence => do
      let file ← getFile
      let offset : Int := target - Volume.seekBase file whence
      match ← (vol.fatFileSeek offset whence).outcome with
      | .error err => pure (some err)
      | .ok () => pure none

end ReadOp

def readRun (vol : Volume) : List ReadOp → FileM (List (Option FatErr))
  | [] => pure []
  | op :: ops => do
      let answer ← op.perform vol
      let answers ← readRun vol ops
      pure (answer :: answers)

/-- The table and the counters of a volume are those of another. -/
structure SameTable (vol : Volume) (fat after : Fat) : Prop where
  links : ∀ clust < vol.clustCnt, vol.link after.cache.view clust = vol.link fat.cache.view clust
  freeCnt : after.freeCnt = fat.freeCnt
  lastUsed : after.lastUsed = fat.lastUsed

/-- Whatever is called within the file, the calls return, nothing is allocated
and no call reports a full volume. -/
def ReadsOnly (vol : Volume) (fat : Fat) (file : File) : Prop :=
  ∀ ops : List ReadOp, (∀ op ∈ ops, op.InRange file.size) →
    Meets (readRun vol ops) (fat, file) False
      (fun answers after => SameTable vol fat after.1 ∧ some FatErr.full ∉ answers)
      (fun _ _ => False)

/-- Every cluster of the chain has a link or ends it. -/
def ProperChain (vol : Volume) (table : Nat → Sector) (sclust : Nat) : Prop :=
  ∀ count clust, vol.follow table count sclust = some clust →
    vol.clustFlags (vol.link table clust) = some .used ∨
      vol.clustFlags (vol.link table clust) = some .last

/-! ## Inside the chain -/

variable {table : Nat → Sector}

variable {vol : Volume}

theorem Serves.readsTable {lastUsed freeCnt : Nat} (laidOut : vol.LaidOut) :
    ReadsTable vol table (Serves table lastUsed freeCnt) where
  quiet _ serves := serves.quiet
  load fat sect serves := by
    refine ⟨serves.quiet, ?_, ?_, serves.lastUsed, serves.freeCnt⟩
    · exact (fat.cache.load_view sect).trans serves.view
    · intro nonzero
      change (fat.cache.load sect).address ≠ 0 at nonzero
      rw [WriteBack.load_address] at nonzero
      apply WriteBack.load_current
      rintro rfl
      exact serves.current nonzero
  gBuf _ _ serves := ⟨serves.quiet, serves.view, serves.current, serves.lastUsed, serves.freeCnt⟩
  entry _ serves clust inside := serves.block (laidOut.fatNonzero clust inside)

/-- A handle of the same file as before, in its chain, with nothing to write. -/
structure Reader (vol : Volume) (table : Nat → Sector) (file current : File) :
    Prop where
  size : current.size = file.size
  sclust : current.sclust = file.sclust
  clean : current.flags.fileDirty = false
  chain : vol.follow table (current.offset / vol.clustSize) file.sclust = some current.clust

section Reader

variable {lastUsed freeCnt : Nat}
  {fat : Fat} {file current : File} (laidOut : vol.LaidOut) {last : Nat}
  (small : file.size ≤ 0xffffffff)
  (covered : vol.follow table (file.size / vol.clustSize) file.sclust = some last) {off : Nat}

theorem Reader.clustFor (reader : Reader vol table file current)
    (covered : vol.follow table (file.size / vol.clustSize) file.sclust =
      some last) (inside : off ≤ file.size) :
    ∃ clust, vol.clustFor table current off = some clust ∧
      vol.follow table (off / vol.clustSize) file.sclust = some clust := by
  obtain ⟨clust, found, _⟩ := vol.follow_of_le covered (Nat.div_le_div_right inside)
  refine ⟨clust, ?_, found⟩
  unfold Volume.clustFor
  split
  · rw [reader.sclust]
    exact found
  · rename_i forwards
    obtain ⟨middle, isMiddle, rest⟩ := vol.follow_of_le found (Nat.le_of_not_lt forwards)
    rw [reader.chain] at isMiddle
    cases isMiddle
    exact rest

include laidOut small covered

theorem Reader.fatFileSeek (reader : Reader vol table file current)
    (serves : Serves table lastUsed freeCnt fat) {offset : Int} {seek : Seek}
    (isOff : seekBase current seek + offset = off)
    (inside : off ≤ file.size) :
    Meets (vol.fatFileSeek offset seek) (fat, current) False
      (fun _ after => Serves table lastUsed freeCnt after.1 ∧
        Reader vol table file after.2 ∧ after.2.offset = off)
      (fun _ _ => False) := by
  obtain ⟨clust, found, isClust⟩ := reader.clustFor covered inside
  apply ((Serves.readsTable laidOut).fatFileSeek serves isOff (inside.trans small) found).mono
  rintro _ ⟨after, moved⟩ ⟨loaded, servesLoaded, isAfter, isMoved⟩
  have stays : ¬((vol.placedFile current clust off).sect ≠ current.sect ∧
      (vol.placedFile current clust off).flags.fileDirty = true) := by
    rintro ⟨_, dirty⟩
    have clean : current.flags.fileDirty = true := dirty
    rw [reader.clean] at clean
    cases clean
  rw [switchedFat, if_neg stays] at isAfter
  change moved = switchedFile after.disk _ _ at isMoved
  subst isAfter isMoved
  refine ⟨servesLoaded, ⟨reader.size, reader.sclust, ?_, isClust⟩, rfl⟩
  change (current.flags.fileDirty && _) = false
  rw [reader.clean, Bool.false_and]

theorem Reader.readLoop (fuel : Nat) : ∀ {len : Nat} {fat : Fat} {current : File}, len ≤ fuel →
      Reader vol table file current → Serves table lastUsed freeCnt fat →
      Meets (vol.readLoop fuel len) (fat, current) False
        (fun result after => Serves table lastUsed freeCnt after.1 ∧
          Reader vol table file after.2 ∧ result.2 = none)
        (fun _ _ => False) := by
  induction fuel with
  | zero =>
    intro len fat current enough reader serves
    obtain rfl : len = 0 := Nat.le_zero.mp enough
    exact ⟨serves, reader, rfl⟩
  | succ fuel induction =>
    intro len fat current enough reader serves
    cases len with
    | zero => exact ⟨serves, reader, rfl⟩
    | succ len =>
      rw [Volume.readLoop, meets_bind, getFile, meets_bind, meets_get, meets_pure]
      · by_cases before : current.offset < current.size
        · rw [if_pos (by exact before), meets_bind, meets_outcome]
          set cnt := min (len + 1) (min (512 - current.offset % 512)
            (current.size - current.offset)) with isCnt
          have inside : current.offset + cnt ≤ file.size := by
            have same := reader.size
            omega
          have rest : len + 1 - cnt ≤ fuel := by
            omega
          apply (Reader.fatFileSeek laidOut small covered reader serves
            (show (seekBase current .curr : Int) + _ = _ from
              (Int.natCast_add _ _).symm) inside).returning
          rintro _ ⟨after, moved⟩ ⟨servesAfter, readerAfter, _⟩
          apply (induction rest readerAfter servesAfter).bind
          rintro ⟨bytes, err⟩ final ⟨servesFinal, readerFinal, isNone⟩
          exact ⟨servesFinal, readerFinal, isNone⟩
        · rw [if_neg (by exact before)]
          exact ⟨serves, reader, rfl⟩
      · exact Nat.succ_ne_zero len

theorem Reader.perform (reader : Reader vol table file current)
    (serves : Serves table lastUsed freeCnt fat) {op : ReadOp}
    (inRange : op.InRange file.size) :
    Meets (op.perform vol) (fat, current) False
      (fun answer after => Serves table lastUsed freeCnt after.1 ∧
        Reader vol table file after.2 ∧ answer ≠ some .full)
      (fun _ _ => False) := by
  cases op with
  | read len =>
    rw [ReadOp.perform, meets_bind, meets_outcome, fatFileRead,
      meets_bind, getFile, meets_bind, meets_get, meets_pure]
    cases current.flags.read with
    | false => exact ⟨serves, reader, by simp⟩
    | true =>
      have accessed : Reader vol table file
          { current with flags := { current.flags with accessed := true } } :=
        ⟨reader.size, reader.sclust, reader.clean, reader.chain⟩
      apply (Reader.readLoop laidOut small covered len le_rfl accessed serves).returning
      rintro ⟨bytes, err⟩ after ⟨servesAfter, readerAfter, isNone⟩
      subst isNone
      exact ⟨servesAfter, readerAfter, by simp⟩
  | seek target whence =>
    rw [ReadOp.perform, meets_bind, getFile, meets_bind, meets_get,
      meets_pure, meets_bind, meets_outcome]
    apply (Reader.fatFileSeek laidOut small covered reader serves
      (show (seekBase current whence : Int) + (target - seekBase current whence) = target by omega)
      inRange).returning
    rintro _ after ⟨servesAfter, readerAfter, _⟩
    exact ⟨servesAfter, readerAfter, by simp⟩

theorem Reader.readRun (ops : List ReadOp) :
    ∀ {fat : Fat} {current : File}, Reader vol table file current →
      Serves table lastUsed freeCnt fat →
      (∀ op ∈ ops, op.InRange file.size) →
      Meets (readRun vol ops) (fat, current) False
        (fun answers after => Serves table lastUsed freeCnt after.1 ∧ some FatErr.full ∉ answers)
        (fun _ _ => False) := by
  induction ops with
  | nil =>
    intro fat current _ serves _
    exact ⟨serves, not_mem_nil⟩
  | cons op ops induction =>
    intro fat current reader serves inRange
    apply (Reader.perform laidOut small covered reader serves (inRange op mem_cons_self)).bind
    rintro answer ⟨after, moved⟩ ⟨servesAfter, readerAfter, notFull⟩
    apply (induction readerAfter servesAfter
      fun other member => inRange other (mem_cons_of_mem op member)).bind
    rintro answers final ⟨servesFinal, noneFull⟩
    refine ⟨servesFinal, ?_⟩
    rw [mem_cons, not_or]
    exact ⟨notFull.symm, noneFull⟩

end Reader

/-! ## Behind the chain -/

section Behind

variable {fat : Fat} {file : File} (laidOut : vol.LaidOut)
  (usable : vol.Usable fat.cache.view fat.lastUsed fat.freeCnt fat)
  (coherent : Coherent vol fat file)
  (proper : ProperChain vol fat.cache.view file.sclust)
include laidOut usable coherent proper

/-- A seek to the size of a file whose chain has no cluster for it takes a
cluster, reports a full volume or does not return. -/
theorem seek_behind_chain (clean : file.flags.fileDirty = false)
    (behind : vol.follow fat.cache.view (file.size / vol.clustSize) file.sclust = none)
    (small : file.size ≤ 0xffffffff) :
    Meets (vol.fatFileSeek 0 .fromEnd) (fat, file) True (fun _ after => ¬SameTable vol fat after.1)
      (fun error _ => error = .full) := by
  have forwards : ¬file.size / vol.clustSize < file.offset / vol.clustSize := by
    intro backwards
    obtain ⟨clust, found⟩ := coherent.follow_back backwards
    rw [behind] at found
    cases found
  have split : file.size / vol.clustSize = file.offset / vol.clustSize +
      (file.size / vol.clustSize - file.offset / vol.clustSize) := by
    omega
  have missing : vol.follow fat.cache.view
      (file.size / vol.clustSize - file.offset / vol.clustSize) file.clust =
        none := by
    rw [split, vol.follow_add, coherent.chain] at behind
    exact behind
  have isOff : (seekBase file .fromEnd : Int) + 0 = file.size := Int.add_zero _
  rw [vol.meets_fatFileSeek isOff small, seekLinks, seekStart, if_neg forwards, if_neg forwards]
  apply (laidOut.followLoop _ usable coherent.isClust).imp
  · exact fun _ => trivial
  · rintro _ ⟨moved, current⟩ ⟨table', _, _, clust, usableMoved, isCurrent, moves, _⟩
    subst isCurrent
    rw [vol.meets_finishSeek usableMoved.serves.quiet]
    intro same
    apply moves.takes missing
    have stays : ¬((vol.placedFile { file with clust := clust } clust
        file.size).sect ≠ file.sect ∧ file.flags.fileDirty = true) := by
      rintro ⟨_, dirty⟩
      rw [clean] at dirty
      cases dirty
    have links := same.links
    change ∀ other < vol.clustCnt, vol.link (switchedFat moved
      (vol.placedFile { file with clust := clust } clust file.size)
      file.sect).cache.view other = _ at links
    rw [switchedFat, if_neg (by exact stays), usableMoved.serves.view] at links
    ext other
    rw [mem_freeClusts, mem_freeClusts]
    constructor
    · rintro ⟨isClust, free⟩
      exact ⟨isClust, (links other isClust.2).symm.trans free⟩
    · rintro ⟨isClust, free⟩
      exact ⟨isClust, (links other isClust.2).trans free⟩
  · rintro error _ ⟨_, _, _, _, _, _, stuck⟩
    rcases stuck.reason with full | ⟨place, other, found, notUsed, notLast⟩
    · exact full
    · have there : vol.follow fat.cache.view
          (file.offset / vol.clustSize + place) file.sclust = some other := by
        rw [vol.follow_add, coherent.chain]
        exact found
      exact ((proper _ _ there).elim notUsed notLast).elim

/-- Reading a file allocates nothing exactly if the chain of the file has a
cluster for the position behind its last byte. -/
theorem reading_allocates_nothing_iff (clean : file.flags.fileDirty = false)
    (small : file.size ≤ 0xffffffff) :
    ReadsOnly vol fat file ↔
      ∃ last, vol.follow fat.cache.view (file.size / vol.clustSize) file.sclust = some last := by
  constructor
  · intro readsOnly
    by_contra behind
    have missing : vol.follow fat.cache.view (file.size / vol.clustSize) file.sclust = none := by
      rw [Option.eq_none_iff_forall_ne_some]
      exact fun last found => behind ⟨last, found⟩
    have run := readsOnly [.seek file.size .fromEnd] (by
      intro op member
      rw [mem_singleton] at member
      subst member
      exact le_rfl)
    have isZero : (file.size : Int) - seekBase file .fromEnd = 0 := Int.sub_self _
    rw [readRun, meets_bind, ReadOp.perform, meets_bind, getFile, meets_bind,
      meets_get, meets_pure, meets_bind, meets_outcome] at run
    simp only [isZero] at run
    apply run.clash (seek_behind_chain laidOut usable coherent proper clean missing small)
    · rintro _ after ⟨same, _⟩ changed
      exact changed same
    · rintro error after ⟨_, notFull⟩ rfl
      exact notFull mem_cons_self
  · rintro ⟨last, covered⟩ ops inRange
    have reader : Reader vol fat.cache.view file file := ⟨rfl, rfl, clean, coherent.chain⟩
    apply (Reader.readRun laidOut small covered ops reader usable.serves inRange).mono
    rintro answers after ⟨serves, notFull⟩
    refine ⟨⟨?_, serves.freeCnt, serves.lastUsed⟩, notFull⟩
    intro clust _
    rw [serves.view]

end Behind

/-! ## The tiny file -/

theorem properChain_of_last {sclust : Nat}
    (last : vol.clustFlags (vol.link table sclust) = some .last) :
    ProperChain vol table sclust := by
  intro count clust found
  cases count with
  | zero =>
    cases found
    exact .inr last
  | succ count =>
    rw [follow_last last] at found
    cases found

/-- The tiny file, with a size that does not fill its cluster. -/
def shortFile : File :=
  { tinyFile with size := 100 }

/-- A file that ends in the middle of its cluster is read on a full volume. -/
theorem reading_allocates_nothing_tiny : ∃ vol fat,
      fatMount 0 rootName (newFat (tinyDisk fullTable 2) zero) = some (.ok vol, fat) ∧
      ReadsOnly vol fat shortFile := by
  have evaluated : Mounts (tinyDisk fullTable 2) fun vol fat =>
      IsTiny vol fat ∧ fat.lastUsed = 2 ∧
      (vol.offSect 3 0 = 35 ∧ fat.cache.view 35 = zero) ∧
      vol.clustFlags (vol.link fat.cache.view 3) = some .last ∧
      100 / vol.clustSize = 0 := by
    decide +kernel
  obtain ⟨vol, fat, mounted, tiny, hint, shown, last, inside⟩ := evaluated.exists_returned
  have usable : vol.Usable fat.cache.view fat.lastUsed fat.freeCnt fat :=
    ⟨tiny.serves, tiny.validEntries, by omega, by omega⟩
  obtain ⟨start, small, chain, sect, buf⟩ := coherent_tiny tiny shown
  have coherent : Coherent vol fat shortFile := ⟨start, small, chain, sect, buf⟩
  refine ⟨vol, fat, mounted, ?_⟩
  rw [reading_allocates_nothing_iff tiny.laidOut usable coherent
    (properChain_of_last last) rfl (by decide)]
  refine ⟨3, ?_⟩
  change vol.follow fat.cache.view (100 / vol.clustSize) 3 = some 3
  rw [inside]
  rfl

/-- The tiny file fills its cluster: reading it takes another cluster, or reports
a full volume. -/
theorem reading_allocates : (∃ vol fat,
      fatMount 0 rootName (newFat (tinyDisk (fullTable.putWord32 20 0) 2) zero) =
        some (.ok vol, fat) ∧
      Coherent vol fat tinyFile ∧
      ProperChain vol fat.cache.view tinyFile.sclust ∧
      ¬ReadsOnly vol fat tinyFile) ∧
    ∃ vol fat,
      fatMount 0 rootName (newFat (tinyDisk fullTable 2) zero) = some (.ok vol, fat) ∧
      Coherent vol fat tinyFile ∧
      ProperChain vol fat.cache.view tinyFile.sclust ∧
      ¬ReadsOnly vol fat tinyFile := by
  have spoilt : ∀ {disk : Nat → Sector},
      (Mounts disk fun vol fat =>
        IsTiny vol fat ∧
        (vol.offSect 3 0 = 35 ∧ fat.cache.view 35 = zero) ∧
        vol.clustFlags (vol.link fat.cache.view 3) = some .last ∧
        ∃ len ∈ [512], Meets (readRun vol [.read len]) (fat, tinyFile) False
          (fun answers after => after.1.freeCnt ≠ fat.freeCnt ∨ some .full ∈ answers)
          (fun _ _ => False)) →
      ∃ vol fat, fatMount 0 rootName (newFat disk zero) = some (.ok vol, fat) ∧
        Coherent vol fat tinyFile ∧
        ProperChain vol fat.cache.view tinyFile.sclust ∧
        ¬ReadsOnly vol fat tinyFile := by
    intro disk evaluated
    obtain ⟨vol, fat, mounted, tiny, shown, last, len, _, spoils⟩ := evaluated.exists_returned
    refine ⟨vol, fat, mounted, coherent_tiny tiny shown,
      properChain_of_last last, fun readsOnly => ?_⟩
    have run := readsOnly [.read len] (by
      intro op member
      rw [mem_singleton] at member
      subst member
      trivial)
    apply run.clash (spoils.imp False.elim (fun _ _ changed => changed) (fun _ _ failed => failed))
    · rintro answers after ⟨same, noneFull⟩ (changed | full)
      · exact changed same.freeCnt
      · exact noneFull full
    · exact fun _ _ failed => failed.elim
  constructor
  · apply spoilt
    decide +kernel
  · apply spoilt
    decide +kernel

end SeekOs.Fat32
