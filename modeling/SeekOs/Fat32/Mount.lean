import SeekOs.Fat32.TableSteps

/-!
# Mounting a volume

`fat_mount` of `fat32.c`: the boot sector of a partition is checked and gives the
geometry of the volume.  The record of the volume comes zeroed from
`fat32_mksb`.  The boot sector is read into the static buffer.
-/

namespace SeekOs.Fat32

open SeekOs.Fs SeekOs.Lib SeekOs.Lib.Action

/-- `Bpb`, by the fields that are read. -/
structure Bpb where
  sector : Sector

namespace Bpb

variable (bpb : Bpb)

def jump : UInt8 :=
  bpb.sector.byte 0

def bytesPerSect : Nat :=
  bpb.sector.word16 11

def sectPerClust : Nat :=
  (bpb.sector.byte 13).toNat

def resSectCnt : Nat :=
  bpb.sector.word16 14

def fatCnt : Nat :=
  (bpb.sector.byte 16).toNat

def rootEntCnt : Nat :=
  bpb.sector.word16 17

def sectCnt16 : Nat :=
  bpb.sector.word16 19

def sectPerFat16 : Nat :=
  bpb.sector.word16 22

def sectCnt32 : Nat :=
  bpb.sector.word32 32

def sectPerFat32 : Nat :=
  bpb.sector.word32 36

def extFlags : Nat :=
  bpb.sector.word16 40

def rootCluster : Nat :=
  bpb.sector.word32 44

def infoSect : Nat :=
  bpb.sector.word16 48

def fsType : List UInt8 :=
  bpb.sector.slice 82 8

/-- `ext_flags & EXT_FLAG_MIRROR`: bit 7. -/
def extFlagMirror : Bool :=
  bpb.extFlags.testBit 7

/-- `ext_flags & EXT_FLAG_ACT`: the number of the active table. -/
def extFlagAct : Nat :=
  bpb.extFlags % 2 ^ 4

/-- `ext_flags & EXT_FLAG_SECOND`. -/
def extFlagSecond : Bool :=
  bpb.extFlags.testBit 0

/-- The checks of `check_fat` before it divides. -/
def fieldsOk : Prop :=
  (bpb.jump = 0xeb ∨ bpb.jump = 0xe9) ∧ bpb.fatCnt = 2 ∧
    (bpb.rootEntCnt = 0 ∧ bpb.sectCnt16 = 0 ∧ bpb.sectPerFat16 = 0) ∧
    bpb.infoSect = 1 ∧
    bpb.fsType = [0x46, 0x41, 0x54, 0x33, 0x32, 0x20, 0x20, 0x20] ∧
    bpb.bytesPerSect = 512 ∧
    ¬(bpb.extFlagMirror = false ∧ 1 < bpb.extFlagAct)

instance : Decidable bpb.fieldsOk :=
  inferInstanceAs (Decidable (_ ∧ _))

/-- `sect_cnt` of `check_fat`. -/
def dataSectCnt : Nat :=
  (bpb.sectCnt32 + (2 ^ 32 - (bpb.resSectCnt + bpb.fatCnt * bpb.sectPerFat32) % 2 ^ 32)) % 2 ^ 32

def ctz (value : Nat) : Nat :=
  ((List.range 8).find? value.testBit).getD 8

/-- What `fat_mount` stores of the boot sector at a sector of the disk. -/
def volume (lba : Nat) (name : Text) : Volume :=
  let mirror := bpb.extFlagMirror
  let useFirst := !bpb.extFlagSecond
  let fat0 := (lba + bpb.resSectCnt) % 2 ^ 32
  let fat1 := (lba + bpb.resSectCnt + bpb.sectPerFat32) % 2 ^ 32
  { name := name
    clustShift := ctz bpb.sectPerClust
    clustMsk := bpb.sectPerClust - 1
    clustCnt := bpb.sectPerFat32 * 128 % 2 ^ 32
    infoSect := (lba + bpb.infoSect) % 2 ^ 32
    fatSect := if useFirst then fat0 else fat1
    mirrorSect := if mirror then (if useFirst then fat1 else fat0) else 0
    dataSect := (lba + bpb.resSectCnt + bpb.fatCnt * bpb.sectPerFat32) % 2 ^ 32
    rootClust := bpb.rootCluster }

end Bpb

/-- A division by zero does not return. -/
def checkFat (bpb : Bpb) : FatM Bool :=
  if ¬bpb.fieldsOk then pure false
  else if bpb.sectPerClust = 0 then hang
  else pure (decide (65525 ≤ bpb.dataSectCnt / bpb.sectPerClust))

/-- Partition entries of an `Mbr` have 16 bytes from `MBR_PART_OFF` on. -/
def getPartLba (mbr : Sector) (partition : Fin 4) : Option Nat :=
  if mbr.word16 510 ≠ 0xaa55 then none
  else if mbr.byte (446 + 16 * partition + 4) ≠ 0x0c then none
  else some (mbr.word32 (446 + 16 * partition + 8))

/-- `ops->read(g_buf, sect)`, and what is in the buffer then. -/
def readGBuf (sect : Nat) : FatM Sector := do
  let data ← diskRead sect
  Action.modify fun fat => { fat with gBuf := data }
  pure data

/-- It returns where the volume starts, and its boot sector. -/
def probe (partition : Fin 4) : FatM (Nat × Bpb) := do
  let first ← readGBuf 0
  if ← checkFat ⟨first⟩ then
    if partition = 0 then pure (0, ⟨first⟩) else fail .nofat
  else
    match getPartLba first partition with
    | none => fail .nofat
    | some lba => do
        let boot ← readGBuf lba
        if ← checkFat ⟨boot⟩ then pure (lba, ⟨boot⟩) else fail .nofat

/-- `FsInfo`: its three signatures, and counters that are known. -/
def fsInfoOk (info : Sector) : Prop :=
  info.word32 508 = 0xaa550000 ∧ info.word32 0 = 0x41615252 ∧
    info.word32 484 = 0x61417272 ∧ info.word32 492 ≠ 0xffffffff ∧
    info.word32 488 ≠ 0xffffffff

instance (info : Sector) : Decidable (fsInfoOk info) :=
  inferInstanceAs (Decidable (_ ∧ _))

def fatMount (partition : Fin 4) (name : Text) : FatM Volume := do
  let (lba, bpb) ← probe partition
  let vol := bpb.volume lba name
  let info ← readGBuf vol.infoSect
  if ¬fsInfoOk info then
    fail .nofat
  else
    Action.modify fun fat =>
      { fat with lastUsed := info.word32 492, freeCnt := info.word32 488 }
    if 32 < name.length then
      fail .param
    else
      Action.modify fun fat => fat.setCache { fat.cache with address := 0 }
      pure vol

/-- The record of `fat32_mksb` before it is mounted, on a disk that reports no
failure. -/
def newFat (disk : Nat → Sector) (gBuf : Sector) : Fat where
  cache := ⟨disk, 0, ByteBlock.zero, false⟩
  infoDirty := false
  lastUsed := 0
  freeCnt := 0
  gBuf := gBuf
  faults := []

/-! ## What an accepted volume looks like -/

/-- The boot sector passes `check_fat`. -/
structure Bpb.Accepted (bpb : Bpb) : Prop where
  fields : bpb.fieldsOk
  sectPerClust_pos : bpb.sectPerClust ≠ 0
  clusters : 65525 ≤ bpb.dataSectCnt / bpb.sectPerClust

/-- A volume that was just mounted: `bpb` is its boot sector, which stands at
`lba`. -/
structure Mounted (disk : Nat → Sector) (name : Text) (bpb : Bpb) (lba : Nat)
    (vol : Volume) (fat : Fat) : Prop where
  boot : bpb.sector = disk lba
  accepted : bpb.Accepted
  geometry : vol = bpb.volume lba name
  info : fsInfoOk (disk vol.infoSect)
  cache : fat.cache = ⟨disk, 0, ByteBlock.zero, false⟩
  infoClean : fat.infoDirty = false
  lastUsed : fat.lastUsed = (disk vol.infoSect).word32 492
  freeCnt : fat.freeCnt = (disk vol.infoSect).word32 488
  quiet : fat.Quiet

section Steps

variable {fat : Fat} {hangs : Prop} {fails : FatErr → Fat → Prop}

theorem meets_readGBuf (quiet : fat.Quiet) (sect : Nat) {returns : Sector → Fat → Prop} :
    Meets (readGBuf sect) fat hangs returns fails ↔
      returns (fat.disk sect) { fat with gBuf := fat.disk sect } := by
  rw [readGBuf, meets_bind, meets_diskRead quiet, meets_bind, meets_modify, meets_pure]

theorem checkFat_meets (bpb : Bpb) {returns : Bool → Fat → Prop} (rejects : returns false fat)
    (accepts : bpb.Accepted → returns true fat) :
    Meets (checkFat bpb) fat True returns fails := by
  unfold checkFat
  by_cases fields : bpb.fieldsOk
  · rw [if_neg (not_not.mpr fields)]
    by_cases zero : bpb.sectPerClust = 0
    · rw [if_pos zero]
      trivial
    · rw [if_neg zero, meets_pure]
      by_cases clusters : 65525 ≤ bpb.dataSectCnt / bpb.sectPerClust
      · rw [decide_eq_true clusters]
        exact accepts ⟨fields, zero, clusters⟩
      · rw [decide_eq_false clusters]
        exact rejects
  · rw [if_pos fields]
    exact rejects

/-- `probe` leaves the record alone, apart from the static buffer. -/
theorem probe_meets (partition : Fin 4) (quiet : fat.Quiet) : Meets (probe partition) fat True
      (fun found after => found.2.sector = fat.disk found.1 ∧
        found.2.Accepted ∧ ∃ gBuf, after = { fat with gBuf := gBuf })
      (fun _ _ => True) := by
  rw [probe, meets_bind, meets_readGBuf quiet, meets_bind]
  apply checkFat_meets
  · rw [if_neg Bool.false_ne_true]
    cases getPartLba (fat.disk 0) partition with
    | none => trivial
    | some lba =>
      rw [meets_bind, meets_readGBuf (by exact quiet), meets_bind]
      apply checkFat_meets
      · trivial
      · intro accepted
        exact ⟨rfl, accepted, _, rfl⟩
  · intro accepted
    by_cases first : partition = 0
    · rw [if_pos first]
      exact ⟨rfl, accepted, _, rfl⟩
    · rw [if_neg first]
      trivial

end Steps

variable {vol : Volume}

variable {name : Text}

variable {partition : Fin 4}

theorem fatMount_mounted {disk : Nat → Sector} {gBuf : Sector} {lba : Nat} {bpb : Bpb}
    {probed fat : Fat}
    (found : probe partition (newFat disk gBuf) = some (.ok (lba, bpb), probed))
    (returned : fatMount partition name (newFat disk gBuf) = some (.ok vol, fat)) :
    Mounted disk name bpb lba vol fat := by
  have quiet : (newFat disk gBuf).Quiet := rfl
  obtain ⟨boot, accepted, buffer, isProbed⟩ := (probe_meets partition quiet).of_returned found
  have meets : Meets (fatMount partition name) (newFat disk gBuf) True
      (Mounted disk name bpb lba) (fun _ _ => True) := by
    rw [fatMount, meets_bind, Meets, found, isProbed]
    change Meets (readGBuf _ >>= _) _ _ _ _
    rw [meets_bind, meets_readGBuf (by exact quiet)]
    by_cases info : fsInfoOk (disk (bpb.volume lba name).infoSect)
    · rw [if_neg (by exact not_not.mpr info), meets_bind, meets_modify]
      by_cases long : 32 < name.length
      · rw [if_pos long]
        trivial
      · rw [if_neg long, meets_bind, meets_modify]
        exact ⟨boot, accepted, rfl, info, rfl, rfl, rfl, rfl, rfl⟩
    · rw [if_pos (by exact info)]
      trivial
  exact meets.of_returned returned

theorem exists_probed {start fat : Fat}
    (returned : fatMount partition name start = some (.ok vol, fat)) :
    ∃ lba bpb probed, probe partition start = some (.ok (lba, bpb), probed) := by
  obtain ⟨⟨lba, bpb⟩, probed, found, _⟩ := bind_returned returned
  exact ⟨lba, bpb, probed, found⟩

/-! ## A small volume -/

/-- A boot sector: clusters have one sector, and there are two tables with 512
sectors after 32 reserved ones. -/
def smallBoot (extFlags : Nat) : Sector :=
  let jumped := (ByteBlock.zero.write 0 [0xeb]).putWord16 11 512
  let shaped := ((jumped.write 13 [1]).putWord16 14 32).write 16 [2]
  let sized := (shaped.putWord32 32 66590).putWord32 36 512
  let rooted := ((sized.putWord16 40 extFlags).putWord32 44 2).putWord16 48 1
  rooted.write 82 [0x46, 0x41, 0x54, 0x33, 0x32, 0x20, 0x20, 0x20]

def smallInfo : Sector :=
  let signed := (ByteBlock.zero.putWord32 0 0x41615252).putWord32 484 0x61417272
  ((signed.putWord32 488 65533).putWord32 492 2).putWord32 508 0xaa550000

/-- The first sector of a table: the two reserved entries, and the root as a
chain of one cluster. -/
def smallTable : Sector :=
  let reserved := (ByteBlock.zero.putWord32 0 0x0ffffff8).putWord32 4 0x0fffffff
  reserved.putWord32 8 0x0fffffff

/-- The whole disk is the volume, and its root is empty. -/
def smallDisk (extFlags : Nat) : Nat → Sector
  | 0 => smallBoot extFlags
  | 1 => smallInfo
  | 32 => smallTable
  | 544 => smallTable
  | _ => ByteBlock.zero

/-- A boot sector with two tables of one sector. -/
def tinyBoot : Sector :=
  (smallBoot 0).putWord32 36 1

/-- A volume with the given table and hint. -/
def tinyDisk (table : Sector) (lastUsed : Nat) : Nat → Sector
  | 0 => tinyBoot
  | 1 => smallInfo.putWord32 492 lastUsed
  | 32 => table
  | 33 => table
  | _ => ByteBlock.zero

/-- A table in which every entry ends a chain. -/
def fullTable : Sector :=
  fun index => if index.val % 4 = 3 then 0x0f else 0xff

def rootName : Text :=
  [0x72, 0x6f, 0x6f, 0x74]

/-- The disk is mounted, with a result as stated. -/
abbrev Mounts (disk : Nat → Sector) (mounted : Volume → Fat → Prop) : Prop :=
  Meets (fatMount 0 rootName) (newFat disk ByteBlock.zero) False mounted fun _ _ => False

end SeekOs.Fat32
