import SeekOs.Fat32.Chains
import SeekOs.Fat32.SectorBuffer

/-!
# The entries of the table

The table of a volume as a function from clusters to values, and what `put_fat`
changes in it.  This needs the tables to be laid out apart from each other and
from the sector with the counters.
-/

namespace SeekOs.Fat32

open SeekOs.Lib SeekOs.Lib.Action Function WriteBack

/-! ## Entries of one sector -/

theorem itemVal_putItem (items : Sector) (clust val : Nat) :
    itemVal (putItem (clust % 128) val items) clust = val % 2 ^ 28 := by
  have fits : clust % 128 * 4 + 4 ≤ 512 := by omega
  unfold itemVal putItem
  rw [ByteBlock.word32_putWord32 items _ fits]
  omega

theorem itemVal_putItem_of_ne (items : Sector) {clust other : Nat} (val : Nat)
    (apart : other % 128 ≠ clust % 128) :
    itemVal (putItem (clust % 128) val items) other = itemVal items other := by
  unfold itemVal putItem
  rw [ByteBlock.word32_putWord32_apart items _ (by omega)]

theorem mod_ne_of_itemSect_eq {fatSect clust other : Nat}
    (small : clust < 2 ^ 32) (smallOther : other < 2 ^ 32)
    (same : itemSect fatSect other = itemSect fatSect clust)
    (apart : other ≠ clust) : other % 128 ≠ clust % 128 := by
  unfold itemSect at same
  omega

namespace Volume

variable (vol : Volume)
variable {clust : Nat} {table : Nat → Sector}

/-- The sectors of a disk after `put_fat2`. -/
def putTable2 (table : Nat → Sector) (fatSect clust val : Nat) :
    Nat → Sector :=
  update table (itemSect fatSect clust) (putItem (clust % 128) val (table (itemSect fatSect clust)))

/-- The sectors of a disk after `put_fat`. -/
def putTable (table : Nat → Sector) (clust val : Nat) : Nat → Sector :=
  putTable2
    (if vol.mirrorSect ≠ 0 then putTable2 table vol.mirrorSect clust val
      else table)
    vol.fatSect clust val

/-- The sectors of a disk after `sync_fs` has stored the counters. -/
def putInfo (table : Nat → Sector) (lastUsed freeCnt : Nat) :
    Nat → Sector :=
  update table vol.infoSect (putFsInfo lastUsed freeCnt (table vol.infoSect))

/-- The tables are apart from each other, from the counters and from sector zero,
and every cluster number is a link. -/
structure LaidOut : Prop where
  some_clust : 3 ≤ vol.clustCnt
  few_clust : vol.clustCnt ≤ 0x0ffffff7
  mirrorApart : vol.mirrorSect ≠ 0 → ∀ clust < vol.clustCnt,
    ∀ other < vol.clustCnt, itemSect vol.fatSect other ≠ itemSect vol.mirrorSect clust
  infoApart : ∀ clust < vol.clustCnt, itemSect vol.fatSect clust ≠ vol.infoSect
  fatNonzero : ∀ clust < vol.clustCnt, itemSect vol.fatSect clust ≠ 0
  mirrorNonzero : vol.mirrorSect ≠ 0 → ∀ clust < vol.clustCnt, itemSect vol.mirrorSect clust ≠ 0
  infoNonzero : vol.infoSect ≠ 0

variable {vol} {other : Nat}

theorem link_putTable2 (val : Nat) (small : clust < 2 ^ 32) (smallOther : other < 2 ^ 32) :
    vol.link (putTable2 table vol.fatSect clust val) other =
      if other = clust then val % 2 ^ 28 else vol.link table other := by
  unfold link putTable2
  by_cases same : itemSect vol.fatSect other = itemSect vol.fatSect clust
  · rw [same, update_self]
    split
    · rename_i isClust
      rw [isClust, itemVal_putItem]
    · rename_i apart
      exact itemVal_putItem_of_ne _ _ (mod_ne_of_itemSect_eq small smallOther same apart)
  · rw [update_of_ne same, if_neg]
    rintro rfl
    exact same rfl

theorem LaidOut.clust_lt (laidOut : vol.LaidOut) (inside : clust < vol.clustCnt) :
    clust < 2 ^ 32 := by
  have few := laidOut.few_clust
  omega

theorem LaidOut.link_putTable (laidOut : vol.LaidOut) (val : Nat)
    (inside : clust < vol.clustCnt) (insideOther : other < vol.clustCnt) :
    vol.link (vol.putTable table clust val) other =
      if other = clust then val % 2 ^ 28 else vol.link table other := by
  rw [putTable, link_putTable2 val (laidOut.clust_lt inside) (laidOut.clust_lt insideOther)]
  split
  · rfl
  · by_cases mirrored : vol.mirrorSect ≠ 0
    · rw [if_pos mirrored]
      unfold link putTable2
      rw [update_of_ne (laidOut.mirrorApart mirrored clust inside other insideOther)]
    · rw [if_neg mirrored]

theorem LaidOut.link_putInfo (laidOut : vol.LaidOut) (lastUsed freeCnt : Nat)
    (inside : clust < vol.clustCnt) :
    vol.link (vol.putInfo table lastUsed freeCnt) clust = vol.link table clust := by
  unfold link putInfo
  rw [update_of_ne (laidOut.infoApart clust inside)]

/-- A sector with entries of one of the tables. -/
def IsTable (vol : Volume) (sect : Nat) : Prop :=
  ∃ clust < vol.clustCnt, sect = itemSect vol.fatSect clust ∨
    vol.mirrorSect ≠ 0 ∧ sect = itemSect vol.mirrorSect clust

/-- A sector that the tables or the counters of the volume are in. -/
def IsSystem (vol : Volume) (sect : Nat) : Prop :=
  vol.IsTable sect ∨ sect = vol.infoSect

theorem putTable_apart {sect : Nat} (val : Nat) (inside : clust < vol.clustCnt)
    (apart : ¬vol.IsTable sect) :
    vol.putTable table clust val sect = table sect := by
  have notFat : sect ≠ itemSect vol.fatSect clust := by
    intro same
    exact apart ⟨clust, inside, .inl same⟩
  rw [putTable, putTable2, update_of_ne notFat]
  split
  · rename_i mirrored
    have notMirror : sect ≠ itemSect vol.mirrorSect clust := by
      intro same
      exact apart ⟨clust, inside, .inr ⟨mirrored, same⟩⟩
    rw [putTable2, update_of_ne notMirror]
  · rfl

end Volume

/-! ## A volume that shows a table -/

/-- No disk operation fails, the buffer is up to date unless nothing was read
yet, and a reader finds the given sectors and counters. -/
structure Serves (table : Nat → Sector) (lastUsed freeCnt : Nat) (fat : Fat) :
    Prop where
  quiet : fat.Quiet
  view : fat.cache.view = table
  current : fat.cache.address ≠ 0 → fat.cache.Current
  lastUsed : fat.lastUsed = lastUsed
  freeCnt : fat.freeCnt = freeCnt

namespace Serves

variable {table : Nat → Sector} {lastUsed freeCnt : Nat} {fat : Fat}
variable {vol : Volume} {clust : Nat}

theorem shows (serves : Serves table lastUsed freeCnt fat) :
    Shows fat ⟨table, fat.cache.address, fat.infoDirty, lastUsed, freeCnt⟩ where
  view := serves.view
  address := rfl
  current := serves.current
  infoDirty := rfl
  lastUsed := serves.lastUsed
  freeCnt := serves.freeCnt
  quiet := serves.quiet

theorem of_shows {direct : Direct} (shows : Shows fat direct) :
    Serves direct.disk direct.lastUsed direct.freeCnt fat where
  quiet := shows.quiet
  view := shows.view
  current loaded := shows.current (shows.address ▸ loaded)
  lastUsed := shows.lastUsed
  freeCnt := shows.freeCnt

section

variable (serves : Serves table lastUsed freeCnt fat)

include serves

theorem load (sect : Nat) (nonzero : sect ≠ 0) :
    Serves table lastUsed freeCnt (fat.setCache (fat.cache.load sect)) :=
  of_shows (serves.shows.load nonzero)

theorem block {sect : Nat} (nonzero : sect ≠ 0) : (fat.cache.load sect).block = table sect :=
  (serves.shows.load nonzero).block nonzero

theorem setInfoDirty : Serves table lastUsed freeCnt { fat with infoDirty := true } :=
  ⟨serves.quiet, serves.view, serves.current, serves.lastUsed, serves.freeCnt⟩

theorem getFat (nonzero : itemSect vol.fatSect clust ≠ 0) : Meets (vol.getFat clust) fat False
      (fun result after =>
        vol.clustFlags (vol.link table clust) = some result.2 ∧
        result.1 = vol.link table clust ∧ Serves table lastUsed freeCnt after)
      (fun error after => error = .broken ∧ vol.clustFlags (vol.link table clust) = none ∧
        Serves table lastUsed freeCnt after) := by
  have loaded := serves.load _ nonzero
  rw [meets_getFat vol serves.quiet, serves.block nonzero]
  cases flags : vol.clustFlags (itemVal (table (itemSect vol.fatSect clust)) clust) with
  | none => exact ⟨rfl, flags, loaded⟩
  | some flags => exact ⟨by assumption, rfl, loaded⟩

end

theorem putFat (laidOut : vol.LaidOut) (serves : Serves table lastUsed freeCnt fat) (val : Nat)
    (inside : clust < vol.clustCnt) :
    Serves (vol.putTable table clust val) lastUsed freeCnt
      (fat.setCache (vol.putFatCache fat.cache clust val)) := by
  have avoids : (BufOp.putFat clust val).AvoidsZero vol fat.cache.address :=
    ⟨fun mirrored => laidOut.mirrorNonzero mirrored clust inside, laidOut.fatNonzero clust inside⟩
  have put := of_shows (serves.shows.putFat val avoids)
  unfold Direct.putFat at put
  unfold Volume.putTable
  by_cases mirrored : vol.mirrorSect ≠ 0
  · rw [if_pos mirrored] at put ⊢
    exact put
  · rw [if_neg mirrored] at put ⊢
    exact put

theorem putFatCache_isSystem {cache : WriteBack Nat Sector} (val : Nat)
    (inside : clust < vol.clustCnt) :
    vol.IsSystem (vol.putFatCache cache clust val).address := by
  refine .inl ⟨clust, inside, .inl ?_⟩
  exact load_address _ _

theorem synced_isSystem (address : vol.IsSystem fat.cache.address) :
    vol.IsSystem (vol.synced fat).cache.address := by
  unfold Volume.synced
  split
  · right
    exact load_address _ _
  · change vol.IsSystem (sync _).address
    rw [sync_address]
    exact address

/-- `sync_fs` may store the counters. -/
theorem synced (laidOut : vol.LaidOut) (serves : Serves table lastUsed freeCnt fat) :
    Serves table lastUsed freeCnt (vol.synced fat) ∨
      Serves (vol.putInfo table lastUsed freeCnt) lastUsed freeCnt (vol.synced fat) := by
  have synced := of_shows (serves.shows.syncFs laidOut.infoNonzero)
  unfold Direct.syncFs at synced
  cases dirty : fat.infoDirty with
  | false =>
    rw [if_neg (by rw [dirty]; exact Bool.false_ne_true)] at synced
    exact .inl synced
  | true =>
    rw [if_pos (by exact dirty)] at synced
    exact .inr synced

end Serves

end SeekOs.Fat32
