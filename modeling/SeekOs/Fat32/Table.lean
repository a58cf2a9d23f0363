import SeekOs.Fs.Path
import SeekOs.Lib.Action
import SeekOs.Lib.ByteBlock
import SeekOs.Lib.WriteBack

/-!
# The file allocation table

The lower half of `fat32.c`: the sector buffer of a mounted volume, the table of
cluster links behind it, and the functions that release and extend chains.
Numbers of clusters and sectors are natural numbers that are reduced where the
code may wrap around.

The disk functions may report a failure: `faults` lists for the next disk
operations whether they do, and no further operation fails.
-/

namespace SeekOs.Fat32

open SeekOs.Fs SeekOs.Lib

/-- `CLUST_*`; `last` is `CLUST_USED | CLUST_LAST`. -/
inductive ClustFlags where
  | free
  | used
  | last
  | bad
  deriving DecidableEq

/-- `FAT_ERR_*`.  `stretch_chain` may also return the flags of a cluster in the
place of an error, or an uninitialised variable. -/
inductive FatErr where
  | nofat
  | broken
  | io
  | param
  | path
  | eof
  | denied
  | full
  | flags (flags : Option ClustFlags)
  deriving DecidableEq

abbrev Sector : Type :=
  ByteBlock 512

/-- The fields of `Fat` that `fat_mount` sets and nothing changes. -/
structure Volume where
  name : Text
  clustShift : Nat
  clustMsk : Nat
  clustCnt : Nat
  infoSect : Nat
  fatSect : Nat
  mirrorSect : Nat
  dataSect : Nat
  rootClust : Nat

/-- The other fields of `Fat`, over the disk: `cache` is made of `sect`, `buf`
and the flag `FAT_BUF_DIRTY`.  `gBuf` is the static buffer of `fat32.c`. -/
structure Fat where
  cache : WriteBack Nat Sector
  infoDirty : Bool
  lastUsed : Nat
  freeCnt : Nat
  gBuf : Sector
  faults : List Bool

abbrev FatM (α : Type) : Type :=
  Action Fat FatErr α

namespace Fat

abbrev disk (fat : Fat) : Nat → Sector :=
  fat.cache.store

def setCache (fat : Fat) (cache : WriteBack Nat Sector) : Fat :=
  { fat with cache := cache }

end Fat

/-- Every operation of the disk passes here first. -/
def diskAccess : FatM Unit := do
  let fat ← Action.get
  Action.modify fun fat => { fat with faults := fat.faults.tail }
  if fat.faults.headD false then Action.fail .io

def diskRead (sect : Nat) : FatM Sector := do
  diskAccess
  let fat ← Action.get
  pure (fat.disk sect)

def diskWrite (data : Sector) (sect : Nat) : FatM Unit := do
  diskAccess
  Action.modify fun fat => fat.setCache (fat.cache.poke sect data)

def syncBuf : FatM Unit := do
  let fat ← Action.get
  if fat.cache.dirty then
    diskAccess
    Action.modify fun fat => fat.setCache fat.cache.sync

def updateBuf (sect : Nat) : FatM Unit := do
  let fat ← Action.get
  if fat.cache.address ≠ sect then
    syncBuf
    diskAccess
    Action.modify fun fat => fat.setCache (fat.cache.load sect)

/-- A change of the buffer, which is marked dirty. -/
def editBuf (change : Sector → Sector) : FatM Unit :=
  Action.modify fun fat => fat.setCache (fat.cache.edit change)

/-- `FsInfo`: the offsets of its two counters. -/
def putFsInfo (lastUsed freeCnt : Nat) (info : Sector) : Sector :=
  (info.putWord32 492 lastUsed).putWord32 488 freeCnt

def setInfoDirty : FatM Unit :=
  Action.modify fun fat => { fat with infoDirty := true }

/-- The sector of an entry of the table that starts at a sector. -/
def itemSect (fatSect clust : Nat) : Nat :=
  (fatSect + clust / 128) % 2 ^ 32

/-- The value of the entry of a cluster in its sector of the table, without the
upper nibble. -/
def itemVal (items : Sector) (clust : Nat) : Nat :=
  items.word32 (clust % 128 * 4) % 2 ^ 28

/-- The change of an entry of the table; its upper nibble is preserved. -/
def putItem (idx val : Nat) (items : Sector) : Sector :=
  items.putWord32 (idx * 4) (items.word32 (idx * 4) / 2 ^ 28 * 2 ^ 28 + val % 2 ^ 28)

def putFat2 (fatSect clust val : Nat) : FatM Unit := do
  updateBuf (itemSect fatSect clust)
  editBuf (putItem (clust % 128) val)

def clearLoop : Nat → Nat → FatM Unit
  | 0, _ => pure ()
  | count + 1, sect => do
      Action.modify fun fat => fat.setCache (fat.cache.place sect ByteBlock.zero)
      syncBuf
      clearLoop count ((sect + 1) % 2 ^ 32)

namespace Volume

variable (vol : Volume)

def clustToSect (clust : Nat) : Nat :=
  ((clust + (2 ^ 32 - 2)) * 2 ^ vol.clustShift + vol.dataSect) % 2 ^ 32

def syncFs : FatM Unit := do
  syncBuf
  let fat ← Action.get
  if fat.infoDirty then
    updateBuf vol.infoSect
    editBuf (putFsInfo fat.lastUsed fat.freeCnt)
    syncBuf
    Action.modify fun fat => { fat with infoDirty := false }

/-- The meaning of the value of an entry. -/
def clustFlags (val : Nat) : Option ClustFlags :=
  if val = 0 then
    some .free
  else if val = 0x0ffffff7 then
    some .bad
  else if 0x0ffffff8 ≤ val then
    some .last
  else if 2 ≤ val ∧ val < vol.clustCnt then
    some .used
  else
    none

def getFat (clust : Nat) : FatM (Nat × ClustFlags) := do
  updateBuf (itemSect vol.fatSect clust)
  let fat ← Action.get
  match vol.clustFlags (itemVal fat.cache.block clust) with
  | none => Action.fail .broken
  | some flags => pure (itemVal fat.cache.block clust, flags)

def putFat (clust val : Nat) : FatM Unit := do
  if vol.mirrorSect ≠ 0 then putFat2 vol.mirrorSect clust val
  putFat2 vol.fatSect clust val

def removeLoop : Nat → Nat → FatM Unit
  | 0, _ => Action.hang
  | fuel + 1, clust => do
      let (next, flags) ← vol.getFat clust
      if flags = .bad ∨ flags = .free then Action.fail .broken
      vol.putFat clust 0
      Action.modify fun fat =>
        { fat with freeCnt := (fat.freeCnt + 1) % 2 ^ 32 }
      if flags ≠ .last then removeLoop fuel next

/-- Every round frees a cluster, and every cluster but the first is below
`clust_cnt`. -/
def removeChain (clust : Nat) : FatM Unit := do
  setInfoDirty
  vol.removeLoop (vol.clustCnt + 1) clust
  vol.syncFs

/-- `++clust`, back to the first cluster at the end. -/
def nextClust (clust : Nat) : Nat :=
  let next := (clust + 1) % 2 ^ 32
  if vol.clustCnt ≤ next then 2 else next

/-- The search of `stretch_chain`, from `last_used` around to `last_used`. -/
def scanLoop : Nat → Option ClustFlags → Nat → FatM Nat
  | 0, _, _ => Action.hang
  | fuel + 1, seen, clust => do
      let fat ← Action.get
      let clust := vol.nextClust clust
      if clust = fat.lastUsed then Action.fail .full
      match ← (vol.getFat clust).outcome with
      | .error _ => Action.fail (.flags seen)
      | .ok (_, flags) =>
        if flags = .free then pure clust
        else scanLoop fuel (some flags) clust

/-- The cluster that `stretch_chain` takes.  The search has seen every cluster
after `clust_cnt` rounds, and goes on forever if `last_used` is none of
them. -/
def findFree (prev : Nat) : FatM Nat := do
  let fat ← Action.get
  if prev = 0 then
    vol.scanLoop (vol.clustCnt + 1) none fat.lastUsed
  else
    let (_, flags) ← vol.getFat (vol.nextClust prev)
    if flags = .free then pure (vol.nextClust prev)
    else vol.scanLoop (vol.clustCnt + 1) (some flags) fat.lastUsed

def stretchChain (prev : Nat) : FatM Nat := do
  setInfoDirty
  let clust ← vol.findFree prev
  vol.putFat clust 0x0fffffff
  if prev ≠ 0 then vol.putFat prev clust
  Action.modify fun fat =>
    { fat with
      lastUsed := clust
      freeCnt := (fat.freeCnt + (2 ^ 32 - 1)) % 2 ^ 32 }
  vol.syncFs
  pure clust

def createChain : FatM Nat :=
  vol.stretchChain 0

def clustClear (clust : Nat) : FatM Unit := do
  syncBuf
  clearLoop (2 ^ vol.clustShift) (vol.clustToSect clust)

end Volume

end SeekOs.Fat32
