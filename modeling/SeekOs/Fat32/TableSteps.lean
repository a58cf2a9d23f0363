import SeekOs.Fat32.Table

/-!
# The table on a disk that reports no failure

`fat32_disk_read` and `fat32_disk_write` always report success.  Under such disk
functions the steps of `Fat32.Table` return, and each is one change of the state.
-/

namespace SeekOs.Fat32

open SeekOs.Lib SeekOs.Lib.Action

namespace Fat

variable (fat : Fat)

def Quiet : Prop :=
  fat.faults = []

instance  : Decidable fat.Quiet :=
  inferInstanceAs (Decidable (_ = _))

@[simp] theorem setCache_cache (cache : WriteBack Nat Sector) :
    (fat.setCache cache).cache = cache := rfl

@[simp] theorem setCache_setCache (cache cache' : WriteBack Nat Sector) :
    (fat.setCache cache).setCache cache' = fat.setCache cache' := rfl

theorem setCache_self : fat.setCache fat.cache = fat := rfl

@[simp] theorem quiet_setCache {fat : Fat} {cache : WriteBack Nat Sector} :
    (fat.setCache cache).Quiet ↔ fat.Quiet := Iff.rfl

end Fat

variable {fat : Fat} {hangs : Prop}

section Disk

variable {returns : Unit → Fat → Prop} {fails : FatErr → Fat → Prop}

section

variable (quiet : fat.Quiet)
include quiet

theorem meets_diskAccess : Meets diskAccess fat hangs returns fails ↔ returns () fat := by
  have same : { fat with faults := fat.faults.tail } = fat := by
    have empty : fat.faults = [] := quiet
    cases fat
    cases empty
    rfl
  have works : fat.faults.headD false = false := by
    rw [show fat.faults = [] from quiet]
    rfl
  rw [diskAccess, meets_bind, meets_get, meets_bind, meets_modify, same, works]
  rfl

theorem meets_diskWrite (data : Sector) (sect : Nat) :
    Meets (diskWrite data sect) fat hangs returns fails ↔
      returns () (fat.setCache (fat.cache.poke sect data)) := by
  rw [diskWrite, meets_bind, meets_diskAccess quiet, meets_modify]

theorem meets_diskRead (sect : Nat) {returns : Sector → Fat → Prop} :
    Meets (diskRead sect) fat hangs returns fails ↔ returns (fat.disk sect) fat := by
  simp [diskRead, meets_bind, meets_diskAccess quiet]

theorem meets_syncBuf :
    Meets syncBuf fat hangs returns fails ↔ returns () (fat.setCache fat.cache.sync) := by
  rw [syncBuf, meets_bind, meets_get]
  split
  · rw [meets_bind, meets_diskAccess quiet, meets_modify]
  · rename_i clean
    have same : fat.cache.sync = fat.cache := if_neg clean
    rw [meets_pure, same, fat.setCache_self]

theorem meets_updateBuf (sect : Nat) : Meets (updateBuf sect) fat hangs returns fails ↔
      returns () (fat.setCache (fat.cache.load sect)) := by
  rw [updateBuf, meets_bind, meets_get]
  split
  · rename_i other
    have loaded : fat.cache.sync.load sect = fat.cache.load sect := fat.cache.sync_load other
    rw [meets_bind, meets_syncBuf quiet, meets_bind,
      meets_diskAccess (Fat.quiet_setCache.mpr quiet), meets_modify]
    rw [Fat.setCache_cache, Fat.setCache_setCache, loaded]
  · rename_i same
    rw [ne_eq, not_not] at same
    have kept : fat.cache.load sect = fat.cache := if_pos same
    rw [meets_pure, kept, fat.setCache_self]

end

theorem meets_editBuf (change : Sector → Sector) : Meets (editBuf change) fat hangs returns fails ↔
      returns () (fat.setCache (fat.cache.edit change)) := Iff.rfl

end Disk

def Volume.synced (vol : Volume) (fat : Fat) : Fat :=
  if fat.infoDirty then
    { fat with
      cache := ((fat.cache.sync.load vol.infoSect).edit
        (putFsInfo fat.lastUsed fat.freeCnt)).sync
      infoDirty := false }
  else
    fat.setCache fat.cache.sync

def putFat2Cache (cache : WriteBack Nat Sector) (fatSect clust val : Nat) : WriteBack Nat Sector :=
  (cache.load (itemSect fatSect clust)).edit (putItem (clust % 128) val)

def Volume.putFatCache (vol : Volume) (cache : WriteBack Nat Sector)
    (clust val : Nat) : WriteBack Nat Sector :=
  putFat2Cache (if vol.mirrorSect ≠ 0 then putFat2Cache cache vol.mirrorSect clust val
    else cache)
    vol.fatSect clust val

variable (vol : Volume) {fails : FatErr → Fat → Prop} {returns : Unit → Fat → Prop}

theorem meets_syncFs (quiet : fat.Quiet) :
    Meets vol.syncFs fat hangs returns fails ↔ returns () (vol.synced fat) := by
  rw [Volume.syncFs, meets_bind, meets_syncBuf quiet, meets_bind, meets_get]
  unfold Volume.synced
  split
  · rename_i info
    rw [if_pos (by exact info)]
    simp only [meets_bind, meets_updateBuf, meets_editBuf, meets_syncBuf,
      meets_modify, Fat.quiet_setCache, quiet]
    rfl
  · rename_i info
    rw [meets_pure, if_neg (by exact info)]

theorem meets_getFat (quiet : fat.Quiet) (clust : Nat) {returns : Nat × ClustFlags → Fat → Prop} :
    Meets (vol.getFat clust) fat hangs returns fails ↔
      match vol.clustFlags (itemVal (fat.cache.load (itemSect vol.fatSect clust)).block clust) with
      | none =>
        fails .broken (fat.setCache (fat.cache.load (itemSect vol.fatSect clust)))
      | some flags =>
        returns (itemVal (fat.cache.load (itemSect vol.fatSect clust)).block clust, flags)
          (fat.setCache (fat.cache.load (itemSect vol.fatSect clust))) := by
  rw [Volume.getFat, meets_bind, meets_updateBuf quiet, meets_bind, meets_get]
  rw [Fat.setCache_cache]
  cases vol.clustFlags (itemVal (fat.cache.load (itemSect vol.fatSect clust)).block clust) with
  | none => exact meets_fail _
  | some flags => exact meets_pure _

theorem meets_putFat2 (quiet : fat.Quiet) (fatSect clust val : Nat) :
    Meets (putFat2 fatSect clust val) fat hangs returns fails ↔
      returns () (fat.setCache (putFat2Cache fat.cache fatSect clust val)) := by
  rw [putFat2, meets_bind, meets_updateBuf quiet, meets_editBuf]
  rfl

theorem meets_putFat (quiet : fat.Quiet) (clust val : Nat) :
    Meets (vol.putFat clust val) fat hangs returns fails ↔
      returns () (fat.setCache (vol.putFatCache fat.cache clust val)) := by
  rw [Volume.putFat, Volume.putFatCache]
  split
  · simp only [meets_bind, meets_putFat2, Fat.quiet_setCache, quiet]
    rfl
  · rw [meets_putFat2 quiet]

end SeekOs.Fat32
