import SeekOs.Fat32.Mount

/-!
# The sector buffer is transparent

The metadata of a volume is read and written through a buffer with one sector.
`Direct` is the same volume without the buffer: every access goes to the disk.
It remembers the sector that was named last, which is the one that a caller with
a pointer into the buffer looks at.  The buffer starts out with sector zero as
its address although nothing was read yet; apart from that sector the two give
the same answers.
-/

namespace SeekOs.Fat32

open SeekOs.Fs SeekOs.Lib SeekOs.Lib.Action Volume ByteBlock WriteBack

/-- What the rest of `fat32.c` does to the metadata of a volume. -/
inductive BufOp where
  | updateBuf (sect : Nat)
  /-- A look at the buffer through a pointer. -/
  | look
  /-- A change of the buffer, with `FAT_BUF_DIRTY`. -/
  | edit (change : Sector → Sector)
  | getFat (clust : Nat)
  | putFat (clust val : Nat)
  /-- A change of the two counters, with `FAT_INFO_DIRTY`. -/
  | count (lastUsed freeCnt : Nat)
  | clustClear (clust : Nat)
  | syncBuf
  | syncFs

inductive BufAnswer where
  | done
  | sector (block : Sector)
  | entry (result : Except FatErr (Nat × ClustFlags))

/-! ## With the buffer -/

namespace Volume

variable (vol : Volume)

def bufPerform : BufOp → FatM BufAnswer
  | .updateBuf sect => do
      updateBuf sect
      pure .done
  | .look => do
      let fat ← Action.get
      pure (.sector fat.cache.block)
  | .edit change => do
      editBuf change
      pure .done
  | .getFat clust => do
      let result ← (vol.getFat clust).outcome
      pure (.entry result)
  | .putFat clust val => do
      vol.putFat clust val
      pure .done
  | .count lastUsed freeCnt => do
      Action.modify fun fat =>
        { fat with infoDirty := true, lastUsed := lastUsed, freeCnt := freeCnt }
      pure .done
  | .clustClear clust => do
      vol.clustClear clust
      pure .done
  | .syncBuf => do
      Fat32.syncBuf
      pure .done
  | .syncFs => do
      vol.syncFs
      pure .done

def bufRun : List BufOp → FatM (List BufAnswer)
  | [] => pure []
  | op :: ops => do
      let answer ← vol.bufPerform op
      let answers ← bufRun ops
      pure (answer :: answers)

end Volume

/-! ## Without it -/

structure Direct where
  disk : Nat → Sector
  sect : Nat
  infoDirty : Bool
  lastUsed : Nat
  freeCnt : Nat

namespace Direct

/-- The sector at hand is changed on the disk. -/
def edit (direct : Direct) (change : Sector → Sector) : Direct :=
  { direct with
    disk := Function.update direct.disk direct.sect
      (change (direct.disk direct.sect)) }

def goTo (direct : Direct) (sect : Nat) : Direct :=
  { direct with sect := sect }

def putFat2 (direct : Direct) (fatSect clust val : Nat) : Direct :=
  (direct.goTo (itemSect fatSect clust)).edit (putItem (clust % 128) val)

def clear (direct : Direct) : Nat → Nat → Direct
  | 0, _ => direct
  | count + 1, sect =>
    ((direct.goTo sect).edit fun _ => ByteBlock.zero).clear count ((sect + 1) % 2 ^ 32)

variable (vol : Volume)

variable (direct : Direct)

def entry (clust : Nat) : Except FatErr (Nat × ClustFlags) :=
  match vol.clustFlags (itemVal (direct.disk (itemSect vol.fatSect clust)) clust) with
  | none => .error .broken
  | some flags =>
    .ok (itemVal (direct.disk (itemSect vol.fatSect clust)) clust, flags)

def putFat (clust val : Nat) : Direct :=
  (if vol.mirrorSect ≠ 0 then direct.putFat2 vol.mirrorSect clust val
    else direct).putFat2 vol.fatSect clust val

def syncFs : Direct :=
  if direct.infoDirty then
    { (direct.goTo vol.infoSect).edit (putFsInfo direct.lastUsed direct.freeCnt) with
      infoDirty := false }
  else
    direct

def perform : BufOp → BufAnswer × Direct
  | .updateBuf sect => (.done, direct.goTo sect)
  | .look => (.sector (direct.disk direct.sect), direct)
  | .edit change => (.done, direct.edit change)
  | .getFat clust =>
    (.entry (direct.entry vol clust), direct.goTo (itemSect vol.fatSect clust))
  | .putFat clust val => (.done, direct.putFat vol clust val)
  | .count lastUsed freeCnt =>
    (.done,
      { direct with
        infoDirty := true, lastUsed := lastUsed, freeCnt := freeCnt })
  | .clustClear clust =>
    (.done, direct.clear (2 ^ vol.clustShift) (vol.clustToSect clust))
  | .syncBuf => (.done, direct)
  | .syncFs => (.done, direct.syncFs vol)

def run (direct : Direct) : List BufOp → List BufAnswer × Direct
  | [] => ([], direct)
  | op :: ops =>
    let (answer, next) := direct.perform vol op
    let (answers, final) := next.run ops
    (answer :: answers, final)

end Direct

/-- Sector zero is not used as metadata: the operation does not name it, and the
buffer is not looked at or changed before a sector was read. -/
def BufOp.AvoidsZero (vol : Volume) (sect : Nat) : BufOp → Prop
  | .updateBuf named => named ≠ 0
  | .look => sect ≠ 0
  | .edit _ => sect ≠ 0
  | .getFat clust => itemSect vol.fatSect clust ≠ 0
  | .putFat clust _ =>
    (vol.mirrorSect ≠ 0 → itemSect vol.mirrorSect clust ≠ 0) ∧ itemSect vol.fatSect clust ≠ 0
  | .count _ _ => True
  | .clustClear clust =>
    ∀ i < 2 ^ vol.clustShift, (vol.clustToSect clust + i) % 2 ^ 32 ≠ 0
  | .syncBuf => True
  | .syncFs => vol.infoSect ≠ 0

def AvoidZero (vol : Volume) : Direct → List BufOp → Prop
  | _, [] => True
  | direct, op :: ops =>
    op.AvoidsZero vol direct.sect ∧ AvoidZero vol (direct.perform vol op).2 ops

/-! ## The buffered volume refines the direct one -/

/-- A reader of the buffered volume finds what is on the disk of the direct
one. -/
structure Shows (fat : Fat) (direct : Direct) : Prop where
  view : fat.cache.view = direct.disk
  address : fat.cache.address = direct.sect
  current : direct.sect ≠ 0 → fat.cache.Current
  infoDirty : fat.infoDirty = direct.infoDirty
  lastUsed : fat.lastUsed = direct.lastUsed
  freeCnt : fat.freeCnt = direct.freeCnt
  quiet : fat.Quiet

namespace Shows

variable {fat : Fat} {direct : Direct}
variable {clust : Nat} {vol : Volume}

section

variable (shows : Shows fat direct)

include shows

theorem sync : Shows (fat.setCache fat.cache.sync) direct where
  view := fat.cache.sync_view.trans shows.view
  address := fat.cache.sync_address.trans shows.address
  current loaded := (shows.current loaded).sync
  infoDirty := shows.infoDirty
  lastUsed := shows.lastUsed
  freeCnt := shows.freeCnt
  quiet := shows.quiet

theorem load {sect : Nat} (nonzero : sect ≠ 0) :
    Shows (fat.setCache (fat.cache.load sect)) (direct.goTo sect) where
  view := (fat.cache.load_view sect).trans shows.view
  address := fat.cache.load_address sect
  current _ := by
    apply fat.cache.load_current
    intro same
    apply shows.current
    rw [← shows.address, same]
    exact nonzero
  infoDirty := shows.infoDirty
  lastUsed := shows.lastUsed
  freeCnt := shows.freeCnt
  quiet := shows.quiet

theorem block (nonzero : direct.sect ≠ 0) : fat.cache.block = direct.disk direct.sect := by
  have current : fat.cache.block = fat.cache.view fat.cache.address := shows.current nonzero
  rw [current, shows.view, shows.address]

theorem edit (change : Sector → Sector) (nonzero : direct.sect ≠ 0) :
    Shows (fat.setCache (fat.cache.edit change)) (direct.edit change) where
  view := by
    rw [Fat.setCache_cache, fat.cache.edit_view, shows.view, shows.address, shows.block nonzero]
    rfl
  address := shows.address
  current _ := fat.cache.edit_current change
  infoDirty := shows.infoDirty
  lastUsed := shows.lastUsed
  freeCnt := shows.freeCnt
  quiet := shows.quiet

theorem place (clean : fat.cache.dirty = false) (sect : Nat) (block : Sector) :
    Shows (fat.setCache (fat.cache.place sect block)) ((direct.goTo sect).edit fun _ => block) where
  view := by
    rw [Fat.setCache_cache, place_view sect block clean, shows.view]
    rfl
  address := rfl
  current _ := fat.cache.place_current sect block
  infoDirty := shows.infoDirty
  lastUsed := shows.lastUsed
  freeCnt := shows.freeCnt
  quiet := shows.quiet

theorem putFat2 {fatSect : Nat} (val : Nat) (nonzero : itemSect fatSect clust ≠ 0) :
    Shows (fat.setCache (putFat2Cache fat.cache fatSect clust val))
      (direct.putFat2 fatSect clust val) :=
  (shows.load nonzero).edit (putItem (clust % 128) val) nonzero

theorem putFat (val : Nat) (avoids : (BufOp.putFat clust val).AvoidsZero vol direct.sect) :
    Shows (fat.setCache (vol.putFatCache fat.cache clust val)) (direct.putFat vol clust val) := by
  unfold putFatCache Direct.putFat
  by_cases mirrored : vol.mirrorSect ≠ 0
  · rw [if_pos mirrored, if_pos mirrored]
    exact (shows.putFat2 val (avoids.1 mirrored)).putFat2 val avoids.2
  · rw [if_neg mirrored, if_neg mirrored]
    exact shows.putFat2 val avoids.2

theorem getFat (avoids : (BufOp.getFat clust).AvoidsZero vol direct.sect) :
    Meets (vol.getFat clust).outcome fat False
      (fun result after => result = direct.entry vol clust ∧
        Shows after (direct.goTo (itemSect vol.fatSect clust)))
      (fun _ _ => False) := by
  have loaded := shows.load avoids
  have block : (fat.cache.load (itemSect vol.fatSect clust)).block =
      direct.disk (itemSect vol.fatSect clust) := loaded.block avoids
  rw [meets_outcome, meets_getFat vol shows.quiet, block]
  unfold Direct.entry
  cases vol.clustFlags (itemVal (direct.disk (itemSect vol.fatSect clust)) clust) with
  | none => exact ⟨rfl, loaded⟩
  | some flags => exact ⟨rfl, loaded⟩

theorem syncFs (avoids : BufOp.syncFs.AvoidsZero vol direct.sect) :
    Shows (vol.synced fat) (direct.syncFs vol) := by
  unfold synced Direct.syncFs
  rw [shows.infoDirty, shows.lastUsed, shows.freeCnt]
  split
  · have written := (((shows.sync).load avoids).edit
      (putFsInfo direct.lastUsed direct.freeCnt) avoids).sync
    exact
      { view := written.view
        address := written.address
        current := written.current
        infoDirty := rfl
        lastUsed := rfl
        freeCnt := rfl
        quiet := shows.quiet }
  · exact shows.sync

end

theorem clearLoop (count : Nat) :
    ∀ {fat : Fat} {direct : Direct} {sect : Nat}, Shows fat direct → fat.cache.dirty = false →
      Meets (clearLoop count sect) fat False (fun _ after => Shows after (direct.clear count sect))
        (fun _ _ => False) := by
  induction count with
  | zero =>
    intro fat direct sect shows _
    exact shows
  | succ count induction =>
    intro fat direct sect shows clean
    have placed := shows.place clean sect zero
    rw [Fat32.clearLoop, meets_bind, meets_modify, meets_bind, meets_syncBuf placed.quiet]
    exact induction placed.sync (sync_dirty _)

end Shows

variable {vol : Volume} {fat : Fat}

/-- One operation gives the same answer with and without the buffer. -/
theorem bufPerform_shows {direct : Direct} (op : BufOp)
    (shows : Shows fat direct) (avoids : op.AvoidsZero vol direct.sect) :
    Meets (vol.bufPerform op) fat False
      (fun answer after => answer = (direct.perform vol op).1 ∧
        Shows after (direct.perform vol op).2 ∧
        (op = .syncFs → after.cache.dirty = false))
      (fun _ _ => False) := by
  cases op with
  | updateBuf sect =>
    rw [bufPerform, meets_bind, meets_updateBuf shows.quiet]
    exact ⟨rfl, shows.load avoids, nofun⟩
  | look =>
    refine ⟨?_, shows, nofun⟩
    exact congrArg BufAnswer.sector (shows.block avoids)
  | edit change => exact ⟨rfl, shows.edit change avoids, nofun⟩
  | getFat clust =>
    apply (shows.getFat avoids).bind
    rintro result after ⟨rfl, loaded⟩
    exact ⟨rfl, loaded, nofun⟩
  | putFat clust val =>
    rw [bufPerform, meets_bind, meets_putFat vol shows.quiet]
    exact ⟨rfl, shows.putFat val avoids, nofun⟩
  | count lastUsed freeCnt =>
    refine ⟨rfl, ?_, nofun⟩
    exact { shows with infoDirty := rfl, lastUsed := rfl, freeCnt := rfl }
  | clustClear clust =>
    rw [bufPerform, clustClear, meets_bind, meets_bind, meets_syncBuf shows.quiet]
    apply (Shows.clearLoop _ shows.sync (sync_dirty _)).mono
    intro _ after cleared
    exact ⟨rfl, cleared, nofun⟩
  | syncBuf =>
    rw [bufPerform, meets_bind, meets_syncBuf shows.quiet]
    exact ⟨rfl, shows.sync, nofun⟩
  | syncFs =>
    rw [bufPerform, meets_bind, meets_syncFs vol shows.quiet]
    refine ⟨rfl, shows.syncFs avoids, fun _ => ?_⟩
    unfold synced
    split
    · exact sync_dirty _
    · exact sync_dirty _

/-- Answers are the same along a run, and the disk is after `sync_fs`. -/
theorem bufRun_shows (ops : List BufOp) :
    ∀ {fat : Fat} {direct : Direct}, Shows fat direct → AvoidZero vol direct ops →
      Meets (vol.bufRun ops) fat False
        (fun answers after => answers = (direct.run vol ops).1 ∧
          Shows after (direct.run vol ops).2 ∧
          (ops.getLast? = some .syncFs → after.cache.dirty = false))
        (fun _ _ => False) := by
  induction ops with
  | nil =>
    intro fat direct shows _
    exact ⟨rfl, shows, nofun⟩
  | cons op ops induction =>
    rintro fat direct shows ⟨avoids, rest⟩
    apply (bufPerform_shows op shows avoids).bind
    rintro answer after ⟨rfl, shown, clean⟩
    cases ops with
    | nil =>
      refine ⟨rfl, shown, fun last => clean ?_⟩
      exact Option.some.inj last
    | cons second ops =>
      rw [meets_bind]
      apply (induction shown rest).mono
      rintro answers final ⟨rfl, shownFinal, cleanFinal⟩
      refine ⟨rfl, shownFinal, fun last => cleanFinal ?_⟩
      rw [← last, List.getLast?_cons_cons]

/-- The direct volume that a mounted one starts as. -/
def mountedDirect (disk : Nat → Sector) (vol : Volume) : Direct where
  disk := disk
  sect := 0
  infoDirty := false
  lastUsed := (disk vol.infoSect).word32 492
  freeCnt := (disk vol.infoSect).word32 488

theorem Mounted.shows {disk : Nat → Sector} {name : Text} {bpb : Bpb}
    {lba : Nat} (mounted : Mounted disk name bpb lba vol fat) :
    Shows fat (mountedDirect disk vol) where
  view := by
    rw [mounted.cache]
    exact view_of_clean rfl
  address := by
    rw [mounted.cache]
    rfl
  current loaded := absurd rfl loaded
  infoDirty := mounted.infoClean
  lastUsed := mounted.lastUsed
  freeCnt := mounted.freeCnt
  quiet := mounted.quiet

/-- Whatever is done to the metadata of a mounted volume, the answers are those
of the volume without a buffer, its disk is the same after `sync_fs`, and a clean
buffer holds the sector it was loaded with. -/
theorem sector_buffer_transparent {partition : Fin 4} {name : Text}
    {disk : Nat → Sector} {gBuf : Sector} {vol : Volume} {fat : Fat}
    {ops : List BufOp}
    (mounted : fatMount partition name (newFat disk gBuf) = some (.ok vol, fat))
    (avoid : AvoidZero vol (mountedDirect disk vol) ops) :
    ∃ after, vol.bufRun ops fat = some (.ok ((mountedDirect disk vol).run vol ops).1, after) ∧
      (ops.getLast? = some .syncFs → after.disk = ((mountedDirect disk vol).run vol ops).2.disk) ∧
      (after.cache.dirty = false → after.cache.address ≠ 0 →
        after.cache.block = after.disk after.cache.address) := by
  obtain ⟨lba, bpb, probed, found⟩ := exists_probed mounted
  have mounted := fatMount_mounted found mounted
  obtain ⟨answers, after, returned, rfl, shows, clean⟩ :=
    (bufRun_shows ops mounted.shows avoid).exists_returned
  refine ⟨after, returned, fun last => ?_, fun tidy loaded => ?_⟩
  · rw [← shows.view, view_of_clean (clean last)]
  · rw [shows.address] at loaded
    have current : after.cache.block = after.cache.view after.cache.address := shows.current loaded
    rw [current, view_of_clean tidy]

/-- An entry is changed and read back, and the disk is written. -/
def smallBufRun : List BufOp :=
  [.putFat 3 5, .getFat 3, .count 3 7, .updateBuf 40, .edit id, .syncFs]

theorem sector_buffer_transparent_small : ∃ vol fat after,
      fatMount 0 rootName (newFat (smallDisk 0) zero) = some (.ok vol, fat) ∧
      AvoidZero vol (mountedDirect (smallDisk 0) vol) smallBufRun ∧
      vol.bufRun smallBufRun fat =
        some (.ok ((mountedDirect (smallDisk 0) vol).run vol smallBufRun).1, after) ∧
      after.disk = ((mountedDirect (smallDisk 0) vol).run vol smallBufRun).2.disk := by
  obtain ⟨vol, fat, mounted, table, mirror, info⟩ :
      ∃ vol fat, fatMount 0 rootName (newFat (smallDisk 0) zero) = some (.ok vol, fat) ∧
        vol.fatSect = 32 ∧ vol.mirrorSect = 0 ∧ vol.infoSect = 1 := by
    apply Meets.exists_returned
    decide +kernel
  have avoid : AvoidZero vol (mountedDirect (smallDisk 0) vol) smallBufRun := by
    simp [AvoidZero, smallBufRun, BufOp.AvoidsZero, Direct.perform, itemSect,
      Direct.goTo, table, mirror, info]
  obtain ⟨after, returned, synced, _⟩ := sector_buffer_transparent mounted avoid
  exact ⟨vol, fat, after, mounted, avoid, returned, synced rfl⟩

/-- Right after mounting the buffer has sector zero as its address, but not its
contents. -/
theorem mounted_buffer_not_loaded :
    ∃ vol fat, fatMount 0 rootName (newFat (smallDisk 0) zero) = some (.ok vol, fat) ∧
      vol.bufRun [] fat = some (.ok [], fat) ∧
      fat.cache.dirty = false ∧
      fat.cache.block ≠ fat.disk fat.cache.address := by
  obtain ⟨vol, fat, mounted, clean, other⟩ :
      ∃ vol fat, fatMount 0 rootName (newFat (smallDisk 0) zero) = some (.ok vol, fat) ∧
        fat.cache.dirty = false ∧
        fat.cache.block 0 ≠ fat.disk fat.cache.address 0 := by
    apply Meets.exists_returned
    decide +kernel
  exact ⟨vol, fat, mounted, rfl, clean, fun same => other (by rw [same])⟩

end SeekOs.Fat32
