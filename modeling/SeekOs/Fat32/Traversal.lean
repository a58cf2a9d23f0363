import SeekOs.Fat32.Extension
import SeekOs.Fat32.Geometry

/-!
# Walking through the slots of a directory

`dir_next` moves from slot to slot and from sector to sector.  It knows that a
cluster ends by the low bits of the number of the sector, so what it visits
depends on where the data area starts.
-/

namespace SeekOs.Fat32

open SeekOs.Fs SeekOs.Lib SeekOs.Lib.Action List Volume Nat

namespace Volume

variable (vol : Volume)

/-- The place that `dir_next` goes to, or the error that it returns, when a
reader of the disk finds the given sectors. -/
def nextDir (table : Nat → Sector) (dir : Dir) : Except FatErr Dir :=
  if dir.idx + 32 < 512 then
    .ok { dir with idx := dir.idx + 32 }
  else if (dir.sect + 1) % 2 ^ 32 &&& vol.clustMsk ≠ 0 then
    .ok { dir with sect := (dir.sect + 1) % 2 ^ 32, idx := 0 }
  else
    match vol.clustFlags (vol.link table dir.clust) with
    | some .used =>
      .ok
        { dir with
          clust := vol.link table dir.clust
          sect := vol.clustToSect (vol.link table dir.clust)
          idx := 0 }
    | some .last => .error .eof
    | _ => .error .broken

/-- Where `dir_next` leaves the place when it returns an error. -/
def pastDir (dir : Dir) : Dir :=
  { dir with sect := (dir.sect + 1) % 2 ^ 32, idx := 0 }

end Volume

variable {lastUsed freeCnt : Nat}

variable {table : Nat → Sector}

variable {vol : Volume}

/-- `dir_next` on a volume that shows the given sectors. -/
theorem Serves.dirNext {fat : Fat} {dir : Dir} (serves : Serves table lastUsed freeCnt fat)
    (stored : itemSect vol.fatSect dir.clust ≠ 0) :
    Meets vol.dirNext (fat, dir) False
      (fun _ after => vol.nextDir table dir = .ok after.2 ∧ Serves table lastUsed freeCnt after.1)
      (fun error after => vol.nextDir table dir = .error error ∧ after.2 = pastDir dir ∧
        Serves table lastUsed freeCnt after.1) := by
  rw [Volume.dirNext, meets_bind, meets_getDir]
  unfold nextDir
  by_cases inSector : dir.idx + 32 < 512
  · rw [if_pos inSector, if_pos inSector, meets_modifyDir]
    exact ⟨rfl, serves⟩
  · rw [if_neg inSector, if_neg inSector, meets_bind, meets_modifyDir]
    by_cases inCluster : (dir.sect + 1) % 2 ^ 32 &&& vol.clustMsk = 0
    · rw [if_pos inCluster, if_neg (not_not.mpr inCluster), meets_bind, meets_onFst]
      apply (serves.getFat stored).imp id
      · rintro ⟨next, flags⟩ read ⟨isFlags, rfl, servesRead⟩
        rw [isFlags]
        cases flags with
        | free => exact ⟨rfl, rfl, servesRead⟩
        | used => exact ⟨rfl, servesRead⟩
        | last => exact ⟨rfl, rfl, servesRead⟩
        | bad => exact ⟨rfl, rfl, servesRead⟩
      · rintro error read ⟨rfl, isNone, servesRead⟩
        rw [isNone]
        exact ⟨rfl, rfl, servesRead⟩
    · rw [if_neg inCluster, if_pos inCluster, meets_pure]
      exact ⟨rfl, serves⟩

/-! ## Traversals -/

namespace Volume

variable {fat : Fat} {dir : Dir} {start : Nat}

/-- Apply `dir_next` until it fails: the places on the way, and the error. -/
def traverse (vol : Volume) : Nat → DirM (List Dir × FatErr)
  | 0 => Action.hang
  | fuel + 1 => do
      let dir ← getDir
      match ← vol.dirNext.outcome with
      | .error err => pure ([dir], err)
      | .ok () => do
          let (visited, err) ← traverse vol fuel
          pure (dir :: visited, err)

/-- The places from one on, as `nextDir` gives them. -/
inductive Visits (vol : Volume) (table : Nat → Sector) :
    Dir → List Dir → FatErr → Prop where
  | stop {dir : Dir} {err : FatErr} (failed : vol.nextDir table dir = .error err) :
      Visits vol table dir [dir] err
  | step {dir next : Dir} {visited : List Dir} {err : FatErr}
      (moved : vol.nextDir table dir = .ok next)
      (rest : Visits vol table next visited err) :
      Visits vol table dir (dir :: visited) err

/-- The entries of the clusters that are visited are in the table, not in sector
zero, which stands for an empty buffer. -/
def Stored (vol : Volume) (dirs : List Dir) : Prop :=
  ∀ dir ∈ dirs, itemSect vol.fatSect dir.clust ≠ 0

theorem Visits.traverse {visited : List Dir} {err : FatErr}
    (visits : vol.Visits table dir visited err) (stored : vol.Stored visited)
    (fuel : Nat) (serves : Serves table lastUsed freeCnt fat) :
    Meets (vol.traverse fuel) (fat, dir) (fuel < visited.length)
      (fun found _ => found = (visited, err)) (fun _ _ => False) := by
  induction visits generalizing fuel fat with
  | @stop dir err failed =>
    cases fuel with
    | zero => exact succ_pos 0
    | succ fuel =>
      have here := stored dir mem_cons_self
      rw [traverse, meets_bind, meets_getDir, meets_bind, meets_outcome]
      apply (serves.dirNext here).imp False.elim
      · rintro _ after ⟨moved, _⟩
        rw [failed] at moved
        cases moved
      · rintro error after ⟨isError, _⟩
        rw [failed] at isError
        cases isError
        exact rfl
  | @step dir next visited err moved rest induction =>
    cases fuel with
    | zero => exact succ_pos _
    | succ fuel =>
      have here := stored dir mem_cons_self
      have others : vol.Stored visited :=
        fun other member => stored other (mem_cons_of_mem _ member)
      rw [traverse, meets_bind, meets_getDir, meets_bind, meets_outcome]
      apply (serves.dirNext here).imp False.elim
      · rintro _ ⟨after, place⟩ ⟨isNext, servesAfter⟩
        rw [moved] at isNext
        cases isNext
        rw [meets_bind]
        apply (induction others fuel servesAfter).imp
        · exact succ_lt_succ
        · rintro found final rfl
          exact rfl
        · exact fun _ _ failed => failed
      · rintro error after ⟨isError, _⟩
        rw [moved] at isError
        cases isError

/-! ## The slots of a chain -/

def sectSlots (sclust clust sect : Nat) : List Dir :=
  (List.range 16).map fun slot => ⟨sclust, clust, sect, 32 * slot⟩

def clustSlots (vol : Volume) (sclust count clust : Nat) : List Dir :=
  (List.range count).flatMap fun i =>
    sectSlots sclust clust ((vol.clustToSect clust + i) % 2 ^ 32)

/-- The clusters of a directory, in the order of their links. -/
structure DirChain (vol : Volume) (table : Nat → Sector) (chain : List Nat) :
    Prop where
  linked : chain.IsChain fun clust next =>
    vol.clustFlags (vol.link table clust) = some .used ∧ vol.link table clust = next
  ends : ∀ last ∈ chain.getLast?,
    vol.clustFlags (vol.link table last) = some .last
  stored : ∀ clust ∈ chain, itemSect vol.fatSect clust ≠ 0

/-- Starting from `dir_enter`, every slot of every sector of every cluster is
visited once, in the order of the chain. -/
def VisitsAll (vol : Volume) (fat : Fat) (dir : Dir) (start : Nat)
    (rest : List Nat) : Prop :=
  ∃ fuel, Meets (vol.dirEnter start >>= fun _ => vol.traverse fuel) (fat, dir) False
    (fun found _ => found =
      ((start :: rest).flatMap (vol.clustSlots start (2 ^ vol.clustShift)), .eof))
    (fun _ _ => False)

variable {sclust clust sect : Nat} {visited : List Dir} {err : FatErr}

/-- The slots of a sector come before what is visited from its last slot on. -/
theorem Visits.sector (last : vol.Visits table ⟨sclust, clust, sect, 480⟩
      (⟨sclust, clust, sect, 480⟩ :: visited) err) :
    vol.Visits table ⟨sclust, clust, sect, 0⟩ (sectSlots sclust clust sect ++ visited) err := by
  have from_slot : ∀ count ≤ 15,
      vol.Visits table ⟨sclust, clust, sect, 32 * (15 - count)⟩
        ((List.range' (15 - count) (count + 1)).map
          (fun slot => (⟨sclust, clust, sect, 32 * slot⟩ : Dir)) ++ visited)
        err := by
    intro count
    induction count with
    | zero => exact fun _ => last
    | succ count induction =>
      intro few
      have following : 15 - count = 15 - (count + 1) + 1 := by omega
      rw [range'_succ, map_cons, cons_append, ← following]
      apply Visits.step _ (induction (by omega))
      unfold nextDir
      rw [if_pos (by dsimp only; omega), following]
      rfl
  exact from_slot 15 le_rfl

/-- The number of the sectors of a cluster that `dir_next` visits. -/
def seenSects (vol : Volume) : Nat :=
  2 ^ vol.clustShift - vol.dataSect % 2 ^ vol.clustShift

theorem seenSects_pos (vol : Volume) : 1 ≤ vol.seenSects := by
  have below := Nat.mod_lt vol.dataSect (Nat.two_pow_pos vol.clustShift)
  unfold seenSects
  omega

section PowerOfTwo

variable (mask : vol.clustMsk = 2 ^ vol.clustShift - 1) (narrow : vol.clustShift ≤ 32)

include narrow in
theorem mod_two_pow_mod (number : Nat) :
    number % 2 ^ 32 % 2 ^ vol.clustShift = number % 2 ^ vol.clustShift :=
  Nat.mod_mod_of_dvd number (Nat.pow_dvd_pow 2 narrow)

include mask narrow in
/-- The test of `dir_next` for the end of a cluster. -/
theorem cluster_ends_iff (clust i : Nat) (inside : i < vol.seenSects) :
    ((vol.clustToSect clust + i) % 2 ^ 32 + 1) % 2 ^ 32 &&& vol.clustMsk = 0 ↔
      i + 1 = vol.seenSects := by
  have positive : 0 < 2 ^ vol.clustShift := Nat.two_pow_pos _
  have start : vol.clustToSect clust % 2 ^ vol.clustShift = vol.dataSect % 2 ^ vol.clustShift := by
    unfold clustToSect
    rw [mod_two_pow_mod narrow, mul_add_mod_self_right]
  have below := mod_lt vol.dataSect positive
  rw [mask, and_two_pow_sub_one_eq_mod, mod_add_mod,
    mod_two_pow_mod narrow, add_assoc, ← mod_add_mod, start]
  unfold seenSects at inside ⊢
  constructor
  · intro zero
    by_contra early
    rw [mod_eq_of_lt (by omega)] at zero
    omega
  · intro atEnd
    rw [atEnd, add_sub_of_le below.le, mod_self]

include mask narrow in
/-- The visited sectors of a cluster come before what is visited from its last
slot on. -/
theorem Visits.cluster (last : vol.Visits table
      ⟨sclust, clust, (vol.clustToSect clust + (vol.seenSects - 1)) % 2 ^ 32, 480⟩
      (⟨sclust, clust,
        (vol.clustToSect clust + (vol.seenSects - 1)) % 2 ^ 32, 480⟩ :: visited) err) :
    vol.Visits table ⟨sclust, clust, vol.clustToSect clust, 0⟩
      (vol.clustSlots sclust vol.seenSects clust ++ visited) err := by
  have positive := vol.seenSects_pos
  have from_sector : ∀ count < vol.seenSects,
      vol.Visits table
        ⟨sclust, clust, (vol.clustToSect clust + (vol.seenSects - 1 - count)) % 2 ^ 32, 0⟩
        ((List.range' (vol.seenSects - 1 - count) (count + 1)).flatMap
          (fun i => sectSlots sclust clust
            ((vol.clustToSect clust + i) % 2 ^ 32)) ++ visited) err := by
    intro count
    induction count with
    | zero =>
      intro _
      exact last.sector
    | succ count induction =>
      intro few
      have following : vol.seenSects - 1 - count = vol.seenSects - 1 - (count + 1) + 1 := by omega
      rw [range'_succ, flatMap_cons, append_assoc, ← following]
      apply Visits.sector
      apply Visits.step _ (induction (by omega))
      have inside := (cluster_ends_iff mask narrow clust
        (vol.seenSects - 1 - (count + 1)) (by omega)).not.mpr (by omega)
      unfold nextDir
      rw [if_neg (by dsimp only; omega), if_pos inside, following, mod_add_mod]
      rfl
  have all := from_sector (vol.seenSects - 1) (by omega)
  rw [Nat.sub_self, Nat.add_zero, Nat.sub_add_cancel positive] at all
  rw [clustSlots, range_eq_range']
  have start : vol.clustToSect clust % 2 ^ 32 = vol.clustToSect clust := mod_mod _ _
  rw [start] at all
  exact all

include mask narrow in
theorem nextDir_cluster :
    vol.nextDir table ⟨sclust, clust, (vol.clustToSect clust + (vol.seenSects - 1)) % 2 ^ 32, 480⟩ =
      match vol.clustFlags (vol.link table clust) with
      | some .used =>
        .ok ⟨sclust, vol.link table clust, vol.clustToSect (vol.link table clust), 0⟩
      | some .last => .error .eof
      | _ => .error .broken := by
  have positive := vol.seenSects_pos
  have atEnd := (cluster_ends_iff mask narrow clust (vol.seenSects - 1) (by omega)).mpr (by omega)
  unfold nextDir
  rw [if_neg (by dsimp only; omega), if_neg (not_not.mpr atEnd)]

include mask narrow in
theorem DirChain.visits {rest : List Nat} (chain : vol.DirChain table (start :: rest)) :
    vol.Visits table ⟨sclust, start, vol.clustToSect start, 0⟩
      ((start :: rest).flatMap (vol.clustSlots sclust vol.seenSects)) .eof := by
  induction rest generalizing start with
  | nil =>
    have last := chain.ends start rfl
    apply Visits.cluster mask narrow
    apply Visits.stop
    rw [nextDir_cluster mask narrow, last]
  | cons next rest induction =>
    obtain ⟨⟨used, isNext⟩, linked⟩ := isChain_cons_cons.mp chain.linked
    have tail : vol.DirChain table (next :: rest) :=
      ⟨linked, fun last isLast => chain.ends last (by rw [List.getLast?_cons_cons]; exact isLast),
        fun clust member =>
          chain.stored clust (mem_cons_of_mem _ member)⟩
    apply Visits.cluster mask narrow
    apply Visits.step _ (induction tail)
    rw [nextDir_cluster mask narrow, used, isNext]

end PowerOfTwo

theorem clustSlots_clust {count : Nat}
    (member : dir ∈ vol.clustSlots sclust count clust) : dir.clust = clust := by
  obtain ⟨i, _, inSector⟩ := mem_flatMap.mp member
  obtain ⟨slot, _, rfl⟩ := mem_map.mp inSector
  rfl

theorem clustSlots_length (count : Nat) :
    (vol.clustSlots sclust count clust).length = count * 16 := by
  simp [clustSlots, sectSlots, length_flatMap]

theorem chainSlots_length (count : Nat) (chain : List Nat) :
    (chain.flatMap (vol.clustSlots sclust count)).length = chain.length * (count * 16) := by
  simp [length_flatMap, clustSlots_length]

theorem meets_dirEnter (nonzero : start ≠ 0) {hangs : Prop}
    {returns : Unit → Fat × Dir → Prop} {fails : FatErr → Fat × Dir → Prop} :
    Meets (vol.dirEnter start) (fat, dir) hangs returns fails ↔
      returns () (fat, ⟨start, start, vol.clustToSect start, 0⟩) := by
  unfold dirEnter
  rw [if_neg nonzero, meets_bind, meets_modifyDir]
  exact Iff.rfl

/-- All slots are visited exactly if all sectors of a cluster are. -/
theorem DirChain.visitsAll_iff (mask : vol.clustMsk = 2 ^ vol.clustShift - 1)
    (narrow : vol.clustShift ≤ 32)
    (serves : Serves table lastUsed freeCnt fat) (dir : Dir) {rest : List Nat}
    (nonzero : start ≠ 0) (chain : vol.DirChain table (start :: rest)) :
    vol.VisitsAll fat dir start rest ↔ vol.seenSects = 2 ^ vol.clustShift := by
  have stored : vol.Stored ((start :: rest).flatMap (vol.clustSlots start vol.seenSects)) := by
    intro place member
    obtain ⟨clust, inChain, inClust⟩ := mem_flatMap.mp member
    rw [clustSlots_clust inClust]
    exact chain.stored clust inChain
  have visited := fun fuel =>
    (DirChain.visits mask narrow chain).traverse stored fuel serves
  constructor
  · rintro ⟨fuel, all⟩
    rw [meets_bind, meets_dirEnter nonzero] at all
    obtain ⟨found, after, returned, isAll⟩ := all.exists_returned
    have isSeen := (visited fuel).of_returned returned
    rw [isAll] at isSeen
    have lengths := congrArg (fun found => found.1.length) isSeen
    simp only [chainSlots_length, length_cons] at lengths
    have same := Nat.eq_of_mul_eq_mul_left (Nat.succ_pos _) lengths
    omega
  · intro complete
    refine ⟨((start :: rest).flatMap (vol.clustSlots start vol.seenSects)).length, ?_⟩
    rw [meets_bind, meets_dirEnter nonzero, ← complete]
    exact (visited _).imp (Nat.lt_irrefl _) (fun _ _ found => found) (fun _ _ failed => failed)

end Volume

/-- The slots of a directory are all visited exactly if the data area starts at
a multiple of the size of a cluster. -/
theorem traversal_complete_iff {bpb : Bpb} {lba : Nat} {name : Text}
    (isPower : ∃ shift, bpb.sectPerClust = 2 ^ shift)
    {table : Nat → Sector} {lastUsed freeCnt : Nat} {fat : Fat}
    (serves : Serves table lastUsed freeCnt fat) (dir : Dir) {start : Nat}
    {rest : List Nat} (nonzero : start ≠ 0)
    (chain : (bpb.volume lba name).DirChain table (start :: rest)) :
    (bpb.volume lba name).VisitsAll fat dir start rest ↔
      bpb.sectPerClust ∣ lba + bpb.resSectCnt + bpb.fatCnt * bpb.sectPerFat32 := by
  have size : bpb.sectPerClust = 2 ^ (bpb.volume lba name).clustShift :=
    (Bpb.eq_two_pow_ctz Bpb.sectPerClust_lt).mpr isPower
  have narrow : (bpb.volume lba name).clustShift ≤ 32 := by
    have bound := bpb.sectPerClust_lt
    rw [size] at bound
    have few := (Nat.pow_lt_pow_iff_right Nat.one_lt_two).mp bound
    omega
  have mask : (bpb.volume lba name).clustMsk = 2 ^ (bpb.volume lba name).clustShift - 1 := by
    rw [← size]
    rfl
  have start : (bpb.volume lba name).dataSect % 2 ^ (bpb.volume lba name).clustShift =
      (lba + bpb.resSectCnt + bpb.fatCnt * bpb.sectPerFat32) %
        2 ^ (bpb.volume lba name).clustShift :=
    mod_two_pow_mod narrow _
  rw [chain.visitsAll_iff mask narrow serves dir nonzero, seenSects,
    start, size, dvd_iff_mod_eq_zero]
  omega

/-! ## Volumes with larger clusters -/

/-- A boot sector with clusters of the given size; the data area starts at
sector 34. -/
def wideBoot (sectPerClust : UInt8) : Sector :=
  (tinyBoot.write 13 [sectPerClust]).putWord32 32 300000

/-- The root is a chain of one cluster. -/
def wideDisk (sectPerClust : UInt8) : Nat → Sector
  | 0 => wideBoot sectPerClust
  | 1 => smallInfo
  | 32 => smallTable
  | 33 => smallTable
  | _ => ByteBlock.zero

theorem newFat_serves (disk : Nat → Sector) (gBuf : Sector) : Serves disk 0 0 (newFat disk gBuf) :=
  ⟨rfl, WriteBack.view_of_clean rfl, fun loaded => absurd rfl loaded, rfl, rfl⟩

theorem dirChain_single {clust : Nat} (last : vol.clustFlags (vol.link table clust) = some .last)
    (stored : itemSect vol.fatSect clust ≠ 0) :
    vol.DirChain table [clust] where
  linked := isChain_singleton clust
  ends _ isLast := (Option.some.inj isLast) ▸ last
  stored _ member := (mem_singleton.mp member) ▸ stored

/-- Clusters of two sectors. -/
theorem traversal_complete_wide : ((⟨wideBoot 2⟩ : Bpb).volume 0 rootName).VisitsAll
      (newFat (wideDisk 2) ByteBlock.zero) stackDir 2 [] := by
  have chain : ((⟨wideBoot 2⟩ : Bpb).volume 0 rootName).DirChain (wideDisk 2) [2] :=
    dirChain_single (by decide +kernel) (by decide +kernel)
  rw [traversal_complete_iff ⟨1, by decide +kernel⟩ (newFat_serves _ _) stackDir (by decide) chain]
  decide +kernel

/-- Clusters of four sectors: the last two of the root are never visited. -/
theorem traversal_misses_sectors :
    ∃ vol fat, fatMount 0 rootName (newFat (wideDisk 4) ByteBlock.zero) = some (.ok vol, fat) ∧
      vol.DirChain fat.cache.view [2] ∧
      ¬vol.VisitsAll fat stackDir 2 [] := by
  have evaluated : Mounts (wideDisk 4) fun vol fat =>
      (fat.Quiet ∧ fat.cache.address = 0) ∧
      (vol.clustShift = 2 ∧ vol.clustMsk = 3 ∧ vol.dataSect = 34) ∧
      vol.clustFlags (vol.link fat.cache.view 2) = some .last ∧
      itemSect vol.fatSect 2 ≠ 0 := by
    decide +kernel
  obtain ⟨vol, fat, mounted, ⟨quiet, empty⟩, ⟨shift, mask, data⟩, last,
    stored⟩ := evaluated.exists_returned
  have serves : Serves fat.cache.view fat.lastUsed fat.freeCnt fat :=
    ⟨quiet, rfl, fun loaded => absurd empty loaded, rfl, rfl⟩
  have chain := dirChain_single last stored
  refine ⟨vol, fat, mounted, chain, ?_⟩
  rw [chain.visitsAll_iff (by rw [mask, shift]; rfl) (by omega) serves
    stackDir (by decide), seenSects, shift, data]
  decide

end SeekOs.Fat32
