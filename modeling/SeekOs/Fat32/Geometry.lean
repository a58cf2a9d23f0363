import SeekOs.Fat32.Allocation

/-!
# The geometry of a volume

`check_fat` is the only look at a boot sector before its fields are used.  It
subtracts without asking whether the result is negative, it divides by a field
that may be zero, and it does not look at the root.  The clusters of a volume
are counted by the entries that its table has room for, not by its sectors.
-/

namespace SeekOs.Fat32

open SeekOs.Fs SeekOs.Lib SeekOs.Lib.Action Volume ByteBlock

/-! ## The boot sector -/

namespace Bpb

variable (bpb : Bpb)

/-- The sectors before the first cluster. -/
def headSectCnt : Nat :=
  bpb.resSectCnt + bpb.fatCnt * bpb.sectPerFat32

/-- The clusters that the volume has sectors for. -/
def dataClustCnt : Nat :=
  (bpb.sectCnt32 - bpb.headSectCnt) / bpb.sectPerClust

/-- What `fat_mount` relies on. -/
structure Coherent (vol : Volume) : Prop where
  sectPerClust : bpb.sectPerClust = 2 ^ vol.clustShift
  clustMsk : vol.clustMsk + 1 = bpb.sectPerClust
  fits : bpb.headSectCnt ≤ bpb.sectCnt32
  clusters : 65525 ≤ bpb.dataClustCnt
  root : 2 ≤ bpb.rootCluster ∧ bpb.rootCluster < bpb.dataClustCnt + 2

/-- `check_fat` returns, and what it accepts is coherent. -/
def Validated (lba : Nat) (name : Text) : Prop :=
  ∀ fat, Meets (checkFat bpb) fat False
    (fun accepted _ => accepted = true → bpb.Coherent (bpb.volume lba name))
    (fun _ _ => False)

/-- If the other fields are accepted, clusters have sectors; and if the count of
clusters is accepted too, then the size of a cluster is a power of two, the
tables fit and the root is a cluster. -/
def SoundFields : Prop :=
  bpb.fieldsOk → bpb.sectPerClust ≠ 0 ∧
    (65525 ≤ bpb.dataSectCnt / bpb.sectPerClust → (∃ shift, bpb.sectPerClust = 2 ^ shift) ∧
      bpb.headSectCnt ≤ bpb.sectCnt32 ∧
      2 ≤ bpb.rootCluster ∧ bpb.rootCluster < bpb.dataClustCnt + 2)

variable {bpb}

theorem sectPerClust_lt : bpb.sectPerClust < 2 ^ 8 := UInt8.toNat_lt _

theorem ctz_two_pow {shift : Nat} (small : shift < 8) : ctz (2 ^ shift) = shift := by
  revert small
  revert shift
  decide

/-- `clust_shift` is the size of a cluster exactly if that is a power of two. -/
theorem eq_two_pow_ctz {value : Nat} (small : value < 2 ^ 8) :
    value = 2 ^ ctz value ↔ ∃ shift, value = 2 ^ shift := by
  constructor
  · exact fun same => ⟨_, same⟩
  · rintro ⟨shift, rfl⟩
    have few : shift < 8 := (Nat.pow_lt_pow_iff_right Nat.one_lt_two).mp small
    rw [ctz_two_pow few]

/-- Without an underflow `check_fat` counts the sectors that are left. -/
theorem dataSectCnt_of_fits (fits : bpb.headSectCnt ≤ bpb.sectCnt32) :
    bpb.dataSectCnt = bpb.sectCnt32 - bpb.headSectCnt := by
  have small : bpb.sectCnt32 < 2 ^ 32 := word32_lt _ _
  unfold headSectCnt at fits ⊢
  unfold dataSectCnt
  omega

/-- The count of clusters is the one that was checked, so that a coherent boot
sector is one whose fields make sense. -/
theorem coherent_iff {lba : Nat} {name : Text} (nonzero : bpb.sectPerClust ≠ 0)
    (clusters : 65525 ≤ bpb.dataSectCnt / bpb.sectPerClust) :
    bpb.Coherent (bpb.volume lba name) ↔
      (∃ shift, bpb.sectPerClust = 2 ^ shift) ∧ bpb.headSectCnt ≤ bpb.sectCnt32 ∧
        2 ≤ bpb.rootCluster ∧ bpb.rootCluster < bpb.dataClustCnt + 2 := by
  rw [← eq_two_pow_ctz sectPerClust_lt]
  constructor
  · intro coherent
    exact ⟨coherent.sectPerClust, coherent.fits, coherent.root⟩
  · rintro ⟨isPower, fits, root⟩
    refine ⟨isPower, ?_, fits, ?_, root⟩
    · change bpb.sectPerClust - 1 + 1 = _
      omega
    · rw [dataSectCnt_of_fits fits] at clusters
      exact clusters

end Bpb

namespace Volume

variable {vol : Volume}

theorem nextClust_lt_max (clust : Nat) : vol.nextClust clust < max vol.clustCnt 3 := by
  change (if vol.clustCnt ≤ (clust + 1) % 2 ^ 32 then 2
    else (clust + 1) % 2 ^ 32) < _
  split
  · omega
  · omega

/-- The last cluster that the table has an entry for follows some hint. -/
theorem nextClust_last (few : vol.clustCnt < 2 ^ 32) :
    vol.nextClust (max vol.clustCnt 3 - 2) = max vol.clustCnt 3 - 1 := by
  change (if vol.clustCnt ≤ (max vol.clustCnt 3 - 2 + 1) % 2 ^ 32 then 2
    else (max vol.clustCnt 3 - 2 + 1) % 2 ^ 32) = _
  by_cases many : 3 ≤ vol.clustCnt
  · rw [if_neg (by omega)]
    omega
  · rw [if_pos (by omega)]
    omega

theorem two_le_nextClust {clust : Nat} (positive : 1 ≤ clust)
    (small : clust < 2 ^ 32 - 1) : 2 ≤ vol.nextClust clust := by
  change 2 ≤ if vol.clustCnt ≤ (clust + 1) % 2 ^ 32 then 2
    else (clust + 1) % 2 ^ 32
  split
  · omega
  · omega

/-- A cluster, as far as the table has entries. -/
def InTable (vol : Volume) (clust : Nat) : Prop :=
  2 ≤ clust ∧ clust < max vol.clustCnt 3

theorem getFat_inTable (vol : Volume) (clust : Nat) (fat : Fat) :
    Meets (vol.getFat clust) fat True (fun result _ => result.2 = .used → vol.InTable result.1)
      (fun _ _ => True) := by
  apply (Meets.any _ fat).bind
  intro _ after _
  rw [meets_bind, meets_get]
  cases isFlags : vol.clustFlags (itemVal after.cache.block clust) with
  | none => trivial
  | some flags =>
    intro used
    subst used
    unfold clustFlags at isFlags
    split at isFlags
    · cases isFlags
    · split at isFlags
      · cases isFlags
      · split at isFlags
        · cases isFlags
        · split at isFlags
          · rename_i bounds
            exact ⟨bounds.1, bounds.2.trans_le (Nat.le_max_left _ _)⟩
          · cases isFlags

variable (few : vol.clustCnt < 2 ^ 32)
include few

theorem scanLoop_inTable (fuel : Nat) :
    ∀ {fat : Fat} {seen : Option ClustFlags} {clust : Nat}, 1 ≤ clust → clust < 2 ^ 32 - 1 →
      Meets (vol.scanLoop fuel seen clust) fat True
        (fun found _ => vol.InTable found) (fun _ _ => True) := by
  induction fuel with
  | zero =>
    intro fat seen clust _ _
    trivial
  | succ fuel induction =>
    intro fat seen clust positive small
    have isNext : vol.InTable (vol.nextClust clust) :=
      ⟨two_le_nextClust positive small, nextClust_lt_max clust⟩
    rw [scanLoop, meets_bind, meets_get]
    by_cases back : vol.nextClust clust = fat.lastUsed
    · rw [if_pos back]
      trivial
    · rw [if_neg back]
      apply (Meets.any _ fat).bind
      intro outcome after _
      cases outcome with
      | error error => trivial
      | ok result =>
        change Meets (if result.2 = .free then _ else _) _ _ _ _
        split
        · exact isNext
        · obtain ⟨two_le, below⟩ := isNext
          exact induction (by omega) (by omega)

variable {prev : Nat}

variable {fat : Fat}

theorem findFree_inTable (isPrev : prev = 0 ∨ vol.InTable prev) (positive : 1 ≤ fat.lastUsed)
    (small : fat.lastUsed < 2 ^ 32 - 1) :
    Meets (vol.findFree prev) fat True (fun found _ => vol.InTable found) (fun _ _ => True) := by
  rw [findFree, meets_bind, meets_get]
  split
  · exact scanLoop_inTable few _ positive small
  · rename_i nonzero
    apply (Meets.any _ fat).bind
    rintro ⟨_, flags⟩ after _
    change Meets (if flags = .free then _ else _) _ _ _ _
    split
    · obtain ⟨two_le, below⟩ := isPrev.resolve_left nonzero
      refine ⟨two_le_nextClust ?_ ?_, nextClust_lt_max prev⟩
      · omega
      · omega
    · exact scanLoop_inTable few _ positive small

omit few in
theorem takeClust_returns (vol : Volume) (prev clust : Nat) (fat : Fat) :
    Meets (vol.takeClust prev clust) fat True (fun taken _ => taken = clust) (fun _ _ => True) := by
  have ends : ∀ put : Fat, Meets (Action.modify (fun fat : Fat =>
        { fat with
          lastUsed := clust
          freeCnt := (fat.freeCnt + (2 ^ 32 - 1)) % 2 ^ 32 }) >>=
      fun _ => vol.syncFs >>= fun _ => pure clust) put True
      (fun taken _ => taken = clust) (fun _ _ => True) := by
    intro put
    rw [meets_bind, meets_modify]
    apply (Meets.any _ _).bind
    exact fun _ _ _ => rfl
  apply (Meets.any _ fat).bind
  intro _ put _
  by_cases linked : prev ≠ 0
  · rw [if_pos linked]
    apply (Meets.any _ put).bind
    exact fun _ after _ => ends after
  · rw [if_neg linked]
    exact ends put

/-- `stretch_chain` returns the cluster that its search found. -/
theorem stretchChain_inTable (isPrev : prev = 0 ∨ vol.InTable prev) (positive : 1 ≤ fat.lastUsed)
    (small : fat.lastUsed < 2 ^ 32 - 1) :
    Meets (vol.stretchChain prev) fat True
      (fun clust _ => vol.InTable clust) (fun _ _ => True) := by
  apply (findFree_inTable few isPrev (by exact positive) (by exact small)).bind
  intro clust found inTable
  apply (takeClust_returns vol prev clust found).imp id
  · rintro taken _ rfl
    exact inTable
  · exact fun _ _ _ => trivial

omit few

theorem takeClust_quiet (vol : Volume) (quiet : fat.Quiet) (prev clust : Nat) :
    Meets (vol.takeClust prev clust) fat False
      (fun taken _ => taken = clust) (fun _ _ => False) := by
  rw [takeClust, meets_bind, meets_putFat vol quiet]
  by_cases linked : prev ≠ 0
  · rw [if_pos linked, meets_bind, meets_putFat vol (by exact quiet),
      meets_bind, meets_modify, meets_bind, meets_syncFs vol (by exact quiet),
      meets_pure]
  · rw [if_neg linked, meets_bind, meets_modify, meets_bind,
      meets_syncFs vol (by exact quiet), meets_pure]

theorem scanLoop_first (quiet : fat.Quiet) {start clust : Nat}
    (next : vol.nextClust start = clust) (notBack : clust ≠ fat.lastUsed)
    (free : itemVal (fat.cache.load (itemSect vol.fatSect clust)).block clust = 0)
    (fuel : Nat) (seen : Option ClustFlags) :
    Meets (vol.scanLoop (fuel + 1) seen start) fat False
      (fun found after => found = clust ∧ after.Quiet) (fun _ _ => False) := by
  subst next
  rw [scanLoop, meets_bind, meets_get, if_neg notBack, meets_bind,
    meets_outcome, meets_getFat vol quiet, free]
  exact ⟨rfl, quiet⟩

/-- A disk without any contents, and a hint. -/
def blankFat (lastUsed : Nat) : Fat :=
  { newFat (fun _ => ByteBlock.zero) ByteBlock.zero with
    infoDirty := true
    lastUsed := lastUsed }

theorem stretchChain_blank {hint clust : Nat}
    (next : vol.nextClust hint = clust) (apart : clust ≠ hint) :
    ∃ after, vol.stretchChain 0 (blankFat hint) = some (.ok clust, after) := by
  have free : itemVal ((blankFat hint).cache.load
      (itemSect vol.fatSect clust)).block clust = 0 := by
    have loaded : ((blankFat hint).cache.load
        (itemSect vol.fatSect clust)).block = zero := by
      unfold WriteBack.load
      split
      · rfl
      · rfl
    rw [loaded, itemVal, word32_zero, Nat.zero_mod]
  have found : Meets (vol.findFree 0) (blankFat hint) False
      (fun found after => found = clust ∧ after.Quiet) (fun _ _ => False) := by
    exact scanLoop_first (show (blankFat hint).Quiet from rfl) next apart free _ _
  have meets : Meets (vol.stretchChain 0) (blankFat hint) False
      (fun taken _ => taken = clust) (fun _ _ => False) := by
    rw [stretchChain_eq, meets_bind, setInfoDirty, meets_modify]
    apply found.bind
    rintro taken after ⟨rfl, quiet⟩
    exact takeClust_quiet vol quiet 0 taken
  obtain ⟨taken, after, returned, rfl⟩ := meets.exists_returned
  exact ⟨after, returned⟩

end Volume

/-- The sectors of a cluster are sectors of the volume behind its tables, and no
number on the way to them is too large. -/
structure Bpb.OnVolume (bpb : Bpb) (lba : Nat) (vol : Volume) (clust : Nat) :
    Prop where
  unwrapped : vol.clustToSect clust + 2 * 2 ^ vol.clustShift =
    lba + bpb.headSectCnt + clust * 2 ^ vol.clustShift
  start : vol.dataSect ≤ vol.clustToSect clust
  ends : vol.clustToSect clust + 2 ^ vol.clustShift ≤ lba + bpb.sectCnt32
  small : vol.clustToSect clust + 2 ^ vol.clustShift ≤ 2 ^ 32

/-- This is so for the clusters that `stretch_chain` returns, for a chain of a
cluster and from a hint, and for the links that `get_fat` returns. -/
structure Bpb.ClustersOnVolume (bpb : Bpb) (lba : Nat) (vol : Volume) : Prop where
  stretched : ∀ {prev : Nat} {fat after : Fat} {clust : Nat},
    prev = 0 ∨ vol.InTable prev → 1 ≤ fat.lastUsed →
    fat.lastUsed < 2 ^ 32 - 1 →
    vol.stretchChain prev fat = some (.ok clust, after) →
    bpb.OnVolume lba vol clust
  linked : ∀ {clust next : Nat} {fat after : Fat},
    vol.getFat clust fat = some (.ok (next, .used), after) →
    bpb.OnVolume lba vol next

/-- There are sectors for all the clusters that the table has entries for. -/
def Bpb.TableFits (bpb : Bpb) (lba : Nat) : Prop :=
  lba + bpb.headSectCnt + (max (bpb.sectPerFat32 * 128 % 2 ^ 32) 3 - 2) * 2 ^ ctz bpb.sectPerClust ≤
    min (lba + bpb.sectCnt32) (2 ^ 32)

theorem Bpb.TableFits.onVolume {bpb : Bpb} {lba : Nat} {name : Text}
    (fits : bpb.TableFits lba) {clust : Nat}
    (inTable : (bpb.volume lba name).InTable clust) :
    bpb.OnVolume lba (bpb.volume lba name) clust := by
  obtain ⟨two_le, below⟩ := inTable
  obtain ⟨place, rfl⟩ := Nat.exists_eq_add_of_le two_le
  have room : (place + 1) * 2 ^ ctz bpb.sectPerClust ≤
      (max (bpb.sectPerFat32 * 128 % 2 ^ 32) 3 - 2) * 2 ^ ctz bpb.sectPerClust := by
    apply Nat.mul_le_mul_right
    change 2 + place < max (bpb.sectPerFat32 * 128 % 2 ^ 32) 3 at below
    omega
  unfold TableFits at fits
  have positive : 0 < 2 ^ ctz bpb.sectPerClust := Nat.two_pow_pos _
  rw [Nat.succ_mul] at room
  have data : (bpb.volume lba name).dataSect = lba + bpb.headSectCnt := by
    change (lba + bpb.resSectCnt + bpb.fatCnt * bpb.sectPerFat32) % 2 ^ 32 = _
    rw [Nat.add_assoc]
    apply Nat.mod_eq_of_lt
    change lba + bpb.headSectCnt < _
    omega
  have sect : (bpb.volume lba name).clustToSect (2 + place) =
      place * 2 ^ ctz bpb.sectPerClust + (lba + bpb.headSectCnt) := by
    have shifted : 2 + place + (2 ^ 32 - 2) = place + 2 ^ 32 := by
      omega
    unfold clustToSect
    rw [data, shifted, Nat.add_mul, Nat.add_right_comm, Nat.add_mul_mod_self_left]
    apply Nat.mod_eq_of_lt
    change place * 2 ^ ctz bpb.sectPerClust + (lba + bpb.headSectCnt) < _
    omega
  constructor
  · rw [sect, Nat.add_mul]
    change place * 2 ^ ctz bpb.sectPerClust + (lba + bpb.headSectCnt) +
      2 * 2 ^ ctz bpb.sectPerClust = lba + bpb.headSectCnt +
        (2 * 2 ^ ctz bpb.sectPerClust + place * 2 ^ ctz bpb.sectPerClust)
    omega
  · rw [sect, data]
    omega
  · rw [sect]
    change _ + 2 ^ ctz bpb.sectPerClust ≤ _
    omega
  · rw [sect]
    change _ + 2 ^ ctz bpb.sectPerClust ≤ _
    omega

/-- A volume with fewer clusters than its table has entries, and the hint
before the last entry. -/
def shortDisk : Nat → Sector
  | 0 => (smallBoot 0).putWord32 32 66581
  | 1 => smallInfo.putWord32 492 65534
  | sect + 2 => smallDisk 0 (sect + 2)

/-- The last entry of the table belongs to no sectors; and from the hint zero
the first cluster to be taken is one. -/
theorem cluster_behind_volume :
    (∃ vol fat after, fatMount 0 rootName (newFat shortDisk zero) = some (.ok vol, fat) ∧
      vol.stretchChain 0 fat = some (.ok 65535, after) ∧
      ¬Bpb.OnVolume ⟨shortDisk 0⟩ 0 vol 65535) ∧
    ∃ vol fat after,
      fatMount 0 rootName (newFat (tinyDisk zero 0) zero) = some (.ok vol, fat) ∧
      vol.stretchChain 0 fat = some (.ok 1, after) ∧
      ¬Bpb.OnVolume ⟨tinyBoot⟩ 0 vol 1 := by
  constructor
  · have evaluated : Mounts shortDisk fun vol fat =>
        Meets (vol.stretchChain 0) fat False
          (fun clust _ => clust = 65535 ∧
            ¬vol.clustToSect 65535 + 2 ^ vol.clustShift ≤ 0 + Bpb.sectCnt32 ⟨shortDisk 0⟩)
          (fun _ _ => False) := by
      decide +kernel
    obtain ⟨vol, fat, mounted, meets⟩ := evaluated.exists_returned
    obtain ⟨clust, after, returned, rfl, behind⟩ := meets.exists_returned
    exact ⟨vol, fat, after, mounted, returned, fun on => behind on.ends⟩
  · have evaluated : Mounts (tinyDisk zero 0) fun vol fat =>
        Meets (vol.stretchChain 0) fat False
          (fun clust _ => clust = 1 ∧ ¬vol.dataSect ≤ vol.clustToSect 1) (fun _ _ => False) := by
      decide +kernel
    obtain ⟨vol, fat, mounted, meets⟩ := evaluated.exists_returned
    obtain ⟨clust, after, returned, rfl, before⟩ := meets.exists_returned
    exact ⟨vol, fat, after, mounted, returned, fun on => before on.start⟩

/-- Allocated clusters and links are on the volume exactly if all clusters are
that the table has entries for. -/
theorem clusters_on_volume_iff (bpb : Bpb) (lba : Nat) (name : Text) :
    bpb.ClustersOnVolume lba (bpb.volume lba name) ↔ bpb.TableFits lba := by
  have few : (bpb.volume lba name).clustCnt < 2 ^ 32 := Nat.mod_lt _ (Nat.two_pow_pos 32)
  constructor
  · intro onVolume
    obtain ⟨after, returned⟩ := stretchChain_blank (nextClust_last few) (by omega)
    obtain ⟨unwrapped, _, ends, small⟩ := onVolume.stretched (.inl rfl)
      (show 1 ≤ max (bpb.sectPerFat32 * 128 % 2 ^ 32) 3 - 2 by omega)
      (show max (bpb.sectPerFat32 * 128 % 2 ^ 32) 3 - 2 < 2 ^ 32 - 1 by omega)
      returned
    change clustToSect _ (max (bpb.sectPerFat32 * 128 % 2 ^ 32) 3 - 1) +
      2 * 2 ^ Bpb.ctz bpb.sectPerClust = lba + bpb.headSectCnt +
        (max (bpb.sectPerFat32 * 128 % 2 ^ 32) 3 - 1) * 2 ^ Bpb.ctz bpb.sectPerClust at unwrapped
    change clustToSect _ (max (bpb.sectPerFat32 * 128 % 2 ^ 32) 3 - 1) +
      2 ^ Bpb.ctz bpb.sectPerClust ≤ _ at ends
    change clustToSect _ (max (bpb.sectPerFat32 * 128 % 2 ^ 32) 3 - 1) +
      2 ^ Bpb.ctz bpb.sectPerClust ≤ _ at small
    obtain ⟨place, isPlace⟩ : ∃ place, max (bpb.sectPerFat32 * 128 % 2 ^ 32) 3 = place + 3 :=
      ⟨_, (Nat.sub_add_cancel (Nat.le_max_right _ _)).symm⟩
    rw [isPlace] at unwrapped ends small
    unfold Bpb.TableFits
    rw [isPlace]
    change _ + (place + 1) * 2 ^ Bpb.ctz bpb.sectPerClust ≤ _
    have isLast : (place + 3 - 1) * 2 ^ Bpb.ctz bpb.sectPerClust =
        (place + 1) * 2 ^ Bpb.ctz bpb.sectPerClust +
          2 ^ Bpb.ctz bpb.sectPerClust := Nat.succ_mul _ _
    omega
  · intro fits
    constructor
    · intro prev fat after clust isPrev positive small returned
      exact fits.onVolume ((stretchChain_inTable few isPrev positive small).of_returned returned)
    · intro clust next fat after returned
      exact fits.onVolume (((bpb.volume lba name).getFat_inTable clust
        fat).of_returned returned rfl)

end SeekOs.Fat32
