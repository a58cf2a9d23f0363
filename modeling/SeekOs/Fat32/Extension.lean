import SeekOs.Fat32.Hints
import Mathlib.Order.Interval.Finset.Nat

/-!
# Following a chain beyond its end

`fat_file_seek` follows the chain of a file and takes free clusters when the
chain ends.  How far it comes is decided by the links that are there and by the
number of free clusters: once one cluster was taken, the search starts at a
cluster in use and finds every free one.
-/

namespace SeekOs.Fat32

open SeekOs.Lib SeekOs.Lib.Action Finset

namespace Volume

variable (vol : Volume)

def IsClust (clust : Nat) : Prop :=
  2 ≤ clust ∧ clust < vol.clustCnt

def freeClusts (table : Nat → Sector) : Finset Nat :=
  (Finset.Ico 2 vol.clustCnt).filter fun clust => vol.link table clust = 0

/-- The search for a cluster to extend a chain with meets a free one. -/
def Ready (table : Nat → Sector) (lastUsed prev : Nat) : Prop :=
  vol.link table (vol.nextClust prev) = 0 ∨ vol.FreeApart table lastUsed

/-- A number of links can be followed from a cluster: they are there, or the
chain ends and there are as many free clusters as are missing. -/
def Reaches (table : Nat → Sector) (lastUsed : Nat) : Nat → Nat → Prop
  | 0, _ => True
  | count + 1, clust =>
    (vol.clustFlags (vol.link table clust) = some .used ∧
      Reaches table lastUsed count (vol.link table clust)) ∨
    (vol.clustFlags (vol.link table clust) = some .last ∧ vol.Ready table lastUsed clust ∧
      count + 1 ≤ (vol.freeClusts table).card)

variable {vol} {table : Nat → Sector} {lastUsed freeCnt : Nat} {fat : Fat} {clust : Nat}
  {count clust : Nat}

theorem mem_freeClusts :
    clust ∈ vol.freeClusts table ↔ vol.IsClust clust ∧ vol.link table clust = 0 := by
  unfold freeClusts IsClust
  rw [mem_filter, mem_Ico]

theorem reaches_used (used : vol.clustFlags (vol.link table clust) = some .used) :
    vol.Reaches table lastUsed (count + 1) clust ↔
      vol.Reaches table lastUsed count (vol.link table clust) := by
  rw [Reaches, used]
  simp

theorem reaches_last (last : vol.clustFlags (vol.link table clust) = some .last) :
    vol.Reaches table lastUsed (count + 1) clust ↔
      vol.Ready table lastUsed clust ∧ count + 1 ≤ (vol.freeClusts table).card := by
  rw [Reaches, last]
  simp

theorem isClust_of_used {val : Nat} (used : vol.clustFlags val = some .used) : vol.IsClust val := by
  unfold clustFlags at used
  split at used
  · cases used
  · split at used
    · cases used
    · split at used
      · cases used
      · split at used
        · assumption
        · cases used

theorem LaidOut.flags_clust (laidOut : vol.LaidOut)
    (isClust : vol.IsClust clust) : vol.clustFlags clust = some .used := by
  obtain ⟨two_le, inside⟩ := isClust
  have few := laidOut.few_clust
  unfold clustFlags
  rw [if_neg (by omega), if_neg (by omega), if_neg (by omega), if_pos ⟨two_le, inside⟩]

theorem flags_last : vol.clustFlags 0x0fffffff = some .last := rfl

/-! ## Taking one more cluster -/

/-- The volume works: no disk operation fails, the table is as given and its
entries are valid, and the hint is known. -/
structure Usable (vol : Volume) (table : Nat → Sector) (lastUsed freeCnt : Nat)
    (fat : Fat) : Prop where
  serves : Serves table lastUsed freeCnt fat
  valid : vol.ValidEntries table
  positive : 1 ≤ lastUsed
  known : lastUsed < 2 ^ 32 - 1

section Stretched

variable {after : Nat → Sector} {prev : Nat}
  (stretched : vol.Stretched table after prev clust)
  (isPrev : vol.IsClust prev) (isClust : vol.IsClust clust)
include stretched isPrev isClust

theorem Stretched.validEntries (laidOut : vol.LaidOut)
    (valid : vol.ValidEntries table) : vol.ValidEntries after := by
  have nonzero : prev ≠ 0 := by
    rintro rfl
    exact absurd isPrev.1 (by omega)
  intro other two_le inside
  by_cases isNew : other = clust
  · rw [isNew, stretched.last, flags_last]
    exact Option.some_ne_none _
  · by_cases isOld : other = prev
    · rw [isOld, stretched.linked nonzero, laidOut.flags_clust isClust]
      exact Option.some_ne_none _
    · rw [stretched.others other inside isNew isOld]
      exact valid other two_le inside

theorem Stretched.freeClusts (taken : vol.link table prev ≠ 0) :
    vol.freeClusts after = (vol.freeClusts table).erase clust := by
  have nonzero : prev ≠ 0 := by
    rintro rfl
    exact absurd isPrev.1 (by omega)
  ext other
  rw [mem_erase, mem_freeClusts, mem_freeClusts]
  by_cases isNew : other = clust
  · rw [isNew, stretched.last]
    simp
  · by_cases isOld : other = prev
    · rw [isOld, stretched.linked nonzero]
      have positive := isClust.1
      constructor
      · intro free
        omega
      · intro free
        exact absurd free.2.2 taken
    · constructor
      · rintro ⟨isOther, free⟩
        rw [stretched.others other isOther.2 isNew isOld] at free
        exact ⟨isNew, isOther, free⟩
      · rintro ⟨_, isOther, free⟩
        rw [stretched.others other isOther.2 isNew isOld]
        exact ⟨isOther, free⟩

theorem Stretched.reaches (taken : vol.link table prev ≠ 0)
    (free : vol.link table clust = 0) (count : Nat) :
    vol.Reaches after clust count clust ↔ count + 1 ≤ (vol.freeClusts table).card := by
  have isFree : clust ∈ vol.freeClusts table := mem_freeClusts.mpr ⟨isClust, free⟩
  have card := card_erase_add_one isFree
  rw [← stretched.freeClusts isPrev isClust taken] at card
  cases count with
  | zero =>
    refine iff_of_true trivial ?_
    omega
  | succ count =>
    rw [reaches_last (by rw [stretched.last]; exact flags_last)]
    constructor
    · rintro ⟨_, enough⟩
      omega
    · intro enough
      refine ⟨.inr ?_, by omega⟩
      obtain ⟨other, isOther⟩ := card_pos.mp (show 0 < (vol.freeClusts after).card by omega)
      obtain ⟨⟨two_le, inside⟩, stillFree⟩ := mem_freeClusts.mp isOther
      refine ⟨other, two_le, inside, ?_, stillFree⟩
      rintro rfl
      rw [stretched.last] at stillFree
      cases stillFree

end Stretched

section Stretch

variable (laidOut : vol.LaidOut)
  (usable : vol.Usable table lastUsed freeCnt fat) {prev : Nat}
  (isPrev : vol.IsClust prev)
include laidOut usable isPrev

theorem LaidOut.stretchChain_ready (taken : vol.link table prev ≠ 0)
    (ready : vol.Ready table lastUsed prev) :
    Meets (vol.stretchChain prev) fat False
      (fun clust after => vol.IsClust clust ∧ vol.link table clust = 0 ∧
        ∃ table' freeCnt', Serves table' clust freeCnt' after ∧ vol.IsSystem after.cache.address ∧
          vol.Stretched table table' prev clust)
      (fun _ _ => False) := by
  have marked := usable.serves.setInfoDirty
  have found : Meets (vol.findFree prev) { fat with infoDirty := true } False
      (fun clust after => 2 ≤ clust ∧ clust < vol.clustCnt ∧ clust ≠ prev ∧
        vol.link table clust = 0 ∧ Serves table lastUsed freeCnt after)
      (fun _ _ => False) := by
    by_cases free : vol.link table (vol.nextClust prev) = 0
    · apply (laidOut.findFree_next marked isPrev.1 isPrev.2 free).mono
      rintro clust after ⟨rfl, serves⟩
      have next := laidOut.nextClust_of_clust isPrev.1 isPrev.2
      refine ⟨next.1, next.2, ?_, free, serves⟩
      intro same
      rw [same] at free
      exact taken free
    · apply laidOut.findFree_scan usable.valid marked (.inr ⟨isPrev.1, isPrev.2, free⟩)
      intro seen after serves
      apply (laidOut.scan_meets usable.valid serves usable.positive
        usable.known (ready.resolve_left free)).mono
      rintro clust final ⟨two_le, inside, _, isFree, servesFinal⟩
      refine ⟨two_le, inside, ?_, isFree, servesFinal⟩
      rintro rfl
      exact taken isFree
  apply (laidOut.stretchChain isPrev.2 found).mono
  rintro clust after ⟨two_le, inside, _, free, table', serves, system, stretched⟩
  exact ⟨⟨two_le, inside⟩, free, table', _, serves, system, stretched⟩

/-- Otherwise the volume is reported full, unless the search has no end. -/
theorem LaidOut.stretchChain_unready (unready : ¬vol.Ready table lastUsed prev) :
    Meets (vol.stretchChain prev) fat (¬vol.IsClust lastUsed) (fun _ _ => False)
      (fun error after => error = .full ∧ Serves table lastUsed freeCnt after) := by
  have marked := usable.serves.setInfoDirty
  have taken : vol.link table (vol.nextClust prev) ≠ 0 := fun free => unready (.inl free)
  have noneApart : ¬vol.FreeApart table lastUsed := fun free => unready (.inr free)
  rw [stretchChain_eq, meets_bind, Fat32.setInfoDirty, meets_modify, meets_bind]
  apply laidOut.findFree_scan usable.valid marked (.inr ⟨isPrev.1, isPrev.2, taken⟩)
  intro seen after serves
  apply (laidOut.scan_misses usable.valid serves usable.positive usable.known noneApart).mono
  exact fun _ _ returned => returned.elim

end Stretch

/-! ## The loop of `fat_file_seek` -/

/-- What the loop of `fat_file_seek` leaves when it has followed all links. -/
structure Moved (vol : Volume) (table : Nat → Sector) (lastUsed count clust : Nat)
    (table' : Nat → Sector) (lastUsed' clust' : Nat) : Prop where
  isClust : vol.IsClust clust'
  chain : vol.follow table' count clust = some clust'
  more : ∀ more, vol.Reaches table' lastUsed' more clust' ↔
    vol.Reaches table lastUsed (count + more) clust
  used : ∀ other, vol.IsClust other →
    vol.clustFlags (vol.link table other) = some .used →
    vol.link table' other = vol.link table other
  frame : ∀ sect, ¬vol.IsSystem sect → table' sect = table sect
  shrinks : vol.freeClusts table' ⊆ vol.freeClusts table
  takes : vol.follow table count clust = none → vol.freeClusts table' ≠ vol.freeClusts table

/-- What it leaves when it fails: the handle is in a cluster from which there is
no link. -/
structure Stuck (vol : Volume) (table : Nat → Sector) (lastUsed count clust : Nat)
    (error : FatErr) (table' : Nat → Sector) (clust' : Nat) : Prop where
  blocked : ¬vol.Reaches table lastUsed count clust
  stays : ¬vol.Reaches table lastUsed 1 clust → clust' = clust ∧ table' = table
  moves : vol.Reaches table lastUsed 1 clust → vol.clustFlags (vol.link table' clust) = some .used
  ends : vol.clustFlags (vol.link table' clust') ≠ some .used
  used : ∀ other, vol.IsClust other →
    vol.clustFlags (vol.link table other) = some .used →
    vol.link table' other = vol.link table other
  reason : error = .full ∨ ∃ place other,
    vol.follow table place clust = some other ∧
    vol.clustFlags (vol.link table other) ≠ some .used ∧
    vol.clustFlags (vol.link table other) ≠ some .last

section Steps

variable {table' : Nat → Sector} {lastUsed' clust' : Nat} {error : FatErr}

theorem follow_last (last : vol.clustFlags (vol.link table clust) = some .last) :
    vol.follow table (count + 1) clust = none := by
  rw [follow, last]
  simp

section

variable (isClust : vol.IsClust clust)
include isClust

theorem Moved.refl : vol.Moved table lastUsed 0 clust table lastUsed clust where
  isClust := isClust
  chain := rfl
  more more := by rw [Nat.zero_add]
  used _ _ _ := rfl
  frame _ _ := rfl
  shrinks := Finset.Subset.refl _
  takes ended := nomatch ended

section

variable (used : vol.clustFlags (vol.link table clust) = some .used)
include used

theorem follow_used :
    vol.follow table (count + 1) clust = vol.follow table count (vol.link table clust) := by
  rw [follow, if_pos ⟨isClust.2, used⟩]

theorem Moved.after_used
    (moved : vol.Moved table lastUsed count (vol.link table clust) table' lastUsed' clust') :
    vol.Moved table lastUsed (count + 1) clust table' lastUsed' clust' where
  isClust := moved.isClust
  chain := by
    have kept := moved.used clust isClust used
    rw [follow_used isClust (by rw [kept]; exact used), kept]
    exact moved.chain
  more more := by
    rw [moved.more, Nat.succ_add, reaches_used used]
  used := moved.used
  frame := moved.frame
  shrinks := moved.shrinks
  takes ended := moved.takes (by rwa [follow_used isClust used] at ended)

theorem Stuck.after_used
    (stuck : vol.Stuck table lastUsed count (vol.link table clust) error table' clust') :
    vol.Stuck table lastUsed (count + 1) clust error table' clust' where
  blocked reaches := stuck.blocked ((reaches_used used).mp reaches)
  stays blocked := by
    apply absurd _ blocked
    rw [reaches_used used]
    trivial
  moves _ := by
    rw [stuck.used clust isClust used]
    exact used
  ends := stuck.ends
  used := stuck.used
  reason := by
    rcases stuck.reason with full | ⟨place, other, found, broken⟩
    · exact .inl full
    · refine .inr ⟨place + 1, other, ?_, broken⟩
      rw [follow_used isClust used]
      exact found

end

end

section Extended

variable {between : Nat → Sector} {new : Nat} (laidOut : vol.LaidOut)
  (isClust : vol.IsClust clust) (isNew : vol.IsClust new)
  (last : vol.clustFlags (vol.link table clust) = some .last)
  (ready : vol.Ready table lastUsed clust)
  (free : vol.link table new = 0)
  (stretched : vol.Stretched table between clust new)
include isClust isNew last ready free stretched

omit isClust isNew ready free stretched in
theorem link_ne_zero_of_last : vol.link table clust ≠ 0 := by
  intro zero
  rw [zero] at last
  cases last

theorem Stretched.reaches_succ (count : Nat) :
    vol.Reaches between new count new ↔ vol.Reaches table lastUsed (count + 1) clust := by
  rw [stretched.reaches isClust isNew (link_ne_zero_of_last last) free, reaches_last last]
  constructor
  · exact fun enough => ⟨ready, enough⟩
  · exact fun reaches => reaches.2

omit isClust ready isNew in
theorem Stretched.used {other : Nat} (isOther : vol.IsClust other)
    (used : vol.clustFlags (vol.link table other) = some .used) :
    vol.link between other = vol.link table other := by
  apply stretched.others other isOther.2
  · rintro rfl
    rw [free] at used
    cases used
  · rintro rfl
    rw [last] at used
    cases used

include laidOut

omit free last ready in
theorem Stretched.flags_prev :
    vol.link between clust = new ∧ vol.clustFlags (vol.link between clust) = some .used := by
  have linked : vol.link between clust = new := by
    apply stretched.linked
    rintro rfl
    exact absurd isClust.1 (by omega)
  refine ⟨linked, ?_⟩
  rw [linked]
  exact laidOut.flags_clust isNew

theorem Moved.after_last (moved : vol.Moved between new count new table' lastUsed' clust') :
    vol.Moved table lastUsed (count + 1) clust table' lastUsed' clust' where
  isClust := moved.isClust
  chain := by
    obtain ⟨linked, used⟩ := stretched.flags_prev laidOut isClust isNew
    have kept := moved.used clust isClust used
    rw [follow_used isClust (by rw [kept]; exact used), kept, linked]
    exact moved.chain
  more more := by
    rw [moved.more, stretched.reaches_succ isClust isNew last ready free, Nat.succ_add]
  used other isOther used := by
    have kept := stretched.used last free isOther used
    rw [moved.used other isOther (by rw [kept]; exact used), kept]
  frame sect apart := by
    rw [moved.frame sect apart, stretched.frame sect]
    · exact fun isTable => apart (.inl isTable)
    · exact fun isInfo => apart (.inr isInfo)
  shrinks := by
    apply moved.shrinks.trans
    rw [stretched.freeClusts isClust isNew (link_ne_zero_of_last last)]
    exact erase_subset _ _
  takes _ same := by
    have isFree : new ∈ vol.freeClusts table' := by
      rw [same]
      exact mem_freeClusts.mpr ⟨isNew, free⟩
    have stillFree := moved.shrinks isFree
    rw [stretched.freeClusts isClust isNew (link_ne_zero_of_last last)] at stillFree
    exact notMem_erase _ _ stillFree

theorem Stuck.after_last (stuck : vol.Stuck between new count new error table' clust') :
    vol.Stuck table lastUsed (count + 1) clust error table' clust' where
  blocked reaches := stuck.blocked
    ((stretched.reaches_succ isClust isNew last ready free count).mpr reaches)
  stays blocked := absurd
    ((stretched.reaches_succ isClust isNew last ready free 0).mp trivial) blocked
  moves _ := by
    obtain ⟨_, used⟩ := stretched.flags_prev laidOut isClust isNew
    rw [stuck.used clust isClust used]
    exact used
  ends := stuck.ends
  used other isOther used := by
    have kept := stretched.used last free isOther used
    rw [stuck.used other isOther (by rw [kept]; exact used), kept]
  reason := by
    rcases stuck.reason with full | ⟨place, other, found, _, notLast⟩
    · exact .inl full
    · -- The new cluster ends the chain, so the search did not get anywhere.
      have newLast : vol.clustFlags (vol.link between new) = some .last := by
        rw [stretched.last]
        exact flags_last
      cases place with
      | zero =>
        cases found
        exact absurd newLast notLast
      | succ place =>
        rw [follow_last newLast] at found
        cases found

end Extended

theorem Stuck.first (blocked : ¬vol.Reaches table lastUsed 1 clust)
    (ends : vol.clustFlags (vol.link table clust) ≠ some .used)
    (reason : error = .full ∨ vol.clustFlags (vol.link table clust) ≠ some .last) :
    vol.Stuck table lastUsed (count + 1) clust error table clust where
  blocked reaches := by
    apply blocked
    rcases reaches with ⟨used, _⟩ | ⟨last, ready, enough⟩
    · exact absurd used ends
    · exact .inr ⟨last, ready, (Nat.le_add_left 1 count).trans enough⟩
  stays _ := ⟨rfl, rfl⟩
  moves reaches := absurd reaches blocked
  ends := ends
  used _ _ _ := rfl
  reason := by
    rcases reason with full | notLast
    · exact .inl full
    · exact .inr ⟨0, clust, rfl, ends, notLast⟩

end Steps

theorem LaidOut.getFat (laidOut : vol.LaidOut) (usable : vol.Usable table lastUsed freeCnt fat)
    (isClust : vol.IsClust clust) :
    Meets (vol.getFat clust) fat False
      (fun result after =>
        vol.clustFlags (vol.link table clust) = some result.2 ∧
        result.1 = vol.link table clust ∧
        vol.Usable table lastUsed freeCnt after ∧
        vol.IsSystem after.cache.address)
      (fun _ _ => False) := by
  have nonzero := laidOut.fatNonzero _ isClust.2
  have loaded := usable.serves.load _ nonzero
  rw [meets_getFat vol usable.serves.quiet, usable.serves.block nonzero]
  cases flags : vol.clustFlags (itemVal (table (itemSect vol.fatSect clust)) clust) with
  | none => exact absurd flags (usable.valid clust isClust.1 isClust.2)
  | some flags =>
    refine ⟨by assumption, rfl, ⟨loaded, usable.valid, usable.positive, usable.known⟩, ?_⟩
    exact .inl ⟨clust, isClust.2, .inl (WriteBack.load_address _ _)⟩

/-- The loop follows the links that can be followed.  It never ends only if a
search does not. -/
theorem LaidOut.followLoop (laidOut : vol.LaidOut) (count : Nat) :
    ∀ {table : Nat → Sector} {lastUsed freeCnt : Nat} {fat : Fat} {file : File},
      vol.Usable table lastUsed freeCnt fat → vol.IsClust file.clust →
      Meets (vol.followLoop count) (fat, file)
        (¬vol.Reaches table lastUsed count file.clust ∧ ¬vol.IsClust lastUsed)
        (fun _ after => ∃ table' lastUsed' freeCnt' clust',
          vol.Usable table' lastUsed' freeCnt' after.1 ∧
          after.2 = { file with clust := clust' } ∧
          vol.Moved table lastUsed count file.clust table' lastUsed' clust' ∧
          (if count = 0 then after.1 = fat
            else vol.IsSystem after.1.cache.address))
        (fun error after => ∃ table' lastUsed' freeCnt' clust',
          vol.Usable table' lastUsed' freeCnt' after.1 ∧
          after.2 = { file with clust := clust' } ∧
          vol.Stuck table lastUsed count file.clust error table' clust') := by
  induction count with
  | zero =>
    intro table lastUsed freeCnt fat file usable isClust
    exact ⟨table, lastUsed, freeCnt, file.clust, usable, rfl, .refl isClust, rfl⟩
  | succ count induction =>
    intro table lastUsed freeCnt fat file usable isClust
    rw [Volume.followLoop, meets_bind, getFile, meets_bind, meets_get,
      meets_pure, meets_bind, meets_onFst]
    apply (laidOut.getFat usable isClust).returning
    rintro ⟨val, flags⟩ read ⟨isFlags, isVal, usableRead, system⟩
    subst isVal
    have broken : flags ≠ .used → flags ≠ .last →
        vol.Stuck table lastUsed (count + 1) file.clust .broken table file.clust := by
      intro notUsed notLast
      have differs : ∀ other, flags ≠ other →
          vol.clustFlags (vol.link table file.clust) ≠ some other := by
        intro other apart same
        rw [isFlags] at same
        exact apart (Option.some.inj same)
      apply Stuck.first _ (differs _ notUsed) (.inr (differs _ notLast))
      rintro (⟨used, _⟩ | ⟨last, _⟩)
      · exact differs _ notUsed used
      · exact differs _ notLast last
    cases flags with
    | free =>
      exact ⟨table, lastUsed, freeCnt, file.clust, usableRead, rfl, broken (by decide) (by decide)⟩
    | bad =>
      exact ⟨table, lastUsed, freeCnt, file.clust, usableRead, rfl, broken (by decide) (by decide)⟩
    | used =>
      have isNext := isClust_of_used isFlags
      have onward : Meets (vol.followLoop count)
          (read, { file with clust := vol.link table file.clust }) _ _ _ :=
        induction usableRead isNext
      apply onward.imp
      · rintro ⟨blocked, endless⟩
        exact ⟨fun reaches => blocked ((reaches_used isFlags).mp reaches), endless⟩
      · rintro _ ⟨after, moved⟩ ⟨table', lastUsed', freeCnt', clust',
          usableAfter, isMoved, moves, address⟩
        refine ⟨table', lastUsed', freeCnt', clust', usableAfter, isMoved,
          moves.after_used isClust isFlags, ?_⟩
        split at address
        · rw [address]
          exact system
        · exact address
      · rintro error ⟨after, moved⟩ ⟨table', lastUsed', freeCnt', clust',
          usableAfter, isMoved, stuck⟩
        exact ⟨table', lastUsed', freeCnt', clust', usableAfter, isMoved,
          stuck.after_used isClust isFlags⟩
    | last =>
      have taken := link_ne_zero_of_last isFlags
      change Meets ((vol.stretchChain file.clust).onFst >>= _) _ _ _ _
      rw [meets_bind, meets_onFst]
      by_cases ready : vol.Ready table lastUsed file.clust
      · apply (laidOut.stretchChain_ready usableRead isClust taken ready).returning
        rintro new grown ⟨isNew, free, between, freeCnt', servesGrown, systemGrown, stretched⟩
        have usableGrown : vol.Usable between new freeCnt' grown := by
          refine ⟨servesGrown, ?_, ?_, ?_⟩
          · exact stretched.validEntries isClust isNew laidOut usable.valid
          · exact (Nat.le_succ 1).trans isNew.1
          · have few := laidOut.few_clust
            have inside := isNew.2
            omega
        have onward : Meets (vol.followLoop count) (grown, { file with clust := new }) _ _ _ :=
          induction usableGrown isNew
        apply onward.imp
        · rintro ⟨_, endless⟩
          exact absurd isNew endless
        · rintro _ ⟨after, moved⟩ ⟨table', lastUsed', freeCnt', clust',
            usableAfter, isMoved, moves, address⟩
          refine ⟨table', lastUsed', freeCnt', clust', usableAfter, isMoved,
            moves.after_last laidOut isClust isNew isFlags ready free stretched, ?_⟩
          split at address
          · rw [address]
            exact systemGrown
          · exact address
        · rintro error ⟨after, moved⟩ ⟨table', lastUsed', freeCnt', clust',
            usableAfter, isMoved, stuck⟩
          exact ⟨table', lastUsed', freeCnt', clust', usableAfter, isMoved,
            stuck.after_last laidOut isClust isNew isFlags ready free stretched⟩
      · have blocked : ∀ count, ¬vol.Reaches table lastUsed (count + 1) file.clust := by
          intro count reaches
          exact ready ((reaches_last isFlags).mp reaches).1
        apply (laidOut.stretchChain_unready usableRead isClust ready).imp
        · exact fun endless => ⟨blocked count, endless⟩
        · exact fun _ _ returned => returned.elim
        · rintro error full ⟨rfl, servesFull⟩
          refine ⟨table, lastUsed, freeCnt, file.clust,
            ⟨servesFull, usable.valid, usable.positive, usable.known⟩, rfl,
            Stuck.first (blocked 0) ?_ (.inl rfl)⟩
          rw [isFlags]
          simp

end Volume

end SeekOs.Fat32
