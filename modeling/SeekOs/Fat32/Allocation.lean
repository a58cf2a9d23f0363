import SeekOs.Fat32.Entries
import Mathlib.Logic.Function.Iterate

/-!
# Taking a cluster

`stretch_chain` looks for a free cluster behind the one it extends, and then all
around the table from `last_used`.  The search stops when it is back at
`last_used`, whose own entry it does not look at; from a hint that is no cluster
it never comes back.
-/

namespace SeekOs.Fat32

open SeekOs.Lib SeekOs.Lib.Action Function Nat

namespace Volume

variable {vol : Volume} {table : Nat → Sector} {lastUsed freeCnt : Nat} {fat : Fat}
variable {fails : FatErr → Fat → Prop} {hangs : Prop} {clust prev : Nat}
  {returns : Nat → Fat → Prop}

/-! ## The order of the search -/

theorem LaidOut.nextClust_lt (laidOut : vol.LaidOut) (clust : Nat) :
    vol.nextClust clust < vol.clustCnt := by
  have count := laidOut.some_clust
  change (if vol.clustCnt ≤ (clust + 1) % 2 ^ 32 then 2
    else (clust + 1) % 2 ^ 32) < _
  split
  · omega
  · omega

/-- Clusters follow each other, and the first one follows the last one. -/
theorem LaidOut.nextClust_add (laidOut : vol.LaidOut) {place : Nat}
    (inside : place < vol.clustCnt - 2) :
    vol.nextClust (2 + place) = 2 + (place + 1) % (vol.clustCnt - 2) := by
  have few := laidOut.few_clust
  have reduced : (2 + place + 1) % 2 ^ 32 = 2 + place + 1 := mod_eq_of_lt (by omega)
  unfold nextClust
  rw [reduced]
  by_cases last : place + 1 = vol.clustCnt - 2
  · rw [last, mod_self]
    exact if_pos (by omega)
  · rw [mod_eq_of_lt (show place + 1 < vol.clustCnt - 2 by omega)]
    exact if_neg (by omega)

/-- The clusters that are met one after another, once a cluster was met. -/
theorem LaidOut.iterate_nextClust (laidOut : vol.LaidOut) {start place : Nat}
    (inside : place < vol.clustCnt - 2)
    (first : vol.nextClust start = 2 + place) (count : Nat) :
    vol.nextClust^[count + 1] start = 2 + (place + count) % (vol.clustCnt - 2) := by
  induction count with
  | zero =>
    have reduced : (place + 0) % (vol.clustCnt - 2) = place := mod_eq_of_lt inside
    rw [reduced]
    exact first
  | succ count induction =>
    rw [iterate_succ_apply', induction, laidOut.nextClust_add (mod_lt _ (by omega)), mod_add_mod]
    rfl

/-! ## Rounds of the search -/

/-- The search goes on at the cluster. -/
def Passes (vol : Volume) (table : Nat → Sector) (lastUsed clust : Nat) :
    Prop :=
  clust ≠ lastUsed ∧ vol.link table clust ≠ 0 ∧ vol.clustFlags (vol.link table clust) ≠ none

theorem clustFlags_eq_free {val : Nat} : vol.clustFlags val = some .free ↔ val = 0 := by
  constructor
  · intro isFree
    unfold clustFlags at isFree
    by_contra nonzero
    rw [if_neg nonzero] at isFree
    split at isFree
    · cases isFree
    · split at isFree
      · cases isFree
      · split at isFree
        · cases isFree
        · cases isFree
  · rintro rfl
    rfl

theorem LaidOut.scanLoop_round (laidOut : vol.LaidOut)
    (serves : Serves table lastUsed freeCnt fat) {fuel : Nat}
    {seen : Option ClustFlags}
    (full : vol.nextClust clust = lastUsed → fails .full fat)
    (broken : vol.nextClust clust ≠ lastUsed →
      vol.clustFlags (vol.link table (vol.nextClust clust)) = none →
      ∀ after, fails (.flags seen) after)
    (found : vol.nextClust clust ≠ lastUsed → vol.link table (vol.nextClust clust) = 0 →
      ∀ after, Serves table lastUsed freeCnt after → returns (vol.nextClust clust) after)
    (onward : vol.Passes table lastUsed (vol.nextClust clust) →
      ∀ after flags, Serves table lastUsed freeCnt after →
        Meets (vol.scanLoop fuel (some flags) (vol.nextClust clust)) after hangs returns fails) :
    Meets (vol.scanLoop (fuel + 1) seen clust) fat hangs returns fails := by
  have nonzero := laidOut.fatNonzero _ (laidOut.nextClust_lt clust)
  rw [scanLoop, meets_bind, meets_get]
  by_cases back : vol.nextClust clust = lastUsed
  · rw [if_pos (back.trans serves.lastUsed.symm), meets_bind]
    exact full back
  · have notBack : vol.nextClust clust ≠ fat.lastUsed := by
      rw [serves.lastUsed]
      exact back
    rw [if_neg notBack, meets_bind, meets_outcome]
    apply (serves.getFat nonzero).imp False.elim
    · rintro ⟨val, flags⟩ after ⟨isFlags, isVal, servesAfter⟩
      change Meets (if flags = .free then _ else _) _ _ _ _
      by_cases free : flags = .free
      · rw [if_pos free]
        rw [free, clustFlags_eq_free] at isFlags
        exact found back isFlags after servesAfter
      · rw [if_neg free]
        apply onward _ after flags servesAfter
        refine ⟨back, ?_, ?_⟩
        · intro zero
          rw [clustFlags_eq_free.mpr zero] at isFlags
          exact free (Option.some.inj isFlags).symm
        · rw [isFlags]
          exact Option.some_ne_none _
    · rintro error after ⟨_, isNone, _⟩
      exact broken back isNone after

theorem LaidOut.scanLoop_skip (laidOut : vol.LaidOut) (count : Nat)
    {fuel : Nat} :
    ∀ {fat : Fat} {clust : Nat} {seen : Option ClustFlags}, Serves table lastUsed freeCnt fat →
      (∀ i < count, vol.Passes table lastUsed (vol.nextClust^[i + 1] clust)) →
      (∀ seen after, Serves table lastUsed freeCnt after →
        Meets (vol.scanLoop fuel seen (vol.nextClust^[count] clust)) after hangs returns fails) →
      Meets (vol.scanLoop (fuel + count) seen clust) fat hangs returns
        fails := by
  induction count with
  | zero =>
    intro fat clust seen serves _ ends
    exact ends seen fat serves
  | succ count induction =>
    intro fat clust seen serves passes ends
    have here : vol.Passes table lastUsed (vol.nextClust clust) := passes 0 (succ_pos count)
    apply laidOut.scanLoop_round serves
    · intro back
      exact absurd back here.1
    · intro _ isNone
      exact absurd isNone here.2.2
    · intro _ isFree
      exact absurd isFree here.2.1
    · intro _ after flags servesAfter
      apply induction servesAfter
      · intro i inside
        exact passes (i + 1) (succ_lt_succ inside)
      · exact ends

/-- Every entry of a cluster has a meaning. -/
def ValidEntries (vol : Volume) (table : Nat → Sector) : Prop :=
  ∀ clust, 2 ≤ clust → clust < vol.clustCnt → vol.clustFlags (vol.link table clust) ≠ none

section Search

variable (laidOut : vol.LaidOut) (valid : vol.ValidEntries table)
  (serves : Serves table lastUsed freeCnt fat)
  {start place fuel : Nat} {seen : Option ClustFlags}
  (inside : place < vol.clustCnt - 2)
  (first : vol.nextClust start = 2 + place)
include laidOut valid serves inside first

/-- A free cluster is found if there is one before `last_used` comes up. -/
theorem LaidOut.scanLoop_finds {count : Nat} (enough : count < fuel)
    (free : vol.link table (2 + (place + count) % (vol.clustCnt - 2)) = 0)
    (before : ∀ i ≤ count, 2 + (place + i) % (vol.clustCnt - 2) ≠ lastUsed) :
    Meets (vol.scanLoop fuel seen start) fat False
      (fun clust after => 2 ≤ clust ∧ clust < vol.clustCnt ∧
        clust ≠ lastUsed ∧ vol.link table clust = 0 ∧
        Serves table lastUsed freeCnt after)
      (fun _ _ => False) := by
  have exists_free : ∃ count, vol.link table
      (2 + (place + count) % (vol.clustCnt - 2)) = 0 := ⟨count, free⟩
  classical
  -- The first free cluster of the search is the one that is taken.
  have least : Nat.find exists_free ≤ count := Nat.find_min' exists_free free
  obtain ⟨rest, isFuel⟩ : ∃ rest, fuel = rest + 1 + Nat.find exists_free :=
    ⟨fuel - 1 - Nat.find exists_free, by omega⟩
  have bounds : ∀ i, 2 ≤ 2 + (place + i) % (vol.clustCnt - 2) ∧
      2 + (place + i) % (vol.clustCnt - 2) < vol.clustCnt := by
    intro i
    have small := mod_lt (place + i) (show 0 < vol.clustCnt - 2 by omega)
    omega
  have next : vol.nextClust (vol.nextClust^[Nat.find exists_free] start) =
      2 + (place + Nat.find exists_free) % (vol.clustCnt - 2) := by
    rw [← iterate_succ_apply' vol.nextClust, laidOut.iterate_nextClust inside first]
  rw [isFuel]
  apply laidOut.scanLoop_skip _ serves
  · intro i below
    rw [laidOut.iterate_nextClust inside first]
    refine ⟨before i (by omega), Nat.find_min exists_free below, ?_⟩
    exact valid _ (bounds i).1 (bounds i).2
  · intro seen after servesAfter
    apply laidOut.scanLoop_round servesAfter
    · intro back
      exact absurd (next.symm.trans back) (before _ least)
    · intro _ isNone
      rw [next] at isNone
      exact absurd isNone (valid _ (bounds _).1 (bounds _).2)
    · intro notBack _ final servesFinal
      rw [next] at notBack ⊢
      exact ⟨(bounds _).1, (bounds _).2, notBack, Nat.find_spec exists_free, servesFinal⟩
    · intro passes
      rw [next] at passes
      exact absurd (Nat.find_spec exists_free) passes.2.1

/-- The search comes back to `last_used`. -/
theorem LaidOut.scanLoop_full {count : Nat} (enough : count < fuel)
    (back : 2 + (place + count) % (vol.clustCnt - 2) = lastUsed)
    (before : ∀ i < count, 2 + (place + i) % (vol.clustCnt - 2) ≠ lastUsed)
    (taken : ∀ i < count, vol.link table (2 + (place + i) % (vol.clustCnt - 2)) ≠ 0) :
    Meets (vol.scanLoop fuel seen start) fat False (fun _ _ => False)
      (fun error after => error = .full ∧ Serves table lastUsed freeCnt after) := by
  obtain ⟨rest, isFuel⟩ : ∃ rest, fuel = rest + 1 + count := ⟨fuel - 1 - count, by omega⟩
  have next : vol.nextClust (vol.nextClust^[count] start) = lastUsed := by
    rw [← iterate_succ_apply' vol.nextClust, laidOut.iterate_nextClust inside first, back]
  rw [isFuel]
  apply laidOut.scanLoop_skip _ serves
  · intro i below
    rw [laidOut.iterate_nextClust inside first]
    have small := mod_lt (place + i) (show 0 < vol.clustCnt - 2 by omega)
    exact ⟨before i below, taken i below, valid _ (by omega) (by omega)⟩
  · intro seen after servesAfter
    apply laidOut.scanLoop_round servesAfter
    · exact fun _ => ⟨rfl, servesAfter⟩
    · exact fun notBack => absurd next notBack
    · exact fun notBack => absurd next notBack
    · exact fun passes => absurd next passes.1

/-- Without a free cluster the search from a hint that is no cluster does not
end. -/
theorem LaidOut.scanLoop_endless (before : ∀ i, 2 + (place + i) % (vol.clustCnt - 2) ≠ lastUsed)
    (taken : ∀ i, vol.link table (2 + (place + i) % (vol.clustCnt - 2)) ≠ 0) :
    Meets (vol.scanLoop fuel seen start) fat hangs returns fails ↔ hangs := by
  have some_clust := laidOut.some_clust
  have endless : Meets (vol.scanLoop fuel seen start) fat True
      (fun _ _ => False) (fun _ _ => False) := by
    have skipped : Meets (vol.scanLoop (0 + fuel) seen start) fat True
        (fun _ _ => False) (fun _ _ => False) := by
      apply laidOut.scanLoop_skip _ serves
      · intro i _
        rw [laidOut.iterate_nextClust inside first]
        have small := mod_lt (place + i) (show 0 < vol.clustCnt - 2 by omega)
        exact ⟨before i, taken i, valid _ (by omega) (by omega)⟩
      · intro seen after _
        trivial
    rwa [zero_add] at skipped
  unfold Meets at endless ⊢
  split at endless
  · exact Iff.rfl
  · exact endless.elim
  · exact endless.elim

end Search

/-! ## Taking the cluster that was found -/

/-- The table after a cluster was taken: it ends a chain, which goes on from the
given cluster unless that is zero. -/
structure Stretched (vol : Volume) (before after : Nat → Sector)
    (prev clust : Nat) : Prop where
  last : vol.link after clust = 0x0fffffff
  linked : prev ≠ 0 → vol.link after prev = clust
  others : ∀ other < vol.clustCnt, other ≠ clust → other ≠ prev →
    vol.link after other = vol.link before other
  frame : ∀ sect, ¬vol.IsTable sect → sect ≠ vol.infoSect → after sect = before sect

/-- What `stretch_chain` does once it has found a cluster. -/
def takeClust (vol : Volume) (prev clust : Nat) : FatM Nat := do
  vol.putFat clust 0x0fffffff
  if prev ≠ 0 then vol.putFat prev clust
  Action.modify fun fat =>
    { fat with
      lastUsed := clust
      freeCnt := (fat.freeCnt + (2 ^ 32 - 1)) % 2 ^ 32 }
  vol.syncFs
  pure clust

theorem stretchChain_eq (vol : Volume) (prev : Nat) :
    vol.stretchChain prev = (do
      Fat32.setInfoDirty
      let clust ← vol.findFree prev
      vol.takeClust prev clust) := rfl

theorem LaidOut.stretched (laidOut : vol.LaidOut)
    (insidePrev : prev < vol.clustCnt) (inside : clust < vol.clustCnt)
    (apart : clust ≠ prev) {table' : Nat → Sector}
    (isPut : table' = if prev ≠ 0 then
        vol.putTable (vol.putTable table clust 0x0fffffff) prev clust
      else vol.putTable table clust 0x0fffffff) :
    vol.Stretched table table' prev clust := by
  have few := laidOut.few_clust
  by_cases linked : prev ≠ 0
  · rw [if_pos linked] at isPut
    subst isPut
    constructor
    · rw [laidOut.link_putTable _ insidePrev inside, if_neg apart,
        laidOut.link_putTable _ inside inside, if_pos rfl]
      rfl
    · intro _
      rw [laidOut.link_putTable _ insidePrev insidePrev, if_pos rfl]
      exact mod_eq_of_lt (by omega)
    · intro other insideOther notClust notPrev
      rw [laidOut.link_putTable _ insidePrev insideOther, if_neg notPrev,
        laidOut.link_putTable _ inside insideOther, if_neg notClust]
    · intro sect notTable _
      rw [putTable_apart _ insidePrev notTable, putTable_apart _ inside notTable]
  · rw [if_neg linked] at isPut
    subst isPut
    constructor
    · rw [laidOut.link_putTable _ inside inside, if_pos rfl]
      rfl
    · exact fun nonzero => absurd nonzero linked
    · intro other insideOther notClust _
      rw [laidOut.link_putTable _ inside insideOther, if_neg notClust]
    · intro sect notTable _
      exact putTable_apart _ inside notTable

/-- `sync_fs` leaves the entries alone. -/
theorem Stretched.putInfo (laidOut : vol.LaidOut) {table' : Nat → Sector}
    (stretched : vol.Stretched table table' prev clust)
    (insidePrev : prev < vol.clustCnt) (inside : clust < vol.clustCnt)
    (used free : Nat) :
    vol.Stretched table (vol.putInfo table' used free) prev clust where
  last := by
    rw [laidOut.link_putInfo _ _ inside]
    exact stretched.last
  linked nonzero := by
    rw [laidOut.link_putInfo _ _ insidePrev]
    exact stretched.linked nonzero
  others other insideOther notClust notPrev := by
    rw [laidOut.link_putInfo _ _ insideOther]
    exact stretched.others other insideOther notClust notPrev
  frame sect notTable notInfo := by
    rw [Volume.putInfo, update_of_ne notInfo]
    exact stretched.frame sect notTable notInfo

theorem LaidOut.takeClust (laidOut : vol.LaidOut) (serves : Serves table lastUsed freeCnt fat)
    (insidePrev : prev < vol.clustCnt) (inside : clust < vol.clustCnt)
    (apart : clust ≠ prev) :
    Meets (vol.takeClust prev clust) fat False
      (fun taken after => taken = clust ∧ ∃ table',
        Serves table' clust ((freeCnt + (2 ^ 32 - 1)) % 2 ^ 32) after ∧
        vol.IsSystem after.cache.address ∧
        vol.Stretched table table' prev clust)
      (fun _ _ => False) := by
  have ends : ∀ {put : Fat} {table' : Nat → Sector}, Serves table' lastUsed freeCnt put →
      vol.IsSystem put.cache.address →
      vol.Stretched table table' prev clust →
      Meets (Action.modify (fun fat : Fat =>
          { fat with
            lastUsed := clust
            freeCnt := (fat.freeCnt + (2 ^ 32 - 1)) % 2 ^ 32 }) >>=
        fun _ => vol.syncFs >>= fun _ => pure clust) put False
        (fun taken after => taken = clust ∧ ∃ table',
          Serves table' clust ((freeCnt + (2 ^ 32 - 1)) % 2 ^ 32) after ∧
          vol.IsSystem after.cache.address ∧
          vol.Stretched table table' prev clust)
        (fun _ _ => False) := by
    intro put table' servesPut address stretched
    have counted : Serves table' clust ((freeCnt + (2 ^ 32 - 1)) % 2 ^ 32)
        { put with
          lastUsed := clust
          freeCnt := (put.freeCnt + (2 ^ 32 - 1)) % 2 ^ 32 } :=
      ⟨servesPut.quiet, servesPut.view, servesPut.current, rfl, by
        rw [servesPut.freeCnt]⟩
    rw [meets_bind, meets_modify, meets_bind, meets_syncFs vol counted.quiet]
    have system : vol.IsSystem (vol.synced { put with
        lastUsed := clust
        freeCnt := (put.freeCnt + (2 ^ 32 - 1)) % 2 ^ 32 }).cache.address :=
      Serves.synced_isSystem address
    rcases counted.synced laidOut with synced | synced
    · exact ⟨rfl, _, synced, system, stretched⟩
    · exact ⟨rfl, _, synced, system, stretched.putInfo laidOut insidePrev inside _ _⟩
  have first := serves.putFat laidOut 0x0fffffff inside
  rw [Volume.takeClust, meets_bind, meets_putFat vol serves.quiet]
  by_cases linked : prev ≠ 0
  · have second := first.putFat laidOut clust insidePrev
    rw [if_pos linked, meets_bind, meets_putFat vol first.quiet]
    apply ends second (Serves.putFatCache_isSystem clust insidePrev)
    exact laidOut.stretched insidePrev inside apart (if_pos linked).symm
  · rw [if_neg linked]
    apply ends first (Serves.putFatCache_isSystem 0x0fffffff inside)
    exact laidOut.stretched insidePrev inside apart (if_neg linked).symm

theorem LaidOut.stretchChain (laidOut : vol.LaidOut) (insidePrev : prev < vol.clustCnt)
    (found : Meets (vol.findFree prev) { fat with infoDirty := true } False
      (fun clust after => 2 ≤ clust ∧ clust < vol.clustCnt ∧ clust ≠ prev ∧
        vol.link table clust = 0 ∧ Serves table lastUsed freeCnt after)
      (fun _ _ => False)) :
    Meets (vol.stretchChain prev) fat False
      (fun clust after => 2 ≤ clust ∧ clust < vol.clustCnt ∧ clust ≠ prev ∧
        vol.link table clust = 0 ∧ ∃ table',
          Serves table' clust ((freeCnt + (2 ^ 32 - 1)) % 2 ^ 32) after ∧
          vol.IsSystem after.cache.address ∧
          vol.Stretched table table' prev clust)
      (fun _ _ => False) := by
  apply found.bind
  rintro clust after ⟨cluster, inside, apart, free, serves⟩
  apply (laidOut.takeClust serves insidePrev inside apart).mono
  rintro taken final ⟨rfl, table', servesFinal, system, stretched⟩
  exact ⟨cluster, inside, apart, free, table', servesFinal, system, stretched⟩

end Volume

end SeekOs.Fat32
