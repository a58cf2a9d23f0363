import SeekOs.Fat32.Allocation

/-!
# When a search for a cluster is honest

`last_used` comes from the disk, and `fat_mount` only rejects the value for an
unknown hint.  The search around the table is right exactly if it meets a free
cluster on its way, or comes back to a hint that is a cluster in use.
-/

namespace SeekOs.Fat32

open SeekOs.Lib SeekOs.Lib.Action ByteBlock Nat

private theorem exists_steps {size place target : Nat} (inside : place < size)
    (insideTarget : target < size) :
    ∃ steps < size, (place + steps) % size = target := by
  by_cases ahead : place ≤ target
  · refine ⟨target - place, by omega, ?_⟩
    rw [Nat.add_sub_cancel' ahead, Nat.mod_eq_of_lt insideTarget]
  · refine ⟨target + size - place, by omega, ?_⟩
    rw [show place + (target + size - place) = target + size by omega,
      add_mod_right, mod_eq_of_lt insideTarget]

private theorem steps_unique {size place first second : Nat}
    (inside : first < size) (insideSecond : second < size)
    (same : (place + first) % size = (place + second) % size) :
    first = second := by
  have congruent : first % size = second % size := Nat.ModEq.add_left_cancel' place same
  rwa [mod_eq_of_lt inside, mod_eq_of_lt insideSecond] at congruent

namespace Volume

variable {vol : Volume} {table : Nat → Sector} {lastUsed freeCnt : Nat}
  {fat : Fat} {seen : Option ClustFlags} {prev : Nat}

/-- What a search returns that went well. -/
def Found (vol : Volume) (table : Nat → Sector) (lastUsed freeCnt : Nat)
    (clust : Nat) (fat : Fat) : Prop :=
  2 ≤ clust ∧ clust < vol.clustCnt ∧ clust ≠ lastUsed ∧
    vol.link table clust = 0 ∧ Serves table lastUsed freeCnt fat

/-- A free cluster other than the hint. -/
def FreeApart (vol : Volume) (table : Nat → Sector) (lastUsed : Nat) : Prop :=
  ∃ clust, 2 ≤ clust ∧ clust < vol.clustCnt ∧ clust ≠ lastUsed ∧ vol.link table clust = 0

/-! ## Hints that are no cluster -/

theorem LaidOut.nextClust_outside (laidOut : vol.LaidOut) {hint : Nat}
    (known : hint < 2 ^ 32 - 1) (outside : hint = 1 ∨ vol.clustCnt ≤ hint) :
    vol.nextClust hint = 2 := by
  have count := laidOut.some_clust
  have reduced : (hint + 1) % 2 ^ 32 = hint + 1 := mod_eq_of_lt (by omega)
  unfold nextClust
  rcases outside with rfl | above
  · exact if_neg (by omega)
  · exact if_pos (by omega)

theorem LaidOut.nextClust_zero (laidOut : vol.LaidOut) : vol.nextClust 0 = 1 := by
  have count := laidOut.some_clust
  exact if_neg (by omega)

/-! ## Going around -/

section Search

variable (laidOut : vol.LaidOut) (valid : vol.ValidEntries table)
  (serves : Serves table lastUsed freeCnt fat)
include laidOut valid serves

theorem LaidOut.scan_cluster (isClust : 2 ≤ lastUsed) (inside : lastUsed < vol.clustCnt) :
    (vol.FreeApart table lastUsed →
      Meets (vol.scanLoop (vol.clustCnt + 1) seen lastUsed) fat False
        (vol.Found table lastUsed freeCnt) (fun _ _ => False)) ∧
    (¬vol.FreeApart table lastUsed →
      Meets (vol.scanLoop (vol.clustCnt + 1) seen lastUsed) fat False (fun _ _ => False)
        (fun error after => error = .full ∧ Serves table lastUsed freeCnt after)) := by
  obtain ⟨place, rfl⟩ := Nat.exists_eq_add_of_le isClust
  set size := vol.clustCnt - 2 with isSize
  have insidePlace : place < size := by omega
  have insideNext : (place + 1) % size < size := mod_lt _ (by omega)
  have first : vol.nextClust (2 + place) = 2 + (place + 1) % size :=
    laidOut.nextClust_add insidePlace
  have back : ((place + 1) % size + (size - 1)) % size = place := by
    rw [mod_add_mod, show place + 1 + (size - 1) = place + size by omega,
      add_mod_right, mod_eq_of_lt insidePlace]
  -- The hint comes up after all other clusters.
  have before : ∀ steps < size - 1, 2 + ((place + 1) % size + steps) % size ≠ 2 + place := by
    intro steps early same
    have isBack : ((place + 1) % size + steps) % size = ((place + 1) % size + (size - 1)) % size :=
      (add_left_cancel same).trans back.symm
    have isLast := steps_unique (by omega) (by omega) isBack
    omega
  constructor
  · rintro ⟨clust, cluster, insideClust, apart, free⟩
    obtain ⟨target, rfl⟩ := Nat.exists_eq_add_of_le cluster
    obtain ⟨steps, small, isTarget⟩ := exists_steps insideNext (show target < size by omega)
    have notLast : steps ≠ size - 1 := by
      rintro rfl
      exact apart (congrArg (2 + ·) (isTarget.symm.trans back))
    apply laidOut.scanLoop_finds valid serves insideNext first
      (show steps < vol.clustCnt + 1 by omega)
    · rw [← isSize, isTarget]
      exact free
    · intro i within
      exact before i (by omega)
  · intro taken
    refine laidOut.scanLoop_full valid serves insideNext first
      (show size - 1 < vol.clustCnt + 1 by omega) ?_ before ?_
    · rw [← isSize, back]
    · intro steps early free
      have small := mod_lt ((place + 1) % size + steps) (show 0 < size by omega)
      exact taken ⟨_, by omega, by omega, before steps early, free⟩

/-- From a cluster before the first one, with a hint that is no cluster. -/
theorem LaidOut.scan_around {start : Nat} (first : vol.nextClust start = 2)
    (outside : lastUsed < 2 ∨ vol.clustCnt ≤ lastUsed) {fuel : Nat}
    (enough : vol.clustCnt ≤ fuel) :
    (vol.FreeApart table lastUsed →
      Meets (vol.scanLoop fuel seen start) fat False
        (vol.Found table lastUsed freeCnt) (fun _ _ => False)) ∧
    (¬vol.FreeApart table lastUsed →
      Meets (vol.scanLoop fuel seen start) fat True (fun _ _ => False) (fun _ _ => False)) := by
  have some_clust := laidOut.some_clust
  have insideZero : 0 < vol.clustCnt - 2 := by omega
  have before : ∀ steps, 2 + (0 + steps) % (vol.clustCnt - 2) ≠ lastUsed := by
    intro steps
    have small := mod_lt (0 + steps) insideZero
    omega
  constructor
  · rintro ⟨clust, cluster, inside, _, free⟩
    obtain ⟨target, rfl⟩ := Nat.exists_eq_add_of_le cluster
    have isTarget : (0 + target) % (vol.clustCnt - 2) = target := by
      rw [zero_add, mod_eq_of_lt (by omega)]
    apply laidOut.scanLoop_finds valid serves insideZero first
      (show target < fuel by omega)
    · rw [isTarget]
      exact free
    · exact fun i _ => before i
  · intro taken
    rw [laidOut.scanLoop_endless valid serves insideZero first before]
    · trivial
    · intro steps free
      have small := mod_lt (0 + steps) insideZero
      exact taken ⟨_, by omega, by omega, before steps, free⟩

theorem LaidOut.scan_meets (positive : 1 ≤ lastUsed)
    (known : lastUsed < 2 ^ 32 - 1) (free : vol.FreeApart table lastUsed) :
    Meets (vol.scanLoop (vol.clustCnt + 1) seen lastUsed) fat False
      (vol.Found table lastUsed freeCnt) (fun _ _ => False) := by
  by_cases isClust : 2 ≤ lastUsed ∧ lastUsed < vol.clustCnt
  · exact (laidOut.scan_cluster valid serves isClust.1 isClust.2).1 free
  · have first := laidOut.nextClust_outside known (by omega)
    exact (laidOut.scan_around valid serves first (by omega) (le_succ _)).1 free

/-- If there is none, the search ends only at a hint that is a cluster. -/
theorem LaidOut.scan_misses (positive : 1 ≤ lastUsed)
    (known : lastUsed < 2 ^ 32 - 1) (none : ¬vol.FreeApart table lastUsed) :
    Meets (vol.scanLoop (vol.clustCnt + 1) seen lastUsed) fat
      (¬(2 ≤ lastUsed ∧ lastUsed < vol.clustCnt)) (fun _ _ => False)
      (fun error after => error = .full ∧ Serves table lastUsed freeCnt after) := by
  by_cases isClust : 2 ≤ lastUsed ∧ lastUsed < vol.clustCnt
  · apply ((laidOut.scan_cluster valid serves isClust.1 isClust.2).2 none).imp False.elim
    · exact fun _ _ returned => returned
    · exact fun _ _ failed => failed
  · have first := laidOut.nextClust_outside known (by omega)
    apply ((laidOut.scan_around valid serves first (by omega) (le_succ _)).2 none).imp
    · exact fun _ => isClust
    · exact fun _ _ returned => returned
    · exact fun _ _ failed => failed.elim

end Search

/-! ## Where the search starts -/

theorem LaidOut.nextClust_of_clust (laidOut : vol.LaidOut) {clust : Nat}
    (isClust : 2 ≤ clust) (inside : clust < vol.clustCnt) :
    2 ≤ vol.nextClust clust ∧ vol.nextClust clust < vol.clustCnt := by
  refine ⟨?_, laidOut.nextClust_lt clust⟩
  obtain ⟨place, rfl⟩ := Nat.exists_eq_add_of_le isClust
  rw [laidOut.nextClust_add (by omega)]
  exact le_add_right _ _

/-- The cluster behind the one that is extended is looked at first. -/
theorem LaidOut.findFree_next (laidOut : vol.LaidOut) (serves : Serves table lastUsed freeCnt fat)
    (isClust : 2 ≤ prev) (inside : prev < vol.clustCnt)
    (free : vol.link table (vol.nextClust prev) = 0) :
    Meets (vol.findFree prev) fat False
      (fun clust after => clust = vol.nextClust prev ∧ Serves table lastUsed freeCnt after)
      (fun _ _ => False) := by
  have next := laidOut.nextClust_of_clust isClust inside
  rw [findFree, meets_bind, meets_get, if_neg (by omega), meets_bind]
  apply (serves.getFat (laidOut.fatNonzero _ next.2)).imp id
  · rintro ⟨val, flags⟩ after ⟨isFlags, _, servesAfter⟩
    rw [clustFlags_eq_free.mpr free] at isFlags
    cases isFlags
    exact ⟨rfl, servesAfter⟩
  · rintro error after ⟨_, isNone, _⟩
    rw [clustFlags_eq_free.mpr free] at isNone
    cases isNone

/-- Otherwise the table is searched from `last_used`. -/
theorem LaidOut.findFree_scan (laidOut : vol.LaidOut) (valid : vol.ValidEntries table)
    (serves : Serves table lastUsed freeCnt fat)
    (start : prev = 0 ∨ (2 ≤ prev ∧ prev < vol.clustCnt ∧ vol.link table (vol.nextClust prev) ≠ 0))
    {hangs : Prop} {returns : Nat → Fat → Prop} {fails : FatErr → Fat → Prop}
    (scans : ∀ seen after, Serves table lastUsed freeCnt after →
      Meets (vol.scanLoop (vol.clustCnt + 1) seen lastUsed) after hangs returns fails) :
    Meets (vol.findFree prev) fat hangs returns fails := by
  rw [findFree, meets_bind, meets_get]
  rcases start with rfl | ⟨isClust, inside, taken⟩
  · rw [if_pos rfl, serves.lastUsed]
    exact scans none fat serves
  · have next := laidOut.nextClust_of_clust isClust inside
    rw [if_neg (by omega), meets_bind]
    apply (serves.getFat (laidOut.fatNonzero _ next.2)).imp False.elim
    · rintro ⟨val, flags⟩ after ⟨isFlags, _, servesAfter⟩
      have notFree : flags ≠ .free := by
        rintro rfl
        exact taken (clustFlags_eq_free.mp isFlags)
      change Meets (if flags = .free then _ else _) _ _ _ _
      rw [if_neg notFree, serves.lastUsed]
      exact scans (some flags) after servesAfter
    · rintro error after ⟨_, isNone, _⟩
      exact absurd isNone (valid _ next.1 next.2)

end Volume

/-! ## Honest searches -/

/-- `stretch_chain` returns; the cluster it returns was free, ends a chain and is
linked; it reports a full volume only if there is no free cluster, and every
other error is that of the access that failed. -/
def StretchHonest (vol : Volume) (fat : Fat) (prev : Nat) : Prop :=
  Meets (vol.stretchChain prev) fat False
    (fun clust after => 2 ≤ clust ∧ clust < vol.clustCnt ∧ vol.link fat.cache.view clust = 0 ∧
      vol.link after.cache.view clust = 0x0fffffff ∧
      (prev ≠ 0 → vol.link after.cache.view prev = clust))
    (fun error _ =>
      (error = .full → ∀ clust, 2 ≤ clust → clust < vol.clustCnt →
        vol.link fat.cache.view clust ≠ 0) ∧
      ∀ flags, error ≠ .flags flags)

/-- A free cluster is met, or the search comes back to a cluster in use. -/
def SearchEnds (vol : Volume) (fat : Fat) (prev : Nat) : Prop :=
  (prev ≠ 0 ∧ vol.link fat.cache.view (vol.nextClust prev) = 0) ∨
  (vol.FreeApart fat.cache.view fat.lastUsed ∧
    (fat.lastUsed = 0 → vol.link fat.cache.view 1 ≠ 0 ∧
      vol.clustFlags (vol.link fat.cache.view 1) ≠ none)) ∨
  (2 ≤ fat.lastUsed ∧ fat.lastUsed < vol.clustCnt ∧
    ∀ clust, 2 ≤ clust → clust < vol.clustCnt → vol.link fat.cache.view clust ≠ 0)

section Honest

variable {vol : Volume} {fat : Fat} {prev : Nat} (laidOut : vol.LaidOut)
  (serves : Serves fat.cache.view fat.lastUsed fat.freeCnt fat)
  (valid : vol.ValidEntries fat.cache.view)
include laidOut

theorem honest_of_found (insidePrev : prev < vol.clustCnt)
    (taken : prev ≠ 0 → vol.link fat.cache.view prev ≠ 0)
    (found : Meets (vol.findFree prev) { fat with infoDirty := true } False
      (fun clust after => 2 ≤ clust ∧ clust < vol.clustCnt ∧ vol.link fat.cache.view clust = 0 ∧
        Serves fat.cache.view fat.lastUsed fat.freeCnt after)
      (fun _ _ => False)) :
    StretchHonest vol fat prev := by
  have apart : Meets (vol.findFree prev) { fat with infoDirty := true } False
      (fun clust after => 2 ≤ clust ∧ clust < vol.clustCnt ∧ clust ≠ prev ∧
        vol.link fat.cache.view clust = 0 ∧
        Serves fat.cache.view fat.lastUsed fat.freeCnt after)
      (fun _ _ => False) := by
    apply found.mono
    rintro clust after ⟨isClust, inside, free, servesAfter⟩
    refine ⟨isClust, inside, ?_, free, servesAfter⟩
    rintro rfl
    exact taken (by omega) free
  apply (laidOut.stretchChain insidePrev apart).returning
  rintro clust after ⟨isClust, inside, _, free, table, servesAfter, _, stretched⟩
  rw [servesAfter.view]
  exact ⟨isClust, inside, free, stretched.last, stretched.linked⟩

variable {after : Fat}

/-- The search from a hint of zero looks at the entry of cluster one first. -/
theorem scan_zero (isZero : fat.lastUsed = 0)
    {seen : Option ClustFlags} {hangs : Prop} {returns : Nat → Fat → Prop}
    {fails : FatErr → Fat → Prop}
    (servesAfter : Serves fat.cache.view fat.lastUsed fat.freeCnt after)
    (broken : vol.clustFlags (vol.link fat.cache.view 1) = none →
      ∀ final, fails (.flags seen) final)
    (found : vol.link fat.cache.view 1 = 0 → ∀ final,
      Serves fat.cache.view fat.lastUsed fat.freeCnt final → returns 1 final)
    (onward : vol.Passes fat.cache.view fat.lastUsed 1 → ∀ seen final,
      Serves fat.cache.view fat.lastUsed fat.freeCnt final →
      Meets (vol.scanLoop vol.clustCnt seen 1) final hangs returns fails) :
    Meets (vol.scanLoop (vol.clustCnt + 1) seen fat.lastUsed) after hangs returns fails := by
  have next : vol.nextClust fat.lastUsed = 1 := by
    rw [isZero]
    exact laidOut.nextClust_zero
  apply laidOut.scanLoop_round servesAfter
  · intro back
    rw [next, isZero] at back
    cases back
  · intro _ isNone
    rw [next] at isNone
    exact broken isNone
  · intro _ free final servesFinal
    rw [next] at free ⊢
    exact found free final servesFinal
  · intro passes final flags servesFinal
    rw [next] at passes ⊢
    exact onward passes (some flags) final servesFinal

include valid

theorem scan_found (known : fat.lastUsed < 2 ^ 32 - 1)
    (free : vol.FreeApart fat.cache.view fat.lastUsed)
    (passed : fat.lastUsed = 0 → vol.link fat.cache.view 1 ≠ 0 ∧
      vol.clustFlags (vol.link fat.cache.view 1) ≠ none)
    (seen : Option ClustFlags)
    (servesAfter : Serves fat.cache.view fat.lastUsed fat.freeCnt after) :
    Meets (vol.scanLoop (vol.clustCnt + 1) seen fat.lastUsed) after False
      (vol.Found fat.cache.view fat.lastUsed fat.freeCnt)
      (fun _ _ => False) := by
  by_cases isZero : fat.lastUsed = 0
  · apply scan_zero laidOut isZero servesAfter
    · intro isNone
      exact absurd isNone (passed isZero).2
    · intro isFree
      exact absurd isFree (passed isZero).1
    · intro _ seen final servesFinal
      have first := laidOut.nextClust_outside (show 1 < 2 ^ 32 - 1 by omega) (.inl rfl)
      exact (laidOut.scan_around valid servesFinal first (by omega) le_rfl).1 free
  · exact laidOut.scan_meets valid servesAfter (by omega) known free

/-- Any other search does not return, returns cluster one or the flags of a
cluster, or misses the free cluster it started from. -/
theorem scan_missed (known : fat.lastUsed < 2 ^ 32 - 1)
    (missed : ¬(vol.FreeApart fat.cache.view fat.lastUsed ∧
      (fat.lastUsed = 0 → vol.link fat.cache.view 1 ≠ 0 ∧
        vol.clustFlags (vol.link fat.cache.view 1) ≠ none)))
    (notFull : ¬(2 ≤ fat.lastUsed ∧ fat.lastUsed < vol.clustCnt ∧
      ∀ clust, 2 ≤ clust → clust < vol.clustCnt → vol.link fat.cache.view clust ≠ 0))
    (seen : Option ClustFlags)
    (servesAfter : Serves fat.cache.view fat.lastUsed fat.freeCnt after) :
    Meets (vol.scanLoop (vol.clustCnt + 1) seen fat.lastUsed) after True
      (fun clust final => clust = 1 ∧ Serves fat.cache.view fat.lastUsed fat.freeCnt final)
      (fun error _ => (∃ flags, error = .flags flags) ∨
        error = .full ∧ ∃ clust, 2 ≤ clust ∧ clust < vol.clustCnt ∧
          vol.link fat.cache.view clust = 0) := by
  by_cases isZero : fat.lastUsed = 0
  · apply scan_zero laidOut isZero servesAfter
    · exact fun _ _ => .inl ⟨seen, rfl⟩
    · exact fun _ _ servesFinal => ⟨rfl, servesFinal⟩
    · intro passes seen final servesFinal
      have noneApart : ¬vol.FreeApart fat.cache.view fat.lastUsed := by
        intro free
        exact missed ⟨free, fun _ => passes.2⟩
      have first := laidOut.nextClust_outside (show 1 < 2 ^ 32 - 1 by omega) (.inl rfl)
      apply ((laidOut.scan_around valid servesFinal first (by omega) le_rfl).2 noneApart).imp id
      · exact fun _ _ returned => returned.elim
      · exact fun _ _ failed => failed.elim
  · have noneApart : ¬vol.FreeApart fat.cache.view fat.lastUsed := by
      intro free
      exact missed ⟨free, fun zero => absurd zero isZero⟩
    by_cases isClust : 2 ≤ fat.lastUsed ∧ fat.lastUsed < vol.clustCnt
    · apply (laidOut.scan_misses valid servesAfter (by omega) known noneApart).imp
      · exact fun _ => trivial
      · exact fun _ _ returned => returned.elim
      · rintro error _ ⟨rfl, _⟩
        right
        refine ⟨rfl, ?_⟩
        by_contra noneFree
        apply notFull
        refine ⟨isClust.1, isClust.2, fun clust cluster inside free => ?_⟩
        exact noneFree ⟨clust, cluster, inside, free⟩
    · have first := laidOut.nextClust_outside known (by omega)
      apply ((laidOut.scan_around valid servesAfter first (by omega)
        (le_succ _)).2 noneApart).imp id
      · exact fun _ _ returned => returned.elim
      · exact fun _ _ failed => failed.elim

include serves

end Honest

/-! ## A tiny volume -/

/-- A mounted volume with tables of one sector, all of whose entries are valid. -/
def IsTiny (vol : Volume) (fat : Fat) : Prop :=
  (vol.clustCnt = 128 ∧ vol.fatSect = 32 ∧ vol.mirrorSect = 0 ∧ vol.infoSect = 1) ∧
  (fat.Quiet ∧ fat.cache.address = 0) ∧
  ∀ clust < 128, vol.clustFlags (vol.link fat.cache.view clust) ≠ none

instance (vol : Volume) (fat : Fat) : Decidable (IsTiny vol fat) :=
  inferInstanceAs (Decidable (_ ∧ _))

namespace IsTiny

variable {vol : Volume} {fat : Fat} (tiny : IsTiny vol fat)
include tiny

theorem laidOut : vol.LaidOut := by
  obtain ⟨⟨count, table, mirror, info⟩, _⟩ := tiny
  constructor
  · omega
  · omega
  · exact fun mirrored => absurd mirror mirrored
  · intro clust _
    unfold itemSect
    omega
  · intro clust _
    unfold itemSect
    omega
  · exact fun mirrored => absurd mirror mirrored
  · omega

theorem serves : Serves fat.cache.view fat.lastUsed fat.freeCnt fat :=
  ⟨tiny.2.1.1, rfl, fun loaded => absurd tiny.2.1.2 loaded, rfl, rfl⟩

theorem validEntries : vol.ValidEntries fat.cache.view := by
  intro clust _ inside
  exact tiny.2.2 clust (tiny.1.1 ▸ inside)

end IsTiny

/-- A search that does not return, reports a full volume although cluster five is
free, or returns a variable that was never set. -/
private theorem not_honest_of_misled {disk : Nat → Sector} (misled : Mounts disk fun vol fat =>
        5 < vol.clustCnt ∧
        Meets (vol.stretchChain 0) fat True (fun _ _ => False)
          (fun error _ =>
            (error = .full ∧ vol.link fat.cache.view 5 = 0) ∨ error = .flags none)) :
    ∃ vol fat,
      fatMount 0 rootName (newFat disk zero) = some (.ok vol, fat) ∧ ¬StretchHonest vol fat 0 := by
  obtain ⟨vol, fat, mounted, inside, outcome⟩ := misled.exists_returned
  refine ⟨vol, fat, mounted, fun honest => ?_⟩
  apply honest.clash outcome
  · exact fun _ _ _ returned => returned
  · rintro error _ ⟨isFull, notFlags⟩ (⟨rfl, free⟩ | isFlags)
    · exact isFull rfl 5 (by omega) inside free
    · exact notFlags none isFlags

end SeekOs.Fat32
