import SeekOs.Fat32.Extension

/-!
# Releasing a chain

`remove_chain` has no counter: it ends because every entry that it has visited is
zero when the next one is read.  The number of entries that are not zero is what
each round takes one off, whatever the table holds.
-/

namespace SeekOs.Fat32

open SeekOs.Lib SeekOs.Lib.Action List Finset

namespace Volume

variable {vol : Volume}

/-- The clusters whose entries are not zero. -/
def usedClusts (vol : Volume) (table : Nat → Sector) : Finset Nat :=
  (Finset.range vol.clustCnt).filter fun clust => vol.link table clust ≠ 0

/-- The given clusters follow each other in the table, from a first one on, and
zeroing each of them once is all that has happened to the table. -/
structure Released (vol : Volume) (before after : Nat → Sector) (clust : Nat)
    (freed : List Nat) : Prop where
  start : ∀ first ∈ freed.head?, first = clust
  linked : freed.IsChain fun current next => vol.link before current = next
  once : freed.Nodup
  used : ∀ other ∈ freed, other ∈ vol.usedClusts before
  entries : ∀ other < vol.clustCnt,
    vol.link after other = if other ∈ freed then 0 else vol.link before other

/-- The last of the clusters has an end-of-chain mark. -/
def EndsChain (vol : Volume) (table : Nat → Sector) (freed : List Nat) : Prop :=
  ∃ last ∈ freed.getLast?, vol.clustFlags (vol.link table last) = some .last

variable {table table' : Nat → Sector} {clust : Nat} {freed : List Nat} {other : Nat}

theorem mem_usedClusts :
    other ∈ vol.usedClusts table ↔ other < vol.clustCnt ∧ vol.link table other ≠ 0 := by
  rw [usedClusts, Finset.mem_filter, Finset.mem_range]

theorem Released.nothing (table : Nat → Sector) (clust : Nat) :
    vol.Released table table clust [] where
  start first isFirst := nomatch isFirst
  linked := .nil
  once := nodup_nil
  used other member := nomatch member
  entries other _ := by rw [if_neg not_mem_nil]

section Round

variable (laidOut : vol.LaidOut) (inside : clust < vol.clustCnt)

include laidOut inside

theorem LaidOut.link_zeroed (insideOther : other < vol.clustCnt) :
    vol.link (vol.putTable table clust 0) other =
      if other = clust then 0 else vol.link table other :=
  laidOut.link_putTable 0 inside insideOther

/-- What was used after an entry was zeroed was used before, and is another
cluster. -/
theorem LaidOut.usedClusts_zeroed :
    vol.usedClusts (vol.putTable table clust 0) = (vol.usedClusts table).erase clust := by
  ext other
  rw [mem_erase, mem_usedClusts, mem_usedClusts]
  constructor
  · rintro ⟨insideOther, used⟩
    rw [laidOut.link_zeroed inside insideOther] at used
    split at used
    · exact absurd rfl used
    · rename_i apart
      exact ⟨apart, insideOther, used⟩
  · rintro ⟨apart, insideOther, used⟩
    refine ⟨insideOther, ?_⟩
    rw [laidOut.link_zeroed inside insideOther, if_neg apart]
    exact used

/-- A round of the loop, in front of what the rounds after it release. -/
theorem Released.cons (used : vol.link table clust ≠ 0)
    (rest : vol.Released (vol.putTable table clust 0) table' (vol.link table clust) freed) :
    vol.Released table table' clust (clust :: freed) := by
  have restUsed : ∀ other ∈ freed, other ≠ clust ∧ other ∈ vol.usedClusts table := by
    intro other member
    have still := rest.used other member
    rw [laidOut.usedClusts_zeroed inside] at still
    exact mem_erase.mp still
  refine ⟨?_, ?_, ?_, ?_, ?_⟩
  · intro first isFirst
    exact (Option.some.inj isFirst).symm
  · rw [isChain_cons]
    refine ⟨fun next isNext => (rest.start next isNext).symm, ?_⟩
    apply rest.linked.imp_of_mem_imp
    intro current next member _ isNext
    obtain ⟨apart, isUsed⟩ := restUsed current member
    rw [← isNext, laidOut.link_zeroed inside (mem_usedClusts.mp isUsed).1, if_neg apart]
  · refine nodup_cons.mpr ⟨?_, rest.once⟩
    intro again
    exact (restUsed clust again).1 rfl
  · intro other member
    rcases mem_cons.mp member with rfl | behind
    · exact mem_usedClusts.mpr ⟨inside, used⟩
    · exact (restUsed other behind).2
  · intro other insideOther
    rw [rest.entries other insideOther, laidOut.link_zeroed inside insideOther]
    by_cases isClust : other = clust
    · simp [isClust]
    · simp [isClust]

theorem EndsChain.cons
    (rest : vol.Released (vol.putTable table clust 0) table' (vol.link table clust) freed)
    (ends : vol.EndsChain (vol.putTable table clust 0) freed) :
    vol.EndsChain table (clust :: freed) := by
  obtain ⟨last, isLast, flags⟩ := ends
  have member : last ∈ freed := List.mem_of_getLast? isLast
  have still := rest.used last member
  rw [laidOut.usedClusts_zeroed inside, mem_erase] at still
  refine ⟨last, ?_, ?_⟩
  · rw [List.getLast?_cons, isLast]
    rfl
  · rw [laidOut.link_zeroed inside (mem_usedClusts.mp still.2).1, if_neg still.1] at flags
    exact flags

end Round

/-- What `remove_chain` has done when it is left: some clusters were released,
and the counter has been raised for each of them. -/
def Removed (vol : Volume) (table : Nat → Sector) (lastUsed freeCnt clust : Nat)
    (freed : List Nat) (after : Fat) : Prop :=
  ∃ table', Serves table' lastUsed ((freeCnt + freed.length) % 2 ^ 32) after ∧
    vol.Released table table' clust freed

variable {lastUsed freeCnt : Nat} {fat : Fat}

theorem Removed.nothing (serves : Serves table lastUsed freeCnt fat) (counter : freeCnt < 2 ^ 32) :
    vol.Removed table lastUsed freeCnt clust [] fat := by
  refine ⟨table, ?_, .nothing table clust⟩
  rw [length_nil, Nat.add_zero, Nat.mod_eq_of_lt counter]
  exact serves

theorem Removed.cons (laidOut : vol.LaidOut) (inside : clust < vol.clustCnt)
    (used : vol.link table clust ≠ 0)
    (rest : vol.Removed (vol.putTable table clust 0) lastUsed
      ((freeCnt + 1) % 2 ^ 32) (vol.link table clust) freed fat) :
    vol.Removed table lastUsed freeCnt clust (clust :: freed) fat := by
  obtain ⟨table', serves, released⟩ := rest
  refine ⟨table', ?_, released.cons laidOut inside used⟩
  rw [Nat.mod_add_mod] at serves
  rw [length_cons, Nat.add_comm freed.length, ← Nat.add_assoc]
  exact serves

/-- The loop of `remove_chain`: the entries that are not zero are the measure. -/
theorem LaidOut.removeLoop (laidOut : vol.LaidOut) (fuel : Nat) :
    ∀ {table : Nat → Sector} {freeCnt clust : Nat} {fat : Fat},
      Serves table lastUsed freeCnt fat → freeCnt < 2 ^ 32 →
      clust < vol.clustCnt → (vol.usedClusts table).card < fuel →
      Meets (vol.removeLoop fuel clust) fat False
        (fun _ after => ∃ freed, vol.Removed table lastUsed freeCnt clust freed after ∧
          vol.EndsChain table freed)
        (fun error after => error = .broken ∧ ∃ freed,
          vol.Removed table lastUsed freeCnt clust freed after) := by
  induction fuel with
  | zero =>
    intro table freeCnt clust fat _ _ _ enough
    exact absurd enough (Nat.not_lt_zero _)
  | succ fuel induction =>
    intro table freeCnt clust fat serves counter inside enough
    rw [Volume.removeLoop, meets_bind]
    apply (serves.getFat (laidOut.fatNonzero clust inside)).imp id
    · rintro ⟨next, flags⟩ read ⟨isFlags, isNext, servesRead⟩
      dsimp only at isFlags isNext ⊢
      by_cases stops : flags = .bad ∨ flags = .free
      · rw [if_pos stops]
        exact ⟨rfl, [], .nothing servesRead counter⟩
      · rw [if_neg stops]
        have used : vol.link table clust ≠ 0 := by
          intro zero
          rw [zero] at isFlags
          exact stops (.inr (Option.some.inj isFlags).symm)
        have put := servesRead.putFat laidOut 0 inside
        have counted : Serves (vol.putTable table clust 0) lastUsed ((freeCnt + 1) % 2 ^ 32)
            { read.setCache (vol.putFatCache read.cache clust 0) with
              freeCnt := (read.freeCnt + 1) % 2 ^ 32 } :=
          ⟨put.quiet, put.view, put.current, put.lastUsed, by
            rw [servesRead.freeCnt]⟩
        have small : (freeCnt + 1) % 2 ^ 32 < 2 ^ 32 := Nat.mod_lt _ (by decide)
        rw [meets_bind, meets_putFat vol servesRead.quiet, meets_bind, meets_modify]
        by_cases last : flags = .last
        · rw [if_neg (not_not.mpr last), meets_pure]
          refine ⟨[clust], Removed.cons laidOut inside used
            (.nothing counted small), clust, rfl, ?_⟩
          rw [isFlags, last]
        · rw [if_pos last]
          have isUsed : vol.clustFlags (vol.link table clust) = some .used := by
            rw [isFlags]
            cases flags with
            | free => exact absurd (.inr rfl) stops
            | used => rfl
            | last => exact absurd rfl last
            | bad => exact absurd (.inl rfl) stops
          have fewer : (vol.usedClusts (vol.putTable table clust 0)).card <
              fuel := by
            rw [laidOut.usedClusts_zeroed inside]
            have one := card_erase_lt_of_mem (mem_usedClusts.mpr ⟨inside, used⟩)
            omega
          rw [isNext]
          apply (induction counted small (isClust_of_used isUsed).2 fewer).imp id
          · rintro _ after ⟨freed, ⟨table', servesAfter, released⟩, ends⟩
            exact ⟨clust :: freed, .cons laidOut inside used ⟨table', servesAfter, released⟩,
              ends.cons laidOut inside released⟩
          · rintro error after ⟨isBroken, freed, removed⟩
            exact ⟨isBroken, clust :: freed, removed.cons laidOut inside used⟩
    · rintro error after ⟨isBroken, _, servesAfter⟩
      exact ⟨isBroken, [], .nothing servesAfter counter⟩

theorem Removed.synced (laidOut : vol.LaidOut)
    (removed : vol.Removed table lastUsed freeCnt clust freed fat) :
    vol.Removed table lastUsed freeCnt clust freed (vol.synced fat) := by
  obtain ⟨table', serves, released⟩ := removed
  rcases serves.synced laidOut with synced | synced
  · exact ⟨table', synced, released⟩
  · refine ⟨_, synced, released.start, released.linked, released.once, released.used, ?_⟩
    intro other insideOther
    rw [laidOut.link_putInfo _ _ insideOther]
    exact released.entries other insideOther

/-- `remove_chain` returns whatever the table holds.  It has released clusters
that follow each other, each of them once, and counted them; unless it fails, the
last one ended a chain. -/
theorem remove_chain_terminates (laidOut : vol.LaidOut)
    (serves : Serves table lastUsed freeCnt fat) (counter : freeCnt < 2 ^ 32)
    (inside : clust < vol.clustCnt) :
    Meets (vol.removeChain clust) fat False
      (fun _ after => ∃ freed, vol.Removed table lastUsed freeCnt clust freed after ∧
        vol.EndsChain table freed)
      (fun error after => error = .broken ∧ ∃ freed,
        vol.Removed table lastUsed freeCnt clust freed after) := by
  have enough : (vol.usedClusts table).card < vol.clustCnt + 1 := by
    apply Nat.lt_succ_of_le
    exact (card_filter_le _ _).trans_eq (card_range _)
  apply (laidOut.removeLoop _ serves.setInfoDirty counter inside enough).bind
  rintro _ after ⟨freed, removed, ends⟩
  obtain ⟨table', servesAfter, _⟩ := id removed
  rw [meets_syncFs vol servesAfter.quiet]
  exact ⟨freed, removed.synced laidOut, ends⟩

end Volume

/-- A chain that runs in a circle. -/
theorem remove_chain_terminates_circle : ∃ vol fat, fatMount 0 rootName
          (newFat (tinyDisk ((fullTable.putWord32 12 4).putWord32 16 3) 2)
            ByteBlock.zero) = some (.ok vol, fat) ∧
      (vol.link fat.cache.view 3 = 4 ∧ vol.link fat.cache.view 4 = 3) ∧
      Meets (vol.removeChain 3) fat False
        (fun _ after => ∃ freed, vol.Removed fat.cache.view fat.lastUsed fat.freeCnt 3 freed after ∧
          vol.EndsChain fat.cache.view freed)
        (fun error after => error = .broken ∧ ∃ freed,
          vol.Removed fat.cache.view fat.lastUsed fat.freeCnt 3 freed after) := by
  have evaluated : Mounts (tinyDisk ((fullTable.putWord32 12 4).putWord32 16 3) 2) fun vol fat =>
      IsTiny vol fat ∧ fat.freeCnt < 2 ^ 32 ∧
      vol.link fat.cache.view 3 = 4 ∧ vol.link fat.cache.view 4 = 3 := by
    decide +kernel
  obtain ⟨vol, fat, mounted, tiny, counter, circle⟩ := evaluated.exists_returned
  have count := tiny.1.1
  exact ⟨vol, fat, mounted, circle, Volume.remove_chain_terminates tiny.laidOut
    tiny.serves counter (by omega)⟩

end SeekOs.Fat32
