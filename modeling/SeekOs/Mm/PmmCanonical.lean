import SeekOs.Mm.PmmCorrectness

/-!
# The free lists are a canonical form

No history of calls leaves two buddies free that could be merged, so the free
blocks are determined by the free pages.  The order in which allocations are
returned therefore leaves no trace in the free lists and the counters.
-/

namespace SeekOs.Pmm

open SeekOs.Base SeekOs.Lib SeekOs.Mm List Option Block Nat Prod

namespace Kmem

variable {kmem : Kmem}
variable {after : Kmem} {order page : Nat} {block : Block} {low count : Nat}

/-- No two buddies below the largest order are both free. -/
def Merged (kmem : Kmem) : Prop :=
  ∀ start order, order + 1 < mmMaxOrder → kmem.FreeBlock ⟨start, order⟩ →
    ¬kmem.FreeBlock ⟨Block.buddyStart start order, order⟩

theorem Buddy.coalesced (buddy : kmem.Buddy) (merged : kmem.Merged) :
    Block.Coalesced mmMaxOrder kmem.FreeBlock where
  small := fun _ free => free.1
  aligned := buddy.aligned
  apart := buddy.apart
  unmergeable := merged

theorem buddyPageIsBuddy_of_freeBlock (buddy : kmem.Buddy)
    (inside : page < kmem.physLimit / pageSize)
    (free : kmem.FreeBlock ⟨buddyStart page order, order⟩) :
    kmem.buddyPageIsBuddy page (buddyStart page order) order = true := by
  have buddyInside : buddyStart page order < kmem.physLimit / pageSize :=
    buddy.inside _ free _ (start_mem ⟨buddyStart page order, order⟩)
  have below : ¬kmem.physLimit ≤ buddyStart page order <<< pageShift := by
    rw [not_le, shiftLeft_eq]
    have next := (le_div_iff_mul_le (by decide)).mp buddyInside
    rw [succ_mul] at next
    exact Nat.lt_of_lt_of_le (Nat.lt_add_of_pos_right (by decide)) next
  have listed := (buddy.listed order free.1 _).mp free.2
  unfold buddyPageIsBuddy
  rw [buddy.pageToPfn_eq inside, buddy.pageToPfn_eq buddyInside,
    if_neg (not_not.mpr (buddyStart_xor page order)), if_neg below,
    listed.1, listed.2]
  simp

/-- The coalescing loop only takes blocks away, and it stops at a block whose
buddy is not free. -/
theorem buddyCoalesce_stops {merged : Kmem} (fuel : Nat) {head newOrder : Nat}
    (buddy : kmem.Buddy) (vacant : kmem.Vacant ⟨page, order⟩)
    (bound : order + fuel + 1 = mmMaxOrder)
    (result : kmem.buddyCoalesce page order fuel = (merged, head, newOrder)) :
    (∀ block, merged.FreeBlock block → kmem.FreeBlock block) ∧
      (newOrder + 1 < mmMaxOrder → ¬merged.FreeBlock ⟨buddyStart head newOrder, newOrder⟩) := by
  induction fuel generalizing kmem page order with
  | zero =>
    cases result
    refine ⟨fun _ free => free, ?_⟩
    intro larger
    omega
  | succ fuel induction =>
    have pageInside := vacant.inside page (start_mem ⟨page, order⟩)
    have pageIdx : kmem.pageToPfn page = page := buddy.pageToPfn_eq pageInside
    simp only [buddyCoalesce, pageIdx] at result
    split at result
    · rename_i isBuddy
      have free : kmem.FreeBlock ⟨buddyStart page order, order⟩ :=
        freeBlock_of_buddyPageIsBuddy buddy isBuddy
      have unlinked := unlinked_buddyUnlink buddy free
      obtain ⟨subset, stops⟩ := induction (unlinked.buddy buddy free)
        (vacant.merge buddy free) (by omega) result
      refine ⟨?_, stops⟩
      intro block isFree
      exact ((unlinked.freeBlock_iff buddy free block).mp (subset block isFree)).1
    · rename_i notBuddy
      cases result
      refine ⟨fun _ free => free, ?_⟩
      intro _ free
      exact notBuddy (buddyPageIsBuddy_of_freeBlock buddy pageInside free)

/-- `_buddy_split` adds the upper halves. -/
theorem freeBlock_buddySplit (small : low + count ≤ mmMaxOrder)
    (free : (kmem.buddySplit page low count).FreeBlock block) :
    kmem.FreeBlock block ∨
      ∃ high, low ≤ high ∧ high < low + count ∧ block = ⟨page + 2 ^ high, high⟩ := by
  induction count generalizing kmem with
  | zero => exact .inl free
  | succ count induction =>
    rcases induction (by omega) free with added | ⟨high, least, most, same⟩
    · have linked := kmem.linked_addToFreeList (page + 1 <<< (low + count)) (low + count)
      have order : low + count < mmMaxOrder := by omega
      rcases (linked.freeBlock_iff order block).mp added with old | same
      · exact .inl old
      · refine .inr ⟨low + count, by omega, by omega, ?_⟩
        rw [same, shiftLeft_eq, one_mul]
    · exact .inr ⟨high, least, by omega, same⟩

section

variable (merged : kmem.Merged)
include merged

theorem Merged.of_subset (subset : ∀ block, after.FreeBlock block → kmem.FreeBlock block) :
    after.Merged := by
  intro start order small free freeBuddy
  exact merged start order small (subset _ free) (subset _ freeBuddy)

/-- A new block whose buddy is not free leaves the free blocks merged. -/
theorem Merged.add (added : ∀ other, after.FreeBlock other → kmem.FreeBlock other ∨ other = block)
    (alone : block.order + 1 < mmMaxOrder →
      ¬after.FreeBlock ⟨buddyStart block.start block.order, block.order⟩) :
    after.Merged := by
  intro start order small free freeBuddy
  rcases added _ free with old | rfl
  · rcases added _ freeBuddy with oldBuddy | rfl
    · exact merged start order small old oldBuddy
    · apply alone small
      rw [buddyStart_buddyStart]
      exact free
  · exact alone small freeBuddy

/-- `_buddy_free_pages` leaves the free blocks merged. -/
theorem Merged.buddyFreePages (buddy : kmem.Buddy)
    (vacant : kmem.Vacant ⟨page, order⟩) (small : order < mmMaxOrder) :
    (kmem.buddyFreePages page order).Merged := by
  obtain ⟨⟨coalesced, head, newOrder⟩, result⟩ :
      ∃ outcome, kmem.buddyCoalesce page order (mmMaxOrder - 1 - order) =
        outcome := ⟨_, rfl⟩
  have bound : order + (mmMaxOrder - 1 - order) + 1 = mmMaxOrder := by
    omega
  obtain ⟨_, headVacant, newSmall, _⟩ := buddyCoalesce_spec _ buddy vacant (by omega) result
  obtain ⟨subset, stops⟩ := buddyCoalesce_stops _ buddy vacant bound result
  have blocks := (linked_buddyFreePages result).freeBlock_iff newSmall
  apply (merged.of_subset subset).add (fun other free => (blocks other).mp free)
  intro larger freeBuddy
  rcases (blocks _).mp freeBuddy with old | same
  · exact stops larger old
  · -- a block is not its own buddy
    have flipped : buddyStart head newOrder = head := congrArg start same
    have xor := buddyStart_xor head newOrder
    rw [flipped, Nat.xor_self, Nat.shiftLeft_eq, Nat.one_mul] at xor
    exact absurd xor.symm (by positivity)

/-- Splitting a block leaves the free blocks merged: the buddy of every upper
half contains the first page, which is not free. -/
theorem Merged.buddySplit (small : low + count < mmMaxOrder)
    (aligned : (⟨page, low + count⟩ : Block).Aligned)
    (uncovered : ¬(kmem.buddySplit page low count).Covered page) :
    (kmem.buddySplit page low count).Merged := by
  have notLower : ∀ high, ¬(kmem.buddySplit page low count).FreeBlock ⟨page, high⟩ :=
    fun high free => uncovered ⟨_, free, start_mem ⟨page, high⟩⟩
  have flipped : ∀ high, high < low + count → buddyStart (page + 2 ^ high) high = page := by
    intro high below
    apply buddyStart_high_half
    exact (pow_dvd_pow 2 (succ_le_of_lt below)).trans aligned
  intro start order _ free freeBuddy
  rcases freeBlock_buddySplit (by omega) free with
    old | ⟨high, _, below, same⟩
  · rcases freeBlock_buddySplit (by omega) freeBuddy with
      oldBuddy | ⟨high, _, below, same⟩
    · exact merged start order (by omega) old oldBuddy
    · obtain ⟨starts, rfl⟩ := Block.mk.inj same
      have lower : start = page := by
        rw [← buddyStart_buddyStart start order, starts, flipped order below]
      rw [lower] at free
      exact notLower order free
  · obtain ⟨rfl, rfl⟩ := Block.mk.inj same
    rw [flipped order below] at freeBuddy
    exact notLower order freeBuddy

theorem Merged.pmmAllocPages {nrPages pfn : Nat} (buddy : kmem.Buddy) (positive : 1 ≤ nrPages)
    (result : kmem.pmmAllocPages nrPages = some (after, pfn)) :
    after.Merged := by
  obtain ⟨_, page, level, taken, atLeast, free, unlinked, rfl, _⟩ :=
    pmmAllocPages_cases positive result
  have allocated := allocated_of_split buddy atLeast free unlinked
  have orders : buddyOrder nrPages + (level - buddyOrder nrPages) = level := by
    omega
  have takenMerged : taken.Merged := merged.of_subset fun block isFree =>
    ((unlinked.freeBlock_iff buddy free block).mp isFree).1
  have uncovered : ¬(taken.buddySplit page (buddyOrder nrPages)
      (level - buddyOrder nrPages)).Covered page := by
    rintro ⟨block, isFree, member⟩
    exact allocated.vacant.apart block isFree page member (start_mem ⟨page, buddyOrder nrPages⟩)
  exact takenMerged.buddySplit (orders.symm ▸ free.1) (orders.symm ▸ buddy.aligned _ free) uncovered

end

end Kmem

namespace Allocator

variable {memory memory' : BootMemory} {state other final : Allocator}

/-- The same free blocks and counters; the lists may be in another order. -/
structure SameBlocks (left right : Allocator) : Prop where
  blocks : ∀ order, order < mmMaxOrder →
    (left.kmem.buddyFreeArea order).list.Perm (right.kmem.buddyFreeArea order).list
  nrFree : ∀ order, order < mmMaxOrder →
    (left.kmem.buddyFreeArea order).nrFree = (right.kmem.buddyFreeArea order).nrFree
  nrFreePages : left.kmem.nrFreePages = right.kmem.nrFreePages

/-- A state that a history of calls may reach. -/
structure Settled (memory : BootMemory) (state : Allocator) : Prop where
  sound : Sound memory state
  merged : state.kmem.Merged

theorem boot_settled (memory : BootMemory) : Settled memory (boot memory) := by
  refine ⟨boot_sound memory, ?_⟩
  have empty : memory.kmem.Merged := by
    rintro start order _ ⟨_, member⟩
    cases member
  have scan := buddyInit_progress Kmem.Merged
    (fun _ kmem order progress vacant small merged =>
      merged.buddyFreePages progress.buddy vacant small) empty
  exact scan.2

section

variable (settled : Settled memory state)

include settled

theorem step_settled (op : AllocatorOp)
    (stepped : state.step op = some final) : Settled memory final := by
  refine ⟨step_sound settled.sound op stepped, ?_⟩
  cases op with
  | alloc nrPages =>
    simp only [step] at stepped
    split at stepped
    · rename_i request
      simp only [map_eq_some_iff, Prod.exists] at stepped
      obtain ⟨kmem, pfn, result, rfl⟩ := stepped
      exact settled.merged.pmmAllocPages settled.sound.buddy request.1 result
    · cases stepped
  | free pfn =>
    simp only [step] at stepped
    split at stepped
    · rename_i member
      cases stepped
      obtain ⟨freed, freedMember, rfl⟩ := mem_map.mp member
      obtain ⟨order, small⟩ := settled.sound.order freed freedMember
      have vacant := settled.sound.vacant freed freedMember
      change (state.kmem.buddyFreePages freed.1 _).Merged
      rw [order]
      exact settled.merged.buddyFreePages settled.sound.buddy vacant small
    · cases stepped

theorem run_settled {ops : List AllocatorOp}
    (run : runOps step state ops = some final) : Settled memory final :=
  runOps_invariant (fun _ op _ settled stepped => step_settled settled op stepped) settled run

/-- The free pages are those that were free at boot and are not allocated. -/
theorem Settled.covered_iff (pfn : Nat) : state.kmem.Covered pfn ↔
      bitmapFree memory.bitmap pfn ∧ ∀ entry ∈ state.outstanding, pfn ∉ outstandingBlock entry := by
  constructor
  · intro covered
    refine ⟨(settled.sound.pages pfn).mpr (.inl covered), ?_⟩
    intro entry member inside
    obtain ⟨block, free, inBlock⟩ := covered
    exact (settled.sound.vacant entry member).apart block free pfn inBlock inside
  · rintro ⟨bootFree, outside⟩
    rcases (settled.sound.pages pfn).mp bootFree with
      covered | ⟨entry, member, inside⟩
    · exact covered
    · exact absurd inside (outside entry member)

/-- The free blocks and the counters are determined by the free pages. -/
theorem Settled.sameBlocks (settled' : Settled memory' other)
    (pages : ∀ pfn, state.kmem.Covered pfn ↔ other.kmem.Covered pfn) :
    SameBlocks state other := by
  have buddy := settled.sound.buddy
  have buddy' := settled'.sound.buddy
  have free : ∀ block, state.kmem.FreeBlock block ↔ other.kmem.FreeBlock block :=
    (buddy.coalesced settled.merged).free_iff_of_cover (buddy'.coalesced settled'.merged) pages
  have lists : ∀ order, order < mmMaxOrder →
      (state.kmem.buddyFreeArea order).list.Perm (other.kmem.buddyFreeArea order).list := by
    intro order small
    apply (perm_ext_iff_of_nodup (buddy.nodup order small) (buddy'.nodup order small)).mpr
    intro pfn
    have same := free ⟨pfn, order⟩
    exact ⟨fun member => (same.mp ⟨small, member⟩).2, fun member => (same.mpr ⟨small, member⟩).2⟩
  have counts : ∀ order, order < mmMaxOrder →
      (state.kmem.buddyFreeArea order).nrFree = (other.kmem.buddyFreeArea order).nrFree := by
    intro order small
    rw [buddy.counted order small, buddy'.counted order small, (lists order small).length_eq]
  refine ⟨lists, counts, ?_⟩
  rw [buddy.total, buddy'.total]
  apply Finset.sum_congr rfl
  intro order inside
  rw [counts order (Finset.mem_range.mp inside)]

theorem Settled.sameBlocks_of_outstanding (settled' : Settled memory other)
    (outstanding : ∀ entry, entry ∈ state.outstanding ↔ entry ∈ other.outstanding) :
    SameBlocks state other := by
  apply settled.sameBlocks settled'
  intro pfn
  rw [settled.covered_iff pfn, settled'.covered_iff pfn]
  constructor
  · rintro ⟨bootFree, outside⟩
    exact ⟨bootFree, fun entry member =>
      outside entry ((outstanding entry).mpr member)⟩
  · rintro ⟨bootFree, outside⟩
    exact ⟨bootFree, fun entry member =>
      outside entry ((outstanding entry).mp member)⟩

end

/-! ## Returning allocations -/

private theorem mem_eraseP_start {entries : List (Nat × Nat)}
    (nodup : (entries.map fst).Nodup) (pfn : Nat) (entry : Nat × Nat) :
    entry ∈ entries.eraseP (fun entry => entry.1 = pfn) ↔ entry ∈ entries ∧ entry.1 ≠ pfn := by
  by_cases start : entry.1 = pfn
  · constructor
    · intro member
      exfalso
      obtain ⟨freed, before, after, _, freedStart, split, rest⟩ :=
        exists_of_eraseP (p := fun entry : Nat × Nat => entry.1 = pfn)
          (mem_of_mem_eraseP member) (decide_eq_true start)
      rw [rest] at member
      rw [split, map_append, map_cons, nodup_middle, nodup_cons, ← map_append] at nodup
      apply nodup.1
      rw [of_decide_eq_true freedStart, ← start]
      exact mem_map_of_mem member
    · rintro ⟨_, other⟩
      exact absurd start other
  · rw [mem_eraseP_of_neg (by simpa using start)]
    exact (and_iff_left start).symm

/-- A batch of allocations is put in front of the outstanding ones. -/
theorem outstanding_run_allocs {requests : List Nat}
    (run : runOps step state (requests.map .alloc) = some final) :
    ∃ batch, final.outstanding = batch ++ state.outstanding ∧
      batch.map Prod.snd = requests.reverse := by
  induction requests generalizing state with
  | nil =>
    cases run
    exact ⟨[], rfl, rfl⟩
  | cons nrPages requests induction =>
    obtain ⟨next, stepped, rest⟩ := bind_eq_some_iff.mp run
    obtain ⟨batch, outstanding, asked⟩ := induction rest
    simp only [step] at stepped
    split at stepped
    · simp only [map_eq_some_iff, Prod.exists] at stepped
      obtain ⟨kmem, pfn, _, rfl⟩ := stepped
      refine ⟨batch ++ [(pfn, nrPages)], ?_, ?_⟩
      · rw [outstanding, append_assoc, singleton_append]
      · rw [map_append, asked, reverse_cons]
        rfl
    · cases stepped

/-- What makes the free lists of a state a canonical form of its free pages. -/
structure Canonical (state : Allocator) : Prop where
  merged : state.kmem.Merged
  determined : ∀ (memory : BootMemory) (ops : List AllocatorOp)
    (other : Allocator), runOps step (boot memory) ops = some other →
      (∀ pfn, state.kmem.Covered pfn ↔ other.kmem.Covered pfn) →
      SameBlocks state other
  freeOrder : ∀ (frees frees' : List Nat) (final : Allocator),
    frees.Perm frees' → runOps step state (frees.map .free) = some final →
      ∃ final', runOps step state (frees'.map .free) = some final' ∧ SameBlocks final final'
  batch : ∀ (requests : List Nat) (allocated : Allocator),
    runOps step state (requests.map .alloc) = some allocated →
      ∃ batch, allocated.outstanding = batch ++ state.outstanding ∧
        batch.map Prod.snd = requests.reverse ∧
        ∀ frees : List Nat, frees.Perm (batch.map Prod.fst) →
          ∃ final, runOps step allocated (frees.map .free) = some final ∧ SameBlocks state final

section

variable (settled : Settled memory state)
include settled

theorem Settled.starts_nodup : (state.outstanding.map fst).Nodup := by
  rw [List.Nodup, pairwise_map]
  exact settled.sound.apart.imp fun apart => apart.start_ne

theorem Settled.step_free {pfn : Nat} (stepped : state.step (.free pfn) = some final) :
    pfn ∈ state.outstanding.map fst ∧
      ∀ entry, entry ∈ final.outstanding ↔ entry ∈ state.outstanding ∧ entry.1 ≠ pfn := by
  simp only [step] at stepped
  split at stepped
  · rename_i member
    cases stepped
    exact ⟨member, mem_eraseP_start settled.starts_nodup pfn⟩
  · cases stepped

theorem Settled.mem_run_frees {frees : List Nat}
    (run : runOps step state (frees.map .free) = some final)
    (entry : Nat × Nat) :
    entry ∈ final.outstanding ↔ entry ∈ state.outstanding ∧ entry.1 ∉ frees := by
  induction frees generalizing state with
  | nil =>
    cases run
    simp
  | cons pfn frees induction =>
    obtain ⟨next, stepped, rest⟩ := bind_eq_some_iff.mp run
    rw [induction (step_settled settled _ stepped) rest,
      (settled.step_free stepped).2 entry, mem_cons, not_or]
    tauto

/-- A list of frees is possible when it names allocations, each once. -/
theorem Settled.run_frees_iff (frees : List Nat) :
    (∃ final, runOps step state (frees.map .free) = some final) ↔
      frees.Nodup ∧ ∀ pfn ∈ frees, pfn ∈ state.outstanding.map fst := by
  induction frees generalizing state with
  | nil => simp
  | cons pfn frees induction =>
    have starts : ∀ next, state.step (.free pfn) = some next → ∀ start,
        start ∈ next.outstanding.map fst ↔ start ∈ state.outstanding.map fst ∧ start ≠ pfn := by
      intro next stepped start
      simp only [List.mem_map]
      constructor
      · rintro ⟨entry, member, rfl⟩
        have kept := ((settled.step_free stepped).2 entry).mp member
        exact ⟨⟨entry, kept.1, rfl⟩, kept.2⟩
      · rintro ⟨⟨entry, member, rfl⟩, other⟩
        exact ⟨entry, ((settled.step_free stepped).2 entry).mpr ⟨member, other⟩, rfl⟩
    rw [map_cons, runOps_cons, nodup_cons]
    constructor
    · rintro ⟨final, run⟩
      obtain ⟨next, stepped, rest⟩ := bind_eq_some_iff.mp run
      obtain ⟨nodup, named⟩ := (induction (step_settled settled _ stepped)).mp ⟨final, rest⟩
      refine ⟨⟨?_, nodup⟩, ?_⟩
      · intro member
        exact ((starts next stepped pfn).mp (named pfn member)).2 rfl
      · intro start member
        rcases mem_cons.mp member with rfl | inRest
        · exact (settled.step_free stepped).1
        · exact ((starts next stepped start).mp (named start inRest)).1
    · rintro ⟨⟨fresh, nodup⟩, named⟩
      obtain ⟨next, stepped⟩ : ∃ next, state.step (.free pfn) = some next := by
        refine ⟨_, if_pos ?_⟩
        exact named pfn mem_cons_self
      have rest := (induction (step_settled settled _ stepped)).mpr
        ⟨nodup, fun start member => (starts next stepped start).mpr
          ⟨named start (mem_cons_of_mem _ member), fun same => fresh (same ▸ member)⟩⟩
      rw [stepped]
      exact rest

/-- Returning a batch of allocations in any order restores the free lists. -/
theorem Settled.sameBlocks_of_batch {requests frees : List Nat} {batch : List (Nat × Nat)}
    {allocated : Allocator}
    (run : runOps step state (requests.map .alloc) = some allocated)
    (outstanding : allocated.outstanding = batch ++ state.outstanding)
    (all : frees.Perm (batch.map fst)) :
    ∃ final, runOps step allocated (frees.map .free) = some final ∧ SameBlocks state final := by
  have settledAfter := run_settled settled run
  have nodup := settledAfter.starts_nodup
  rw [outstanding, map_append, nodup_append'] at nodup
  obtain ⟨batchNodup, _, apart⟩ := nodup
  obtain ⟨final, returned⟩ := (settledAfter.run_frees_iff frees).mpr (by
    refine ⟨all.nodup_iff.mpr batchNodup, ?_⟩
    intro pfn member
    rw [outstanding, map_append]
    exact mem_append_left _ (all.mem_iff.mp member))
  refine ⟨final, returned, ?_⟩
  apply settled.sameBlocks_of_outstanding (run_settled settledAfter returned)
  intro entry
  rw [settledAfter.mem_run_frees returned, outstanding, mem_append, all.mem_iff]
  constructor
  · intro member
    refine ⟨.inr member, ?_⟩
    intro inBatch
    exact apart inBatch (mem_map_of_mem member)
  · rintro ⟨inBatch | member, other⟩
    · exact absurd (mem_map_of_mem inBatch) other
    · exact member

end

/-- The free lists of every state of a run are a canonical form: no two buddies
are left unmerged, the free pages determine the blocks and the counters, and no
order of frees matters. -/
theorem canonical_of_run (memory : BootMemory) (ops : List AllocatorOp)
    (state : Allocator) (run : runOps step (boot memory) ops = some state) :
    Canonical state := by
  have settled := run_settled (boot_settled memory) run
  refine ⟨settled.merged, ?_, ?_, ?_⟩
  · intro memory' ops' other run' pages
    exact settled.sameBlocks (run_settled (boot_settled memory') run') pages
  · intro frees frees' final perm returned
    obtain ⟨nodup, named⟩ := (settled.run_frees_iff frees).mp ⟨final, returned⟩
    obtain ⟨final', returned'⟩ := (settled.run_frees_iff frees').mpr
      ⟨perm.nodup_iff.mp nodup, fun pfn member =>
        named pfn (perm.mem_iff.mpr member)⟩
    refine ⟨final', returned', ?_⟩
    apply (run_settled settled returned).sameBlocks_of_outstanding (run_settled settled returned')
    intro entry
    rw [settled.mem_run_frees returned, settled.mem_run_frees returned', perm.mem_iff]
  · intro requests allocated batchRun
    obtain ⟨batch, outstanding, asked⟩ := outstanding_run_allocs batchRun
    exact ⟨batch, outstanding, asked, fun frees all =>
      settled.sameBlocks_of_batch batchRun outstanding all⟩

/-- After two allocations, the first of which is returned. -/
theorem canonical_of_run_small :
    ∃ state, runOps step (boot smallMemory) [.alloc 3, .alloc 1, .free 4] = some state ∧
      Canonical state := by
  obtain ⟨state, run⟩ : ∃ state, runOps step (boot smallMemory)
      [.alloc 3, .alloc 1, .free 4] = some state :=
    isSome_iff_exists.mp (by decide +kernel)
  exact ⟨state, run, canonical_of_run smallMemory _ state run⟩

end Allocator

end SeekOs.Pmm
