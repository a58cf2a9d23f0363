import SeekOs.Mm.PmmCanonical

/-!
# The page database entries that a free reads

`_buddy_page_is_buddy` takes the number of the candidate from the candidate's own
database entry, and only then compares it with the end of memory.  The entry of
the buddy of the last block at an order is therefore read even where it lies
past the entries that `_pfn_database_init` wrote.
-/

namespace SeekOs.Pmm

open SeekOs.Base SeekOs.Lib SeekOs.Mm List Option Block Nat

/-- The first page of the block of the order that holds the page. -/
def blockStart (page order : Nat) : Nat :=
  page / 2 ^ order * 2 ^ order

theorem blockStart_of_aligned {page order : Nat} (aligned : (⟨page, order⟩ : Block).Aligned) :
    blockStart page order = page :=
  Nat.div_mul_cancel aligned

/-- A block and the union with its buddy lie in the same larger blocks. -/
theorem blockStart_merged {page order level : Nat} (aligned : (⟨page, order⟩ : Block).Aligned)
    (larger : order < level) :
    blockStart (page &&& buddyStart page order) level = blockStart page level := by
  obtain ⟨quotient, merged⟩ := (merged_aligned aligned).exists_quotient
  have inMerged := (mem_merged_iff aligned).mpr (.inl (start_mem ⟨page, order⟩))
  rw [merged, mem_iff] at inMerged
  have same : page / 2 ^ (order + 1) = quotient :=
    Nat.div_eq_of_lt_le inMerged.1 (by rw [Nat.succ_mul]; exact inMerged.2)
  obtain ⟨rest, rfl⟩ := Nat.exists_eq_add_of_lt larger
  rw [Nat.add_right_comm]
  unfold blockStart
  rw [merged, pow_add 2 (order + 1) rest, ← Nat.div_div_eq_div_mul, ← Nat.div_div_eq_div_mul,
    same, Nat.mul_div_cancel _ (by positivity)]

namespace Kmem

/-- The entries read in the rounds of the `while` loop of `_buddy_free_pages`:
that of the buddy, and after a merge that of the page at the combined index. -/
def coalesceReads (kmem : Kmem) (page order : Nat) : Nat → List Nat
  | 0 => []
  | fuel + 1 =>
    let pageIdx := kmem.pageToPfn page
    let buddyIdx := pageIdx ^^^ (1 <<< order)
    if kmem.buddyPageIsBuddy page buddyIdx order then
      buddyIdx :: (pageIdx &&& buddyIdx) ::
        (kmem.buddyUnlink buddyIdx order).coalesceReads (pageIdx &&& buddyIdx) (order + 1) fuel
    else
      [buddyIdx]

/-- The entries that `_buddy_free_pages` and `_buddy_page_is_buddy` read. -/
def freeReads (kmem : Kmem) (page order : Nat) : List Nat :=
  page :: kmem.coalesceReads page order (mmMaxOrder - 1 - order)

def ReadsInside (kmem : Kmem) (page order : Nat) : Prop :=
  ∀ index ∈ kmem.freeReads page order, index < kmem.physLimit / pageSize

/-- The block that grows out of the page reaches the level if its buddy is free
at each order on the way. -/
def Grows (kmem : Kmem) (page order level : Nat) : Prop :=
  ∀ below, order ≤ below → below < level →
    kmem.FreeBlock ⟨Block.buddyStart (blockStart page below) below, below⟩

/-- Up to the largest order but one, the buddy of every block that grows out of
the page starts inside memory. -/
def BuddiesInside (kmem : Kmem) (page order : Nat) : Prop :=
  ∀ level, order ≤ level → level < mmMaxOrder - 1 → kmem.Grows page order level →
    Block.buddyStart (blockStart page level) level < kmem.physLimit / pageSize

variable {kmem : Kmem} {page order : Nat}

/-- After a merge the larger block grows where the page did. -/
theorem grows_merged (buddy : kmem.Buddy) (aligned : (⟨page, order⟩ : Block).Aligned)
    (free : kmem.FreeBlock ⟨buddyStart page order, order⟩) (level : Nat) :
    (kmem.buddyUnlink (buddyStart page order) order).Grows
        (page &&& buddyStart page order) (order + 1) level ↔
      kmem.Grows page order level := by
  have unlinked := unlinked_buddyUnlink buddy free
  constructor
  · intro grows below atLeast inside
    rcases eq_or_lt_of_le atLeast with rfl | larger
    · rw [blockStart_of_aligned aligned]
      exact free
    · have step := grows below larger inside
      rw [blockStart_merged aligned larger] at step
      exact ((unlinked.freeBlock_iff buddy free _).mp step).1
  · intro grows below larger inside
    rw [blockStart_merged aligned larger]
    apply (unlinked.freeBlock_iff buddy free _).mpr
    refine ⟨grows below (le_of_succ_le larger) inside, ?_⟩
    intro same
    have equal : below = order := congrArg Block.order same
    omega

theorem coalesceReads_inside_iff (fuel : Nat) (buddy : kmem.Buddy)
    (vacant : kmem.Vacant ⟨page, order⟩) :
    (∀ index ∈ kmem.coalesceReads page order fuel, index < kmem.physLimit / pageSize) ↔
      ∀ level, order ≤ level → level < order + fuel → kmem.Grows page order level →
        buddyStart (blockStart page level) level < kmem.physLimit / pageSize := by
  induction fuel generalizing kmem page order with
  | zero =>
    constructor
    · intro _ level atLeast inside
      omega
    · intro _ index member
      cases member
  | succ fuel induction =>
    have pageInside := vacant.inside page (start_mem ⟨page, order⟩)
    have start := blockStart_of_aligned vacant.aligned
    have buddyIdx : page ^^^ (1 <<< order) = buddyStart page order := rfl
    simp only [coalesceReads, buddy.pageToPfn_eq pageInside, buddyIdx]
    split
    · rename_i isBuddy
      have free : kmem.FreeBlock ⟨buddyStart page order, order⟩ :=
        freeBlock_of_buddyPageIsBuddy buddy isBuddy
      have unlinked : Unlinked kmem (kmem.buddyUnlink (buddyStart page order) order)
          ⟨buddyStart page order, order⟩ := unlinked_buddyUnlink buddy free
      have buddyInside := buddy.inside _ free _ (start_mem _)
      have mergedInside : (page &&& buddyStart page order) < kmem.physLimit / pageSize :=
        lt_of_le_of_lt and_le_left pageInside
      have rest := induction (unlinked.buddy buddy free) (vacant.merge buddy free)
      simp only [grows_merged buddy vacant.aligned free, unlinked.limit] at rest
      rw [forall_mem_cons, forall_mem_cons, rest]
      constructor
      · rintro ⟨_, _, larger⟩ level atLeast inside grows
        rcases eq_or_lt_of_le atLeast with rfl | above
        · rw [start]
          exact buddyInside
        · rw [← blockStart_merged vacant.aligned above]
          exact larger level above (by omega) grows
      · intro all
        refine ⟨buddyInside, mergedInside, ?_⟩
        intro level above inside grows
        rw [blockStart_merged vacant.aligned above]
        exact all level (by omega) (by omega) grows
    · rename_i notBuddy
      rw [forall_mem_singleton]
      constructor
      · intro buddyInside level atLeast _ grows
        rcases eq_or_lt_of_le atLeast with rfl | above
        · rw [start]
          exact buddyInside
        · -- the loop stopped here, so nothing grows past this order
          have free := grows order le_rfl above
          rw [start] at free
          exact absurd (buddyPageIsBuddy_of_freeBlock buddy pageInside free) notBuddy
      · intro all
        have here := all order le_rfl (by omega) (by intro below atLeast inside; omega)
        rwa [start] at here

theorem readsInside_iff (buddy : kmem.Buddy) (vacant : kmem.Vacant ⟨page, order⟩)
    (small : order < mmMaxOrder) :
    kmem.ReadsInside page order ↔ kmem.BuddiesInside page order := by
  have pageInside := vacant.inside page (start_mem ⟨page, order⟩)
  have fuel : order + (mmMaxOrder - 1 - order) = mmMaxOrder - 1 := by omega
  unfold ReadsInside BuddiesInside freeReads
  rw [forall_mem_cons, coalesceReads_inside_iff _ buddy vacant, fuel]
  exact and_iff_right pageInside

end Kmem

namespace Allocator

/-- A free of an outstanding allocation, after any history, and a free of
`_buddy_init` read inside the database exactly if the buddies that the growing
block meets start inside it. -/
theorem free_reads_inside_iff (memory : BootMemory) :
    (∀ ops state, runOps step (boot memory) ops = some state → ∀ entry ∈ state.outstanding,
      (state.kmem.ReadsInside entry.1 (clog 2 entry.2) ↔
        state.kmem.BuddiesInside entry.1 (clog 2 entry.2))) ∧
      ∀ bound kmem order, BootProgress memory bound kmem → order < mmMaxOrder →
        2 ^ order ∣ bound → (∀ pfn ∈ (⟨bound, order⟩ : Block), bitmapFree memory.bitmap pfn) →
        (kmem.ReadsInside bound order ↔ kmem.BuddiesInside bound order) := by
  constructor
  · intro ops state run entry member
    have sound := runOps_invariant (fun _ op _ sound stepped => step_sound sound op stepped)
      (boot_sound memory) run
    exact Kmem.readsInside_iff sound.buddy (sound.vacant entry member) (sound.order entry member).2
  · intro bound kmem order progress small aligned clear
    exact Kmem.readsInside_iff progress.buddy (progress.vacant order aligned clear) small

/-- The free of the upper half of sixteen frames. -/
theorem free_reads_inside_small :
    ∃ state, runOps step (boot smallMemory) [.alloc 8] = some state ∧
      (state.kmem.ReadsInside 8 3 ↔ state.kmem.BuddiesInside 8 3) := by
  obtain ⟨state, run, outstanding⟩ := map_eq_some_iff.mp
    (show (runOps step (boot smallMemory) [.alloc 8]).map outstanding = some [(8, 8)] by
      decide +kernel)
  have inside := (free_reads_inside_iff smallMemory).1 _ state run (8, 8) (by simp [outstanding])
  exact ⟨state, run, inside⟩

/-- A machine of three frames, of which the first is reserved. -/
def oddMemory : BootMemory where
  physLimit := 3 * pageSize
  pfnDatabaseStart := 0xffff800000100000
  bitmap := [0xfffffffffffffff9#64]
  past := fun _ => ⟨false, 0, 0⟩
  bitmap_inside := fun _ free => inside_of_word (by decide) free
  past_used := fun _ _ => rfl

/-- The free of frame 2 reads the entry of frame 3. -/
theorem free_reads_past_database :
    (runOps step (boot oddMemory) [.alloc 1]).map (fun state =>
      (state.outstanding, state.kmem.freeReads 2 0, state.kmem.physLimit / pageSize)) =
      some ([(2, 1)], [2, 3], 3) := by
  decide +kernel

end Allocator

end SeekOs.Pmm
