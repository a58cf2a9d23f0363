import SeekOs.Mm.KernelFrames

/-!
# Frames that are taken and returned

`vmm_free_pages` and `vmm_vunmap` should return the frames that
`vmm_alloc_pages` and `vmm_vmap` have taken.  `ptm_unmap_pages` frees the frame
of every page on its own, with the order that the page database has for it.  The
first frame of a block of several pages has the order of the block, so the block
is returned with its first page and the frames behind it are freed again.
-/

namespace SeekOs.Mm

open SeekOs.Pmm SeekOs.Lib Function List Kmem Nat

def vmmFreePages {κ : Type} [FrameAllocator κ] (memory : KernelMemory κ)
    (ptr nrPages : Nat) : Except Panic (KernelMemory κ) :=
  if ptr = 0 then
    .ok memory
  else
    (ptmUnmapPages memory.kmem memory.pages ptr nrPages).map
      fun (kmem, pages) => { memory with kmem := kmem, pages := pages }

/-- Frames are returned one after the other, and none of a block is free when
the block is returned. -/
def FreedOnce (kmem : Kmem) : List Nat → Prop
  | [] => True
  | pfn :: rest =>
    (∀ frame ∈ (⟨pfn, (kmem.pfnDatabase pfn).order⟩ : Block), ¬kmem.Covered frame) ∧
      FreedOnce (kmem.pmmFreePages pfn) rest

/-- A range was mapped with frames that the call has taken, each of them is
returned once, and afterwards the free frames are those from before. -/
structure Conserves (before middle : Kmem) (pages : Pages)
    (first count : Nat) (returned : Except Panic Kmem) : Prop where
  own : ∀ index, first ≤ index → index < first + count →
    ∃ pte, pages index = some pte ∧ before.Covered pte.pageFrame ∧ ¬middle.Covered pte.pageFrame
  once : FreedOnce middle (framesAt pages first count)
  restored : ∃ after, returned = .ok after ∧ ∀ frame, after.Covered frame ↔ before.Covered frame

/-! ## Returning frames one by one -/

theorem buddyOrder_one : buddyOrder 1 = 0 := by
  rfl

variable {flags : Nat}

section Single

open FrameAllocator

variable {kmem next : Kmem} {pages : Pages} {va count : Nat} {first : Nat}

theorem freedOnce_of_single {frames : List Nat} (valid : Valid kmem)
    (single : ∀ frame ∈ frames, Single kmem frame) (nodup : frames.Nodup) :
    FreedOnce kmem frames ∧
      ∀ frame, (frames.foldl pmmFreePages kmem).Covered frame ↔
        kmem.Covered frame ∨ frame ∈ frames := by
  induction frames generalizing kmem with
  | nil => exact ⟨trivial, fun frame => by simp⟩
  | cons pfn frames induction =>
    have first := single pfn mem_cons_self
    obtain ⟨fresh, restNodup⟩ := nodup_cons.mp nodup
    obtain ⟨_, _, covered, _⟩ := pmmFreePages_single valid.1 first.1 first.2
    have restSingle : ∀ frame ∈ frames, Single (kmem.pmmFreePages pfn) frame := by
      intro frame member
      apply single_after_free valid first
        (single frame (mem_cons_of_mem _ member))
      rintro rfl
      exact fresh member
    have restValid : Valid (kmem.pmmFreePages pfn) := valid_of_free valid first
    obtain ⟨once, restored⟩ := induction restValid restSingle restNodup
    refine ⟨⟨?_, once⟩, ?_⟩
    · intro frame member
      rw [first.2, mem_single_iff] at member
      rw [member]
      exact Allocator.not_covered_of_vacant first.1
    · intro frame
      rw [foldl_cons, restored frame, covered frame, mem_cons]
      tauto

/-- The loop of `vmm_vmap` takes the frames that it maps, and no others. -/
theorem vmmVmapLoop_frames {after : Pages} (present : flags.testBit 0 = true)
    (valid : Valid kmem) (window : Window va count)
    (result : vmmVmapLoop flags kmem pages va count = .ok (next, after)) :
    (framesAt after (pteIndex va) count).Nodup ∧
      ∀ frame, kmem.Covered frame ↔
        next.Covered frame ∨ frame ∈ framesAt after (pteIndex va) count := by
  induction count generalizing kmem pages va with
  | zero =>
    cases result
    exact ⟨nodup_nil, fun frame => by simp [framesAt]⟩
  | succ count induction =>
    obtain ⟨_, nextWindow, _, nextIndex⟩ := window.next
    obtain ⟨taken, pfn, allocation, result⟩ := vmmVmapLoop_step present valid window result
    have allocated := pmmAllocPages_spec valid.1 (le_refl 1) allocation
    have takenValid : Valid taken := valid_of_alloc valid (le_refl 1) (by decide) allocation
    obtain ⟨nodup, covered⟩ := induction takenValid nextWindow result
    have backed := vmmVmapLoop_backed present takenValid nextWindow result
    rw [nextIndex] at nodup covered backed
    have first : after (pteIndex va) = some ⟨pfn, flags &&& pteFlagMask⟩ := by
      rw [backed.outside _ (.inl (lt_succ_self _)), update_self]
    have fresh : pfn ∉ framesAt after (pteIndex va + 1) count := by
      intro member
      have free := (covered pfn).mpr (.inr member)
      exact Allocator.not_covered_of_vacant allocated.vacant free
    rw [framesAt_succ first]
    refine ⟨nodup_cons.mpr ⟨fresh, nodup⟩, ?_⟩
    intro frame
    rw [← allocated.covered frame, covered frame, buddyOrder_one,
      mem_single_iff, mem_cons, or_assoc]
    exact or_congr_right or_comm

theorem conserves_of_ordinary {mapped : Pages} (present : flags.testBit 0 = true)
    (ordinary : flags &&& vmmFlagsMmio ≠ vmmFlagsMmio) (valid : Valid kmem)
    (window : Window va count)
    (result : vmmVmap kmem pages va count flags = .ok (next, mapped)) :
    Conserves kmem next mapped (pteIndex va) count
      ((vmmVunmap next mapped va count flags).map Prod.fst) := by
  rw [vmmVmap, if_neg ordinary, pageRounds_extent window.small] at result
  have backed := vmmVmapLoop_backed present valid window result
  obtain ⟨nodup, covered⟩ := vmmVmapLoop_frames present valid window result
  have single : ∀ frame ∈ framesAt mapped (pteIndex va) count, Single next frame := by
    intro frame member
    obtain ⟨index, inside, isFrame⟩ := mem_filterMap.mp member
    obtain ⟨pte, isPte, rfl⟩ := Option.map_eq_some_iff.mp isFrame
    have bounds := mem_range'_1.mp inside
    exact (backed.fresh index pte bounds.1 bounds.2 isPte).2
  obtain ⟨once, returned⟩ := freedOnce_of_single backed.valid single nodup
  refine ⟨?_, once, ?_⟩
  · intro index lower upper
    obtain ⟨pte, isPte, _⟩ := backed.inside index lower upper
    obtain ⟨free, taken⟩ := backed.fresh index pte lower upper isPte
    exact ⟨pte, isPte, free, not_free_of_single taken⟩
  · have isMapped : ∀ index, pteIndex va ≤ index → index < pteIndex va + count →
        (mapped index).isSome := by
      intro index lower upper
      obtain ⟨pte, isPte, _⟩ := backed.inside index lower upper
      rw [isPte]
      rfl
    obtain ⟨after, unmapped, _⟩ := vmmVunmapLoop_pages next window isMapped
    refine ⟨_, ?_, fun frame => (returned frame).trans (covered frame).symm⟩
    rw [vmmVunmap, if_neg ordinary, pageRounds_extent window.small, unmapped]
    rfl

end Single

/-! ## Blocks of several pages -/

variable {nrPages ptr : Nat} {middle memory : KernelMemory Kmem}

section Blocks

open FrameAllocator

variable {kmem next : Kmem} {pages after : Pages} {first pfn count : Nat}

/-- The entries that `ptm_map_pages` stores. -/
theorem ptmMapLoop_entries (result : ptmMapLoop flags pages first pfn count = .ok after) :
    (∀ index, index < first → after index = pages index) ∧
      ∀ i < count, after (first + i) = leafEntry (pfn + i) flags := by
  induction count generalizing pages first pfn with
  | zero =>
    cases result
    exact ⟨fun _ _ => rfl, fun i small => absurd small (not_lt_zero i)⟩
  | succ count induction =>
    rw [ptmMapLoop] at result
    split at result
    · cases result
    · obtain ⟨below, entries⟩ := induction result
      constructor
      · intro index small
        rw [below index (by omega), update_of_ne (by omega)]
      · intro i small
        cases i with
        | zero =>
          rw [add_zero, below first (by omega), update_self, add_zero]
        | succ i =>
          have entry := entries i (by omega)
          rw [add_right_comm, add_right_comm pfn] at entry
          exact entry

/-- The frames of a block of several pages are freed again after its first
one. -/
theorem not_freedOnce_of_block {order : Nat} {rest : List Nat}
    (buddy : kmem.Buddy) (vacant : kmem.Vacant ⟨pfn, order⟩)
    (isOrder : (kmem.pfnDatabase pfn).order = order)
    (small : order < mmMaxOrder) (several : 1 ≤ order) :
    ¬FreedOnce kmem (pfn :: (pfn + 1) :: rest) := by
  rintro ⟨_, freed, _⟩
  obtain ⟨_, _, covered, _⟩ := buddyFreePages_spec buddy vacant small
  apply freed (pfn + 1) (Block.start_mem ⟨pfn + 1, _⟩)
  rw [Kmem.pmmFreePages, isOrder, covered]
  have wide : 2 ≤ 2 ^ order := le_self_pow (by omega) 2
  have inside : pfn + 1 ∈ (⟨pfn, order⟩ : Block) := by
    change pfn ≤ pfn + 1 ∧ pfn + 1 < pfn + 2 ^ order
    omega
  exact .inr inside

theorem framesAt_block {bits : Nat}
    (entries : ∀ i < count, pages (first + i) = some ⟨pfn + i, bits⟩) :
    framesAt pages first count = List.range' pfn count := by
  induction count generalizing first pfn with
  | zero => rfl
  | succ count induction =>
    have rest : ∀ i < count, pages (first + 1 + i) = some ⟨pfn + 1 + i, bits⟩ := by
      intro i small
      have entry := entries (i + 1) (by omega)
      rw [← add_assoc, ← add_assoc, add_right_comm, add_right_comm pfn] at entry
      exact entry
    have head : pages first = some ⟨pfn, bits⟩ := entries 0 (by omega)
    rw [framesAt_succ head, induction rest, range'_succ]

/-- What a successful `vmm_alloc_pages` has done. -/
structure BlockMapped (memory middle : KernelMemory Kmem)
    (ptr nrPages pfn : Nat) : Prop where
  large : nrPages ≤ 1024
  allocated : Kmem.Allocated memory.kmem middle.kmem ⟨pfn, buddyOrder nrPages⟩
  window : Window ptr nrPages
  entries : ∀ i < nrPages, middle.pages (pteIndex ptr + i) =
    some ⟨pfn + i, vmmFlagsDefault &&& pteFlagMask⟩
  notNull : ptr ≠ 0

theorem pmmAllocPages_large (result : kmem.pmmAllocPages nrPages = some (next, pfn)) :
    nrPages ≤ 1024 := by
  by_contra large
  rw [Kmem.pmmAllocPages, if_neg (by omega)] at result
  split at result
  · cases result
  · rw [buddyAllocPages, if_pos (by unfold mmMaxOrder; omega)] at result
    cases result

theorem vmmAllocPages_block (buddy : memory.kmem.Buddy)
    (direct : memory.kmem.physLimit ≤ miDirectMappingRangeSize)
    (positive : 1 ≤ nrPages)
    (result : vmmAllocPages memory nrPages = .ok (middle, ptr)) :
    ∃ pfn, BlockMapped memory middle ptr nrPages pfn := by
  rw [vmmAllocPages] at result
  split at result
  · cases result
  · rename_i kmem pfn allocation
    have large := pmmAllocPages_large allocation
    have allocated := pmmAllocPages_spec buddy positive allocation
    have width := le_two_pow_buddyOrder large
    have inside : pfn + nrPages ≤ directFrames := by
      have member : pfn + nrPages - 1 ∈ (⟨pfn, buddyOrder nrPages⟩ : Block) := by
        change pfn ≤ _ ∧ _ < pfn + 2 ^ buddyOrder nrPages
        omega
      have last := allocated.vacant.inside _ member
      have pages : memory.kmem.physLimit / pageSize ≤
          miDirectMappingRangeSize / pageSize := Nat.div_le_div_right direct
      rw [allocated.limit] at last
      have limit : miDirectMappingRangeSize / pageSize = directFrames := rfl
      omega
    rw [directFrames_eq] at inside
    have physical : pfn <<< pageShift % 2 ^ 64 = pfn * pageSize := by
      unfold pageShift pageSize
      omega
    have virtual : uptrAdd miDirectMappingRangeStart (pfn * pageSize) =
        miDirectMappingRangeStart + pfn * pageSize := by
      apply uptrAdd_eq
      unfold miDirectMappingRangeStart pageSize
      omega
    have back : (pfn * pageSize) >>> pageShift = pfn := by
      rw [shiftRight_eq_div_pow]
      exact Nat.mul_div_cancel pfn (by decide)
    simp only [physical, virtual] at result
    obtain ⟨pages, mapping, isResult⟩ := exists_of_map_ok result
    cases isResult
    have window : Window (miDirectMappingRangeStart + pfn * pageSize)
        nrPages := by
      unfold miDirectMappingRangeStart pageSize
      constructor <;> unfold pageSize <;> omega
    rw [ptmMapPages, pteCount_eq window, back] at mapping
    refine ⟨pfn, large, allocated, window, ?_, ?_⟩
    · intro i small
      have entry := (ptmMapLoop_entries mapping).2 i small
      rw [leafEntry_present (by decide), mod_eq_of_lt (by omega)] at entry
      exact entry
    · unfold miDirectMappingRangeStart
      omega

theorem BlockMapped.conserves (mapped : BlockMapped memory middle ptr 1 pfn)
    (valid : Valid memory.kmem) :
    Conserves memory.kmem middle.kmem middle.pages (pteIndex ptr) 1
      ((vmmFreePages middle ptr 1).map KernelMemory.kmem) := by
  obtain ⟨_, allocated, window, entries, notNull⟩ := mapped
  rw [buddyOrder_one] at allocated
  have entry := entries 0 (by decide)
  have frames : framesAt middle.pages (pteIndex ptr) 1 = [pfn] := framesAt_block entries
  have single : Single middle.kmem pfn := ⟨allocated.vacant, allocated.order⟩
  have middleValid : Valid middle.kmem := ⟨allocated.buddy, allocated.limit.trans_le valid.2⟩
  have all : ∀ frame ∈ [pfn], Single middle.kmem frame := by
    simpa using single
  obtain ⟨once, returned⟩ := freedOnce_of_single middleValid all (nodup_singleton pfn)
  refine ⟨?_, frames ▸ once, middle.kmem.pmmFreePages pfn, ?_, ?_⟩
  · intro index lower upper
    obtain rfl : index = pteIndex ptr := by omega
    refine ⟨_, entry, ?_, not_free_of_single single⟩
    exact (allocated.covered pfn).mp (.inr (mem_single_iff.mpr rfl))
  · rw [vmmFreePages, if_neg notNull, ptmUnmapPages_one middle.kmem window entry]
    rfl
  · intro frame
    rw [← allocated.covered frame, mem_single_iff]
    exact (returned frame).trans (or_congr_right mem_singleton)

theorem BlockMapped.not_freedOnce (mapped : BlockMapped memory middle ptr nrPages pfn)
    (several : 2 ≤ nrPages) :
    ¬FreedOnce middle.kmem (framesAt middle.pages (pteIndex ptr) nrPages) := by
  intro once
  obtain ⟨large, allocated, _, entries, _⟩ := mapped
  obtain ⟨rest, rfl⟩ := Nat.exists_eq_add_of_le' several
  rw [framesAt_block entries, range'_succ, range'_succ] at once
  have isOrder := buddyOrder_eq_clog large
  have small : buddyOrder (rest + 2) < mmMaxOrder := by
    rw [isOrder]
    exact lt_succ_of_le ((clog_le_iff_le_pow (by decide)).mpr large)
  have positive : 1 ≤ buddyOrder (rest + 2) := by
    rw [isOrder]
    exact clog_pos (by decide) several
  exact not_freedOnce_of_block allocated.buddy allocated.vacant allocated.order small positive once

end Blocks

/-! ## Device mappings -/

section Devices

open FrameAllocator

variable {kmem next : Kmem}

theorem buddySplit_database (page low count : Nat) :
    (kmem.buddySplit page low count).pfnDatabaseStart = kmem.pfnDatabaseStart := by
  induction count generalizing kmem with
  | zero => rfl
  | succ count induction =>
    rw [buddySplit, induction]
    rfl

theorem buddyAllocFrom_database {order current fuel page : Nat}
    (result : kmem.buddyAllocFrom order current fuel = some (next, page)) :
    next.pfnDatabaseStart = kmem.pfnDatabaseStart := by
  induction fuel generalizing current with
  | zero => cases result
  | succ fuel induction =>
    rw [buddyAllocFrom] at result
    split at result
    · exact induction result
    · rename_i taken head isTaken
      cases result
      rw [buddyGetFromFreeArea] at isTaken
      split at isTaken
      · cases isTaken
      · split at isTaken
        · cases isTaken
        · cases isTaken
          exact buddySplit_database _ _ _

theorem pmmAllocPages_database {pfn : Nat}
    (result : kmem.pmmAllocPages nrPages = some (next, pfn)) :
    next.pfnDatabaseStart = kmem.pfnDatabaseStart := by
  rw [Kmem.pmmAllocPages] at result
  split at result
  · cases result
    rfl
  · split at result
    · cases result
    · obtain ⟨⟨after, page⟩, taken, same⟩ := Option.map_eq_some_iff.mp result
      cases same
      unfold buddyAllocPages at taken
      split at taken
      · cases taken
      · dsimp only at taken
        split at taken
        · cases taken
        · exact buddyAllocFrom_database taken

/-- The page database lies in the upper half of the address space. -/
def DatabaseHigh (kmem : Kmem) : Prop :=
  0xffff800000000000 ≤ kmem.pfnDatabaseStart ∧
    kmem.pfnDatabaseStart + kmem.physLimit / pageSize * sizeofPage < 2 ^ 64

/-- A device mapping maps the page database, not the frames that it took. -/
theorem not_conserves_of_mmio {pages mapped : Pages} {va : Nat}
    {returned : Except Panic Kmem} (buddy : kmem.Buddy)
    (direct : kmem.physLimit ≤ miDirectMappingRangeSize)
    (database : DatabaseHigh kmem) (positive : 1 ≤ nrPages)
    (window : Window va nrPages)
    (device : flags &&& vmmFlagsMmio = vmmFlagsMmio)
    (result : vmmVmap kmem pages va nrPages flags = .ok (next, mapped)) :
    ¬Conserves kmem next mapped (pteIndex va) nrPages returned := by
  intro conserves
  obtain ⟨pte, isPte, ⟨block, isFree, member⟩, _⟩ :=
    conserves.own (pteIndex va) (le_refl _) (by omega)
  have limited := buddy.inside block isFree _ member
  rw [vmmVmap, if_pos device] at result
  split at result
  · cases result
  · rename_i taken pfn allocation
    have allocated := pmmAllocPages_spec buddy positive allocation
    have pfnInside := allocated.vacant.inside _ (Block.start_mem _)
    obtain ⟨after, mapping, same⟩ := exists_of_map_ok result
    cases same
    rw [ptmMapPages, pteCount_eq window] at mapping
    have entry := (ptmMapLoop_entries mapping).2 0 positive
    rw [add_zero, isPte, leafEntry_present (by decide)] at entry
    cases entry
    have start := pmmAllocPages_database allocation
    obtain ⟨high, fits⟩ := database
    rw [allocated.limit] at pfnInside
    dsimp only at pfnInside limited
    have limit : kmem.physLimit / pageSize ≤ 2 ^ 27 :=
      (Nat.div_le_div_right direct).trans (by decide)
    have address : pfnToPage next pfn = kmem.pfnDatabaseStart + pfn * sizeofPage := by
      change uptrAdd next.pfnDatabaseStart _ = _
      rw [start]
      apply uptrAdd_eq
      unfold sizeofPage at *
      omega
    have upper : 2 ^ 35 ≤ (pfnToPage next pfn / 2 ^ 12) % 2 ^ 36 := by
      unfold sizeofPage at *
      omega
    exact absurd (limited.trans_le limit) (by unfold pageShift; omega)

end Devices

/-! ## The two ways of taking frames -/

/-- Taking and returning pages conserves the frames exactly for single pages of
the direct mapping and for ranges that are not device mappings. -/
theorem frames_conserved_iff {memory : KernelMemory Kmem} (buddy : memory.kmem.Buddy)
    (direct : memory.kmem.physLimit ≤ miDirectMappingRangeSize)
    (database : DatabaseHigh memory.kmem) :
    (∀ nrPages middle ptr, 1 ≤ nrPages → vmmAllocPages memory nrPages = .ok (middle, ptr) →
      (Conserves memory.kmem middle.kmem middle.pages (pteIndex ptr) nrPages
          ((vmmFreePages middle ptr nrPages).map KernelMemory.kmem) ↔
        nrPages = 1)) ∧
      ∀ va nrPages flags next mapped, 1 ≤ nrPages → Window va nrPages → flags.testBit 0 = true →
        vmmVmap memory.kmem memory.pages va nrPages flags = .ok (next, mapped) →
        (Conserves memory.kmem next mapped (pteIndex va) nrPages
            ((vmmVunmap next mapped va nrPages flags).map Prod.fst) ↔
          flags &&& vmmFlagsMmio ≠ vmmFlagsMmio) := by
  have valid : FrameAllocator.Valid memory.kmem := ⟨buddy, direct.trans (by decide)⟩
  constructor
  · intro nrPages middle ptr positive result
    obtain ⟨pfn, mapped⟩ := vmmAllocPages_block buddy direct positive result
    constructor
    · intro conserves
      by_contra several
      exact mapped.not_freedOnce (by omega) conserves.once
    · rintro rfl
      exact mapped.conserves valid
  · intro va nrPages flags next mapped positive window present result
    constructor
    · intro conserves device
      exact not_conserves_of_mmio buddy direct database positive window device result conserves
    · intro ordinary
      exact conserves_of_ordinary present ordinary valid window result

/-- The kernel's memory before anything is mapped. -/
def bootedMemory : KernelMemory Kmem :=
  ⟨bootedKmem, fun _ => none, fun _ => 0⟩

theorem bootedMemory_direct : bootedMemory.kmem.physLimit ≤ miDirectMappingRangeSize := by
  decide +kernel

theorem bootedMemory_database : DatabaseHigh bootedMemory.kmem := by
  unfold DatabaseHigh
  decide +kernel

theorem bootedMemory_alloc (taken : (vmmAllocPages bootedMemory nrPages).isOk = true) :
    ∃ middle ptr, vmmAllocPages bootedMemory nrPages = .ok (middle, ptr) := by
  cases result : vmmAllocPages bootedMemory nrPages with
  | error reason =>
    rw [result] at taken
    cases taken
  | ok value => exact ⟨value.1, value.2, rfl⟩

theorem frames_conserved_iff_booted :
    ∃ middle ptr, vmmAllocPages bootedMemory 1 = .ok (middle, ptr) ∧
      Conserves bootedKmem middle.kmem middle.pages (pteIndex ptr) 1
        ((vmmFreePages middle ptr 1).map KernelMemory.kmem) := by
  obtain ⟨middle, ptr, result⟩ := @bootedMemory_alloc 1 (by decide +kernel)
  refine ⟨middle, ptr, result, ?_⟩
  have conserved := (frames_conserved_iff bootedKmem_valid.1
    bootedMemory_direct bootedMemory_database).1 1 middle ptr (le_refl 1) result
  exact conserved.mpr rfl

/-- Two pages: the second one is freed again. -/
theorem second_page_freed_twice : ∃ middle ptr, vmmAllocPages bootedMemory 2 = .ok (middle, ptr) ∧
      ¬FreedOnce middle.kmem (framesAt middle.pages (pteIndex ptr) 2) := by
  obtain ⟨middle, ptr, result⟩ := @bootedMemory_alloc 2 (by decide +kernel)
  obtain ⟨pfn, mapped⟩ := vmmAllocPages_block bootedKmem_valid.1
    bootedMemory_direct (by decide) result
  exact ⟨middle, ptr, result, mapped.not_freedOnce (le_refl 2)⟩

end SeekOs.Mm
