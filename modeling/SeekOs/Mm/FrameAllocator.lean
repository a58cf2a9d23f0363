import SeekOs.Mm.PmmCorrectness

/-!
# What the other components know about the page allocator

The page-table and address-space code sees the physical page allocator through
three calls.  `Free` is the set of frames that may still be handed out; a call
takes its block out of that set and may take other frames as well, which is
how the page tables that are allocated along the way are accounted for.
`Single` are the frames that were handed out one by one and may be freed.
-/

namespace SeekOs.Mm

/-- The interface of `pmm.c`, with the contract of a successful allocation. -/
class FrameAllocator (κ : Type) where
  pmmAllocPages : κ → Nat → Option (κ × Nat)
  pmmFreePages : κ → Nat → κ
  /-- The address of the entry of a frame in the page database. -/
  pfnToPage : κ → Nat → Nat
  Valid : κ → Prop
  Free : κ → Nat → Prop
  Single : κ → Nat → Prop
  valid_of_alloc : ∀ {kmem next : κ} {nrPages pfn : Nat}, Valid kmem →
    1 ≤ nrPages → nrPages ≤ 1024 →
    pmmAllocPages kmem nrPages = some (next, pfn) → Valid next
  free_of_alloc : ∀ {kmem next : κ} {nrPages pfn : Nat}, Valid kmem →
    1 ≤ nrPages → nrPages ≤ 1024 →
    pmmAllocPages kmem nrPages = some (next, pfn) →
    ∀ frame, pfn ≤ frame → frame < pfn + nrPages → Free kmem frame
  free_after_alloc : ∀ {kmem next : κ} {nrPages pfn : Nat}, Valid kmem →
    1 ≤ nrPages → nrPages ≤ 1024 →
    pmmAllocPages kmem nrPages = some (next, pfn) →
    ∀ frame, Free next frame → Free kmem frame ∧ (frame < pfn ∨ pfn + nrPages ≤ frame)
  /-- Frame numbers fit the field that page-table entries have for them. -/
  free_bound : ∀ {kmem : κ}, Valid kmem → ∀ frame, Free kmem frame → frame < 2 ^ 36
  single_of_alloc : ∀ {kmem next : κ} {pfn : Nat}, Valid kmem →
    pmmAllocPages kmem 1 = some (next, pfn) → Single next pfn
  single_after_alloc : ∀ {kmem next : κ} {nrPages pfn frame : Nat},
    Valid kmem → 1 ≤ nrPages → nrPages ≤ 1024 →
    pmmAllocPages kmem nrPages = some (next, pfn) →
    Single kmem frame → Single next frame
  not_free_of_single : ∀ {kmem : κ} {frame : Nat}, Single kmem frame → ¬Free kmem frame
  valid_of_free : ∀ {kmem : κ} {pfn : Nat}, Valid kmem →
    Single kmem pfn → Valid (pmmFreePages kmem pfn)
  free_after_free : ∀ {kmem : κ} {pfn : Nat}, Valid kmem →
    Single kmem pfn → ∀ frame, Free (pmmFreePages kmem pfn) frame → Free kmem frame ∨ frame = pfn
  single_after_free : ∀ {kmem : κ} {pfn frame : Nat}, Valid kmem →
    Single kmem pfn → Single kmem frame → frame ≠ pfn →
    Single (pmmFreePages kmem pfn) frame

open SeekOs.Pmm SeekOs.Lib

def sizeofPage : Nat := 32

theorem le_two_pow_buddyOrder {nrPages : Nat} (large : nrPages ≤ 1024) :
    nrPages ≤ 2 ^ buddyOrder nrPages := by
  rw [buddyOrder_eq_clog large]
  exact Nat.le_pow_clog (by decide) nrPages

theorem mem_single_iff {pfn frame : Nat} : frame ∈ (⟨pfn, 0⟩ : Block) ↔ frame = pfn := by
  change pfn ≤ frame ∧ frame < pfn + 2 ^ 0 ↔ _
  omega

/-- What freeing a single frame does to the free pages and to the database. -/
theorem pmmFreePages_single {kmem : Kmem} {pfn : Nat}
    (buddy : kmem.Buddy) (vacant : kmem.Vacant ⟨pfn, 0⟩)
    (order : (kmem.pfnDatabase pfn).order = 0) :
    (kmem.pmmFreePages pfn).Buddy ∧ (kmem.pmmFreePages pfn).physLimit = kmem.physLimit ∧
      (∀ frame, (kmem.pmmFreePages pfn).Covered frame ↔ kmem.Covered frame ∨ frame = pfn) ∧
      (∀ frame, ¬kmem.Covered frame → frame ≠ pfn →
        (kmem.pmmFreePages pfn).pfnDatabase frame = kmem.pfnDatabase frame) := by
  obtain ⟨isBuddy, limit, covered, unchanged⟩ := Kmem.buddyFreePages_spec buddy vacant (by decide)
  rw [Kmem.pmmFreePages, order]
  simp only [mem_single_iff] at covered unchanged
  exact ⟨isBuddy, limit, covered, unchanged⟩

/-- The buddy allocator meets the contract on every machine whose physical
addresses fit in 48 bits. -/
instance : FrameAllocator Kmem where
  pmmAllocPages := Kmem.pmmAllocPages
  pmmFreePages := Kmem.pmmFreePages
  pfnToPage kmem pfn := uptrAdd kmem.pfnDatabaseStart (pfn * sizeofPage)
  Valid kmem := kmem.Buddy ∧ kmem.physLimit ≤ 2 ^ 48
  Free kmem pfn := kmem.Covered pfn
  Single kmem pfn := kmem.Vacant ⟨pfn, 0⟩ ∧ (kmem.pfnDatabase pfn).order = 0
  valid_of_alloc := by
    intro kmem next nrPages pfn valid positive _ result
    have allocated := Kmem.pmmAllocPages_spec valid.1 positive result
    refine ⟨allocated.buddy, ?_⟩
    rw [allocated.limit]
    exact valid.2
  free_of_alloc := by
    intro kmem next nrPages pfn valid positive large result frame lower upper
    have allocated := Kmem.pmmAllocPages_spec valid.1 positive result
    have width := le_two_pow_buddyOrder large
    refine (allocated.covered frame).mp (.inr ?_)
    exact ⟨lower, lt_of_lt_of_le upper (Nat.add_le_add_left width pfn)⟩
  free_after_alloc := by
    intro kmem next nrPages pfn valid positive large result frame free
    have allocated := Kmem.pmmAllocPages_spec valid.1 positive result
    have width := le_two_pow_buddyOrder large
    refine ⟨(allocated.covered frame).mp (.inl free), ?_⟩
    by_contra inside
    obtain ⟨block, isFree, member⟩ := free
    refine allocated.vacant.apart block isFree frame member ⟨?_, ?_⟩
    · exact Nat.le_of_not_lt fun below => inside (.inl below)
    · refine Nat.lt_of_lt_of_le ?_ (Nat.add_le_add_left width pfn)
      exact Nat.lt_of_not_le fun above => inside (.inr above)
  free_bound := by
    intro kmem valid frame free
    obtain ⟨block, isFree, member⟩ := free
    have inside := valid.1.inside block isFree frame member
    have pages : kmem.physLimit / pageSize ≤ 2 ^ 48 / pageSize := Nat.div_le_div_right valid.2
    exact lt_of_lt_of_le inside (pages.trans (by decide))
  single_of_alloc := by
    intro kmem next pfn valid result
    have allocated := Kmem.pmmAllocPages_spec valid.1 (le_refl 1) result
    exact ⟨allocated.vacant, allocated.order⟩
  single_after_alloc := by
    intro kmem next nrPages pfn frame valid positive _ result single
    have allocated := Kmem.pmmAllocPages_spec valid.1 positive result
    have uncovered := Allocator.not_covered_of_vacant single.1
    refine ⟨allocated.keeps_vacant single.1, ?_⟩
    rw [allocated.frame frame uncovered]
    exact single.2
  not_free_of_single := fun single =>
    Allocator.not_covered_of_vacant single.1
  valid_of_free := by
    intro kmem pfn valid single
    obtain ⟨buddy, limit, _⟩ := pmmFreePages_single valid.1 single.1 single.2
    exact ⟨buddy, limit.trans_le valid.2⟩
  free_after_free := by
    intro kmem pfn valid single frame free
    obtain ⟨_, _, covered, _⟩ := pmmFreePages_single valid.1 single.1 single.2
    exact (covered frame).mp free
  single_after_free := by
    intro kmem pfn frame valid freed single other
    obtain ⟨_, limit, covered, unchanged⟩ := pmmFreePages_single valid.1 freed.1 freed.2
    have uncovered := Allocator.not_covered_of_vacant single.1
    refine ⟨⟨single.1.aligned, ?_, ?_⟩, ?_⟩
    · rw [limit]
      exact single.1.inside
    · intro block isFree index inBlock inFrame
      have isFrame : index = frame := mem_single_iff.mp inFrame
      rw [isFrame] at inBlock
      rcases (covered frame).mp ⟨block, isFree, inBlock⟩ with old | same
      · exact uncovered old
      · exact other same
    · rw [unchanged frame uncovered other]
      exact single.2

/-- The buddy allocator over fifteen free frames; the first frame of the
machine is reserved. -/
@[irreducible] def bootedKmem : Kmem := Allocator.smallMemory.kmem.buddyInit

theorem bootedKmem_valid : FrameAllocator.Valid bootedKmem := by
  obtain ⟨buddy, limit, _⟩ := buddyInit_spec Allocator.smallMemory
  unfold bootedKmem
  exact ⟨buddy, limit.trans_le (by decide)⟩

theorem bootedKmem_reserved : ¬FrameAllocator.Free bootedKmem 0 := by
  obtain ⟨_, _, covered⟩ := buddyInit_spec Allocator.smallMemory
  unfold bootedKmem
  intro free
  obtain ⟨word, found, clear⟩ := (covered 0).mp free
  cases found
  exact absurd clear (by decide)

end SeekOs.Mm
