import SeekOs.Mm.PmmInvariant

/-!
# Correctness of the page allocator

One specification per helper of `pmm.c`, assembled into the invariant that
every history of allocations and frees preserves.
-/

namespace SeekOs.Pmm

open SeekOs.Base SeekOs.Lib SeekOs.Mm List Option Block Nat

variable {index : Nat} {pfn : Nat}

namespace Kmem

@[simp] theorem updatePage_same (kmem : Kmem) (page : Nat) (change : Page → Page) :
    (kmem.updatePage page change).pfnDatabase page = change (kmem.pfnDatabase page) := by
  simp [updatePage]

variable {page : Nat}

theorem updatePage_other (kmem : Kmem) (change : Page → Page) (different : pfn ≠ page) :
    (kmem.updatePage page change).pfnDatabase pfn = kmem.pfnDatabase pfn := by
  simp [updatePage, different]

variable {kmem : Kmem}

variable {order : Nat}

theorem freeBlock_of_buddyPageIsBuddy (buddy : kmem.Buddy)
    (isBuddy : kmem.buddyPageIsBuddy page index order = true) :
    kmem.FreeBlock ⟨index, order⟩ := by
  unfold buddyPageIsBuddy at isBuddy
  split at isBuddy
  · cases isBuddy
  · split at isBuddy
    · cases isBuddy
    · rw [Bool.and_eq_true, decide_eq_true_eq] at isBuddy
      have free := (buddy.inBuddy_iff index).mp isBuddy.1
      rwa [isBuddy.2] at free

variable {block : Block} {merged : Kmem} {head newOrder : Nat} {taken : Kmem}

theorem unlinked_buddyUnlink (buddy : kmem.Buddy) (free : kmem.FreeBlock block) :
    Unlinked kmem (kmem.buddyUnlink block.start block.order) block := by
  constructor
  case others =>
    intro pfn different
    simp [buddyUnlink, buddySetPageOrder, buddyClearPageBuddy, updatePage, updateArea, different]
  case areas =>
    intro order small different
    have absent : block.start ∉ (kmem.buddyFreeArea order).list := by
      intro member
      have listed := (buddy.listed order small block.start).mp member
      exact different (listed.2.symm.trans (buddy.order_eq free))
    simp [buddyUnlink, buddySetPageOrder, buddyClearPageBuddy, updatePage,
      updateArea, dlistRemoveEntry, different, erase_of_not_mem absent]
  all_goals
    simp [buddyUnlink, buddySetPageOrder, buddyClearPageBuddy, updatePage,
      updateArea, dlistRemoveEntry, shiftLeft_eq]

/-- The block in hand and its free buddy, taken off its list, are a vacant block
of the next order. -/
theorem Vacant.merge (buddy : kmem.Buddy) (vacant : kmem.Vacant ⟨page, order⟩)
    (free : kmem.FreeBlock ⟨buddyStart page order, order⟩) :
    (kmem.buddyUnlink (buddyStart page order) order).Vacant
      ⟨page &&& buddyStart page order, order + 1⟩ := by
  have unlinked : Unlinked kmem (kmem.buddyUnlink (buddyStart page order) order)
      ⟨buddyStart page order, order⟩ :=
    unlinked_buddyUnlink buddy free
  refine ⟨merged_aligned vacant.aligned, ?_, ?_⟩
  · intro pfn member
    rcases (mem_merged_iff vacant.aligned).mp member with
      inPage | inBuddy
    · exact vacant.inside pfn inPage
    · exact buddy.inside _ free pfn inBuddy
  · intro other freeOther pfn inOther inUnion
    rcases (mem_merged_iff vacant.aligned).mp inUnion with
      inPage | inBuddy
    · exact vacant.apart other ((unlinked.freeBlock_iff buddy free other).mp freeOther).1
        pfn inOther inPage
    · exact (unlinked.vacant buddy free).apart other freeOther pfn inOther inBuddy

/-- Coalescing keeps the invariant and the set of free pages, counting the
block in hand as free, and leaves every page outside them alone. -/
theorem buddyCoalesce_spec (fuel : Nat) (buddy : kmem.Buddy)
    (vacant : kmem.Vacant ⟨page, order⟩) (bound : order + fuel < mmMaxOrder)
    (result : kmem.buddyCoalesce page order fuel = (merged, head, newOrder)) :
    merged.Buddy ∧ merged.Vacant ⟨head, newOrder⟩ ∧ newOrder < mmMaxOrder ∧
      merged.physLimit = kmem.physLimit ∧
      (∀ pfn, merged.Covered pfn ∨ pfn ∈ (⟨head, newOrder⟩ : Block) ↔
        kmem.Covered pfn ∨ pfn ∈ (⟨page, order⟩ : Block)) ∧
      (∀ pfn, ¬kmem.Covered pfn → merged.pfnDatabase pfn = kmem.pfnDatabase pfn) := by
  induction fuel generalizing kmem page order with
  | zero =>
    cases result
    exact ⟨buddy, vacant, by omega, rfl, fun _ => Iff.rfl, fun _ _ => rfl⟩
  | succ fuel induction =>
    have pageInside := vacant.inside page (start_mem ⟨page, order⟩)
    have pageIdx : kmem.pageToPfn page = page := buddy.pageToPfn_eq pageInside
    simp only [buddyCoalesce, pageIdx] at result
    split at result
    · rename_i isBuddy
      have free : kmem.FreeBlock ⟨buddyStart page order, order⟩ :=
        freeBlock_of_buddyPageIsBuddy buddy isBuddy
      have unlinked : Unlinked kmem (kmem.buddyUnlink (buddyStart page order) order)
          ⟨buddyStart page order, order⟩ :=
        unlinked_buddyUnlink buddy free
      have buddyAfter := unlinked.buddy buddy free
      have coveredAfter := unlinked.covered_iff buddy free
      have union : ∀ pfn,
          pfn ∈ (⟨page &&& buddyStart page order, order + 1⟩ : Block) ↔
            pfn ∈ (⟨page, order⟩ : Block) ∨ pfn ∈ (⟨buddyStart page order, order⟩ : Block) :=
        fun pfn => mem_merged_iff vacant.aligned
      obtain ⟨mergedBuddy, mergedVacant, small, limit, covered, frame⟩ :=
        induction buddyAfter (vacant.merge buddy free) (by omega) result
      refine ⟨mergedBuddy, mergedVacant, small, limit.trans unlinked.limit, ?_, ?_⟩
      · intro pfn
        rw [covered pfn, union pfn, ← coveredAfter pfn]
        tauto
      · intro pfn uncovered
        have stillUncovered : ¬(kmem.buddyUnlink (buddyStart page order) order).Covered pfn :=
          fun coveredPfn =>
            uncovered ((coveredAfter pfn).mp (.inl coveredPfn))
        rw [frame pfn stillUncovered]
        apply unlinked.others
        rintro rfl
        exact uncovered (Buddy.head_covered free)
    · cases result
      exact ⟨buddy, vacant, by omega, rfl, fun _ => Iff.rfl, fun _ _ => rfl⟩

theorem linked_buddyFreePages
    (result : kmem.buddyCoalesce page order (mmMaxOrder - 1 - order) = (merged, head, newOrder)) :
    Linked merged (kmem.buddyFreePages page order) ⟨head, newOrder⟩ := by
  constructor
  case others =>
    intro pfn different
    simp [buddyFreePages, result, buddySetPageOrder, buddySetPageBuddy,
      updatePage, updateArea, different]
  case areas =>
    intro index _ different
    simp [buddyFreePages, result, buddySetPageOrder, buddySetPageBuddy,
      updatePage, updateArea, different]
  all_goals
    simp [buddyFreePages, result, buddySetPageOrder, buddySetPageBuddy,
      updatePage, updateArea, dlistAddNext, shiftLeft_eq]

/-- `_buddy_free_pages` adds a vacant block to the free pages. -/
theorem buddyFreePages_spec (buddy : kmem.Buddy)
    (vacant : kmem.Vacant ⟨page, order⟩) (small : order < mmMaxOrder) :
    (kmem.buddyFreePages page order).Buddy ∧
      (kmem.buddyFreePages page order).physLimit = kmem.physLimit ∧
      (∀ pfn, (kmem.buddyFreePages page order).Covered pfn ↔
        kmem.Covered pfn ∨ pfn ∈ (⟨page, order⟩ : Block)) ∧
      (∀ pfn, ¬kmem.Covered pfn → pfn ∉ (⟨page, order⟩ : Block) →
        (kmem.buddyFreePages page order).pfnDatabase pfn = kmem.pfnDatabase pfn) := by
  obtain ⟨⟨merged, head, newOrder⟩, result⟩ :
      ∃ outcome, kmem.buddyCoalesce page order (mmMaxOrder - 1 - order) =
        outcome := ⟨_, rfl⟩
  have bound : order + (mmMaxOrder - 1 - order) < mmMaxOrder := by
    omega
  obtain ⟨mergedBuddy, mergedVacant, newSmall, limit, covered, frame⟩ :=
    buddyCoalesce_spec _ buddy vacant bound result
  have linked := linked_buddyFreePages result
  refine ⟨linked.buddy mergedBuddy mergedVacant newSmall, linked.limit.trans limit, ?_, ?_⟩
  · intro pfn
    rw [linked.covered_iff newSmall pfn, covered pfn]
  · intro pfn uncovered outside
    have notHead : pfn ≠ head := by
      rintro rfl
      rcases (covered pfn).mp (.inr (start_mem ⟨pfn, newOrder⟩)) with
        coveredPfn | inside
      · exact uncovered coveredPfn
      · exact outside inside
    rw [linked.others pfn notHead, frame pfn uncovered]

theorem linked_addToFreeList (kmem : Kmem) (page order : Nat) : Linked kmem
      { kmem.buddyAddToFreeList page order with
        nrFreePages := (kmem.buddyAddToFreeList page order).nrFreePages + 1 <<< order }
      ⟨page, order⟩ := by
  constructor
  case others =>
    intro pfn different
    simp [buddyAddToFreeList, buddySetPageOrder, buddySetPageBuddy,
      updatePage, updateArea, different]
  case areas =>
    intro index _ different
    simp [buddyAddToFreeList, buddySetPageOrder, buddySetPageBuddy,
      updatePage, updateArea, different]
  all_goals
    simp [buddyAddToFreeList, buddySetPageOrder, buddySetPageBuddy,
      updatePage, updateArea, dlistAddPrev, shiftLeft_eq]

/-- `_buddy_split` returns everything but the lowest block of order `low`. -/
theorem buddySplit_spec (page low count : Nat)
    (buddy : kmem.Buddy) (vacant : kmem.Vacant ⟨page, low + count⟩)
    (small : low + count < mmMaxOrder) :
    (kmem.buddySplit page low count).Buddy ∧ (kmem.buddySplit page low count).Vacant ⟨page, low⟩ ∧
      (kmem.buddySplit page low count).physLimit = kmem.physLimit ∧
      (∀ pfn, (kmem.buddySplit page low count).Covered pfn ∨ pfn ∈ (⟨page, low⟩ : Block) ↔
        kmem.Covered pfn ∨ pfn ∈ (⟨page, low + count⟩ : Block)) ∧
      (∀ pfn, pfn ∉ (⟨page, low + count⟩ : Block) ∨ pfn = page →
        (kmem.buddySplit page low count).pfnDatabase pfn = kmem.pfnDatabase pfn) := by
  induction count generalizing kmem with
  | zero => exact ⟨buddy, vacant, rfl, fun _ => Iff.rfl, fun _ _ => rfl⟩
  | succ count induction =>
    have halves : ∀ pfn,
        pfn ∈ (⟨page, low + (count + 1)⟩ : Block) ↔
          pfn ∈ (⟨page, low + count⟩ : Block) ∨
            pfn ∈ (⟨page + 2 ^ (low + count), low + count⟩ : Block) :=
      fun pfn => mem_succ_iff
    have apart := halves_disjoint page (low + count)
    have shifted : page + 1 <<< (low + count) = page + 2 ^ (low + count) := by
      rw [shiftLeft_eq, one_mul]
    have linked := kmem.linked_addToFreeList (page + 2 ^ (low + count)) (low + count)
    have highVacant : kmem.Vacant ⟨page + 2 ^ (low + count), low + count⟩ := by
      refine ⟨high_half_aligned vacant.aligned, ?_, ?_⟩
      · intro pfn member
        exact vacant.inside pfn ((halves pfn).mpr (.inr member))
      · intro free isFree pfn inFree member
        exact vacant.apart free isFree pfn inFree ((halves pfn).mpr (.inr member))
    have halfSmall : low + count < mmMaxOrder := by omega
    have buddyAfter := linked.buddy buddy highVacant halfSmall
    have lowVacant : Kmem.Vacant
        { kmem.buddyAddToFreeList (page + 2 ^ (low + count)) (low + count) with
          nrFreePages :=
            (kmem.buddyAddToFreeList (page + 2 ^ (low + count))
              (low + count)).nrFreePages + 1 <<< (low + count) }
        ⟨page, low + count⟩ := by
      refine ⟨low_half_aligned vacant.aligned, ?_, ?_⟩
      · intro pfn member
        exact vacant.inside pfn ((halves pfn).mpr (.inl member))
      · intro free isFree
        rcases (linked.freeBlock_iff halfSmall free).mp isFree with
          freeBefore | rfl
        · intro pfn inFree member
          exact vacant.apart free freeBefore pfn inFree ((halves pfn).mpr (.inl member))
        · exact apart.symm
    obtain ⟨splitBuddy, splitVacant, limit, covered, frame⟩ :=
      induction buddyAfter lowVacant halfSmall
    rw [← shifted] at splitBuddy splitVacant limit covered frame
    refine ⟨splitBuddy, splitVacant, ?_, ?_, ?_⟩
    · exact limit.trans (by rw [shifted]; exact linked.limit)
    · intro pfn
      have step := covered pfn
      rw [shifted, linked.covered_iff halfSmall pfn, ← shifted] at step
      rw [halves pfn]
      exact step.trans (by rw [shifted]; tauto)
    · intro pfn away
      have notHigh : pfn ≠ page + 2 ^ (low + count) := by
        rintro rfl
        rcases away with outside | same
        · exact outside ((halves _).mpr (.inr (start_mem _)))
        · have positive : 0 < 2 ^ (low + count) := by positivity
          omega
      have awayLow : pfn ∉ (⟨page, low + count⟩ : Block) ∨ pfn = page := by
        rcases away with outside | same
        · exact .inl fun member => outside ((halves pfn).mpr (.inl member))
        · exact .inr same
      exact (frame pfn awayLow).trans (by
        rw [shifted]
        exact linked.others pfn notHigh)

theorem unlinked_getFromFreeArea (small : order < mmMaxOrder)
    (result : kmem.buddyGetFromFreeArea order = some (taken, page)) :
    kmem.FreeBlock ⟨page, order⟩ ∧ Unlinked kmem taken ⟨page, order⟩ := by
  unfold buddyGetFromFreeArea at result
  split at result
  · cases result
  · cases entries : (kmem.buddyFreeArea order).list with
    | nil => simp [entries, dlistRemoveNext] at result
    | cons head rest =>
      simp only [entries, dlistRemoveNext, Option.some.injEq, Prod.mk.injEq] at result
      obtain ⟨rfl, rfl⟩ := result
      refine ⟨⟨small, by simp [entries]⟩, ?_⟩
      constructor
      case others =>
        intro pfn different
        simp [buddyClearPageBuddy, updatePage, updateArea, different]
      case areas =>
        intro index _ different
        simp [buddyClearPageBuddy, updatePage, updateArea, different]
      all_goals simp [buddyClearPageBuddy, updatePage, updateArea, entries, shiftLeft_eq]

/-- What a successful allocation does: it takes one block of the requested
order out of the free pages and records the order in its first page. -/
structure Allocated (before after : Kmem) (block : Block) : Prop where
  buddy : after.Buddy
  vacant : after.Vacant block
  limit : after.physLimit = before.physLimit
  covered : ∀ pfn, after.Covered pfn ∨ pfn ∈ block ↔ before.Covered pfn
  order : (after.pfnDatabase block.start).order = block.order
  frame : ∀ pfn, ¬before.Covered pfn → after.pfnDatabase pfn = before.pfnDatabase pfn

variable {after : Kmem} {nrPages : Nat}

theorem Allocated.keeps_vacant {before : Kmem} {other : Block}
    (allocated : Allocated before after block) (vacant : before.Vacant other) :
    after.Vacant other := by
  refine ⟨vacant.aligned, ?_, ?_⟩
  · rw [allocated.limit]
    exact vacant.inside
  · intro free isFree index inFree inOther
    obtain ⟨old, isOld, inOld⟩ := (allocated.covered index).mp (.inl ⟨free, isFree, inFree⟩)
    exact vacant.apart old isOld index inOld inOther

/-- Storing an order in the head of a vacant block touches no free block. -/
theorem Buddy.setOrder (buddy : kmem.Buddy) (vacant : kmem.Vacant block) (order : Nat) :
    (kmem.buddySetPageOrder block.start order).Buddy := by
  have unflagged := buddy.not_inBuddy_of_vacant vacant
  have inBuddy : ∀ pfn,
      ((kmem.buddySetPageOrder block.start order).pfnDatabase pfn).inBuddy =
        (kmem.pfnDatabase pfn).inBuddy := by
    intro pfn
    by_cases head : pfn = block.start
    · simp [buddySetPageOrder, head]
    · simp [buddySetPageOrder, updatePage_other _ _ head]
  have address : ∀ pfn,
      ((kmem.buddySetPageOrder block.start order).pfnDatabase pfn).physAddr =
        (kmem.pfnDatabase pfn).physAddr := by
    intro pfn
    by_cases head : pfn = block.start
    · simp [buddySetPageOrder, head]
    · simp [buddySetPageOrder, updatePage_other _ _ head]
  have orders : ∀ pfn, (kmem.pfnDatabase pfn).inBuddy = true →
      ((kmem.buddySetPageOrder block.start order).pfnDatabase pfn).order =
        (kmem.pfnDatabase pfn).order := by
    intro pfn flagged
    have head : pfn ≠ block.start := by
      rintro rfl
      simp [unflagged] at flagged
    simp [buddySetPageOrder, updatePage_other _ _ head]
  refine
    { address := ?_, past := ?_, aligned := buddy.aligned
      inside := buddy.inside, apart := buddy.apart, listed := ?_
      flagged := ?_, nodup := buddy.nodup, counted := buddy.counted
      total := buddy.total }
  · intro pfn inside
    rw [address]
    exact buddy.address pfn inside
  · intro pfn outside
    rw [inBuddy]
    exact buddy.past pfn outside
  · intro index small pfn
    rw [inBuddy]
    refine (buddy.listed index small pfn).trans ?_
    constructor
    · rintro ⟨flagged, equal⟩
      exact ⟨flagged, (orders pfn flagged).trans equal⟩
    · rintro ⟨flagged, equal⟩
      exact ⟨flagged, (orders pfn flagged).symm.trans equal⟩
  · intro pfn flagged
    rw [inBuddy] at flagged
    rw [orders pfn flagged]
    exact buddy.flagged pfn flagged

/-- The search takes a block of an order that is large enough and splits it. -/
theorem buddyAllocFrom_cases (fuel : Nat) {current : Nat}
    (start : order ≤ current) (bound : current + fuel = mmMaxOrder)
    (result : kmem.buddyAllocFrom order current fuel = some (after, page)) :
    ∃ level taken, order ≤ level ∧ kmem.FreeBlock ⟨page, level⟩ ∧
      Unlinked kmem taken ⟨page, level⟩ ∧
      after = (taken.buddySplit page order (level - order)).buddySetPageOrder page order := by
  induction fuel generalizing current with
  | zero => cases result
  | succ fuel induction =>
    unfold buddyAllocFrom at result
    cases got : kmem.buddyGetFromFreeArea current with
    | none =>
      rw [got] at result
      exact induction (by omega) (by omega) result
    | some pair =>
      obtain ⟨taken, head⟩ := pair
      rw [got] at result
      cases result
      obtain ⟨free, unlinked⟩ := unlinked_getFromFreeArea (by omega) got
      exact ⟨current, taken, start, free, unlinked, rfl⟩

theorem pmmAllocPages_cases (positive : 1 ≤ nrPages)
    (result : kmem.pmmAllocPages nrPages = some (after, pfn)) :
    nrPages ≤ 1024 ∧ ∃ page level taken, buddyOrder nrPages ≤ level ∧
      kmem.FreeBlock ⟨page, level⟩ ∧ Unlinked kmem taken ⟨page, level⟩ ∧
      after = (taken.buddySplit page (buddyOrder nrPages)
        (level - buddyOrder nrPages)).buddySetPageOrder page (buddyOrder nrPages) ∧
      pfn = after.pageToPfn page := by
  unfold pmmAllocPages at result
  rw [if_neg (by omega)] at result
  split at result
  · cases result
  · simp only [map_eq_some_iff, Prod.exists, Prod.mk.injEq] at result
    obtain ⟨next, page, allocated, rfl, rfl⟩ := result
    unfold buddyAllocPages at allocated
    split at allocated
    · cases allocated
    · rename_i small
      simp only at allocated
      split at allocated
      · cases allocated
      · obtain ⟨level, taken, atLeast, free, unlinked, split⟩ :=
          buddyAllocFrom_cases _ (le_refl _) (by omega) allocated
        exact ⟨not_lt.mp small, page, level, taken, atLeast, free, unlinked, split, rfl⟩

theorem allocated_of_split {level : Nat} (buddy : kmem.Buddy)
    (atLeast : order ≤ level) (free : kmem.FreeBlock ⟨page, level⟩)
    (unlinked : Unlinked kmem taken ⟨page, level⟩) :
    Allocated kmem ((taken.buddySplit page order
      (level - order)).buddySetPageOrder page order) ⟨page, order⟩ := by
  have orders : order + (level - order) = level := by omega
  obtain ⟨splitBuddy, splitVacant, limit, covered, frame⟩ :=
    buddySplit_spec page order (level - order) (unlinked.buddy buddy free)
      (by rw [orders]; exact unlinked.vacant buddy free)
      (by rw [orders]; exact free.1)
  rw [orders] at covered frame
  refine
    { buddy := splitBuddy.setOrder splitVacant order
      vacant := ⟨splitVacant.aligned, splitVacant.inside, splitVacant.apart⟩
      limit := limit.trans unlinked.limit
      covered := ?_, order := ?_, frame := ?_ }
  · intro pfn
    exact (covered pfn).trans (unlinked.covered_iff buddy free pfn)
  · simp [buddySetPageOrder]
  · intro pfn uncovered
    have outside : pfn ∉ (⟨page, level⟩ : Block) := fun member => uncovered ⟨_, free, member⟩
    have notHead : pfn ≠ page := by
      rintro rfl
      exact outside (start_mem _)
    calc
      ((taken.buddySplit page order (level - order)).buddySetPageOrder page order).pfnDatabase pfn =
          (taken.buddySplit page order (level - order)).pfnDatabase pfn :=
        updatePage_other _ _ notHead
      _ = taken.pfnDatabase pfn := frame pfn (.inl outside)
      _ = kmem.pfnDatabase pfn := unlinked.others pfn notHead

/-- `pmm_alloc_pages` returns the first frame of an allocated block. -/
theorem pmmAllocPages_spec (buddy : kmem.Buddy) (positive : 1 ≤ nrPages)
    (result : kmem.pmmAllocPages nrPages = some (after, pfn)) :
    Allocated kmem after ⟨pfn, buddyOrder nrPages⟩ := by
  obtain ⟨_, page, level, taken, atLeast, free, unlinked, isAfter, rfl⟩ :=
    pmmAllocPages_cases positive result
  have spec := allocated_of_split buddy atLeast free unlinked
  rw [← isAfter] at spec
  have inside := spec.vacant.inside page (start_mem _)
  rwa [spec.buddy.pageToPfn_eq inside]

end Kmem

/-! ## Boot -/

variable {kmem : Kmem} {bit : Nat}

private theorem covered_empty (empty : ∀ order, (kmem.buddyFreeArea order).list = []) (pfn : Nat) :
    ¬kmem.Covered pfn := by
  rintro ⟨block, ⟨_, member⟩, _⟩
  rw [empty] at member
  cases member

/-- The state of `_buddy_init` after part of the bitmap: the free pages are
the clear bits below `bound`, and no page from `bound` on was touched. -/
structure BootProgress (boot : BootMemory) (bound : Nat) (kmem : Kmem) :
    Prop where
  buddy : kmem.Buddy
  limit : kmem.physLimit = boot.physLimit
  covered : ∀ pfn, kmem.Covered pfn ↔ bitmapFree boot.bitmap pfn ∧ pfn < bound

namespace BootProgress

variable {boot : BootMemory} {bound : Nat}

theorem start (boot : BootMemory) : BootProgress boot 0 boot.kmem := by
  have uncovered : ∀ pfn, ¬boot.kmem.Covered pfn := covered_empty fun _ => rfl
  refine ⟨?_, rfl, ?_⟩
  · have noFree : ∀ block, ¬boot.kmem.FreeBlock block := by
      rintro block ⟨_, member⟩
      cases member
    refine
      { address := ?_, past := ?_
        aligned := fun block free => absurd free (noFree block)
        inside := fun block free => absurd free (noFree block)
        apart := fun left _ free => absurd free (noFree left)
        listed := ?_, flagged := ?_, nodup := fun _ _ => nodup_nil
        counted := fun _ _ => rfl, total := ?_ }
    · intro pfn inside
      simp only [BootMemory.kmem] at inside ⊢
      simp [BootMemory.pfnDatabaseInit, inside]
    · intro pfn outside
      simp only [BootMemory.kmem] at outside ⊢
      simp only [BootMemory.pfnDatabaseInit, if_neg (not_lt.mpr outside)]
      exact boot.past_used pfn outside
    · intro order _ pfn
      simp only [BootMemory.kmem, not_mem_nil, false_iff, not_and]
      intro flagged
      simp only [BootMemory.pfnDatabaseInit] at flagged
      split at flagged
      · cases flagged
      · rename_i outside
        rw [boot.past_used pfn (not_lt.mp outside)] at flagged
        cases flagged
    · intro pfn flagged
      simp only [BootMemory.kmem, BootMemory.pfnDatabaseInit] at flagged
      split at flagged
      · cases flagged
      · rename_i outside
        rw [boot.past_used pfn (not_lt.mp outside)] at flagged
        cases flagged
    · simp [BootMemory.kmem]
  · intro pfn
    simp [uncovered pfn]

section

variable (progress : BootProgress boot bound kmem)
include progress

/-- A block of clear bits that the scan has not reached is vacant. -/
theorem vacant (order : Nat) (aligned : 2 ^ order ∣ bound)
    (clear : ∀ pfn ∈ (⟨bound, order⟩ : Block), bitmapFree boot.bitmap pfn) :
    kmem.Vacant ⟨bound, order⟩ := by
  refine ⟨aligned, ?_, ?_⟩
  · intro pfn member
    rw [progress.limit]
    exact boot.bitmap_inside pfn (clear pfn member)
  · intro block isFree pfn inFree member
    have below := ((progress.covered pfn).mp ⟨block, isFree, inFree⟩).2
    exact absurd member.1 (not_le.mpr below)

theorem free (order : Nat) (small : order < mmMaxOrder) (aligned : 2 ^ order ∣ bound)
    (clear : ∀ pfn ∈ (⟨bound, order⟩ : Block), bitmapFree boot.bitmap pfn) :
    BootProgress boot (bound + 2 ^ order) (kmem.buddyFreePages bound order) := by
  obtain ⟨buddy, limit, covered, _⟩ :=
    Kmem.buddyFreePages_spec progress.buddy (progress.vacant order aligned clear) small
  refine ⟨buddy, limit.trans progress.limit, ?_⟩
  intro pfn
  rw [covered pfn, progress.covered pfn]
  constructor
  · rintro (⟨isFree, below⟩ | member)
    · exact ⟨isFree, by omega⟩
    · exact ⟨clear pfn member, member.2⟩
  · rintro ⟨isFree, below⟩
    by_cases before : pfn < bound
    · exact .inl ⟨isFree, before⟩
    · exact .inr ⟨not_lt.mp before, below⟩

theorem skip (set : ¬bitmapFree boot.bitmap bound) : BootProgress boot (bound + 1) kmem := by
  refine ⟨progress.buddy, progress.limit, ?_⟩
  intro pfn
  rw [progress.covered pfn]
  constructor
  · rintro ⟨isFree, below⟩
    exact ⟨isFree, by omega⟩
  · rintro ⟨isFree, below⟩
    refine ⟨isFree, ?_⟩
    by_contra notBelow
    have same : pfn = bound := by omega
    exact set (same ▸ isFree)

end

end BootProgress

private theorem and_shifted_bit_eq_zero (word : BitVec 64) (small : bit < 64) :
    word &&& (1#64 <<< bit) = 0#64 ↔ word.getLsbD bit = false := by
  constructor
  · intro zero
    have bits := congrArg (fun value : BitVec 64 => value.getLsbD bit) zero
    simpa [small] using bits
  · intro clear
    apply BitVec.eq_of_getLsbD_eq
    intro index inside
    by_cases same : index = bit
    · simp [same, clear]
    · have different : ¬(index - bit = 0 ∧ bit ≤ index) := by omega
      simp only [BitVec.getLsbD_and, BitVec.getLsbD_shiftLeft,
        BitVec.getLsbD_one, BitVec.getLsbD_zero]
      by_cases below : index < bit
      · simp [below]
      · have positive : index - bit ≠ 0 := by omega
        simp [positive]

variable {word : BitVec 64}

private theorem bitmapFree_word {bitmap : List (BitVec 64)} (found : bitmap[index]? = some word)
    (small : bit < bitsPerU64) :
    bitmapFree bitmap (index * bitsPerU64 + bit) ↔ word.getLsbD bit = false := by
  have quotient : (index * bitsPerU64 + bit) / bitsPerU64 = index := by
    unfold bitsPerU64 at *
    omega
  have remainder : (index * bitsPerU64 + bit) % bitsPerU64 = bit := by
    unfold bitsPerU64 at *
    omega
  unfold bitmapFree
  rw [quotient, remainder, found]
  simp

section Scan

variable {boot : BootMemory} {property : Kmem → Prop}
  (freed : ∀ bound kmem order, BootProgress boot bound kmem →
    kmem.Vacant ⟨bound, order⟩ → order < mmMaxOrder → property kmem →
    property (kmem.buddyFreePages bound order))

include freed

private theorem bootProgress_free {bound : Nat}
    (progress : BootProgress boot bound kmem) (kept : property kmem)
    (order : Nat) (small : order < mmMaxOrder) (aligned : 2 ^ order ∣ bound)
    (clear : ∀ pfn ∈ (⟨bound, order⟩ : Block), bitmapFree boot.bitmap pfn) :
    BootProgress boot (bound + 2 ^ order) (kmem.buddyFreePages bound order) ∧
      property (kmem.buddyFreePages bound order) :=
  ⟨progress.free order small aligned clear,
    freed bound kmem order progress (progress.vacant order aligned clear) small kept⟩

private theorem bootProgress_bits (found : boot.bitmap[index]? = some word)
    (progress : BootProgress boot (index * bitsPerU64) kmem)
    (kept : property kmem) (count : Nat) (bound : count ≤ bitsPerU64) :
    BootProgress boot (index * bitsPerU64 + count)
        ((List.range count).foldl (fun current bitIdx =>
          if word &&& (1#64 <<< bitIdx) = 0#64 then
            current.buddyFreePages (index * bitsPerU64 + bitIdx) 0
          else
            current) kmem) ∧
      property ((List.range count).foldl (fun current bitIdx =>
        if word &&& (1#64 <<< bitIdx) = 0#64 then
          current.buddyFreePages (index * bitsPerU64 + bitIdx) 0
        else
          current) kmem) := by
  induction count with
  | zero => exact ⟨progress, kept⟩
  | succ count induction =>
    obtain ⟨before, keptBefore⟩ := induction (by omega)
    have smallBit : count < bitsPerU64 := by omega
    rw [range_succ, foldl_append, foldl_cons, foldl_nil]
    by_cases clear : word &&& (1#64 <<< count) = 0#64
    · rw [if_pos clear]
      have free : bitmapFree boot.bitmap (index * bitsPerU64 + count) :=
        (bitmapFree_word found smallBit).mpr ((and_shifted_bit_eq_zero word smallBit).mp clear)
      refine bootProgress_free freed before keptBefore 0 (by decide) (by simp) ?_
      intro pfn member
      have same : pfn = index * bitsPerU64 + count := by
        simp only [mem_iff, pow_zero] at member
        omega
      exact same ▸ free
    · rw [if_neg clear]
      refine ⟨before.skip ?_, keptBefore⟩
      intro free
      exact clear ((and_shifted_bit_eq_zero word smallBit).mpr
        ((bitmapFree_word found smallBit).mp free))

private theorem bootProgress_word (found : boot.bitmap[index]? = some word)
    (progress : BootProgress boot (index * bitsPerU64) kmem)
    (kept : property kmem) :
    BootProgress boot ((index + 1) * bitsPerU64) (kmem.buddyInitWord index word) ∧
      property (kmem.buddyInitWord index word) := by
  have width : (index + 1) * bitsPerU64 = index * bitsPerU64 + bitsPerU64 := by
    rw [add_mul, one_mul]
  unfold Kmem.buddyInitWord
  split
  · rename_i zero
    have orderOfWord : ffs bitsPerU64 = 6 := by decide
    have size : bitsPerU64 = 2 ^ 6 := by decide
    rw [orderOfWord, width]
    nth_rewrite 2 [size]
    refine bootProgress_free freed progress kept 6 (by decide) ⟨index, by rw [size, mul_comm]⟩ ?_
    intro pfn member
    have position : pfn = index * bitsPerU64 + (pfn - index * bitsPerU64) := by
      have lower := member.1
      simp only at lower
      omega
    have smallBit : pfn - index * bitsPerU64 < bitsPerU64 := by
      have upper := member.2
      simp only at upper
      omega
    rw [position, bitmapFree_word found smallBit, zero]
    simp
  · rw [width]
    exact bootProgress_bits freed found progress kept bitsPerU64 (le_refl _)

private theorem bootProgress_words (initial : property boot.kmem)
    (count : Nat) (bound : count ≤ boot.bitmap.length) :
    BootProgress boot (count * bitsPerU64)
        ((boot.bitmap.zipIdx.take count).foldl
          (fun current (word, index) => current.buddyInitWord index word)
          boot.kmem) ∧
      property ((boot.bitmap.zipIdx.take count).foldl
        (fun current (word, index) => current.buddyInitWord index word)
        boot.kmem) := by
  induction count with
  | zero =>
    refine ⟨?_, initial⟩
    simpa using BootProgress.start boot
  | succ count induction =>
    have inside : count < boot.bitmap.length := by omega
    obtain ⟨before, kept⟩ := induction (by omega)
    have last : (boot.bitmap.zipIdx.take (count + 1)) =
        boot.bitmap.zipIdx.take count ++ [(boot.bitmap[count], count)] := by
      rw [take_add_one, List.getElem?_eq_getElem (by simpa using inside)]
      simp
    rw [last, foldl_append, foldl_cons, foldl_nil]
    exact bootProgress_word freed (List.getElem?_eq_getElem inside) before kept

variable (property) in
/-- The scan of `_buddy_init`, with a property that every free keeps. -/
theorem buddyInit_progress (initial : property boot.kmem) :
    BootProgress boot (boot.bitmap.length * bitsPerU64) boot.kmem.buddyInit ∧
      property boot.kmem.buddyInit := by
  have progress := bootProgress_words freed initial boot.bitmap.length (le_refl _)
  rw [take_of_length_le (by simp)] at progress
  exact progress

end Scan

/-- `_buddy_init` makes exactly the clear bits of the bitmap free. -/
theorem buddyInit_spec (boot : BootMemory) :
    boot.kmem.buddyInit.Buddy ∧ boot.kmem.buddyInit.physLimit = boot.physLimit ∧
      ∀ pfn, boot.kmem.buddyInit.Covered pfn ↔ bitmapFree boot.bitmap pfn := by
  obtain ⟨progress, _⟩ := buddyInit_progress (fun _ => True) (fun _ _ _ _ _ _ _ => trivial) trivial
  refine ⟨progress.buddy, progress.limit, ?_⟩
  intro pfn
  rw [progress.covered pfn, and_iff_left_iff_imp]
  rintro ⟨word, found, _⟩
  have inside : pfn / bitsPerU64 < boot.bitmap.length := (List.getElem?_eq_some_iff.mp found).1
  unfold bitsPerU64 at *
  omega

/-! ## Histories of allocations and frees -/

/-- An outstanding allocation occupies its request rounded up to a power of
two. -/
def outstandingBlock (entry : Nat × Nat) : Block :=
  ⟨entry.1, Nat.clog 2 entry.2⟩

theorem buddyOrder_eq_clog {nrPages : Nat} (large : nrPages ≤ 1024) :
    buddyOrder nrPages = clog 2 nrPages := by
  have fits : ∀ order, nrPages ≤ 1 <<< order ↔ clog 2 nrPages ≤ order := by
    intro order
    rw [shiftLeft_eq, one_mul]
    exact (clog_le_iff_le_pow (by decide)).symm
  have small : clog 2 nrPages ≤ 10 := (clog_le_iff_le_pow (by decide)).mpr large
  have found : (List.range mmMaxOrder).find?
      (fun order => decide (nrPages ≤ 1 <<< order)) = some (clog 2 nrPages) := by
    rw [List.find?_range_eq_some]
    refine ⟨?_, ?_, ?_⟩
    · simp [fits]
    · rw [mem_range]
      unfold mmMaxOrder
      omega
    · intro order below
      simp [fits, below]
  unfold buddyOrder
  rw [found, getD_some]

/-- What every state of a run satisfies, in terms of the free lists, the page
flags, the counters and the outstanding allocations. -/
structure Allocator.Consistent (memory : BootMemory) (state : Allocator) :
    Prop where
  aligned : ∀ order, order < mmMaxOrder →
    ∀ pfn ∈ (state.kmem.buddyFreeArea order).list, 2 ^ order ∣ pfn
  freeApart : ∀ left right, state.kmem.FreeBlock left →
    state.kmem.FreeBlock right → left ≠ right → left.Disjoint right
  outstandingApart : ∀ block, state.kmem.FreeBlock block →
    ∀ entry ∈ state.outstanding, block.Disjoint (outstandingBlock entry)
  allocationsApart : state.outstanding.Pairwise fun left right =>
    (outstandingBlock left).Disjoint (outstandingBlock right)
  nodup : ∀ order, order < mmMaxOrder → (state.kmem.buddyFreeArea order).list.Nodup
  listed : ∀ order, order < mmMaxOrder → ∀ pfn,
    pfn ∈ (state.kmem.buddyFreeArea order).list ↔
      (state.kmem.pfnDatabase pfn).inBuddy = true ∧ (state.kmem.pfnDatabase pfn).order = order
  flagged : ∀ pfn, (state.kmem.pfnDatabase pfn).inBuddy = true →
    pfn < memory.physLimit / pageSize ∧ (state.kmem.pfnDatabase pfn).order < mmMaxOrder
  nrFree : ∀ order, order < mmMaxOrder →
    (state.kmem.buddyFreeArea order).nrFree = (state.kmem.buddyFreeArea order).list.length
  nrFreePages : state.kmem.nrFreePages =
    ∑ order ∈ Finset.range mmMaxOrder, (state.kmem.buddyFreeArea order).nrFree * 2 ^ order
  pages : ∀ pfn, bitmapFree memory.bitmap pfn ↔
    state.kmem.Covered pfn ∨ ∃ entry ∈ state.outstanding, pfn ∈ outstandingBlock entry

/-- The inductive form of `Consistent`: it also records that the head of an
outstanding block carries the order with which it will be freed. -/
structure Allocator.Sound (memory : BootMemory) (state : Allocator) :
    Prop where
  buddy : state.kmem.Buddy
  limit : state.kmem.physLimit = memory.physLimit
  vacant : ∀ entry ∈ state.outstanding, state.kmem.Vacant (outstandingBlock entry)
  order : ∀ entry ∈ state.outstanding,
    (state.kmem.pfnDatabase entry.1).order = Nat.clog 2 entry.2 ∧ Nat.clog 2 entry.2 < mmMaxOrder
  apart : state.outstanding.Pairwise fun left right =>
    (outstandingBlock left).Disjoint (outstandingBlock right)
  pages : ∀ pfn, bitmapFree memory.bitmap pfn ↔
    state.kmem.Covered pfn ∨ ∃ entry ∈ state.outstanding, pfn ∈ outstandingBlock entry

namespace Allocator

variable {memory : BootMemory} {state next : Allocator}

theorem boot_sound (memory : BootMemory) : Sound memory (boot memory) := by
  obtain ⟨buddy, limit, covered⟩ := buddyInit_spec memory
  refine ⟨buddy, limit, ?_, ?_, List.Pairwise.nil, ?_⟩
  · intro entry member
    cases member
  · intro entry member
    cases member
  · intro pfn
    simp [boot, covered pfn]

theorem not_covered_of_vacant {block : Block} (vacant : kmem.Vacant block) :
    ¬kmem.Covered block.start := by
  rintro ⟨free, isFree, member⟩
  exact vacant.apart free isFree block.start member block.start_mem

section

variable (sound : Sound memory state)
include sound

theorem Sound.consistent : Consistent memory state := by
  refine
    { aligned := ?_, freeApart := sound.buddy.apart, outstandingApart := ?_
      allocationsApart := sound.apart, nodup := sound.buddy.nodup
      listed := sound.buddy.listed, flagged := ?_
      nrFree := sound.buddy.counted, nrFreePages := sound.buddy.total
      pages := sound.pages }
  · intro order small pfn member
    exact sound.buddy.aligned ⟨pfn, order⟩ ⟨small, member⟩
  · intro block free entry member
    exact (sound.vacant entry member).apart block free
  · intro pfn flagged
    refine ⟨?_, sound.buddy.flagged pfn flagged⟩
    rw [← sound.limit]
    by_contra outside
    rw [sound.buddy.past pfn (not_lt.mp outside)] at flagged
    cases flagged

theorem sound_alloc {nrPages pfn : Nat} (positive : 1 ≤ nrPages) (large : nrPages ≤ 1024)
    (result : state.kmem.pmmAllocPages nrPages = some (kmem, pfn)) :
    Sound memory { kmem := kmem, outstanding := (pfn, nrPages) :: state.outstanding } := by
  have allocated := Kmem.pmmAllocPages_spec sound.buddy positive result
  rw [buddyOrder_eq_clog large] at allocated
  have small : clog 2 nrPages < mmMaxOrder :=
    lt_succ_of_le ((clog_le_iff_le_pow (by decide)).mpr large)
  have wasCovered : ∀ index ∈ outstandingBlock (pfn, nrPages), state.kmem.Covered index :=
    fun index member => (allocated.covered index).mp (.inr member)
  have newApart : ∀ entry ∈ state.outstanding,
      (outstandingBlock (pfn, nrPages)).Disjoint (outstandingBlock entry) := by
    intro entry member index inNew inEntry
    obtain ⟨free, isFree, inFree⟩ := wasCovered index inNew
    exact (sound.vacant entry member).apart free isFree index inFree inEntry
  refine ⟨allocated.buddy, allocated.limit.trans sound.limit, ?_, ?_, ?_, ?_⟩
  · intro entry member
    rcases mem_cons.mp member with rfl | old
    · exact allocated.vacant
    · exact allocated.keeps_vacant (sound.vacant entry old)
  · intro entry member
    rcases mem_cons.mp member with rfl | old
    · exact ⟨allocated.order, small⟩
    · have uncovered := not_covered_of_vacant (sound.vacant entry old)
      rw [allocated.frame entry.1 uncovered]
      exact sound.order entry old
  · exact pairwise_cons.mpr ⟨newApart, sound.apart⟩
  · intro index
    rw [sound.pages index, ← allocated.covered index]
    simp only [mem_cons, exists_eq_or_imp]
    tauto

theorem sound_free (member : pfn ∈ state.outstanding.map Prod.fst) : Sound memory
      { kmem := state.kmem.pmmFreePages pfn
        outstanding := state.outstanding.eraseP fun entry => entry.1 = pfn } := by
  obtain ⟨found, foundMember, foundPfn⟩ := mem_map.mp member
  obtain ⟨freed, before, after, _, freedPfn, split, rest⟩ :=
    exists_of_eraseP (p := fun entry : Nat × Nat => entry.1 = pfn) foundMember (by simp [foundPfn])
  rw [rest]
  have samePfn : freed.1 = pfn := by simpa using freedPfn
  have freedMember : freed ∈ state.outstanding := by simp [split]
  have restMember : ∀ entry ∈ before ++ after, entry ∈ state.outstanding := by
    intro entry inRest
    rw [split]
    rcases mem_append.mp inRest with inBefore | inAfter
    · exact mem_append_left _ inBefore
    · exact mem_append_right _ (mem_cons_of_mem _ inAfter)
  have pairs := sound.apart
  rw [split, pairwise_append, pairwise_cons] at pairs
  obtain ⟨beforePairs, ⟨freedAfter, afterPairs⟩, beforeRest⟩ := pairs
  have restApart : ∀ entry ∈ before ++ after,
      (outstandingBlock entry).Disjoint (outstandingBlock freed) := by
    intro entry inRest
    rcases mem_append.mp inRest with inBefore | inAfter
    · exact beforeRest entry inBefore freed mem_cons_self
    · exact (freedAfter entry inAfter).symm
  obtain ⟨freedOrder, small⟩ := sound.order freed freedMember
  obtain ⟨buddy, limit, covered, frame⟩ :=
    Kmem.buddyFreePages_spec sound.buddy (sound.vacant freed freedMember) small
  have called : state.kmem.pmmFreePages pfn =
      state.kmem.buddyFreePages freed.1 (clog 2 freed.2) := by
    rw [Kmem.pmmFreePages, ← samePfn, freedOrder]
  rw [called]
  refine ⟨buddy, limit.trans sound.limit, ?_, ?_, ?_, ?_⟩
  · intro entry inRest
    have vacantBefore := sound.vacant entry (restMember entry inRest)
    refine ⟨vacantBefore.aligned, ?_, ?_⟩
    · rw [limit]
      exact vacantBefore.inside
    · intro free isFree index inFree inEntry
      rcases (covered index).mp ⟨free, isFree, inFree⟩ with
        ⟨block, isBlock, inBlock⟩ | inFreed
      · exact vacantBefore.apart block isBlock index inBlock inEntry
      · exact restApart entry inRest index inEntry inFreed
  · intro entry inRest
    have vacantBefore := sound.vacant entry (restMember entry inRest)
    have uncovered := not_covered_of_vacant vacantBefore
    have outside : entry.1 ∉ outstandingBlock freed :=
      restApart entry inRest entry.1 (start_mem (outstandingBlock entry))
    rw [frame entry.1 uncovered outside]
    exact sound.order entry (restMember entry inRest)
  · refine pairwise_append.mpr ⟨beforePairs, afterPairs, ?_⟩
    intro left inBefore right inAfter
    exact beforeRest left inBefore right (mem_cons_of_mem _ inAfter)
  · intro index
    rw [sound.pages index, covered index, split]
    simp only [mem_append, mem_cons, or_and_right, exists_or, exists_eq_left]
    have regroup : ∀ covered early here late : Prop,
        (covered ∨ early ∨ here ∨ late ↔ (covered ∨ here) ∨ early ∨ late) := by
      tauto
    exact regroup _ _ _ _

theorem step_sound (op : AllocatorOp)
    (stepped : state.step op = some next) : Sound memory next := by
  cases op with
  | alloc nrPages =>
    simp only [step] at stepped
    split at stepped
    · rename_i request
      simp only [map_eq_some_iff, Prod.exists] at stepped
      obtain ⟨kmem, pfn, result, rfl⟩ := stepped
      exact sound_alloc sound request.1 request.2 result
    · cases stepped
  | free pfn =>
    simp only [step] at stepped
    split at stepped
    · rename_i member
      cases stepped
      exact sound_free sound member
    · cases stepped

end

/-- After every history of successful allocations and of frees of outstanding
allocations the free lists, the page flags, the counters and the outstanding
blocks agree, and together they are the pages that were free at boot. -/
theorem consistent_of_run (memory : BootMemory) (ops : List AllocatorOp) (final : Allocator)
    (run : runOps step (boot memory) ops = some final) :
    Consistent memory final :=
  (runOps_invariant (fun _ op _ sound stepped => step_sound sound op stepped)
    (boot_sound memory) run).consistent

/-- A bitmap of one word frees the pages of its clear bits only. -/
theorem inside_of_word {word : BitVec 64} {limit : Nat}
    (inside : ∀ index < 64, word.getLsbD index = false → index < limit)
    (free : bitmapFree [word] pfn) : pfn < limit := by
  obtain ⟨other, found, clear⟩ := free
  rw [getElem?_singleton] at found
  split at found
  · rename_i zeroth
    cases found
    have below : pfn < 64 := lt_of_div_eq_zero (by decide) zeroth
    rw [show pfn % bitsPerU64 = pfn from mod_eq_of_lt below] at clear
    exact inside pfn below clear
  · cases found

/-- A machine of sixteen frames, of which the first is reserved. -/
def smallMemory : BootMemory where
  physLimit := 16 * pageSize
  pfnDatabaseStart := 0xffff800000100000
  bitmap := [0xffffffffffff0001#64]
  past := fun _ => ⟨false, 0, 0⟩
  bitmap_inside := fun _ free => inside_of_word (by decide) free
  past_used := fun _ _ => rfl

/-- Two allocations of which the first is returned. -/
theorem consistent_of_run_small :
    ∃ final, runOps step (boot smallMemory) [.alloc 3, .alloc 1, .free 4, .alloc 8] = some final ∧
      Consistent smallMemory final := by
  obtain ⟨final, run⟩ : ∃ final, runOps step (boot smallMemory)
      [.alloc 3, .alloc 1, .free 4, .alloc 8] = some final :=
    isSome_iff_exists.mp (by decide +kernel)
  exact ⟨final, run, consistent_of_run smallMemory _ final run⟩

end Allocator

end SeekOs.Pmm
