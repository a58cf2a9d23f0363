import SeekOs.Mm.Pmm

/-!
# The buddy invariant

`Buddy` says what the free lists, the page flags and the two counters have to
agree on.  Every operation is a sequence of two moves, taking a listed block
off its list and putting an unlisted block on one, so that the invariant is
only ever proved for these two.
-/

namespace SeekOs.Pmm

open SeekOs.Base SeekOs.Lib SeekOs.Mm List

def Kmem.FreeBlock (kmem : Kmem) (block : Block) : Prop :=
  block.order < mmMaxOrder ∧ block.start ∈ (kmem.buddyFreeArea block.order).list

/-- A page that lies in some free block. -/
def Kmem.Covered (kmem : Kmem) (pfn : Nat) : Prop :=
  ∃ block, kmem.FreeBlock block ∧ pfn ∈ block

/-- The block fits between the free blocks and inside the database. -/
structure Kmem.Vacant (kmem : Kmem) (block : Block) : Prop where
  aligned : block.Aligned
  inside : ∀ pfn ∈ block, pfn < kmem.physLimit / pageSize
  apart : ∀ free, kmem.FreeBlock free → free.Disjoint block

structure Kmem.Buddy (kmem : Kmem) : Prop where
  address : ∀ pfn, pfn < kmem.physLimit / pageSize →
    (kmem.pfnDatabase pfn).physAddr = pfn <<< pageShift
  past : ∀ pfn, kmem.physLimit / pageSize ≤ pfn → (kmem.pfnDatabase pfn).inBuddy = false
  aligned : ∀ block, kmem.FreeBlock block → block.Aligned
  inside : ∀ block, kmem.FreeBlock block → ∀ pfn ∈ block, pfn < kmem.physLimit / pageSize
  apart : ∀ left right, kmem.FreeBlock left → kmem.FreeBlock right →
    left ≠ right → left.Disjoint right
  listed : ∀ order, order < mmMaxOrder → ∀ pfn,
    pfn ∈ (kmem.buddyFreeArea order).list ↔
      (kmem.pfnDatabase pfn).inBuddy = true ∧ (kmem.pfnDatabase pfn).order = order
  flagged : ∀ pfn, (kmem.pfnDatabase pfn).inBuddy = true → (kmem.pfnDatabase pfn).order < mmMaxOrder
  nodup : ∀ order, order < mmMaxOrder → (kmem.buddyFreeArea order).list.Nodup
  counted : ∀ order, order < mmMaxOrder →
    (kmem.buddyFreeArea order).nrFree = (kmem.buddyFreeArea order).list.length
  total : kmem.nrFreePages =
    ∑ order ∈ Finset.range mmMaxOrder, (kmem.buddyFreeArea order).nrFree * 2 ^ order

/-- `after` differs from `before` by one block taken off its free list. -/
structure Unlinked (before after : Kmem) (block : Block) : Prop where
  others : ∀ pfn, pfn ≠ block.start → after.pfnDatabase pfn = before.pfnDatabase pfn
  address : (after.pfnDatabase block.start).physAddr = (before.pfnDatabase block.start).physAddr
  cleared : (after.pfnDatabase block.start).inBuddy = false
  list : (after.buddyFreeArea block.order).list =
    (before.buddyFreeArea block.order).list.erase block.start
  nrFree : (after.buddyFreeArea block.order).nrFree = (before.buddyFreeArea block.order).nrFree - 1
  areas : ∀ order, order < mmMaxOrder → order ≠ block.order →
    after.buddyFreeArea order = before.buddyFreeArea order
  total : after.nrFreePages = before.nrFreePages - 2 ^ block.order
  limit : after.physLimit = before.physLimit

/-- `after` differs from `before` by one block put on the list of its
order. -/
structure Linked (before after : Kmem) (block : Block) : Prop where
  others : ∀ pfn, pfn ≠ block.start → after.pfnDatabase pfn = before.pfnDatabase pfn
  address : (after.pfnDatabase block.start).physAddr = (before.pfnDatabase block.start).physAddr
  flagged : (after.pfnDatabase block.start).inBuddy = true
  order : (after.pfnDatabase block.start).order = block.order
  list : (after.buddyFreeArea block.order).list.Perm
    (block.start :: (before.buddyFreeArea block.order).list)
  nrFree : (after.buddyFreeArea block.order).nrFree = (before.buddyFreeArea block.order).nrFree + 1
  areas : ∀ order, order < mmMaxOrder → order ≠ block.order →
    after.buddyFreeArea order = before.buddyFreeArea order
  total : after.nrFreePages = before.nrFreePages + 2 ^ block.order
  limit : after.physLimit = before.physLimit

/-- Changing the count of one order changes the weighted sum by its weight. -/
private theorem weighted_sum_step
    (before after : Nat → Nat) {order : Nat} (small : order < mmMaxOrder)
    (grown : after order = before order + 1)
    (same : ∀ index, index < mmMaxOrder → index ≠ order → after index = before index) :
    ∑ index ∈ Finset.range mmMaxOrder, after index * 2 ^ index =
      (∑ index ∈ Finset.range mmMaxOrder, before index * 2 ^ index) + 2 ^ order := by
  have member : order ∈ Finset.range mmMaxOrder := Finset.mem_range.mpr small
  rw [← Finset.add_sum_erase _ _ member, ← Finset.add_sum_erase _ _ member, grown]
  have rest :
      ∑ index ∈ (Finset.range mmMaxOrder).erase order, after index * 2 ^ index =
        ∑ index ∈ (Finset.range mmMaxOrder).erase order, before index * 2 ^ index := by
    apply Finset.sum_congr rfl
    intro index inside
    obtain ⟨different, below⟩ := Finset.mem_erase.mp inside
    rw [same index (Finset.mem_range.mp below) different]
  rw [rest]
  ring

namespace Kmem.Buddy

variable {kmem : Kmem} {block : Block}

theorem inBuddy_iff (buddy : kmem.Buddy) (pfn : Nat) :
    (kmem.pfnDatabase pfn).inBuddy = true ↔ kmem.FreeBlock ⟨pfn, (kmem.pfnDatabase pfn).order⟩ := by
  constructor
  · intro flagged
    have small := buddy.flagged pfn flagged
    exact ⟨small, (buddy.listed _ small pfn).mpr ⟨flagged, rfl⟩⟩
  · rintro ⟨small, member⟩
    exact ((buddy.listed _ small pfn).mp member).1

theorem order_eq (buddy : kmem.Buddy) (free : kmem.FreeBlock block) :
    (kmem.pfnDatabase block.start).order = block.order :=
  ((buddy.listed _ free.1 _).mp free.2).2

theorem head_covered (free : kmem.FreeBlock block) : kmem.Covered block.start :=
  ⟨block, free, block.start_mem⟩

theorem not_inBuddy_of_vacant (buddy : kmem.Buddy) (vacant : kmem.Vacant block) :
    (kmem.pfnDatabase block.start).inBuddy = false := by
  by_contra flagged
  rw [Bool.not_eq_false] at flagged
  have free := (buddy.inBuddy_iff block.start).mp flagged
  exact vacant.apart _ free block.start (Block.start_mem _) block.start_mem

theorem pageToPfn_eq (buddy : kmem.Buddy) {pfn : Nat}
    (inside : pfn < kmem.physLimit / pageSize) : kmem.pageToPfn pfn = pfn := by
  unfold Kmem.pageToPfn
  rw [buddy.address pfn inside, Nat.shiftLeft_shiftRight]

end Kmem.Buddy

namespace Unlinked

variable {before after : Kmem} {block : Block}

section

variable (unlinked : Unlinked before after block)

include unlinked

theorem freeBlock_iff (buddy : before.Buddy) (free : before.FreeBlock block) (other : Block) :
    after.FreeBlock other ↔ before.FreeBlock other ∧ other ≠ block := by
  by_cases same : other.order = block.order
  · constructor
    · rintro ⟨small, member⟩
      rw [same, unlinked.list, (buddy.nodup _ free.1).mem_erase_iff] at member
      refine ⟨⟨small, same ▸ member.2⟩, ?_⟩
      rintro rfl
      exact member.1 rfl
    · rintro ⟨⟨small, member⟩, different⟩
      refine ⟨small, ?_⟩
      rw [same, unlinked.list, (buddy.nodup _ free.1).mem_erase_iff]
      refine ⟨?_, same ▸ member⟩
      intro starts
      apply different
      cases other
      cases block
      simp_all
  · have different : other ≠ block := fun equal => same (equal ▸ rfl)
    constructor
    · rintro ⟨small, member⟩
      rw [unlinked.areas _ small same] at member
      exact ⟨⟨small, member⟩, different⟩
    · rintro ⟨⟨small, member⟩, _⟩
      refine ⟨small, ?_⟩
      rw [unlinked.areas _ small same]
      exact member

theorem buddy (buddy : before.Buddy) (free : before.FreeBlock block) : after.Buddy := by
  have blocks := unlinked.freeBlock_iff buddy free
  have listedHead := (buddy.listed _ free.1 block.start).mp free.2
  have nonempty : 0 < (before.buddyFreeArea block.order).nrFree := by
    rw [buddy.counted _ free.1]
    exact length_pos_of_mem free.2
  refine
    { address := ?_, past := ?_, aligned := ?_, inside := ?_, apart := ?_
      listed := ?_, flagged := ?_, nodup := ?_, counted := ?_, total := ?_ }
  · intro pfn inside
    rw [unlinked.limit] at inside
    by_cases head : pfn = block.start
    · rw [head, unlinked.address]
      exact buddy.address _ (head ▸ inside)
    · rw [unlinked.others pfn head]
      exact buddy.address pfn inside
  · intro pfn outside
    rw [unlinked.limit] at outside
    by_cases head : pfn = block.start
    · rw [head, unlinked.cleared]
    · rw [unlinked.others pfn head]
      exact buddy.past pfn outside
  · intro other freeOther
    exact buddy.aligned other ((blocks other).mp freeOther).1
  · intro other freeOther
    rw [unlinked.limit]
    exact buddy.inside other ((blocks other).mp freeOther).1
  · intro left right freeLeft freeRight
    exact buddy.apart left right ((blocks left).mp freeLeft).1 ((blocks right).mp freeRight).1
  · intro order small pfn
    by_cases head : pfn = block.start
    · subst head
      simp only [unlinked.cleared, Bool.false_eq_true, false_and, iff_false]
      intro member
      have freeHead : after.FreeBlock ⟨block.start, order⟩ := ⟨small, member⟩
      obtain ⟨freeBefore, different⟩ := (blocks _).mp freeHead
      have sameOrder : order = block.order := (buddy.order_eq freeBefore).symm.trans listedHead.2
      exact different (by rw [sameOrder])
    · rw [unlinked.others pfn head, ← buddy.listed order small pfn]
      constructor
      · intro member
        exact ((blocks ⟨pfn, order⟩).mp ⟨small, member⟩).1.2
      · intro member
        refine ((blocks ⟨pfn, order⟩).mpr ⟨⟨small, member⟩, ?_⟩).2
        rintro rfl
        exact head rfl
  · intro pfn flagged
    have head : pfn ≠ block.start := by
      rintro rfl
      simp [unlinked.cleared] at flagged
    rw [unlinked.others pfn head] at flagged ⊢
    exact buddy.flagged pfn flagged
  · intro order small
    by_cases same : order = block.order
    · rw [same, unlinked.list]
      exact (buddy.nodup _ free.1).erase _
    · rw [unlinked.areas order small same]
      exact buddy.nodup order small
  · intro order small
    by_cases same : order = block.order
    · rw [same, unlinked.nrFree, unlinked.list, length_erase_of_mem free.2, buddy.counted _ free.1]
    · rw [unlinked.areas order small same]
      exact buddy.counted order small
  · have sums := weighted_sum_step (fun order => (after.buddyFreeArea order).nrFree)
      (fun order => (before.buddyFreeArea order).nrFree)
      free.1 (by rw [unlinked.nrFree]; omega)
      (fun order small different => by
        rw [unlinked.areas order small different])
    rw [unlinked.total, buddy.total, sums, Nat.add_sub_cancel]

theorem vacant (buddy : before.Buddy) (free : before.FreeBlock block) : after.Vacant block := by
  refine ⟨buddy.aligned block free, ?_, ?_⟩
  · rw [unlinked.limit]
    exact buddy.inside block free
  · intro other freeOther
    obtain ⟨freeBefore, different⟩ := (unlinked.freeBlock_iff buddy free other).mp freeOther
    exact buddy.apart other block freeBefore free different

theorem covered_iff (buddy : before.Buddy) (free : before.FreeBlock block) (pfn : Nat) :
    after.Covered pfn ∨ pfn ∈ block ↔ before.Covered pfn := by
  constructor
  · rintro (⟨other, freeOther, member⟩ | member)
    · exact ⟨other, ((unlinked.freeBlock_iff buddy free other).mp freeOther).1, member⟩
    · exact ⟨block, free, member⟩
  · rintro ⟨other, freeOther, member⟩
    by_cases same : other = block
    · exact .inr (same ▸ member)
    · exact .inl ⟨other, (unlinked.freeBlock_iff buddy free other).mpr ⟨freeOther, same⟩, member⟩

end

end Unlinked

namespace Linked

variable {before after : Kmem} {block : Block}

theorem freeBlock_iff (linked : Linked before after block)
    (small : block.order < mmMaxOrder) (other : Block) :
    after.FreeBlock other ↔ before.FreeBlock other ∨ other = block := by
  by_cases same : other.order = block.order
  · have equal : other = block ↔ other.start = block.start := by
      cases other
      cases block
      simp_all
    unfold Kmem.FreeBlock
    rw [same, linked.list.mem_iff, mem_cons, equal]
    tauto
  · have different : other ≠ block := fun equal => same (equal ▸ rfl)
    constructor
    · rintro ⟨smallOther, member⟩
      rw [linked.areas _ smallOther same] at member
      exact .inl ⟨smallOther, member⟩
    · rintro (⟨smallOther, member⟩ | equal)
      · refine ⟨smallOther, ?_⟩
        rw [linked.areas _ smallOther same]
        exact member
      · exact absurd equal different

/-- Putting a vacant block on the list of its order keeps the invariant. -/
theorem buddy (linked : Linked before after block)
    (buddy : before.Buddy) (vacant : before.Vacant block)
    (small : block.order < mmMaxOrder) : after.Buddy := by
  have blocks := linked.freeBlock_iff small
  have unflagged := buddy.not_inBuddy_of_vacant vacant
  have startInside := vacant.inside block.start block.start_mem
  refine
    { address := ?_, past := ?_, aligned := ?_, inside := ?_, apart := ?_
      listed := ?_, flagged := ?_, nodup := ?_, counted := ?_, total := ?_ }
  · intro pfn inside
    rw [linked.limit] at inside
    by_cases head : pfn = block.start
    · rw [head, linked.address]
      exact buddy.address _ (head ▸ inside)
    · rw [linked.others pfn head]
      exact buddy.address pfn inside
  · intro pfn outside
    rw [linked.limit] at outside
    have head : pfn ≠ block.start := by
      rintro rfl
      exact absurd startInside (Nat.not_lt.mpr outside)
    rw [linked.others pfn head]
    exact buddy.past pfn outside
  · intro other freeOther
    rcases (blocks other).mp freeOther with freeBefore | rfl
    · exact buddy.aligned other freeBefore
    · exact vacant.aligned
  · intro other freeOther
    rw [linked.limit]
    rcases (blocks other).mp freeOther with freeBefore | rfl
    · exact buddy.inside other freeBefore
    · exact vacant.inside
  · intro left right freeLeft freeRight different
    rcases (blocks left).mp freeLeft with leftBefore | rfl <;>
      rcases (blocks right).mp freeRight with rightBefore | rfl
    · exact buddy.apart left right leftBefore rightBefore different
    · exact vacant.apart left leftBefore
    · exact (vacant.apart right rightBefore).symm
    · exact absurd rfl different
  · intro order smallOrder pfn
    by_cases head : pfn = block.start
    · subst head
      rw [linked.flagged, linked.order]
      constructor
      · intro member
        have freeHead : after.FreeBlock ⟨block.start, order⟩ := ⟨smallOrder, member⟩
        rcases (blocks _).mp freeHead with freeBefore | equal
        · have listed := (buddy.listed order smallOrder block.start).mp freeBefore.2
          simp [unflagged] at listed
        · exact ⟨rfl, (congrArg Block.order equal).symm⟩
      · rintro ⟨_, rfl⟩
        exact ((blocks block).mpr (.inr rfl)).2
    · rw [linked.others pfn head, ← buddy.listed order smallOrder pfn]
      constructor
      · intro member
        rcases (blocks ⟨pfn, order⟩).mp ⟨smallOrder, member⟩ with
          freeBefore | equal
        · exact freeBefore.2
        · exact absurd (congrArg Block.start equal) head
      · intro member
        exact ((blocks ⟨pfn, order⟩).mpr (.inl ⟨smallOrder, member⟩)).2
  · intro pfn flagged
    by_cases head : pfn = block.start
    · rw [head, linked.order]
      exact small
    · rw [linked.others pfn head] at flagged ⊢
      exact buddy.flagged pfn flagged
  · intro order smallOrder
    by_cases same : order = block.order
    · rw [same, linked.list.nodup_iff, nodup_cons]
      refine ⟨?_, buddy.nodup _ small⟩
      intro member
      have listed := (buddy.listed _ small block.start).mp member
      simp [unflagged] at listed
    · rw [linked.areas order smallOrder same]
      exact buddy.nodup order smallOrder
  · intro order smallOrder
    by_cases same : order = block.order
    · rw [same, linked.nrFree, linked.list.length_eq, length_cons, buddy.counted _ small]
    · rw [linked.areas order smallOrder same]
      exact buddy.counted order smallOrder
  · have sums := weighted_sum_step (fun order => (before.buddyFreeArea order).nrFree)
      (fun order => (after.buddyFreeArea order).nrFree)
      small linked.nrFree
      (fun order smallOrder different => by
        rw [linked.areas order smallOrder different])
    rw [linked.total, buddy.total, sums]

theorem covered_iff (linked : Linked before after block)
    (small : block.order < mmMaxOrder) (pfn : Nat) :
    after.Covered pfn ↔ before.Covered pfn ∨ pfn ∈ block := by
  constructor
  · rintro ⟨other, freeOther, member⟩
    rcases (linked.freeBlock_iff small other).mp freeOther with
      freeBefore | rfl
    · exact .inl ⟨other, freeBefore, member⟩
    · exact .inr member
  · rintro (⟨other, freeOther, member⟩ | member)
    · exact ⟨other, (linked.freeBlock_iff small other).mpr (.inl freeOther), member⟩
    · exact ⟨block, (linked.freeBlock_iff small block).mpr (.inr rfl), member⟩

end Linked

end SeekOs.Pmm
