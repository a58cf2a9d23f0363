import Mathlib.Data.Nat.Bitwise
import Mathlib.Tactic

/-!
# Dyadic blocks

A dyadic block is a half-open interval of natural numbers whose length is a
power of two.  An aligned block starts at a multiple of its length; such a
block has a buddy, found by flipping one bit of its start, and the two of them
together are an aligned block of the next order.
-/

namespace SeekOs.Lib

/-- The interval of length `2 ^ order` that begins at `start`. -/
structure Block where
  start : Nat
  order : Nat
  deriving DecidableEq

namespace Block

instance : Membership Nat Block :=
  ⟨fun block index =>
    block.start ≤ index ∧ index < block.start + 2 ^ block.order⟩

variable {index : Nat} {block : Block}

theorem mem_iff : index ∈ block ↔ block.start ≤ index ∧ index < block.start + 2 ^ block.order :=
  Iff.rfl

instance (index : Nat) (block : Block) : Decidable (index ∈ block) :=
  decidable_of_iff _ mem_iff.symm

def Aligned (block : Block) : Prop :=
  2 ^ block.order ∣ block.start

variable {order start : Nat}

theorem Aligned.exists_quotient (aligned : (⟨start, order⟩ : Block).Aligned) :
    ∃ quotient, start = quotient * 2 ^ order :=
  exists_eq_mul_left_of_dvd aligned

def Disjoint (left right : Block) : Prop :=
  ∀ index, index ∈ left → index ∉ right

variable {right left : Block} {meeting : Nat}

theorem Disjoint.symm (apart : left.Disjoint right) : right.Disjoint left :=
  fun index inRight inLeft => apart index inLeft inRight

theorem start_mem (block : Block) : block.start ∈ block := by
  have positive : 0 < 2 ^ block.order := by positivity
  exact ⟨le_refl _, by omega⟩

theorem Disjoint.start_ne (apart : left.Disjoint right) : left.start ≠ right.start := by
  intro same
  exact apart left.start left.start_mem (same ▸ right.start_mem)

/-- A block of order `order + 1` is the union of its two halves. -/
theorem mem_succ_iff : index ∈ (⟨start, order + 1⟩ : Block) ↔
      index ∈ (⟨start, order⟩ : Block) ∨ index ∈ (⟨start + 2 ^ order, order⟩ : Block) := by
  simp only [mem_iff, pow_succ]
  omega

theorem halves_disjoint (start order : Nat) :
    (⟨start, order⟩ : Block).Disjoint ⟨start + 2 ^ order, order⟩ := by
  intro index inLow inHigh
  simp only [mem_iff] at inLow inHigh
  omega

/-- The start of the buddy: the start with bit `order` flipped. -/
def buddyStart (start order : Nat) : Nat :=
  start ^^^ (1 <<< order)

/-- The buddy of the `quotient`-th block of an order. -/
theorem buddyStart_mul (quotient order : Nat) :
    buddyStart (quotient * 2 ^ order) order = (quotient ^^^ 1) * 2 ^ order := by
  unfold buddyStart
  rw [← Nat.shiftLeft_eq, ← Nat.shiftLeft_xor_distrib, Nat.shiftLeft_eq]

theorem and_buddyStart_mul (quotient order : Nat) :
    (quotient * 2 ^ order) &&& buddyStart (quotient * 2 ^ order) order =
      (quotient &&& (quotient ^^^ 1)) * 2 ^ order := by
  rw [buddyStart_mul, ← Nat.shiftLeft_eq, ← Nat.shiftLeft_eq,
    ← Nat.shiftLeft_and_distrib, Nat.shiftLeft_eq]

private theorem xor_one_eq (quotient : Nat) : quotient ^^^ 1 =
      if quotient % 2 = 0 then quotient + 1 else quotient - 1 := by
  split <;> rename_i parity
  · exact Nat.xor_one_of_even (Nat.even_iff.mpr parity)
  · exact Nat.xor_one_of_odd (Nat.odd_iff.mpr (by omega))

private theorem and_xor_one_eq (quotient : Nat) :
    quotient &&& (quotient ^^^ 1) = quotient / 2 * 2 := by
  rw [Nat.and_xor_distrib_left, Nat.and_self, Nat.and_one_is_mod]
  rcases Nat.mod_two_eq_zero_or_one quotient with even | odd
  · rw [even, Nat.xor_zero]
    omega
  · rw [odd, Nat.xor_one_of_odd (Nat.odd_iff.mpr odd)]
    omega

/-- Coalescing an aligned block with its buddy gives an aligned block. -/
theorem merged_aligned (aligned : (⟨start, order⟩ : Block).Aligned) :
    (⟨start &&& buddyStart start order, order + 1⟩ : Block).Aligned := by
  obtain ⟨quotient, rfl⟩ := aligned.exists_quotient
  rw [Aligned, and_buddyStart_mul, and_xor_one_eq]
  exact ⟨quotient / 2, by ring⟩

theorem mem_merged_iff (aligned : (⟨start, order⟩ : Block).Aligned) :
    index ∈ (⟨start &&& buddyStart start order, order + 1⟩ : Block) ↔
      index ∈ (⟨start, order⟩ : Block) ∨ index ∈ (⟨buddyStart start order, order⟩ : Block) := by
  obtain ⟨quotient, rfl⟩ := aligned.exists_quotient
  rw [and_buddyStart_mul, buddyStart_mul, and_xor_one_eq, xor_one_eq, mem_succ_iff]
  split <;> rename_i parity
  · have exact_half : quotient / 2 * 2 = quotient := by omega
    rw [exact_half, Nat.add_mul, Nat.one_mul]
  · have odd_half : quotient / 2 * 2 = quotient - 1 := by omega
    have predecessor : quotient * 2 ^ order = (quotient - 1) * 2 ^ order + 2 ^ order := by
      rw [← Nat.succ_mul]
      congr 1
      omega
    rw [odd_half, predecessor]
    tauto

theorem buddyStart_xor (start order : Nat) : start ^^^ buddyStart start order = 1 <<< order := by
  unfold buddyStart
  rw [← Nat.xor_assoc, Nat.xor_self, Nat.zero_xor]

theorem buddyStart_buddyStart (start order : Nat) :
    buddyStart (buddyStart start order) order = start := by
  unfold buddyStart
  rw [Nat.xor_assoc, Nat.xor_self, Nat.xor_zero]

section

variable (aligned : (⟨start, order + 1⟩ : Block).Aligned)
include aligned

theorem low_half_aligned : (⟨start, order⟩ : Block).Aligned :=
  (pow_dvd_pow 2 (Nat.le_succ order)).trans aligned

theorem high_half_aligned : (⟨start + 2 ^ order, order⟩ : Block).Aligned :=
  Nat.dvd_add (low_half_aligned aligned) (dvd_refl _)

/-- The buddy of the upper half of an aligned block is its lower half. -/
theorem buddyStart_high_half : buddyStart (start + 2 ^ order) order = start := by
  obtain ⟨quotient, rfl⟩ := aligned.exists_quotient
  have even : quotient * 2 ^ (order + 1) = (2 * quotient) * 2 ^ order := by
    ring
  have odd : (2 * quotient) * 2 ^ order + 2 ^ order = (2 * quotient + 1) * 2 ^ order := by
    ring
  rw [even, odd, buddyStart_mul, xor_one_eq, if_neg (by omega), Nat.add_sub_cancel]

end

theorem Aligned.mem_iff_div (aligned : block.Aligned) :
    index ∈ block ↔ index / 2 ^ block.order = block.start / 2 ^ block.order := by
  obtain ⟨start, order⟩ := block
  obtain ⟨quotient, rfl⟩ := aligned.exists_quotient
  have positive : 0 < 2 ^ order := by positivity
  rw [mem_iff, Nat.mul_div_cancel _ positive, Nat.div_eq_iff positive]
  simp only
  omega

/-- Of two aligned blocks that meet, the larger one contains the other. -/
theorem Aligned.mem_of_meets {small large : Block}
    (smallAligned : small.Aligned) (largeAligned : large.Aligned)
    (orders : small.order ≤ large.order)
    (inSmall : meeting ∈ small) (inLarge : meeting ∈ large)
    (member : index ∈ small) :
    index ∈ large := by
  obtain ⟨gap, gapEq⟩ := Nat.exists_eq_add_of_le orders
  have coarser : ∀ number, number / 2 ^ large.order = number / 2 ^ small.order / 2 ^ gap := by
    intro number
    rw [gapEq, pow_add, Nat.div_div_eq_div_mul]
  rw [largeAligned.mem_iff_div] at inLarge ⊢
  rw [smallAligned.mem_iff_div] at inSmall member
  rw [← inLarge, coarser, coarser, member, inSmall]

/-- An aligned block is known from its order and one of its indices. -/
theorem Aligned.eq_of_meets (leftAligned : left.Aligned)
    (rightAligned : right.Aligned) (orders : left.order = right.order)
    (inLeft : meeting ∈ left) (inRight : meeting ∈ right) :
    left = right := by
  have leftStart := rightAligned.mem_of_meets leftAligned orders.ge inRight inLeft right.start_mem
  have rightStart := leftAligned.mem_of_meets rightAligned orders.le inLeft inRight left.start_mem
  obtain ⟨start, order⟩ := left
  obtain ⟨start', order'⟩ := right
  have starts : start = start' := le_antisymm leftStart.1 rightStart.1
  have sameOrder : order = order' := orders
  rw [starts, sameOrder]

/-! ## Coalesced families -/

/-- Disjoint aligned blocks of orders below `top`, no two of which are buddies
that could be merged. -/
structure Coalesced (top : Nat) (free : Block → Prop) : Prop where
  small : ∀ block, free block → block.order < top
  aligned : ∀ block, free block → block.Aligned
  apart : ∀ left right, free left → free right → left ≠ right → left.Disjoint right
  unmergeable : ∀ start order, order + 1 < top → free ⟨start, order⟩ →
    ¬free ⟨buddyStart start order, order⟩

namespace Coalesced

variable {top : Nat} {free other : Block → Prop}

section

variable (coalesced : Coalesced top free)
include coalesced

theorem eq_of_meets (freeLeft : free left) (freeRight : free right) (inLeft : meeting ∈ left)
    (inRight : meeting ∈ right) :
    left = right := by
  by_contra different
  exact coalesced.apart left right freeLeft freeRight different meeting inLeft inRight

/-- A covered aligned block lies in one block of the family.  The induction is
on its order: if both halves lay in blocks of their own order, these would be
buddies. -/
theorem exists_block (small : order < top) (aligned : (⟨start, order⟩ : Block).Aligned)
    (covered : ∀ index ∈ (⟨start, order⟩ : Block), ∃ block, free block ∧ index ∈ block) :
    ∃ block, free block ∧ order ≤ block.order ∧ start ∈ block := by
  induction order generalizing start with
  | zero =>
    obtain ⟨block, isFree, member⟩ := covered start (start_mem ⟨start, 0⟩)
    exact ⟨block, isFree, Nat.zero_le _, member⟩
  | succ order induction =>
    have inLow : ∀ index ∈ (⟨start, order⟩ : Block), index ∈ (⟨start, order + 1⟩ : Block) :=
      fun index member => mem_succ_iff.mpr (.inl member)
    have inHigh : ∀ index ∈ (⟨start + 2 ^ order, order⟩ : Block),
        index ∈ (⟨start, order + 1⟩ : Block) :=
      fun index member => mem_succ_iff.mpr (.inr member)
    obtain ⟨low, freeLow, lowOrder, lowMember⟩ :=
      induction (by omega) (low_half_aligned aligned)
        fun index member => covered index (inLow index member)
    obtain ⟨high, freeHigh, highOrder, highMember⟩ :=
      induction (by omega) (high_half_aligned aligned)
        fun index member => covered index (inHigh index member)
    by_cases lowSame : low.order = order
    · by_cases highSame : high.order = order
      · exfalso
        have lowEq := (coalesced.aligned low freeLow).eq_of_meets
          (low_half_aligned aligned) lowSame lowMember
          (start_mem ⟨start, order⟩)
        have highEq := (coalesced.aligned high freeHigh).eq_of_meets
          (high_half_aligned aligned) highSame highMember
          (start_mem ⟨start + 2 ^ order, order⟩)
        subst lowEq
        subst highEq
        apply coalesced.unmergeable _ order small freeHigh
        rw [buddyStart_high_half aligned]
        exact freeLow
      · refine ⟨high, freeHigh, by omega, ?_⟩
        have larger : (⟨start, order + 1⟩ : Block).order ≤ high.order := by
          change order + 1 ≤ high.order
          omega
        exact aligned.mem_of_meets (coalesced.aligned high freeHigh) larger
          (inHigh _ (start_mem ⟨start + 2 ^ order, order⟩)) highMember
          (start_mem ⟨start, order + 1⟩)
    · exact ⟨low, freeLow, by omega, lowMember⟩

/-- One half of `free_iff_of_cover`. -/
private theorem free_of_cover (coalesced' : Coalesced top other)
    (cover : ∀ index, (∃ block, free block ∧ index ∈ block) ↔ ∃ block, other block ∧ index ∈ block)
    (isFree : free block) : other block := by
  obtain ⟨larger, otherLarger, orders, member⟩ :=
    coalesced'.exists_block (coalesced.small block isFree)
      (coalesced.aligned block isFree) fun index inside =>
        (cover index).mp ⟨block, isFree, inside⟩
  obtain ⟨largest, freeLargest, largestOrders, largestMember⟩ :=
    coalesced.exists_block (coalesced'.small larger otherLarger)
      (coalesced'.aligned larger otherLarger) fun index inside =>
        (cover index).mpr ⟨larger, otherLarger, inside⟩
  have startMember : block.start ∈ largest :=
    (coalesced'.aligned larger otherLarger).mem_of_meets
      (coalesced.aligned largest freeLargest) largestOrders
      larger.start_mem largestMember member
  have same : block = largest :=
    coalesced.eq_of_meets isFree freeLargest block.start_mem startMember
  have sameOrder : block.order = larger.order := by
    rw [← same] at largestOrders
    omega
  have equal : block = larger :=
    (coalesced.aligned block isFree).eq_of_meets
      (coalesced'.aligned larger otherLarger) sameOrder block.start_mem member
  rw [equal]
  exact otherLarger

theorem free_iff_of_cover (coalesced' : Coalesced top other)
    (cover : ∀ index, (∃ block, free block ∧ index ∈ block) ↔ ∃ block, other block ∧ index ∈ block)
    (block : Block) : free block ↔ other block := by
  constructor
  · exact free_of_cover coalesced coalesced' cover
  · exact free_of_cover coalesced' coalesced fun index => (cover index).symm

end

end Coalesced

end Block

end SeekOs.Lib
