import SeekOs.Mm.FrameAllocator

/-!
# The out-of-memory guard of `pmm_alloc_pages`

`pmm_alloc_pages` panics when a request exceeds the number of free pages.  The
search behind the guard needs one free block of at least the requested size,
and the guard does not ask for that: it compares totals.
-/

namespace SeekOs.Pmm

open SeekOs.Lib SeekOs.Mm

namespace Kmem

variable {kmem : Kmem} {order level nrPages : Nat}

/-- The call returns the first of `nrPages` free frames. -/
def Grants (kmem : Kmem) (nrPages : Nat) : Prop :=
  ∃ after pfn, kmem.pmmAllocPages nrPages = some (after, pfn) ∧
    ∀ offset < nrPages, kmem.Covered (pfn + offset)

theorem buddyGetFromFreeArea_found (buddy : kmem.Buddy) (small : order < mmMaxOrder)
    (nonempty : (kmem.buddyFreeArea order).list ≠ []) :
    ∃ outcome, kmem.buddyGetFromFreeArea order = some outcome := by
  have counted := buddy.counted order small
  unfold buddyGetFromFreeArea
  cases entries : (kmem.buddyFreeArea order).list with
  | nil => exact absurd entries nonempty
  | cons page rest =>
    rw [entries] at counted
    rw [if_neg (by rw [counted]; exact Nat.succ_ne_zero _)]
    exact ⟨_, rfl⟩

theorem buddyAllocFrom_found (buddy : kmem.Buddy) (fuel : Nat) {current : Nat}
    (above : current ≤ level) (below : level < current + fuel)
    (small : level < mmMaxOrder)
    (nonempty : (kmem.buddyFreeArea level).list ≠ []) :
    ∃ outcome, kmem.buddyAllocFrom order current fuel = some outcome := by
  induction fuel generalizing current with
  | zero => omega
  | succ fuel induction =>
    unfold buddyAllocFrom
    cases got : kmem.buddyGetFromFreeArea current with
    | some taken => exact ⟨_, rfl⟩
    | none =>
      apply induction _ (by omega)
      apply Nat.lt_of_le_of_ne above
      rintro rfl
      obtain ⟨outcome, found⟩ := buddyGetFromFreeArea_found buddy small nonempty
      exact absurd (got.symm.trans found) (by simp)

theorem pmmAllocPages_found {block : Block} (buddy : kmem.Buddy)
    (positive : 1 ≤ nrPages) (enough : nrPages ≤ kmem.nrFreePages)
    (free : kmem.FreeBlock block) (fits : nrPages ≤ 2 ^ block.order) :
    ∃ outcome, kmem.pmmAllocPages nrPages = some outcome := by
  have large : nrPages ≤ 1024 :=
    fits.trans (Nat.pow_le_pow_right (by decide) (Nat.le_of_lt_succ free.1))
  have orders : buddyOrder nrPages ≤ block.order := by
    rw [buddyOrder_eq_clog large]
    exact (Nat.clog_le_iff_le_pow (by decide)).mpr fits
  have bound := orders.trans_lt free.1
  obtain ⟨outcome, found⟩ : ∃ outcome, kmem.buddyAllocFrom (buddyOrder nrPages) (buddyOrder nrPages)
      (mmMaxOrder - buddyOrder nrPages) = some outcome :=
    buddyAllocFrom_found buddy _ orders (by rw [Nat.add_sub_of_le bound.le]; exact free.1) free.1
      (List.ne_nil_of_mem free.2)
  unfold pmmAllocPages buddyAllocPages
  rw [if_neg (by omega), if_neg (by omega),
    if_neg (show ¬1 <<< (mmMaxOrder - 1) < nrPages from Nat.not_lt.mpr large)]
  simp only [if_neg (Nat.not_lt.mpr (Nat.le_sub_one_of_lt bound)), found]
  exact ⟨_, rfl⟩

end Kmem

namespace Allocator

/-- In every state that allocations and frees reach, a request that passes
the guard gets its frames exactly when some free block is large enough. -/
theorem grants_iff_of_run (memory : BootMemory) (ops : List AllocatorOp)
    (state : Allocator) (run : runOps step (boot memory) ops = some state)
    (nrPages : Nat) (positive : 1 ≤ nrPages)
    (enough : nrPages ≤ state.kmem.nrFreePages) :
    state.kmem.Grants nrPages ↔
      ∃ block, state.kmem.FreeBlock block ∧ nrPages ≤ 2 ^ block.order := by
  have sound : Sound memory state :=
    runOps_invariant (fun _ op _ sound stepped => step_sound sound op stepped)
      (boot_sound memory) run
  constructor
  · rintro ⟨after, pfn, result, _⟩
    obtain ⟨large, page, level, _, atLeast, free, _⟩ := Kmem.pmmAllocPages_cases positive result
    exact ⟨⟨page, level⟩, free, (le_two_pow_buddyOrder large).trans
      (Nat.pow_le_pow_right (by decide) atLeast)⟩
  · rintro ⟨block, free, fits⟩
    obtain ⟨⟨after, pfn⟩, result⟩ := Kmem.pmmAllocPages_found sound.buddy positive enough free fits
    have allocated := Kmem.pmmAllocPages_spec sound.buddy positive result
    have large := (Kmem.pmmAllocPages_cases positive result).1
    refine ⟨after, pfn, result, fun offset inside => ?_⟩
    apply (allocated.covered _).mp
    exact .inr ⟨Nat.le_add_right _ _, Nat.add_lt_add_left
      (inside.trans_le (le_two_pow_buddyOrder large)) pfn⟩

theorem grants_iff_of_run_small :
    (boot smallMemory).kmem.Grants 8 ↔
      ∃ block, (boot smallMemory).kmem.FreeBlock block ∧ 8 ≤ 2 ^ block.order :=
  grants_iff_of_run smallMemory [] _ rfl 8 (by decide) (by decide +kernel)

/-- Fifteen of sixteen frames are free, and no block holds fifteen. -/
theorem guard_passes_without_block :
    15 ≤ (boot smallMemory).kmem.nrFreePages ∧ ¬(boot smallMemory).kmem.Grants 15 := by
  refine ⟨by decide +kernel, ?_⟩
  rintro ⟨after, pfn, result, _⟩
  have fails : (boot smallMemory).kmem.pmmAllocPages 15 = none := by
    apply Option.not_isSome_iff_eq_none.mp
    decide +kernel
  exact absurd (fails.symm.trans result) (by simp)

end Allocator

end SeekOs.Pmm
