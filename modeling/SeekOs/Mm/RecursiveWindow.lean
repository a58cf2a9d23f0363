import SeekOs.Mm.PageTableMapping

/-!
# The arithmetic of the recursive window

The pointer functions of `mm.h` at all four levels, in both canonical halves.
The entry pointers of one level are the leaf pointers of the pointers one level
below, because the root table is its own entry.
-/

namespace SeekOs.Mm

open SeekOs.Lib.Radix

variable {page va cr3 : Nat} {memory : PhysMemory}

/-- The present entry in a slot of the table that a path leads to. -/
def presentEntry (memory : PhysMemory) (cr3 : Nat) (path : List (Fin 512)) (slot : Fin 512) :
    Option PtEntry :=
  (descend PtEntry.table memory cr3 path).bind fun table =>
    if (memory table slot).present then some (memory table slot) else none

/-- An address comes back from its lower 48 bits. -/
theorem sar16_canonical {pointer shift : Nat} (canonical : Canonical va)
    (shifted : pointer * 2 ^ shift % 2 ^ 64 = va * 2 ^ 16 % 2 ^ 64) :
    sar16 ((pointer <<< shift) % 2 ^ 64) = va := by
  unfold Canonical at canonical
  unfold sar16
  split
  · omega
  · omega

theorem ptrs_of_entries (canonical : Canonical va) :
    miPteToPtr (miPtrToPte va) = va / 2 ^ 12 * 2 ^ 12 ∧
      miPdeToPtr (miPtrToPde va) = va / 2 ^ 21 * 2 ^ 21 ∧
      miPdpteToPtr (miPtrToPdpte va) = va / 2 ^ 30 * 2 ^ 30 ∧
      miPml4eToPtr (miPtrToPml4e va) = va / 2 ^ 39 * 2 ^ 39 := by
  rw [miPtrToPte_eq, miPtrToPde_eq, miPtrToPdpte_eq, miPtrToPml4e_eq]
  unfold pagePointer pml4ePages pdptePages pdePages miResursivePteBase
  refine ⟨?_, ?_, ?_, ?_⟩
  all_goals
    apply sar16_canonical
    · unfold Canonical at canonical ⊢
      omega
    · omega

theorem miPteToPtr_miPtrToPte (canonical : Canonical va) :
    miPteToPtr (miPtrToPte va) = va / 2 ^ 12 * 2 ^ 12 :=
  (ptrs_of_entries canonical).1

theorem canonical_miPtrToPte (va : Nat) : Canonical (miPtrToPte va) := by
  rw [miPtrToPte_eq]
  unfold Canonical pagePointer miResursivePteBase
  omega

theorem miPtrToPte_next (va : Nat) :
    miPtrToPde va = miPtrToPte (miPtrToPte va) ∧ miPtrToPdpte va = miPtrToPte (miPtrToPde va) ∧
      miPtrToPml4e va = miPtrToPte (miPtrToPdpte va) := by
  rw [miPtrToPml4e_eq, miPtrToPdpte_eq, miPtrToPde_eq, miPtrToPte_eq, miPtrToPte_eq,
    miPtrToPte_eq, miPtrToPte_eq]
  unfold pagePointer pml4ePages pdptePages pdePages miResursivePteBase
  refine ⟨?_, ?_, ?_⟩
  all_goals omega

theorem walkPage_indices {first second third slot : Nat}
    (isFirst : page / 2 ^ 27 % 512 = first % 512) (isSecond : page / 2 ^ 18 % 512 = second % 512)
    (isThird : page / 2 ^ 9 % 512 = third % 512) (isSlot : page % 512 = slot % 512) :
    walkPage memory cr3 page = presentEntry memory cr3
      [Fin.ofNat 512 first, Fin.ofNat 512 second, Fin.ofNat 512 third] (Fin.ofNat 512 slot) := by
  unfold walkPage tablePath tableSlot
  rw [ofNat_eq _ _ isFirst, ofNat_eq _ _ isSecond, ofNat_eq _ _ isThird, ofNat_eq _ _ isSlot]
  rfl

/-- The page behind `mi_pte_to_ptr` of an entry pointer is the one in the entry. -/
structure EntryPages (memory : PhysMemory) (cr3 va : Nat) : Prop where
  pte : walk memory cr3 (miPteToPtr (miPtrToPte va)) = presentEntry memory cr3
    [pagingPml4Index va, pagingPdptIndex va, pagingPdtIndex va] (pagingPtIndex va)
  pde : walk memory cr3 (miPteToPtr (miPtrToPde va)) =
    presentEntry memory cr3 [pagingPml4Index va, pagingPdptIndex va] (pagingPdtIndex va)
  pdpte : walk memory cr3 (miPteToPtr (miPtrToPdpte va)) =
    presentEntry memory cr3 [pagingPml4Index va] (pagingPdptIndex va)
  pml4e : walk memory cr3 (miPteToPtr (miPtrToPml4e va)) =
    presentEntry memory cr3 [] (pagingPml4Index va)

theorem entryPages (recursive : (memory cr3 recursiveEntryIdx).table = some cr3) (va : Nat) :
    EntryPages memory cr3 va := by
  -- one turn through the recursive slot for each level above the leaves
  have loop : ∀ path slot, presentEntry memory cr3 (Fin.ofNat 512 0x1fe :: path) slot =
      presentEntry memory cr3 path slot := by
    intro path slot
    have index : Fin.ofNat 512 0x1fe = recursiveEntryIdx := rfl
    rw [presentEntry, descend, index, recursive]
    rfl
  constructor
  all_goals
    unfold pagingPml4Index
  · rw [miPtrToPte_eq, walk_miPteToPtr (by omega)]
    apply walkPage_indices
    all_goals omega
  · rw [miPtrToPde_eq, walk_miPteToPtr (by unfold pdePages; omega), ← loop]
    unfold pdePages
    apply walkPage_indices
    all_goals omega
  · rw [miPtrToPdpte_eq, walk_miPteToPtr (by unfold pdptePages pdePages; omega), ← loop, ← loop]
    unfold pdptePages pdePages
    apply walkPage_indices
    all_goals omega
  · rw [miPtrToPml4e_eq, walk_miPteToPtr (by unfold pml4ePages pdptePages pdePages; omega),
      ← loop, ← loop, ← loop]
    unfold pml4ePages pdptePages pdePages
    apply walkPage_indices
    all_goals omega

/-- The pointer functions are inverse to each other up to rounding, every upper
level is an iterate of the leaf level, and `mi_pte_to_ptr` of an entry pointer is
where the window shows the page of that entry: the start of the pointers one
level below, translated by the entry itself. -/
theorem recursive_window (canonical : Canonical va) :
    (miPteToPtr (miPtrToPte va) = va / 2 ^ 12 * 2 ^ 12 ∧
      miPdeToPtr (miPtrToPde va) = va / 2 ^ 21 * 2 ^ 21 ∧
      miPdpteToPtr (miPtrToPdpte va) = va / 2 ^ 30 * 2 ^ 30 ∧
      miPml4eToPtr (miPtrToPml4e va) = va / 2 ^ 39 * 2 ^ 39) ∧
    (miPtrToPde va = miPtrToPte^[2] va ∧ miPtrToPdpte va = miPtrToPte^[3] va ∧
      miPtrToPml4e va = miPtrToPte^[4] va) ∧
    (miPteToPtr (miPtrToPde va) = miPtrToPte va / 2 ^ 12 * 2 ^ 12 ∧
      miPteToPtr (miPtrToPdpte va) = miPtrToPde va / 2 ^ 12 * 2 ^ 12 ∧
      miPteToPtr (miPtrToPml4e va) = miPtrToPdpte va / 2 ^ 12 * 2 ^ 12) ∧
    ∀ {memory : PhysMemory} {cr3 : Nat}, (memory cr3 recursiveEntryIdx).table = some cr3 →
      EntryPages memory cr3 va := by
  obtain ⟨pde, pdpte, pml4e⟩ := miPtrToPte_next va
  refine ⟨ptrs_of_entries canonical, ⟨pde, ?_, ?_⟩, ⟨?_, ?_, ?_⟩, ?_⟩
  · rw [pdpte, pde]
    rfl
  · rw [pml4e, pdpte, pde]
    rfl
  · rw [pde]
    exact miPteToPtr_miPtrToPte (canonical_miPtrToPte va)
  · rw [pdpte, pde]
    exact miPteToPtr_miPtrToPte (canonical_miPtrToPte _)
  · rw [pml4e, pdpte]
    exact miPteToPtr_miPtrToPte (canonical_miPtrToPte _)
  · intro memory cr3 recursive
    exact entryPages recursive va

/-- An address of the kernel image, with tables whose entries all lead to the
root. -/
theorem recursive_window_kernel :
    miPdpteToPtr (miPtrToPdpte 0xffffffff80000123) = 0xffffffff80000000 ∧
      EntryPages (fun _ _ => { PtEntry.zero with present := true }) 0 0xffffffff80000123 := by
  have window := @recursive_window 0xffffffff80000123 (Or.inr (by omega))
  exact ⟨window.1.2.2.1, window.2.2.2 rfl⟩

end SeekOs.Mm
