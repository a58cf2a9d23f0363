import SeekOs.Mm.PageTables

/-!
# Entries seen through the recursive window

Every pointer into the recursive window is the pointer of a page number: the
entry behind it is the last entry on the walk of that page, whatever its level.
The code that edits the tables is therefore read as code on page numbers.
-/

namespace SeekOs.Mm

open SeekOs.Lib.Radix

/-! ## Page numbers -/

/-- The path to the table that holds the leaf entry of a page. -/
def tablePath (page : Nat) : List (Fin 512) :=
  [Fin.ofNat 512 (page / 2 ^ 27), Fin.ofNat 512 (page / 2 ^ 18), Fin.ofNat 512 (page / 2 ^ 9)]

def tableSlot (page : Nat) : Fin 512 :=
  Fin.ofNat 512 page

def walkPage (memory : PhysMemory) (cr3 page : Nat) : Option PtEntry :=
  (descend PtEntry.table memory cr3 (tablePath page)).bind fun table =>
    let entry := memory table (tableSlot page)
    if entry.present then some entry else none

/-- The pointer into the window that belongs to a page. -/
def pagePointer (page : Nat) : Nat :=
  miResursivePteBase + 8 * page

theorem walk_eq_walkPage (memory : PhysMemory) (cr3 va : Nat) :
    walk memory cr3 va = walkPage memory cr3 (va / 2 ^ 12) := by
  simp only [walk, walkPage, tablePath, tableSlot, pagingPml4Index,
    pagingPdptIndex, pagingPdtIndex, pagingPtIndex, Nat.shiftRight_eq_div_pow,
    Nat.div_div_eq_div_mul, ← Nat.pow_add]
  rfl

theorem ofNat_eq (left right : Nat) (same : left % 512 = right % 512) :
    Fin.ofNat 512 left = Fin.ofNat 512 right := by
  apply Fin.ext
  simpa [Fin.ofNat] using same

variable {left right : Nat}

theorem tablePath_congr (same : left % 2 ^ 36 = right % 2 ^ 36) :
    tablePath left = tablePath right ∧ tableSlot left = tableSlot right := by
  unfold tablePath tableSlot
  rw [ofNat_eq (left / 2 ^ 27) (right / 2 ^ 27) (by omega),
    ofNat_eq (left / 2 ^ 18) (right / 2 ^ 18) (by omega),
    ofNat_eq (left / 2 ^ 9) (right / 2 ^ 9) (by omega),
    ofNat_eq left right (by omega)]
  exact ⟨rfl, rfl⟩

theorem page_of_tablePath (samePath : tablePath left = tablePath right)
    (sameSlot : tableSlot left = tableSlot right) :
    left % 2 ^ 36 = right % 2 ^ 36 := by
  unfold tablePath at samePath
  unfold tableSlot at sameSlot
  simp only [List.cons.injEq, Fin.ofNat, Fin.mk.injEq, and_true] at samePath sameSlot
  omega

private theorem and_mask (value bits : Nat) :
    value &&& ((2 ^ bits - 1) <<< 3) = value / 8 % 2 ^ bits * 8 := by
  have high : value / 8 % 2 ^ bits * 8 = ((value >>> 3) &&& (2 ^ bits - 1)) <<< 3 := by
    rw [Nat.and_two_pow_sub_one_eq_mod, Nat.shiftRight_eq_div_pow, Nat.shiftLeft_eq]
  rw [high]
  apply Nat.eq_of_testBit_eq
  intro index
  simp only [Nat.testBit_and, Nat.testBit_shiftLeft, Nat.testBit_shiftRight]
  by_cases low : 3 ≤ index
  · have split : 3 + (index - 3) = index := by omega
    simp [low, split]
  · simp [low]

/-- An entry pointer of `mm.h` in terms of the page number it belongs to:
`base` pages of the window come before, and the shift leaves `bits` bits. -/
private theorem pointer_eq (addr shift bits base : Nat) :
    miResursivePteBase + 8 * base + ((addr >>> shift) &&& ((2 ^ bits - 1) <<< 3)) =
      pagePointer (base + addr / 2 ^ (shift + 3) % 2 ^ bits) := by
  rw [and_mask, Nat.shiftRight_eq_div_pow, Nat.div_div_eq_div_mul, Nat.pow_add]
  unfold pagePointer
  generalize addr / (2 ^ shift * 8) % 2 ^ bits = index
  omega

/-- The page numbers whose entries are the page-directory entries, the
page-directory-pointer entries and the PML4 entries. -/
def pdePages : Nat := 0x1fe * 2 ^ 27

def pdptePages : Nat := pdePages + 0x1fe * 2 ^ 18

def pml4ePages : Nat := pdptePages + 0x1fe * 2 ^ 9

theorem miPtrToPte_eq (va : Nat) : miPtrToPte va = pagePointer (va / 2 ^ 12 % 2 ^ 36) := by
  have pointer := pointer_eq va 9 36 0
  rw [Nat.zero_add] at pointer
  exact pointer

theorem miPtrToPde_eq (va : Nat) : miPtrToPde va = pagePointer (pdePages + va / 2 ^ 21 % 2 ^ 27) :=
  pointer_eq va 18 27 pdePages

theorem miPtrToPdpte_eq (va : Nat) :
    miPtrToPdpte va = pagePointer (pdptePages + va / 2 ^ 30 % 2 ^ 18) :=
  pointer_eq va 27 18 pdptePages

theorem miPtrToPml4e_eq (va : Nat) :
    miPtrToPml4e va = pagePointer (pml4ePages + va / 2 ^ 39 % 2 ^ 9) :=
  pointer_eq va 36 9 pml4ePages

variable {page : Nat}

/-- The walk to an entry pointer goes through the recursive slot and then along
the path of the page. -/
theorem pagePointer_walk (small : page < 2 ^ 36) : tablePath (pagePointer page / 2 ^ 12) =
        [recursiveEntryIdx, Fin.ofNat 512 (page / 2 ^ 27), Fin.ofNat 512 (page / 2 ^ 18)] ∧
      tableSlot (pagePointer page / 2 ^ 12) = Fin.ofNat 512 (page / 2 ^ 9) ∧
      Fin.ofNat 512 (pagePointer page % pageSize / 8) = tableSlot page := by
  have base : pagePointer page = 0xffffff0000000000 + 8 * page := rfl
  have recursive : recursiveEntryIdx = Fin.ofNat 512 0x1fe := rfl
  unfold tablePath tableSlot pageSize
  rw [recursive, base]
  refine ⟨?_, ?_, ?_⟩
  · rw [ofNat_eq ((0xffffff0000000000 + 8 * page) / 2 ^ 12 / 2 ^ 27) 0x1fe (by omega),
      ofNat_eq ((0xffffff0000000000 + 8 * page) / 2 ^ 12 / 2 ^ 18) (page / 2 ^ 27) (by omega),
      ofNat_eq ((0xffffff0000000000 + 8 * page) / 2 ^ 12 / 2 ^ 9) (page / 2 ^ 18) (by omega)]
  · exact ofNat_eq _ _ (by omega)
  · exact ofNat_eq _ _ (by omega)

/-- The table that an entry leads to is seen in the window at the page of the
entry's pointer. -/
theorem miPteToPtr_page (small : page < 2 ^ 36) :
    miPteToPtr (pagePointer page) / 2 ^ 12 % 2 ^ 36 = page := by
  have shifted : (pagePointer page <<< 25) % 2 ^ 64 = page * 2 ^ 28 := by
    unfold pagePointer miResursivePteBase
    omega
  unfold miPteToPtr sar16
  split
  · omega
  · omega

theorem walk_miPteToPtr {memory : PhysMemory} {cr3 : Nat} (small : page < 2 ^ 36) :
    walk memory cr3 (miPteToPtr (pagePointer page)) = walkPage memory cr3 page := by
  have same : miPteToPtr (pagePointer page) / 2 ^ 12 % 2 ^ 36 = page % 2 ^ 36 := by
    rw [miPteToPtr_page small, Nat.mod_eq_of_lt small]
  obtain ⟨pathEq, slotEq⟩ := tablePath_congr same
  rw [walk_eq_walkPage, walkPage, pathEq, slotEq, walkPage]

/-- The page of an entry pointer of the upper levels starts in the recursive
slot. -/
theorem tablePath_window (lower : pdePages ≤ page) (upper : page < pdePages + 2 ^ 27) :
    tablePath page = [recursiveEntryIdx, Fin.ofNat 512 (page / 2 ^ 18),
      Fin.ofNat 512 (page / 2 ^ 9)] := by
  have recursive : recursiveEntryIdx = Fin.ofNat 512 0x1fe := rfl
  unfold pdePages at lower upper
  unfold tablePath
  rw [recursive, ofNat_eq (page / 2 ^ 27) 0x1fe (by omega)]

/-! ## Page-table states -/

/-- The tables are a tree, apart from the recursive slot of the root. -/
abbrev PageTree (memory : PhysMemory) (root : Nat) : Prop :=
  Tree PtEntry.table recursiveEntryIdx 3 memory root

/-- No present entry of the upper three levels is a large page, and the bit
that must be zero in the root table is zero. -/
structure NoLargePages (memory : PhysMemory) (root : Nat) : Prop where
  mustBeZero : ∀ slot, (memory root slot).largePage = false
  lower : ∀ {path : List (Fin 512)} {table : Nat} {slot : Fin 512},
    Direct recursiveEntryIdx path → path.length ≤ 2 →
    descend PtEntry.table memory root path = some table →
    (memory table slot).present → (memory table slot).largePage = false

variable {entry : PtEntry} {table : Nat} {path : List (Fin 512)} {root : Nat}

section State

variable {memory : PhysMemory}

theorem table_eq_some (isTable : entry.table = some table) :
    entry.present = true ∧ entry.largePage = false ∧ entry.pageFrame = table := by
  unfold PtEntry.table at isTable
  split at isTable
  · next followed =>
      simp only [Bool.and_eq_true, Bool.not_eq_true'] at followed
      exact ⟨followed.1, followed.2, Option.some.inj isTable⟩
  · cases isTable

theorem table_of_present (present : entry.present = true) (small : entry.largePage = false) :
    entry.table = some entry.pageFrame := by
  simp [PtEntry.table, present, small]

theorem table_of_absent (absent : ¬entry.present = true) : entry.table = none := by
  simp [PtEntry.table, absent]

/-- Along any path of at most two slots, present means that a table follows. -/
theorem NoLargePages.small (noLarge : NoLargePages memory root)
    (tree : PageTree memory root) {slot : Fin 512}
    (short : path.length ≤ 2)
    (reaches : descend PtEntry.table memory root path = some table)
    (present : (memory table slot).present) :
    (memory table slot).largePage = false := by
  rw [← descend_directPath tree.loop] at reaches
  exact noLarge.lower (directPath_direct _ path)
    ((directPath_length _ path).trans short) reaches present

/-- The entry behind the pointer of a page is the last one on its walk. -/
theorem entryAt_pagePointer (tree : PageTree memory root)
    (noLarge : NoLargePages memory root) (small : page < 2 ^ 36) :
    entryAt memory root (pagePointer page) =
      (descend PtEntry.table memory root (tablePath page)).map
        fun table => (table, tableSlot page) := by
  obtain ⟨pathEq, slotEq, offsetEq⟩ := pagePointer_walk small
  have split : tablePath page =
      [Fin.ofNat 512 (page / 2 ^ 27), Fin.ofNat 512 (page / 2 ^ 18)] ++
        [Fin.ofNat 512 (page / 2 ^ 9)] := rfl
  rw [entryAt, walk_eq_walkPage, walkPage, pathEq, slotEq, offsetEq, split,
    descend_concat, descend, tree.loop, Option.bind_some]
  cases reached : descend PtEntry.table memory root
      [Fin.ofNat 512 (page / 2 ^ 27), Fin.ofNat 512 (page / 2 ^ 18)] with
  | none => rfl
  | some table =>
    simp only [Option.bind_some]
    by_cases present : (memory table (Fin.ofNat 512 (page / 2 ^ 9))).present = true
    · have notLarge := noLarge.small tree (by simp) reached present
      rw [if_pos present, table_of_present present notLarge]
      rfl
    · rw [if_neg present, table_of_absent present]
      rfl

/-- Clearing the page behind `mi_pte_to_ptr` of a pointer clears the frame in
the entry of the pointer. -/
theorem clearPage_pagePointer (small : page < 2 ^ 36)
    (reaches : descend PtEntry.table memory root (tablePath page) =
      some table) (present : (memory table (tableSlot page)).present = true) :
    clearPage memory root (miPteToPtr (pagePointer page)) =
      .ok (Function.update memory (memory table (tableSlot page)).pageFrame
        fun _ => PtEntry.zero) := by
  unfold clearPage
  rw [walk_miPteToPtr small, walkPage, reaches]
  simp [present]

end State

/-- What the table passes leave alone: every table stays where it is, no walk
outside the window changes, and what was mapped stays mapped. -/
structure Extends (memory after : PhysMemory) (root : Nat) : Prop where
  tables : ∀ {path : List (Fin 512)} {table : Nat},
    Direct recursiveEntryIdx path → path.length ≤ 3 →
    descend PtEntry.table memory root path = some table →
    descend PtEntry.table after root path = some table
  leaves : ∀ {page : Nat}, Direct recursiveEntryIdx (tablePath page) →
    walkPage after root page = walkPage memory root page
  mapped : ∀ {page : Nat} {entry : PtEntry},
    walkPage memory root page = some entry →
    walkPage after root page = some entry

theorem Extends.refl (memory : PhysMemory) (root : Nat) : Extends memory memory root :=
  ⟨fun _ _ reaches => reaches, fun _ => rfl, id⟩

theorem Extends.trans {memory middle after : PhysMemory}
    (first : Extends memory middle root) (second : Extends middle after root) :
    Extends memory after root :=
  ⟨fun direct short reaches =>
      second.tables direct short (first.tables direct short reaches),
    fun direct => (second.leaves direct).trans (first.leaves direct),
    fun found => second.mapped (first.mapped found)⟩

theorem Extends.reachable {memory after : PhysMemory}
    (extension : Extends memory after root) (tree : PageTree memory root)
    (treeAfter : PageTree after root)
    (short : (directPath recursiveEntryIdx path).length ≤ 3)
    (reaches : descend PtEntry.table memory root path = some table) :
    descend PtEntry.table after root path = some table := by
  rw [← descend_directPath tree.loop] at reaches
  rw [← descend_directPath treeAfter.loop]
  exact extension.tables (directPath_direct _ path) short reaches

end SeekOs.Mm
