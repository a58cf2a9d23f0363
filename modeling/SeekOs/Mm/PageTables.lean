import SeekOs.Lib.Radix
import SeekOs.Mm.AddressSpace

/-!
# Four-level page tables

The tables of `ptm.c` in physical memory, the walk of the processor, and the
code that edits the tables.  The code never uses a physical address: it reaches
every entry through the recursive slot of the root table, that is through
another walk, and an address that does not translate is a page fault.
-/

namespace SeekOs.Mm

open SeekOs.Lib.Radix

/-- The bit fields of an entry.  The four entry types of `paging.h` agree on
them; what the code never assigns is kept in `ignored`. -/
structure PtEntry where
  present : Bool
  write : Bool
  supervisor : Bool
  writeThrough : Bool
  cacheDisable : Bool
  accessed : Bool
  dirty : Bool
  largePage : Bool
  restart : Bool
  pageFrame : Nat
  ignored : Nat
  deriving DecidableEq

/-- An entry whose `as_u64` is zero. -/
def PtEntry.zero : PtEntry :=
  ⟨false, false, false, false, false, false, false, false, false, 0, 0⟩

/-- The contents of the frames of physical memory, read as entries. -/
abbrev PhysMemory := Nat → Fin 512 → PtEntry

instance neZeroEntries : NeZero 512 := ⟨by decide⟩

def recursiveEntryIdx : Fin 512 := 0x1fe

def pagingPml4Index (va : Nat) : Fin 512 := Fin.ofNat 512 (va >>> 39)

def pagingPdptIndex (va : Nat) : Fin 512 := Fin.ofNat 512 (va >>> 30)

def pagingPdtIndex (va : Nat) : Fin 512 := Fin.ofNat 512 (va >>> 21)

def pagingPtIndex (va : Nat) : Fin 512 := Fin.ofNat 512 (va >>> 12)

/-- The table an entry of the upper three levels leads to; a large page has
none. -/
def PtEntry.table (entry : PtEntry) : Option Nat :=
  if entry.present && !entry.largePage then some entry.pageFrame else none

/-- The leaf entry of an address, if every level of its walk is present. -/
def walk (memory : PhysMemory) (cr3 va : Nat) : Option PtEntry :=
  (descend PtEntry.table memory cr3
    [pagingPml4Index va, pagingPdptIndex va, pagingPdtIndex va]).bind
      fun table =>
        let entry := memory table (pagingPtIndex va)
        if entry.present then some entry else none

/-! ## The recursive window -/

def miRecursiveStart : Nat := 0xffffff0000000000

def miRecursiveEnd : Nat := 0xffffff7fffffffff

def miResursivePml4eBase : Nat := 0xffffff7fbfdfe000

def miResursivePdpteBase : Nat := 0xffffff7fbfc00000

def miResursivePdeBase : Nat := 0xffffff7f80000000

def miResursivePteBase : Nat := 0xffffff0000000000

def miPtrToPml4e (addr : Nat) : Nat :=
  miResursivePml4eBase + ((addr >>> (39 - 3)) &&& (0x1ff <<< 3))

def miPtrToPdpte (addr : Nat) : Nat :=
  miResursivePdpteBase + ((addr >>> (30 - 3)) &&& (0x3ffff <<< 3))

def miPtrToPde (addr : Nat) : Nat :=
  miResursivePdeBase + ((addr >>> (21 - 3)) &&& (0x7ffffff <<< 3))

def miPtrToPte (addr : Nat) : Nat :=
  miResursivePteBase + ((addr >>> (12 - 3)) &&& (0xfffffffff <<< 3))

/-- The arithmetic right shift of an `i64` by 16. -/
def sar16 (value : Nat) : Nat :=
  if value < 2 ^ 63 then value >>> 16 else value >>> 16 + (2 ^ 64 - 2 ^ 48)

def miPml4eToPtr (pointer : Nat) : Nat :=
  sar16 ((pointer <<< 52) % 2 ^ 64)

def miPdpteToPtr (pointer : Nat) : Nat :=
  sar16 ((pointer <<< 43) % 2 ^ 64)

def miPdeToPtr (pointer : Nat) : Nat :=
  sar16 ((pointer <<< 34) % 2 ^ 64)

def miPteToPtr (pointer : Nat) : Nat :=
  sar16 ((pointer <<< 25) % 2 ^ 64)

/-- The entry behind a pointer into the window: its table and slot. -/
def entryAt (memory : PhysMemory) (cr3 pointer : Nat) :
    Option (Nat × Fin 512) :=
  (walk memory cr3 pointer).map fun entry =>
    (entry.pageFrame, Fin.ofNat 512 (pointer % pageSize / 8))

/-- `memset` of one page to zero. -/
def clearPage (memory : PhysMemory) (cr3 va : Nat) :
    Except Panic PhysMemory :=
  match walk memory cr3 va with
  | none => .error .pageFault
  | some entry =>
    .ok (Function.update memory entry.pageFrame fun _ => PtEntry.zero)

/-! ## Editing the tables -/

/-- The assignments of the table passes to an entry.  Only the lower two
passes assign `large_page`. -/
def PtEntry.setTable (assignsLarge : Bool) (flags : Nat) (entry : PtEntry)
    (pfn : Nat) : PtEntry :=
  { entry with
    pageFrame := pfn % 2 ^ 36
    present := flags.testBit 0
    write := flags.testBit 1
    supervisor := flags.testBit 2
    writeThrough := flags.testBit 3
    cacheDisable := flags.testBit 4
    accessed := flags.testBit 5
    largePage := if assignsLarge then flags.testBit 7 else entry.largePage
    restart := flags.testBit 11 }

/-- The leaf entry that `ptm_map_pages` builds from zero. -/
def PtEntry.leaf (flags pfn : Nat) : PtEntry :=
  { PtEntry.zero with
    pageFrame := pfn % 2 ^ 36
    present := flags.testBit 0
    write := flags.testBit 1
    supervisor := flags.testBit 2
    writeThrough := flags.testBit 3
    cacheDisable := flags.testBit 4
    accessed := flags.testBit 5
    dirty := flags.testBit 6
    restart := flags.testBit 11 }

section Allocator

variable {κ : Type} [FrameAllocator κ]

open FrameAllocator

/-- One round of a table pass. -/
def allocEntry (setEntry : PtEntry → Nat → PtEntry) (cr3 : Nat)
    (kmem : κ) (memory : PhysMemory) (pointer : Nat) :
    Except Panic (κ × PhysMemory) :=
  match entryAt memory cr3 pointer with
  | none => .error .pageFault
  | some (table, slot) =>
    if (memory table slot).present then
      .ok (kmem, memory)
    else
      match pmmAllocPages kmem 1 with
      | none => .error .outOfMemory
      | some (next, pfn) =>
        let stored := put memory table slot (setEntry (memory table slot) pfn)
        (clearPage stored cr3 (miPteToPtr pointer)).map fun cleared => (next, cleared)

def allocEntries (setEntry : PtEntry → Nat → PtEntry) (cr3 : Nat) :
    κ → PhysMemory → Nat → Nat → Except Panic (κ × PhysMemory)
  | kmem, memory, _, 0 => .ok (kmem, memory)
  | kmem, memory, pointer, count + 1 =>
    (allocEntry setEntry cr3 kmem memory pointer).bind
      fun (next, stored) =>
        allocEntries setEntry cr3 next stored (pointer + 8) count

/-- The number of rounds from the first entry pointer to the last one, which is
included. -/
def entryRounds (first last : Nat) : Nat :=
  (last + 8 - first) / 8

/-- The end of the range in the table passes, where the number of pages is an
`u32`. -/
def rangeEnd (va nrPages : Nat) : Nat :=
  uptrAdd va (nrPages % 2 ^ 32 * pageSize % 2 ^ 32)

def ptmAllocPml4es (cr3 : Nat) (kmem : κ) (memory : PhysMemory)
    (va nrPages flags : Nat) : Except Panic (κ × PhysMemory) :=
  let first := miPtrToPml4e va
  let last := miPtrToPml4e (rangeEnd va nrPages)
  allocEntries (PtEntry.setTable false flags) cr3 kmem memory first
    (entryRounds first last)

def ptmAllocPdptes (cr3 : Nat) (kmem : κ) (memory : PhysMemory)
    (va nrPages flags : Nat) : Except Panic (κ × PhysMemory) :=
  let first := miPtrToPdpte va
  let last := miPtrToPdpte (rangeEnd va nrPages)
  allocEntries (PtEntry.setTable true flags) cr3 kmem memory first
    (entryRounds first last)

def ptmAllocPdes (cr3 : Nat) (kmem : κ) (memory : PhysMemory)
    (va nrPages flags : Nat) : Except Panic (κ × PhysMemory) :=
  let first := miPtrToPde va
  let last := miPtrToPde (rangeEnd va nrPages)
  allocEntries (PtEntry.setTable true flags) cr3 kmem memory first
    (entryRounds first last)

/-- The loop of `ptm_map_pages` over the leaf entries. -/
def setLeaves (flags cr3 : Nat) :
    PhysMemory → Nat → Nat → Nat → Except Panic PhysMemory
  | memory, _, _, 0 => .ok memory
  | memory, pointer, pfn, count + 1 =>
    match entryAt memory cr3 pointer with
    | none => .error .pageFault
    | some (table, slot) =>
      if (memory table slot).present then
        .error .pteExists
      else
        setLeaves flags cr3 (put memory table slot (PtEntry.leaf flags pfn))
          (pointer + 8) (pfn + 1) count

/-- `ptm_map_pages` on the tables below `cr3`. -/
def ptmMapPageTables (cr3 : Nat) (kmem : κ) (memory : PhysMemory)
    (va pa nrPages flags : Nat) : Except Panic (κ × PhysMemory) :=
  let pteStart := miPtrToPte va
  let pteEnd := miPtrToPte (uptrAdd va (pageToSize nrPages))
  (ptmAllocPml4es cr3 kmem memory va nrPages flags).bind
    fun (kmem, memory) =>
      (ptmAllocPdptes cr3 kmem memory va nrPages flags).bind
        fun (kmem, memory) =>
          (ptmAllocPdes cr3 kmem memory va nrPages flags).bind
            fun (kmem, memory) =>
              (setLeaves flags cr3 memory pteStart (pa >>> pageShift)
                ((pteEnd - pteStart) / 8)).map fun mapped => (kmem, mapped)

end Allocator

end SeekOs.Mm
