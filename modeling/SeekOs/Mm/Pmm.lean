import SeekOs.Base.LinkedList
import SeekOs.Lib.Runs
import SeekOs.Lib.Dyadic
import SeekOs.Mm.Layout

/-!
# The physical page allocator

`pmm.c` keeps one free list per block order.  Inside the allocator a
`page_t *` is the index of the page in the page database, so `pfn_to_page` is
the identity and `page_to_pfn` reads the address stored in the entry.
-/

namespace SeekOs.Pmm

open SeekOs.Base SeekOs.Lib SeekOs.Mm

def mmMaxOrder : Nat := 11

def bitsPerU64 : Nat := 64

/-- The fields of `page_t` that the allocator uses. -/
structure Page where
  inBuddy : Bool
  order : Nat
  physAddr : Nat

structure FreeArea where
  list : List Nat
  nrFree : Nat

/-- The part of `kmem_info_t` that the allocator uses. -/
structure Kmem where
  bitmap : List (BitVec 64)
  pfnDatabaseStart : Nat
  pfnDatabase : Nat → Page
  buddyFreeArea : Nat → FreeArea
  nrFreePages : Nat
  physLimit : Nat

namespace Kmem

variable (kmem : Kmem)

def pageToPfn (page : Nat) : Nat :=
  (kmem.pfnDatabase page).physAddr >>> pageShift

def updatePage (page : Nat) (change : Page → Page) : Kmem :=
  { kmem with
    pfnDatabase := Function.update kmem.pfnDatabase page (change (kmem.pfnDatabase page)) }

def updateArea (order : Nat) (change : FreeArea → FreeArea) : Kmem :=
  { kmem with
    buddyFreeArea := Function.update kmem.buddyFreeArea order (change (kmem.buddyFreeArea order)) }

def buddyClearPageBuddy (page : Nat) : Kmem :=
  kmem.updatePage page fun entry => { entry with inBuddy := false }

def buddySetPageBuddy (page : Nat) : Kmem :=
  kmem.updatePage page fun entry => { entry with inBuddy := true }

def buddySetPageOrder (page order : Nat) : Kmem :=
  kmem.updatePage page fun entry => { entry with order := order }

def buddyPageIsBuddy (page buddy order : Nat) : Bool :=
  if (kmem.pageToPfn page ^^^ kmem.pageToPfn buddy) ≠ 1 <<< order then
    false
  else if kmem.physLimit ≤ kmem.pageToPfn buddy <<< pageShift then
    false
  else
    (kmem.pfnDatabase buddy).inBuddy && decide ((kmem.pfnDatabase buddy).order = order)

/-- The part of the coalescing loop that takes the buddy off its free list.
Unlinking an entry does not name the list that holds it. -/
def buddyUnlink (buddy order : Nat) : Kmem :=
  let unlinked : Kmem :=
    { kmem with
      buddyFreeArea := fun index =>
        { kmem.buddyFreeArea index with
          list := dlistRemoveEntry (kmem.buddyFreeArea index).list buddy } }
  let counted := unlinked.updateArea order fun area =>
    { area with nrFree := area.nrFree - 1 }
  let cleared := (counted.buddyClearPageBuddy buddy).buddySetPageOrder buddy 0
  { cleared with nrFreePages := cleared.nrFreePages - 1 <<< order }

/-- The `while` loop of `_buddy_free_pages`; `fuel` is the number of orders
between the current one and the largest. -/
def buddyCoalesce (kmem : Kmem) (page order : Nat) : Nat → Kmem × Nat × Nat
  | 0 => (kmem, page, order)
  | fuel + 1 =>
    let pageIdx := kmem.pageToPfn page
    let buddyIdx := pageIdx ^^^ (1 <<< order)
    if kmem.buddyPageIsBuddy page buddyIdx order then
      (kmem.buddyUnlink buddyIdx order).buddyCoalesce (pageIdx &&& buddyIdx) (order + 1) fuel
    else
      (kmem, page, order)

def buddyFreePages (page order : Nat) : Kmem :=
  let (merged, head, newOrder) := kmem.buddyCoalesce page order (mmMaxOrder - 1 - order)
  let flagged := (merged.buddySetPageBuddy head).buddySetPageOrder head newOrder
  let linked := flagged.updateArea newOrder fun area =>
    { area with
      list := dlistAddNext area.list head
      nrFree := area.nrFree + 1 }
  { linked with nrFreePages := linked.nrFreePages + 1 <<< newOrder }

def buddyAddToFreeList (page order : Nat) : Kmem :=
  let linked := kmem.updateArea order fun area =>
    { area with list := dlistAddPrev area.list page }
  let flagged := (linked.buddySetPageBuddy page).buddySetPageOrder page order
  flagged.updateArea order fun area => { area with nrFree := area.nrFree + 1 }

/-- `_buddy_split`: the loop runs `count = high - low` times, so the order of
the half it gives back is `low + count`. -/
def buddySplit (kmem : Kmem) (page low : Nat) : Nat → Kmem
  | 0 => kmem
  | count + 1 =>
    let high := low + count
    let added := kmem.buddyAddToFreeList (page + 1 <<< high) high
    buddySplit { added with nrFreePages := added.nrFreePages + 1 <<< high } page low count

def buddyGetFromFreeArea (order : Nat) : Option (Kmem × Nat) :=
  if (kmem.buddyFreeArea order).nrFree = 0 then
    none
  else
    match dlistRemoveNext (kmem.buddyFreeArea order).list with
    | none => none
    | some (page, rest) =>
      let unlinked := kmem.updateArea order fun area =>
        { area with list := rest }
      let counted := (unlinked.buddyClearPageBuddy page).updateArea order
        fun area => { area with nrFree := area.nrFree - 1 }
      some
        ({ counted with
            nrFreePages := counted.nrFreePages - 1 <<< order }, page)

/-- The search of `_buddy_alloc_pages` through the orders from `current` on;
`fuel` counts the orders that are left. -/
def buddyAllocFrom (kmem : Kmem) (order current : Nat) : Nat → Option (Kmem × Nat)
  | 0 => none
  | fuel + 1 =>
    match kmem.buddyGetFromFreeArea current with
    | none => buddyAllocFrom kmem order (current + 1) fuel
    | some (taken, page) =>
      some ((taken.buddySplit page order (current - order)).buddySetPageOrder page order, page)

end Kmem

/-- The order that `_buddy_alloc_pages` computes for a request. -/
def buddyOrder (nrPages : Nat) : Nat :=
  ((List.range mmMaxOrder).find? fun order => nrPages ≤ 1 <<< order).getD 0

namespace Kmem

def buddyAllocPages (kmem : Kmem) (nrPages : Nat) : Option (Kmem × Nat) :=
  if 1 <<< (mmMaxOrder - 1) < nrPages then
    none
  else
    let order := buddyOrder nrPages
    if mmMaxOrder - 1 < order then
      none
    else
      kmem.buddyAllocFrom order order (mmMaxOrder - order)

/-- `pmm_alloc_pages`.  There is no result when the call panics, or when it
reads the address of a null page. -/
def pmmAllocPages (kmem : Kmem) (nrPages : Nat) : Option (Kmem × Nat) :=
  if nrPages = 0 then
    some (kmem, 0)
  else if kmem.nrFreePages < nrPages then
    none
  else
    (kmem.buddyAllocPages nrPages).map fun (next, page) =>
      (next, next.pageToPfn page)

def pmmFreePages (kmem : Kmem) (pfn : Nat) : Kmem :=
  kmem.buddyFreePages pfn (kmem.pfnDatabase pfn).order

end Kmem

/-- `ffs` of `kmath.h` counts positions from zero. -/
def ffs (value : Nat) : Nat :=
  ((List.range 32).find? fun position => (value >>> position) &&& 1 = 1).getD 32

namespace Kmem

def buddyInitWord (kmem : Kmem) (index : Nat) (word : BitVec 64) : Kmem :=
  if word = 0#64 then
    kmem.buddyFreePages (index * bitsPerU64) (ffs bitsPerU64)
  else
    (List.range bitsPerU64).foldl (fun current bitIdx =>
      if word &&& (1#64 <<< bitIdx) = 0#64 then
        current.buddyFreePages (index * bitsPerU64 + bitIdx) 0
      else
        current) kmem

def buddyInit (kmem : Kmem) : Kmem :=
  let cleared := { kmem with buddyFreeArea := fun _ => ⟨[], 0⟩ }
  kmem.bitmap.zipIdx.foldl (fun current (word, index) =>
    current.buddyInitWord index word) cleared

end Kmem

/-- A frame is free at boot when its bit of the bitmap is clear. -/
def bitmapFree (bitmap : List (BitVec 64)) (pfn : Nat) : Prop :=
  ∃ word, bitmap[pfn / bitsPerU64]? = some word ∧ word.getLsbD (pfn % bitsPerU64) = false

/-- What `_buddy_init` is given: the bitmap, and the memory that follows the
page database.  Frames past the database are never free. -/
structure BootMemory where
  physLimit : Nat
  pfnDatabaseStart : Nat
  bitmap : List (BitVec 64)
  past : Nat → Page
  bitmap_inside : ∀ pfn, bitmapFree bitmap pfn → pfn < physLimit / pageSize
  past_used : ∀ pfn, physLimit / pageSize ≤ pfn → (past pfn).inBuddy = false

namespace BootMemory

def pfnDatabaseInit (boot : BootMemory) (pfn : Nat) : Page :=
  if pfn < boot.physLimit / pageSize then
    { inBuddy := false, order := 0, physAddr := pfn <<< pageShift }
  else
    boot.past pfn

/-- The state in which `pmm_init` calls `_buddy_init`. -/
def kmem (boot : BootMemory) : Kmem :=
  { bitmap := boot.bitmap
    pfnDatabaseStart := boot.pfnDatabaseStart
    pfnDatabase := boot.pfnDatabaseInit
    buddyFreeArea := fun _ => ⟨[], 0⟩
    nrFreePages := 0
    physLimit := boot.physLimit }

end BootMemory

/-- The allocator together with the allocations that are outstanding: the
returned frame and the number of pages that were asked for. -/
structure Allocator where
  kmem : Kmem
  outstanding : List (Nat × Nat)

inductive AllocatorOp where
  | alloc (nrPages : Nat)
  | free (pfn : Nat)

namespace Allocator

def boot (memory : BootMemory) : Allocator :=
  { kmem := memory.kmem.buddyInit
    outstanding := [] }

/-- One call.  Frees are of outstanding allocations only, and an allocation
that does not return ends the run. -/
def step (state : Allocator) : AllocatorOp → Option Allocator
  | .alloc nrPages =>
    if 1 ≤ nrPages ∧ nrPages ≤ 1024 then
      (state.kmem.pmmAllocPages nrPages).map fun (kmem, pfn) =>
        { kmem := kmem
          outstanding := (pfn, nrPages) :: state.outstanding }
    else
      none
  | .free pfn =>
    if pfn ∈ state.outstanding.map Prod.fst then
      some
        { kmem := state.kmem.pmmFreePages pfn
          outstanding := state.outstanding.eraseP fun entry => entry.1 = pfn }
    else
      none

end Allocator

end SeekOs.Pmm
