import SeekOs.Mm.FrameAllocator

/-!
# Address spaces

`vmalloc.c` records the areas of an address space in a list and maps them page
by page.  Here the leaf entries of an address space are a map from page numbers
to present entries; the four-level tables below it are a model of their own.
A call that panics or takes a page fault ends with the reason.
-/

namespace SeekOs.Mm

open SeekOs.Base

/-- Why the kernel stops. -/
inductive Panic where
  | outOfMemory
  | pteExists
  | pteNotExists
  | pageFault
  deriving DecidableEq

/-- A present leaf entry: the frame and the flag bits. -/
structure Pte where
  pageFrame : Nat
  flags : Nat
  deriving DecidableEq

abbrev Pages := Nat → Option Pte

/-- The flag bits that `ptm_map_pages` copies into a leaf entry. -/
def pteFlagMask : Nat := 0x87f

/-- The entry that `ptm_map_pages` stores; it is present only if the flags say
so. -/
def leafEntry (pfn flags : Nat) : Option Pte :=
  if flags.testBit 0 then
    some ⟨pfn % 2 ^ 36, flags &&& pteFlagMask⟩
  else
    none

/-- The index of the leaf entry that `mi_ptr_to_pte` points to. -/
def pteIndex (va : Nat) : Nat :=
  va / pageSize % 2 ^ 36

/-- The number of entries from `mi_ptr_to_pte(va)` up to the one of the end of
the range; there are none when the end wraps around. -/
def pteCount (va nrPages : Nat) : Nat :=
  pteIndex (uptrAdd va (pageToSize nrPages)) - pteIndex va

def ptmMapLoop (flags : Nat) (pages : Pages) (index pfn : Nat) :
    Nat → Except Panic Pages
  | 0 => .ok pages
  | count + 1 =>
    if (pages index).isSome then
      .error .pteExists
    else
      ptmMapLoop flags (Function.update pages index (leafEntry pfn flags))
        (index + 1) (pfn + 1) count

def ptmMapPages (pages : Pages) (va pa nrPages flags : Nat) :
    Except Panic Pages :=
  ptmMapLoop flags pages (pteIndex va) (pa >>> pageShift) (pteCount va nrPages)

section Allocator

variable {κ : Type} [FrameAllocator κ]

open FrameAllocator

def ptmUnmapLoop (kmem : κ) (pages : Pages) (index : Nat) :
    Nat → Except Panic (κ × Pages)
  | 0 => .ok (kmem, pages)
  | count + 1 =>
    match pages index with
    | none => .error .pteNotExists
    | some pte =>
      ptmUnmapLoop (pmmFreePages kmem pte.pageFrame)
        (Function.update pages index none) (index + 1) count

def ptmUnmapPages (kmem : κ) (pages : Pages) (va nrPages : Nat) :
    Except Panic (κ × Pages) :=
  ptmUnmapLoop kmem pages (pteIndex va) (pteCount va nrPages)

/-- The number of rounds of the loops of `vmm_vmap` and `vmm_vunmap`, which
step from the start of the range to its end. -/
def pageRounds (va nrPages : Nat) : Nat :=
  (uptrAdd va (pageToSize nrPages) - va + (pageSize - 1)) / pageSize

def vmmVmapLoop (flags : Nat) (kmem : κ) (pages : Pages) (va : Nat) :
    Nat → Except Panic (κ × Pages)
  | 0 => .ok (kmem, pages)
  | count + 1 =>
    match pmmAllocPages kmem 1 with
    | none => .error .outOfMemory
    | some (next, pfn) =>
      (ptmMapPages pages va (pfn <<< pageShift) 1 flags).bind
        fun mapped =>
          vmmVmapLoop flags next mapped (uptrAdd va pageSize) count

def vmmVmap (kmem : κ) (pages : Pages) (va nrPages flags : Nat) :
    Except Panic (κ × Pages) :=
  if flags &&& vmmFlagsMmio = vmmFlagsMmio then
    match pmmAllocPages kmem nrPages with
    | none => .error .outOfMemory
    | some (next, pfn) =>
      -- the address of the database entry is passed, not of the frame
      (ptmMapPages pages va (pfnToPage next pfn) nrPages vmmFlagsMmio).map
        fun mapped => (next, mapped)
  else
    vmmVmapLoop flags kmem pages va (pageRounds va nrPages)

def vmmVunmapLoop (kmem : κ) (pages : Pages) (va : Nat) :
    Nat → Except Panic (κ × Pages)
  | 0 => .ok (kmem, pages)
  | count + 1 =>
    (ptmUnmapPages kmem pages va 1).bind fun (next, unmapped) =>
      vmmVunmapLoop next unmapped (uptrAdd va pageSize) count

def vmmVunmap (kmem : κ) (pages : Pages) (va nrPages flags : Nat) :
    Except Panic (κ × Pages) :=
  if flags &&& vmmFlagsMmio = vmmFlagsMmio then
    ptmUnmapPages kmem pages va nrPages
  else
    vmmVunmapLoop kmem pages va (pageRounds va nrPages)

end Allocator

structure VmArea where
  vmStart : Nat
  vmEnd : Nat
  vmFlags : Nat
  deriving DecidableEq

/-- The test of `mm_find_vm_area` for memory that is already allocated. -/
def VmArea.allocated (area : VmArea) (vaStart vaEnd : Nat) : Bool :=
  (decide (area.vmStart ≤ vaStart) && decide (vaStart < area.vmEnd)) ||
    (decide (area.vmStart < vaEnd) && decide (vaEnd ≤ area.vmEnd)) ||
    (decide (area.vmStart ≤ vaStart) && decide (vaEnd ≤ area.vmEnd))

/-- The branches of `mm_find_vm_area` that link a new area at the end of the
list, starting at a given address. -/
def vmAreaAppend (areas : List VmArea) (vaStart size flags : Nat) :
    Option (VmArea × List VmArea) :=
  let vaEnd := uptrAdd vaStart size
  if mmGetVmareaEnd flags ≤ vaEnd then
    none
  else
    let area : VmArea := ⟨vaStart, vaEnd, flags⟩
    some (area, dlistAddPrev areas area)

/-- The search for a memory cave: no result if there is none, and a null
result if the cave turns out to be too small. -/
def findCave (size flags : Nat) :
    List VmArea → Option (Option (VmArea × List VmArea))
  | lower :: upper :: rest =>
    if size ≤ uptrSub upper.vmStart lower.vmEnd then
      let vaEnd := uptrAdd lower.vmEnd size
      if upper.vmStart < vaEnd then
        some none
      else
        let area : VmArea := ⟨lower.vmEnd, vaEnd, flags⟩
        some (some (area, lower :: dlistAddNext (upper :: rest) area))
    else
      (findCave size flags (upper :: rest)).map fun result =>
        result.map fun (area, areas) => (area, lower :: areas)
  | _ => none

def mmFindVmArea (areas : List VmArea) (ptr size flags : Nat) :
    Option (VmArea × List VmArea) :=
  if ptr ≠ 0 then
    let vaEnd := uptrAdd ptr size
    if mmGetVmareaEnd flags ≤ vaEnd then
      none
    else if areas.any fun area => area.allocated ptr vaEnd then
      none
    else
      let area : VmArea := ⟨ptr, vaEnd, flags⟩
      some (area, dlistAddPrev areas area)
  else
    match areas with
    | [] => vmAreaAppend [] (mmGetVmareaStart flags) size flags
    | [only] => vmAreaAppend [only] only.vmEnd size flags
    | first :: second :: rest =>
      match findCave size flags (first :: second :: rest) with
      | some result => result
      | none =>
        vmAreaAppend (first :: second :: rest) ((second :: rest).getLastD first).vmEnd size flags

def mmGetVmArea (ptr : Nat) : List VmArea → Option (VmArea × List VmArea)
  | [] => none
  | area :: rest =>
    if ptr = area.vmStart then
      some (area, rest)
    else
      (mmGetVmArea ptr rest).map fun (found, others) =>
        (found, area :: others)

/-- The area list and the leaf entries of an address space.  The kernel's own
`k_vmlist` is such a list too. -/
structure MmStruct where
  vmAreaHead : List VmArea
  pages : Pages

section Vmalloc

variable {κ : Type} [FrameAllocator κ]

/-- `vmalloc` returns the start address, zero for null. -/
def vmalloc (kmem : κ) (mm : MmStruct) (ptr size flags : Nat) :
    Except Panic (κ × MmStruct × Nat) :=
  if size = 0 then
    .ok (kmem, mm, 0)
  else
    let size := pageAlignUpIf size
    if mmGetVmareaStart flags ≤ size then
      .ok (kmem, mm, 0)
    else
      match mmFindVmArea mm.vmAreaHead ptr size flags with
      | none => .ok (kmem, mm, 0)
      | some (area, areas) =>
        (vmmVmap kmem mm.pages area.vmStart
            (sizeToPage (uptrSub area.vmEnd area.vmStart)) flags).map
          fun (next, pages) => (next, ⟨areas, pages⟩, area.vmStart)

def vfree (kmem : κ) (mm : MmStruct) (ptr : Nat) :
    Except Panic (κ × MmStruct) :=
  match mmGetVmArea ptr mm.vmAreaHead with
  | none => .error .pageFault
  | some (area, areas) =>
    (vmmVunmap kmem mm.pages area.vmStart
        (sizeToPage (uptrSub area.vmEnd area.vmStart)) area.vmFlags).map
      fun (next, pages) => (next, ⟨areas, pages⟩)

end Vmalloc

end SeekOs.Mm
