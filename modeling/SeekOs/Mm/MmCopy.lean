import SeekOs.Lib.Translation
import SeekOs.Mm.VmAreas

/-!
# Copying an address space

`mm_copy` runs under the page tables of the parent and writes to the child by
switching to its tables for each page.  Physical memory is addressed by frame
and offset; the contents of page tables are represented by the page map of
their address space and are not part of it, nor is the bounce buffer, which is
kernel memory.
-/

namespace SeekOs.Mm

open SeekOs.Base SeekOs.Lib

abbrev Memory := Nat × Nat → UInt8

/-- The frame and offset behind an address. -/
def translate (pages : Pages) (va : Nat) : Option (Nat × Nat) :=
  (pages (pteIndex va)).map fun pte => (pte.pageFrame, va % pageSize)

/-- A load or store through an address that is not mapped faults. -/
def orFault {α : Type} : Option α → Except Panic α
  | none => .error .pageFault
  | some value => .ok value

def mmRead (memory : Memory) (mm : MmStruct) (virt len : Nat) :
    Except Panic (List UInt8) :=
  orFault (readThrough memory (translate mm.pages) virt len)

def mmWrite (memory : Memory) (mm : MmStruct) (virt : Nat)
    (data : List UInt8) : Except Panic Memory :=
  orFault (writeThrough memory (translate mm.pages) virt data)

/-- A child that is being filled. -/
structure Forking (κ : Type) where
  kmem : κ
  memory : Memory
  child : MmStruct

section Copy

variable {κ : Type} [FrameAllocator κ]

open FrameAllocator

/-- `mm_create` takes a frame for the top-level table, clears its lower half
and shares the upper half with the kernel. -/
def mmCreate (kmem : κ) (kernel : Pages) : Except Panic (κ × MmStruct × Nat) :=
  match pmmAllocPages kmem 1 with
  | none => .error .outOfMemory
  | some (next, pageDir) =>
    .ok (next, ⟨[], fun index => if index < 2 ^ 35 then none else kernel index⟩, pageDir)

def mmFreeAreas (kmem : κ) (pages : Pages) :
    List VmArea → Except Panic (κ × Pages)
  | [] => .ok (kmem, pages)
  | area :: rest =>
    (vmmVunmap kmem pages area.vmStart
        (sizeToPage (uptrSub area.vmEnd area.vmStart)) area.vmFlags).bind
      fun (next, unmapped) => mmFreeAreas next unmapped rest

def mmFree (kmem : κ) (mm : MmStruct) (pageDir : Nat) : Except Panic κ :=
  (mmFreeAreas kmem mm.pages mm.vmAreaHead).map fun (next, _) =>
    pmmFreePages next pageDir

/-- The loop of `mm_copy` over the pages of one area. -/
def mmCopyPages (parent child : MmStruct) (area : VmArea)
    (memory : Memory) (va : Nat) : Nat → Except Panic Memory
  | 0 => .ok memory
  | count + 1 =>
    let size := uptrSub area.vmEnd area.vmStart
    let chunk := min (uptrSub size (uptrSub va area.vmStart)) pageSize
    (mmRead memory parent va chunk).bind fun pageBuf =>
      (mmWrite memory child va pageBuf).bind fun written =>
        mmCopyPages parent child area written (uptrAdd va pageSize) count

/-- The loop of `mm_copy` over the areas; the flag is false when a `vmalloc`
in the child returned null. -/
def mmCopyAreas (parent : MmStruct) (state : Forking κ) :
    List VmArea → Except Panic (Forking κ × Bool)
  | [] => .ok (state, true)
  | area :: rest =>
    (vmalloc state.kmem state.child area.vmStart
        (uptrSub area.vmEnd area.vmStart) area.vmFlags).bind
      fun (kmem, child, ptr) =>
        if ptr = 0 then
          .ok (⟨kmem, state.memory, child⟩, false)
        else
          (mmCopyPages parent child area state.memory area.vmStart
              ((area.vmEnd - area.vmStart + (pageSize - 1)) / pageSize)).bind
            fun memory => mmCopyAreas parent ⟨kmem, memory, child⟩ rest

/-- `mm_copy`; the child is missing when the call returns null. -/
def mmCopy (kmem : κ) (memory : Memory) (parent : MmStruct) :
    Except Panic (κ × Memory × Option MmStruct) :=
  (mmCreate kmem parent.pages).bind fun (created, child, pageDir) =>
    (mmCopyAreas parent ⟨created, memory, child⟩ parent.vmAreaHead).bind
      fun (state, copied) =>
        if copied then
          .ok (state.kmem, state.memory, some state.child)
        else
          (mmFree state.kmem state.child pageDir).map fun freed =>
            (freed, state.memory, none)

end Copy

end SeekOs.Mm
