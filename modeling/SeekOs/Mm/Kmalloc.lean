import SeekOs.Lib.FreeList
import SeekOs.Mm.Slab

/-!
# The kernel heap

`kmalloc` serves small requests from the slabs and large ones from the
kernel's area list, whose records are slab objects themselves.  The heap is
run together with the blocks that are in use, so that a call can be required to
free one of them and their owners can store into them.
-/

namespace SeekOs.Mm

open SeekOs.Base SeekOs.Lib

def slabAllocMaxSize : Nat := 8192

def sizeofVmArea : Nat := 40

def miKernelVmareaSpaceSize : Nat :=
  miKernelVmareaSpaceEnd + 1 - miKernelVmareaSpaceStart

/-- The state of the kernel's allocators.  `record` is the address of the
`vm_area_t` of an area of `k_vmlist`. -/
structure Heap (κ : Type) where
  memory : KernelMemory κ
  metaCache : SlabCache
  cacheCacheHead : List SlabCache
  kVmlist : List VmArea
  record : VmArea → Nat

/-- The place a block comes from and goes back to. -/
inductive Home where
  | slab (address : Nat)
  | area (vmStart : Nat)
  deriving DecidableEq

section Calls

variable {κ : Type} [FrameAllocator κ]

variable (heap : Heap κ)

/-- `_vm_area_create` with the linking of the new record; its callers use the
record without looking at it. -/
def vmAreaCreate (area : VmArea) (areas : List VmArea) : Except Panic (Heap κ) :=
  (slabAlloc heap.memory sizeofVmArea heap.cacheCacheHead).bind fun
    | (_, _, none) => .error .pageFault
    | (memory, caches, some (object, _)) =>
      .ok
        { heap with
          memory := memory
          cacheCacheHead := caches
          kVmlist := areas
          record := Function.update heap.record area object }

def vmallocKernel (size flags : Nat) : Except Panic (Heap κ × Option Nat) :=
  if size = 0 then
    .ok (heap, none)
  else
    let size := pageAlignUpIf size
    if mmGetVmareaStart flags ≤ size then
      .ok (heap, none)
    else
      match mmFindVmArea heap.kVmlist 0 size flags with
      | none => .ok (heap, none)
      | some (area, areas) =>
        (vmAreaCreate heap area areas).bind fun heap =>
          (vmmVmap heap.memory.kmem heap.memory.pages area.vmStart
              (sizeToPage (uptrSub area.vmEnd area.vmStart)) flags).map
            fun (kmem, pages) =>
              ({ heap with
                  memory :=
                    { heap.memory with kmem := kmem, pages := pages } },
                some area.vmStart)

def vfreeKernel (ptr : Nat) : Except Panic (Heap κ) :=
  match mmGetVmArea ptr heap.kVmlist with
  | none => .error .pageFault
  | some (area, areas) =>
    (vmmVunmap heap.memory.kmem heap.memory.pages area.vmStart
        (sizeToPage (uptrSub area.vmEnd area.vmStart)) area.vmFlags).map
      fun (kmem, pages) =>
        let (words, caches, _) := slabFree heap.memory.words (heap.record area) heap.cacheCacheHead
        { heap with
          memory := ⟨kmem, pages, words⟩
          cacheCacheHead := caches
          kVmlist := areas }

/-- The rounding of `kmalloc` to a multiple of eight. -/
def kmallocSizeUp (size : Nat) : Nat :=
  if size % 8 = 0 then size else (size + 8) / 8 * 8

/-- The block and its home, or null. -/
def kmalloc (size : Nat) : Except Panic (Heap κ × Option (Nat × Home)) :=
  if size = 0 then
    .ok (heap, none)
  else if size ≤ slabAllocMaxSize ∧ kmallocSizeUp size ≤ slabAllocMaxSize then
    (slabAlloc heap.memory (kmallocSizeUp size) heap.cacheCacheHead).map
      fun (memory, caches, object) =>
        ({ heap with memory := memory, cacheCacheHead := caches },
          object.map fun (ptr, slab) => (ptr, .slab slab))
  else
    (vmallocKernel heap (pageAlignUpIf size) vmmFlagsDefault).map
      fun (heap, start) =>
        (heap, start.map fun ptr => (ptr, .area ptr))

/-- The place the block is returned to comes with the heap. -/
def kfree (ptr : Nat) : Except Panic (Heap κ × Home) :=
  match slabFree heap.memory.words ptr heap.cacheCacheHead with
  | (words, caches, some slab) =>
    .ok
      ({ heap with
          memory := { heap.memory with words := words }
          cacheCacheHead := caches }, .slab slab)
  | (_, _, none) => (vfreeKernel heap ptr).map fun heap => (heap, .area ptr)

/-- The heap after `slab_init` and `vmalloc_init`. -/
def heapInit (memory : KernelMemory κ) (metaAddress : Nat) : Except Panic (Heap κ) :=
  (slabInit memory metaAddress).map fun (memory, metaCache, caches) =>
    { memory := memory
      metaCache := metaCache
      cacheCacheHead := caches
      kVmlist := []
      record := fun _ => 0 }

end Calls

/-- A block that `kmalloc` returned: its address, the number of bytes that were
asked for and its home. -/
structure HeapBlock where
  ptr : Nat
  size : Nat
  home : Home
  deriving DecidableEq

structure KernelHeap (κ : Type) where
  heap : Heap κ
  live : List HeapBlock

inductive HeapOp where
  | kmalloc (size : Nat)
  | kfree (ptr : Nat)
  /-- The owner of a block stores what it likes into it. -/
  | store (ptr : Nat) (contents : Nat → Nat)

/-- Two ranges of addresses have none in common. -/
def RangesApart (left leftSize right rightSize : Nat) : Prop :=
  left + leftSize ≤ right ∨ right + rightSize ≤ left

instance (left leftSize right rightSize : Nat) :
    Decidable (RangesApart left leftSize right rightSize) :=
  inferInstanceAs (Decidable (_ ∨ _))

namespace KernelHeap

variable {κ : Type} [FrameAllocator κ]

/-- The words of memory after stores into a block. -/
def storeBlock (block : HeapBlock) (contents words : Nat → Nat) : Nat → Nat :=
  fun address =>
    if RangesApart address 8 block.ptr block.size then
      words address
    else
      contents address

/-- The state after `kmalloc` has returned. -/
def received (live : List HeapBlock) (size : Nat) : Heap κ × Option (Nat × Home) → KernelHeap κ
  | (heap, none) => { heap := heap, live := live }
  | (heap, some (ptr, home)) =>
    { heap := heap, live := ⟨ptr, size, home⟩ :: live }

variable (state : KernelHeap κ)

def step : HeapOp → Except Panic (KernelHeap κ)
  | .kmalloc size =>
    (Mm.kmalloc state.heap size).map (received state.live size)
  | .kfree ptr =>
    (Mm.kfree state.heap ptr).map fun (heap, _) =>
      { heap := heap, live := state.live.eraseP fun block => block.ptr = ptr }
  | .store ptr contents =>
    match state.live.find? fun block => block.ptr = ptr with
    | none => .ok state
    | some block =>
      let memory := state.heap.memory
      let words := storeBlock block contents memory.words
      .ok
        { state with
          heap :=
            { state.heap with memory := { memory with words := words } } }

/-- Requests are for at least one byte and for less than the region of the
kernel's areas; only blocks in use are freed and stored into. -/
def Allowed : HeapOp → Prop
  | .kmalloc size => 1 ≤ size ∧ size < miKernelVmareaSpaceSize
  | .kfree ptr => ∃ block ∈ state.live, block.ptr = ptr
  | .store ptr _ => ∃ block ∈ state.live, block.ptr = ptr

instance  : DecidablePred state.Allowed
  | .kmalloc _ => inferInstanceAs (Decidable (_ ∧ _))
  | .kfree ptr =>
    inferInstanceAs (Decidable (∃ block ∈ state.live, block.ptr = ptr))
  | .store ptr _ =>
    inferInstanceAs (Decidable (∃ block ∈ state.live, block.ptr = ptr))

end KernelHeap

/-- The nodes of the free list of a slab. -/
def Slab.nodes (words : Nat → Nat) (slab : Slab) : List Nat :=
  follow words slab.freeList slab.freeObjects

/-- The number of bytes that a home has for a block. -/
def Heap.span {κ : Type} (heap : Heap κ) : Home → Nat
  | .slab address =>
    ((heap.cacheCacheHead.find? fun cache =>
      cache.slabs.any fun slab => slab.address = address).map SlabCache.objSize).getD 0
  | .area vmStart =>
    ((heap.kVmlist.find? fun area => area.vmStart = vmStart).map
      fun area => area.vmEnd - area.vmStart).getD 0

/-- Memory at the time of `slab_init`: the free frames have an address in the
direct mapping, and nothing is mapped there or in the region of the kernel's
areas. -/
structure KernelMemory.Fresh {κ : Type} [FrameAllocator κ] (memory : KernelMemory κ) : Prop where
  valid : FrameAllocator.Valid memory.kmem
  direct : ∀ frame, FrameAllocator.Free memory.kmem frame →
    (frame + 1) * pageSize ≤ miDirectMappingRangeSize
  vacantDirect : ∀ va, miDirectMappingRangeStart ≤ va →
    va ≤ miDirectMappingRangeEnd → memory.pages (pteIndex va) = none
  vacantAreas : ∀ va, miKernelVmareaSpaceStart ≤ va →
    va ≤ miKernelVmareaSpaceEnd → memory.pages (pteIndex va) = none

/-- What holds of the blocks in use in every state of a run. -/
structure KernelHeap.Safe {κ : Type} [FrameAllocator κ] (state : KernelHeap κ) : Prop where
  spans : ∀ block ∈ state.live, block.size ≤ state.heap.span block.home
  apart : state.live.Pairwise fun left right =>
    RangesApart left.ptr (state.heap.span left.home) right.ptr (state.heap.span right.home)
  headers : ∀ block ∈ state.live,
    ∀ cache ∈ state.heap.metaCache :: state.heap.cacheCacheHead,
      ∀ slab ∈ cache.slabs,
        RangesApart block.ptr (state.heap.span block.home) slab.address sizeofSlab
  nodes : ∀ block ∈ state.live,
    ∀ cache ∈ state.heap.metaCache :: state.heap.cacheCacheHead,
      ∀ slab ∈ cache.slabs, ∀ node ∈ slab.nodes state.heap.memory.words,
        RangesApart block.ptr (state.heap.span block.home) node cache.objSize
  records : ∀ block ∈ state.live, ∀ area ∈ state.heap.kVmlist,
    RangesApart block.ptr (state.heap.span block.home) (state.heap.record area) sizeofVmArea
  returns : ∀ block ∈ state.live, ∃ heap, kfree state.heap block.ptr = .ok (heap, block.home)

end SeekOs.Mm
