import SeekOs.Mm.AddressSpace

/-!
# The slab allocator

A slab is a run of pages of the direct mapping: a header of type `slab_t`, then
objects of one size.  The free objects of a slab are threaded through their
first words.  The headers of slabs and caches are records here, which carry
the address they are stored at; all other memory is one word for every aligned
address.  A function that takes an object from a slab or puts one back also
returns the address of that slab, which the code does not do.
-/

namespace SeekOs.Mm

open SeekOs.Base Function

structure Slab where
  address : Nat
  sMem : Nat
  size : Nat
  freeObjects : Nat
  freeList : Nat
  deriving DecidableEq

structure SlabCache where
  address : Nat
  name : String
  slabs : List Slab
  objSize : Nat
  freeObjects : Nat
  totalObjects : Nat
  nrPages : Nat
  totalPages : Nat

def sizeofSlab : Nat := 40

def sizeofSlabCache : Nat := 112

def slabMetaCacheNrPages : Nat := 2

/-- An object to be carved out of slabs: the name, the size of the object and
the number of pages of a slab. -/
structure SlabSize where
  name : String
  objSize : Nat
  nrPages : Nat

def slabSizeList : List SlabSize :=
  [⟨"kmalloc-8", 8, 1⟩, ⟨"kmalloc-16", 16, 1⟩, ⟨"kmalloc-32", 32, 1⟩,
    ⟨"kmalloc-64", 64, 1⟩, ⟨"kmalloc-128", 128, 2⟩, ⟨"kmalloc-256", 256, 2⟩,
    ⟨"kmalloc-512", 512, 2⟩, ⟨"kmalloc-1k", 1024, 4⟩, ⟨"kmalloc-2k", 2048, 4⟩,
    ⟨"kmalloc-4k", 4096, 4⟩, ⟨"kmalloc-8k", 8192, 4⟩]

/-- The memory that the slab allocator works on: the frames, the kernel's leaf
entries and the words. -/
structure KernelMemory (κ : Type) where
  kmem : κ
  pages : Pages
  words : Nat → Nat

/-- Zero the bytes of a range. -/
def memsetZero (words : Nat → Nat) (start bytes : Nat) : Nat → Nat :=
  fun address =>
    if start ≤ address ∧ address < start + bytes then 0 else words address

/-- The loop of `slab_create` that links the objects from the `index`-th on. -/
def slabLinkEntries (objStart objSize : Nat) : (Nat → Nat) → Nat → Nat → Nat → (Nat → Nat)
  | words, _, _, 0 => words
  | words, currEntry, index, rounds + 1 =>
    let slabEntry := uptrAdd objStart (index * objSize)
    slabLinkEntries objStart objSize (update words currEntry slabEntry) slabEntry (index + 1) rounds

def slabObjCount (slabBytes objSize : Nat) : Nat :=
  uptrSub slabBytes sizeofSlab / objSize % 2 ^ 32

def slabCacheInit (address : Nat) (name : String) (objSize nrPages : Nat) : SlabCache :=
  { address := address
    name := name
    slabs := []
    objSize := objSize
    freeObjects := 0
    totalObjects := 0
    nrPages := nrPages
    totalPages := 0 }

section Allocator

variable {κ : Type} [FrameAllocator κ]

open FrameAllocator

variable (memory : KernelMemory κ)

def vmmAllocPages (nrPages : Nat) : Except Panic (KernelMemory κ × Nat) :=
  match pmmAllocPages memory.kmem nrPages with
  | none => .error .outOfMemory
  | some (kmem, pfn) =>
    let physAddr := pfn <<< pageShift % 2 ^ 64
    let virtAddr := uptrAdd miDirectMappingRangeStart physAddr
    (ptmMapPages memory.pages virtAddr physAddr nrPages vmmFlagsDefault).map
      fun pages => ({ memory with kmem := kmem, pages := pages }, virtAddr)

/-- The slab and the number of its objects, or null. -/
def slabCreate (nrPages objSize : Nat) : Except Panic (KernelMemory κ × Option (Slab × Nat)) :=
  (vmmAllocPages memory nrPages).map fun (memory, slabStart) =>
    if slabStart = 0 then
      (memory, none)
    else
      let slabBytes := nrPages * pageSize % 2 ^ 32
      let cleared := memsetZero memory.words slabStart slabBytes
      let objCount := slabObjCount slabBytes objSize
      let objStart := uptrAdd slabStart sizeofSlab
      let linked := slabLinkEntries objStart objSize cleared objStart 1 (objCount - 1)
      ({ memory with words := linked },
        some
          ({ address := slabStart
             sMem := objStart
             size := slabBytes
             freeObjects := objCount
             freeList := objStart }, objCount))

def slabCacheGrowth (cache : SlabCache) : Except Panic (KernelMemory κ × SlabCache) :=
  (slabCreate memory cache.nrPages cache.objSize).map fun
    | (memory, none) => (memory, cache)
    | (memory, some (growthSlab, objCount)) =>
      (memory,
        { cache with
          slabs := dlistAddNext cache.slabs growthSlab
          freeObjects := (cache.freeObjects + objCount) % 2 ^ 32
          totalObjects := (cache.totalObjects + objCount) % 2 ^ 32
          totalPages := (cache.totalPages + cache.nrPages) % 2 ^ 32 })

end Allocator

/-- An object taken from a list of slabs. -/
structure TakenObject where
  words : Nat → Nat
  slabs : List Slab
  object : Nat
  slab : Nat

/-- The header of a slab after its first free object was taken. -/
def Slab.take (words : Nat → Nat) (slab : Slab) : Slab :=
  { slab with
    freeList := words slab.freeList
    freeObjects := slab.freeObjects - 1 }

/-- The header of a slab after an object was put in front of its free list. -/
def Slab.put (ptr : Nat) (slab : Slab) : Slab :=
  { slab with
    freeList := ptr
    freeObjects := (slab.freeObjects + 1) % 2 ^ 32 }

def slabsAlloc (words : Nat → Nat) : List Slab → Except Panic (Option TakenObject)
  | [] => .ok none
  | slabEntry :: rest =>
    if 0 < slabEntry.freeObjects then
      -- the first word of the object is read through the pointer
      if slabEntry.freeList = 0 then
        .error .pageFault
      else
        .ok (some
          { words := update words slabEntry.freeList 0
            slabs := slabEntry.take words :: rest
            object := slabEntry.freeList
            slab := slabEntry.address })
    else
      (slabsAlloc words rest).map fun found =>
        found.map fun taken =>
          { taken with slabs := slabEntry :: taken.slabs }

/-- The object and its slab, or null. -/
def slabCacheAlloc {κ : Type} [FrameAllocator κ] (memory : KernelMemory κ)
    (cache : SlabCache) (sizeOfBytes : Nat) :
    Except Panic (KernelMemory κ × SlabCache × Option (Nat × Nat)) :=
  if cache.objSize < sizeOfBytes then
    .ok (memory, cache, none)
  else
    (if cache.freeObjects = 0 then
        slabCacheGrowth memory cache
      else
        .ok (memory, cache)).bind fun (memory, cache) =>
      (slabsAlloc memory.words cache.slabs).map fun
        | none => (memory, cache, none)
        | some taken =>
          ({ memory with words := taken.words },
            { cache with
              slabs := taken.slabs
              freeObjects := (cache.freeObjects + (2 ^ 32 - 1)) % 2 ^ 32 },
            some (taken.object, taken.slab))

/-- The test of `slab_cache_free` for an address. -/
def Slab.inRange (slab : Slab) (ptr : Nat) : Bool :=
  decide (slab.sMem ≤ ptr) && decide (ptr < uptrAdd slab.sMem slab.size)

def slabsFree (words : Nat → Nat) (ptr : Nat) : List Slab → Option ((Nat → Nat) × List Slab × Nat)
  | [] => none
  | slabEntry :: rest =>
    if slabEntry.inRange ptr then
      some (update words ptr slabEntry.freeList, slabEntry.put ptr :: rest, slabEntry.address)
    else
      (slabsFree words ptr rest).map fun (words, slabs, slab) =>
        (words, slabEntry :: slabs, slab)

def slabCacheFree (words : Nat → Nat) (cache : SlabCache) (ptr : Nat) :
    Option ((Nat → Nat) × SlabCache × Nat) :=
  (slabsFree words ptr cache.slabs).map fun (words, slabs, slab) =>
    (words,
      { cache with
        slabs := slabs
        freeObjects := (cache.freeObjects + 1) % 2 ^ 32 }, slab)

/-- `slab_free` over the caches of `cache_cache_head`. -/
def slabFree (words : Nat → Nat) (ptr : Nat) :
    List SlabCache → (Nat → Nat) × List SlabCache × Option Nat
  | [] => (words, [], none)
  | cacheEntry :: rest =>
    match slabCacheFree words cacheEntry ptr with
    | some (words, cache, slab) => (words, cache :: rest, some slab)
    | none =>
      let (words, caches, slab) := slabFree words ptr rest
      (words, cacheEntry :: caches, slab)

section Caches

variable {κ : Type} [FrameAllocator κ]

/-- `slab_alloc` over the caches of `cache_cache_head`. -/
def slabAlloc (memory : KernelMemory κ) (size : Nat) :
    List SlabCache → Except Panic (KernelMemory κ × List SlabCache × Option (Nat × Nat))
  | [] => .ok (memory, [], none)
  | cacheEntry :: rest =>
    if size ≤ cacheEntry.objSize then
      (slabCacheAlloc memory cacheEntry size).map
        fun (memory, cache, object) => (memory, cache :: rest, object)
    else
      (slabAlloc memory size rest).map
        fun (memory, caches, object) => (memory, cacheEntry :: caches, object)

def slabCacheCreateCache (memory : KernelMemory κ) (metaCache : SlabCache)
    (name : String) (objSize nrPages : Nat) :
    Except Panic (KernelMemory κ × SlabCache × Option SlabCache) :=
  (slabCacheAlloc memory metaCache sizeofSlabCache).map fun
    | (memory, metaCache, none) => (memory, metaCache, none)
    | (memory, metaCache, some (slabCache, _)) =>
      (memory, metaCache, some (slabCacheInit slabCache name objSize nrPages))

def slabInitCaches (memory : KernelMemory κ) (metaCache : SlabCache)
    (cacheCacheHead : List SlabCache) :
    List SlabSize → Except Panic (KernelMemory κ × SlabCache × List SlabCache)
  | [] => .ok (memory, metaCache, cacheCacheHead)
  | slabSize :: rest =>
    (slabCacheCreateCache memory metaCache slabSize.name slabSize.objSize slabSize.nrPages).bind fun
      | (_, _, none) => .error .pageFault
      | (memory, metaCache, some slabCache) =>
        (slabCacheGrowth memory slabCache).bind fun (memory, slabCache) =>
          slabInitCaches memory metaCache (dlistAddPrev cacheCacheHead slabCache) rest

/-- `slab_init`; the address of the meta cache is that of a global. -/
def slabInit (memory : KernelMemory κ) (metaAddress : Nat) :
    Except Panic (KernelMemory κ × SlabCache × List SlabCache) :=
  (slabCacheGrowth memory
      (slabCacheInit metaAddress "slab_meta_cahce" sizeofSlabCache
        slabMetaCacheNrPages)).bind fun (memory, metaCache) =>
    slabInitCaches memory metaCache [] slabSizeList

end Caches

end SeekOs.Mm
