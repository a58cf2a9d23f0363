import SeekOs.Mm.AreaOrder
import SeekOs.Mm.SlabCaches

/-!
# Safety of the kernel heap

From `slab_init` on, through any sequence of calls of `kmalloc`, of `kfree` on
blocks in use and of stores into blocks in use, the blocks in use are large
enough, share no byte with each other, with a slab header or with a free
object, and `kfree` returns each to the place it came from.
-/

namespace SeekOs.Mm

open SeekOs.Base SeekOs.Lib FrameAllocator Function List SlabCache HeapBlock

section Objects

variable {κ : Type} {heap : Heap κ} {size ptr slab : Nat}

/-- All slabs, those of the meta cache last. -/
def Heap.pool (heap : Heap κ) : Pool :=
  poolOf heap.cacheCacheHead ++ heap.metaCache.pool

/-- An object of a given slab that is not free and has room for some bytes. -/
def Heap.InUse (heap : Heap κ) (size ptr slab : Nat) : Prop :=
  (∃ objSize, HasObject (poolOf heap.cacheCacheHead) slab objSize ptr ∧
    size ≤ objSize) ∧ ¬FreeObject heap.memory.words heap.pool ptr

/-- The block is where its home says, and fits there. -/
def Heap.Holds (heap : Heap κ) (block : HeapBlock) : Prop :=
  match block.home with
  | .slab slab => heap.InUse block.size block.ptr slab
  | .area vmStart => block.ptr = vmStart ∧
      ∃ area ∈ heap.kVmlist, area.vmStart = vmStart ∧ block.size ≤ area.vmEnd - area.vmStart

theorem Heap.InUse.used (inUse : heap.InUse size ptr slab) :
    UsedObject heap.memory.words heap.pool ptr := by
  obtain ⟨⟨objSize, ⟨entry, member, _, _, object⟩, _⟩, notFree⟩ := inUse
  exact ⟨⟨entry, mem_append_left _ member, object⟩, notFree⟩

theorem Heap.InUse.below (inUse : heap.InUse size ptr slab)
    (sound : PoolSound heap.memory.words heap.pool) :
    ptr < miKernelVmareaSpaceStart := by
  obtain ⟨⟨entry, member, object⟩, _⟩ := inUse.used
  have isSound := sound.shape member
  have inside := object.inside isSound
  have high := isSound.high
  have wide := isSound.wide
  unfold miDirectMappingRangeEnd at high
  unfold miKernelVmareaSpaceStart
  omega

end Objects

section Frame

variable {κ : Type} [FrameAllocator κ] {heap next : Heap κ} {size ptr slab : Nat}

theorem Heap.InUse.after_taken {object home objSize : Nat}
    {areas : List VmArea} (inUse : heap.InUse size ptr slab) (next : Heap κ)
    (sameMeta : next.metaCache = heap.metaCache)
    (taken : SlabTaken heap.memory (poolOf heap.cacheCacheHead)
      heap.metaCache.pool areas next.memory (poolOf next.cacheCacheHead)
      object home objSize) :
    next.InUse size ptr slab ∧ ptr ≠ object := by
  obtain ⟨different, notFree⟩ := taken.taken.others ptr inUse.used
  obtain ⟨⟨itsSize, has, fits⟩, _⟩ := inUse
  refine ⟨⟨⟨itsSize, taken.kept.hasObject has, fits⟩, ?_⟩, different⟩
  rw [Heap.pool, sameMeta]
  exact notFree

omit [FrameAllocator κ] in
theorem Heap.InUse.after_put {object : Nat}
    (inUse : heap.InUse size ptr slab) (different : ptr ≠ object)
    (sameMeta : next.metaCache = heap.metaCache)
    (shapes : (poolOf next.cacheCacheHead).map shapeOf = (poolOf heap.cacheCacheHead).map shapeOf)
    (isPut : ObjectPut heap.memory.words heap.pool next.memory.words
      (poolOf next.cacheCacheHead ++ heap.metaCache.pool) object) :
    next.InUse size ptr slab := by
  have notFree := isPut.others ptr inUse.used different
  obtain ⟨⟨itsSize, has, fits⟩, _⟩ := inUse
  refine ⟨⟨itsSize, (shapesKept_of_eq shapes).hasObject has, fits⟩, ?_⟩
  rw [Heap.pool, sameMeta]
  exact notFree

omit [FrameAllocator κ] in
theorem Heap.Holds.transfer {block : HeapBlock} (holds : heap.Holds block)
    (objects : ∀ slab, heap.InUse block.size block.ptr slab → next.InUse block.size block.ptr slab)
    (areas : ∀ area ∈ heap.kVmlist, area.vmStart = block.ptr →
      area ∈ next.kVmlist) : next.Holds block := by
  obtain ⟨ptr, size, home⟩ := block
  cases home with
  | slab address => exact objects address holds
  | area vmStart =>
    obtain ⟨isPtr, area, isArea, isStart, fits⟩ := holds
    refine ⟨isPtr, area, ?_, isStart, fits⟩
    exact areas area isArea (isStart.trans isPtr.symm)

end Frame

namespace KernelHeap

variable {live : List HeapBlock}

private theorem eraseP_perm (nodup : (live.map ptr).Nodup) (member : block ∈ live) :
    live.Perm (block :: live.eraseP fun other => other.ptr = block.ptr) := by
  induction live with
  | nil => cases member
  | cons head rest induction =>
    obtain ⟨notIn, restNodup⟩ := nodup_cons.mp nodup
    rcases mem_cons.mp member with rfl | inRest
    · rw [eraseP_cons_of_pos (by simp)]
    · have different : head.ptr ≠ block.ptr := by
        intro same
        exact notIn (same ▸ mem_map_of_mem inRest)
      rw [eraseP_cons_of_neg (by simpa using different)]
      exact ((induction restNodup inRest).cons head).trans (List.Perm.swap block head _)

variable {κ : Type} [FrameAllocator κ] {state : KernelHeap κ}
variable {area : VmArea} {objSize object size : Nat} {block : HeapBlock} {entry : Nat × Slab}
  {home : Nat}

/-- The addresses in use: the blocks and the records of the areas. -/
def tokens (state : KernelHeap κ) : List Nat :=
  state.live.map HeapBlock.ptr ++ state.heap.kVmlist.map state.heap.record

/-- The invariant of the kernel heap. -/
structure Sound (state : KernelHeap κ) : Prop where
  memory : MemorySound state.heap.memory state.heap.pool state.heap.kVmlist
  caches : ∀ cache ∈ state.heap.cacheCacheHead, cache.Sound
  largest : ∃ objSize ∈ state.heap.cacheCacheHead.map SlabCache.objSize, slabAllocMaxSize ≤ objSize
  placed : ∀ area ∈ state.heap.kVmlist, KernelArea area
  flags : ∀ area ∈ state.heap.kVmlist, area.vmFlags = vmmFlagsDefault
  ascending : Ascending state.heap.kVmlist
  blocks : ∀ block ∈ state.live, state.heap.Holds block
  records : ∀ area ∈ state.heap.kVmlist, ∃ slab,
    state.heap.InUse sizeofVmArea (state.heap.record area) slab
  distinct : state.tokens.Nodup

/-! ## What the invariant says about the blocks -/

section

variable (sound : state.Sound)

include sound

theorem Sound.area_unique {other : VmArea} (member : area ∈ state.heap.kVmlist)
    (otherMember : other ∈ state.heap.kVmlist)
    (same : area.vmStart = other.vmStart) : area = other := by
  by_contra different
  have apart := sound.ascending.apart_of_ne member otherMember different
  have nonempty := (sound.placed area member).nonempty
  have otherNonempty := (sound.placed other otherMember).nonempty
  unfold VmArea.Apart at apart
  omega

theorem Sound.span_slab {slab ptr : Nat}
    (has : HasObject (poolOf state.heap.cacheCacheHead) slab objSize ptr) :
    state.heap.span (.slab slab) = objSize := by
  obtain ⟨entry, member, rfl, rfl, _⟩ := has
  have inPool : entry ∈ state.heap.pool := mem_append_left _ member
  obtain ⟨owner, isOwner, inOwner⟩ := mem_flatMap.mp member
  obtain ⟨ownSlab, inSlabs, rfl⟩ := mem_map.mp inOwner
  have someFound : ∃ cache ∈ state.heap.cacheCacheHead,
      (cache.slabs.any fun slab => slab.address = ownSlab.address) = true := by
    refine ⟨owner, isOwner, any_eq_true.mpr ⟨ownSlab, inSlabs, ?_⟩⟩
    exact decide_eq_true rfl
  obtain ⟨found, isFound⟩ := Option.isSome_iff_exists.mp (List.find?_isSome.mpr someFound)
  have hasSlab := List.find?_some isFound
  obtain ⟨other, inFound, sameAddress⟩ := any_eq_true.mp hasSlab
  have isCache := List.mem_of_find?_eq_some isFound
  have otherIn : (found.objSize, other) ∈ state.heap.pool :=
    mem_append_left _ (mem_flatMap.mpr ⟨found, isCache, mem_map_of_mem inFound⟩)
  have same : (found.objSize, other) = (owner.objSize, ownSlab) := by
    by_contra different
    have apart := sound.memory.lists.apart_of_ne otherIn inPool different
    have room := (sound.memory.lists.shape otherIn).room
    have ownRoom := (sound.memory.lists.shape inPool).room
    have addresses : other.address = ownSlab.address := of_decide_eq_true sameAddress
    unfold Shape.Apart RangesApart at apart
    unfold shapeOf sizeofSlab at *
    simp only at apart room ownRoom
    omega
  rw [Heap.span, isFound]
  exact congrArg Prod.fst same

theorem Sound.span_area (member : area ∈ state.heap.kVmlist) :
    state.heap.span (.area area.vmStart) = area.vmEnd - area.vmStart := by
  obtain ⟨found, isFound⟩ := Option.isSome_iff_exists.mp
    (List.find?_isSome.mpr ⟨area, member, decide_eq_true rfl⟩ :
      (state.heap.kVmlist.find? fun other =>
        other.vmStart = area.vmStart).isSome)
  have isStart := List.find?_some isFound
  have sameStart : found.vmStart = area.vmStart := of_decide_eq_true isStart
  have same := sound.area_unique (List.mem_of_find?_eq_some isFound) member sameStart
  rw [Heap.span, isFound, same]
  rfl

theorem Sound.objects_apart {left right : Nat × Slab}
    {leftPtr rightPtr : Nat} (leftMember : left ∈ state.heap.pool)
    (rightMember : right ∈ state.heap.pool)
    (leftObject : (shapeOf left).Object leftPtr)
    (rightObject : (shapeOf right).Object rightPtr)
    (different : leftPtr ≠ rightPtr) :
    RangesApart leftPtr left.1 rightPtr right.1 := by
  by_cases same : left = right
  · subst same
    exact leftObject.apart_same rightObject different
  · exact leftObject.apart_other rightObject (sound.memory.lists.shape leftMember)
      (sound.memory.lists.shape rightMember)
      (sound.memory.lists.apart_of_ne leftMember rightMember same)

theorem Sound.slab_below (member : entry ∈ state.heap.pool) (isArea : area ∈ state.heap.kVmlist) :
    entry.2.address + entry.2.size ≤ area.vmStart := by
  have high : entry.2.address + entry.2.size ≤ miDirectMappingRangeEnd + 1 :=
    (sound.memory.lists.shape member).high
  have above := (sound.placed area isArea).above
  unfold miDirectMappingRangeEnd at high
  unfold miKernelVmareaSpaceStart at above
  omega

theorem Sound.cache_fits (small : size ≤ slabAllocMaxSize) :
    ∃ cache ∈ state.heap.cacheCacheHead, size ≤ cache.objSize := by
  obtain ⟨objSize, isSize, large⟩ := sound.largest
  obtain ⟨cache, member, rfl⟩ := mem_map.mp isSize
  exact ⟨cache, member, small.trans large⟩

section

variable (member : block ∈ state.live)
include member

theorem Sound.place :
    (∃ entry ∈ poolOf state.heap.cacheCacheHead, block.home = .slab entry.2.address ∧
      (shapeOf entry).Object block.ptr ∧
      state.heap.span block.home = entry.1 ∧ block.size ≤ entry.1 ∧
      ¬FreeObject state.heap.memory.words state.heap.pool block.ptr) ∨
    ∃ area ∈ state.heap.kVmlist, block.home = .area area.vmStart ∧ block.ptr = area.vmStart ∧
      state.heap.span block.home = area.vmEnd - area.vmStart ∧
      block.size ≤ area.vmEnd - area.vmStart := by
  have holds := sound.blocks block member
  obtain ⟨ptr, size, home⟩ := block
  cases home with
  | slab address =>
    obtain ⟨⟨objSize, has, fits⟩, notFree⟩ := holds
    have isSpan := sound.span_slab has
    obtain ⟨entry, inPool, rfl, rfl, object⟩ := has
    exact .inl ⟨entry, inPool, rfl, object, isSpan, fits, notFree⟩
  | area vmStart =>
    obtain ⟨isPtr, area, isArea, rfl, fits⟩ := holds
    exact .inr ⟨area, isArea, rfl, isPtr, sound.span_area isArea, fits⟩

theorem Sound.block_object (inPool : entry ∈ state.heap.pool)
    (isObject : (shapeOf entry).Object object)
    (different : block.ptr ≠ object) :
    RangesApart block.ptr (state.heap.span block.home) object entry.1 := by
  rcases sound.place member with
    ⟨owner, isOwner, _, ownObject, isSpan, _, _⟩ | ⟨area, isArea, _, isPtr, isSpan, _⟩
  · rw [isSpan]
    exact sound.objects_apart (mem_append_left _ isOwner) inPool ownObject isObject different
  · have below := sound.slab_below inPool isArea
    have inside := isObject.inside (sound.memory.lists.shape inPool)
    rw [isPtr]
    right
    exact inside.2.trans below

theorem Sound.block_fits : block.size ≤ state.heap.span block.home := by
  rcases sound.place member with ⟨_, _, _, _, isSpan, fits, _⟩ | ⟨_, _, _, _, isSpan, fits⟩
  · exact fits.trans isSpan.ge
  · exact fits.trans isSpan.ge

/-- A block in use is not on a free list. -/
theorem Sound.block_node {node : Nat}
    (inPool : entry ∈ state.heap.pool) (isNode : node ∈ entry.2.nodes state.heap.memory.words) :
    RangesApart block.ptr (state.heap.span block.home) node entry.1 := by
  have object := (sound.memory.lists.slabs entry inPool).objects node isNode
  apply sound.block_object member inPool object
  rintro rfl
  rcases sound.place member with ⟨_, _, _, _, _, _, notFree⟩ | ⟨area, isArea, _, isPtr, _, _⟩
  · exact notFree ⟨entry, inPool, isNode⟩
  · have below := sound.slab_below inPool isArea
    have shape := sound.memory.lists.shape inPool
    have inside := object.inside shape
    have wide := shape.wide
    unfold shapeOf at inside wide
    simp only at inside wide
    omega

omit member in
/-- The addresses in use are objects in use or the starts of areas. -/
theorem Sound.token_cases {token : Nat} (isToken : token ∈ state.tokens) :
    (∃ size slab, state.heap.InUse size token slab) ∨
      ∃ area ∈ state.heap.kVmlist, token = area.vmStart := by
  rcases mem_append.mp isToken with isBlock | isRecord
  · obtain ⟨block, member, rfl⟩ := mem_map.mp isBlock
    rcases sound.place member with
      ⟨owner, isOwner, _, object, _, fits, notFree⟩ | ⟨area, isArea, _, isPtr, _, _⟩
    · exact .inl ⟨_, _, ⟨owner.1, ⟨owner, isOwner, rfl, rfl, object⟩, fits⟩, notFree⟩
    · exact .inr ⟨area, isArea, isPtr⟩
  · obtain ⟨area, isArea, rfl⟩ := mem_map.mp isRecord
    exact .inl ⟨_, sound.records area isArea⟩

theorem Sound.block_header (inPool : entry ∈ state.heap.pool) :
    RangesApart block.ptr (state.heap.span block.home) entry.2.address
      sizeofSlab := by
  have room : sizeofSlab + entry.1 ≤ entry.2.size := (sound.memory.lists.shape inPool).room
  rcases sound.place member with
    ⟨owner, isOwner, _, ownObject, isSpan, _, _⟩ | ⟨area, isArea, _, isPtr, isSpan, _⟩
  · have ownerIn : owner ∈ state.heap.pool := mem_append_left _ isOwner
    have inside := ownObject.inside (sound.memory.lists.shape ownerIn)
    by_cases same : owner = entry
    · subst same
      exact .inr inside.1
    · have apart := sound.memory.lists.apart_of_ne ownerIn inPool same
      unfold Shape.Apart RangesApart at apart
      unfold RangesApart
      unfold shapeOf at apart inside
      simp only at apart inside
      omega
  · have below := sound.slab_below inPool isArea
    right
    omega

end

theorem Sound.blocks_apart {left right : HeapBlock}
    (leftMember : left ∈ state.live) (rightMember : right ∈ state.live)
    (different : left.ptr ≠ right.ptr) :
    RangesApart left.ptr (state.heap.span left.home) right.ptr (state.heap.span right.home) := by
  rcases sound.place rightMember with
    ⟨owner, isOwner, _, object, isSpan, _, _⟩ | ⟨area, isArea, _, isPtr, isSpan, _⟩
  · rw [isSpan]
    exact sound.block_object leftMember (mem_append_left _ isOwner) object different
  · rcases sound.place leftMember with
      ⟨owner, isOwner, _, object, leftSpan, _, _⟩ | ⟨other, isOther, _, leftPtr, leftSpan, _⟩
    · have swapped := sound.block_object rightMember
        (mem_append_left _ isOwner) object different.symm
      rw [leftSpan]
      exact swapped.symm
    · have distinctAreas : other ≠ area := by
        rintro rfl
        exact different (leftPtr.trans isPtr.symm)
      have apart := sound.ascending.apart_of_ne isOther isArea distinctAreas
      have nonempty := (sound.placed area isArea).nonempty
      have otherNonempty := (sound.placed other isOther).nonempty
      unfold VmArea.Apart at apart
      unfold RangesApart
      omega

end

/-! ## Freeing -/

section

variable (sound : state.Sound)
include sound

/-- An object is put back, and blocks and areas that do not need it are left. -/
theorem Sound.put {kmem : κ} {pages : Pages} {words : Nat → Nat}
    {caches : List SlabCache} {areas : List VmArea}
    (areSound : ∀ cache ∈ caches, cache.Sound)
    (sizes : caches.map SlabCache.objSize = state.heap.cacheCacheHead.map SlabCache.objSize)
    (shapes : (poolOf caches).map shapeOf = (poolOf state.heap.cacheCacheHead).map shapeOf)
    (isPut : ObjectPut state.heap.memory.words state.heap.pool words
      (poolOf caches ++ state.heap.metaCache.pool) object)
    (frames : FramesSound kmem pages (state.heap.pool.map shapeOf) areas)
    (fewer : areas.Sublist state.heap.kVmlist) (left : ∀ other ∈ live, other ∈ state.live)
    (kept : ∀ other ∈ live, ∀ area ∈ state.heap.kVmlist, area.vmStart = other.ptr → area ∈ areas)
    (distinct : (object :: (live.map HeapBlock.ptr ++ areas.map state.heap.record)).Nodup) :
    Sound
      ⟨{ state.heap with
          memory := ⟨kmem, pages, words⟩
          cacheCacheHead := caches
          kVmlist := areas }, live⟩ := by
  obtain ⟨gone, leftNodup⟩ := nodup_cons.mp distinct
  have inUse : ∀ size ptr slab, ptr ∈ live.map HeapBlock.ptr ++ areas.map state.heap.record →
      state.heap.InUse size ptr slab →
      Heap.InUse { state.heap with
        memory := ⟨kmem, pages, words⟩
        cacheCacheHead := caches
        kVmlist := areas } size ptr slab := by
    intro size ptr slab isToken isUsed
    refine isUsed.after_put ?_ rfl shapes isPut
    rintro rfl
    exact gone isToken
  refine
    { memory := ⟨isPut.sound, ?_⟩, caches := areSound, largest := ?_
      placed := fun area member => sound.placed area (fewer.subset member)
      flags := fun area member => sound.flags area (fewer.subset member)
      ascending := sound.ascending.sublist fewer, blocks := ?_, records := ?_
      distinct := leftNodup }
  · rw [Heap.pool, map_append, ← shapes, ← map_append] at frames
    exact frames
  · change ∃ objSize ∈ caches.map SlabCache.objSize, _
    rw [sizes]
    exact sound.largest
  · intro other isLive
    refine (sound.blocks other (left other isLive)).transfer ?_ (kept other isLive)
    exact fun slab => inUse _ _ slab (mem_append_left _ (mem_map_of_mem isLive))
  · intro area member
    obtain ⟨slab, isUsed⟩ := sound.records area (fewer.subset member)
    exact ⟨slab, inUse _ _ slab (mem_append_right _ (mem_map_of_mem member)) isUsed⟩

section

variable (member : block ∈ state.live)
include member

theorem Sound.tokens_erase : state.tokens.Perm (block.ptr ::
      ((state.live.eraseP fun other => other.ptr = block.ptr).map
        ptr ++ state.heap.kVmlist.map state.heap.record)) := by
  have nodup := (nodup_append.mp sound.distinct).1
  exact List.Perm.append_right _ ((eraseP_perm nodup member).map _)

theorem Sound.kfree_slab {owner : Nat × Slab} (isOwner : owner ∈ poolOf state.heap.cacheCacheHead)
    (object : (shapeOf owner).Object block.ptr)
    (notFree : ¬FreeObject state.heap.memory.words state.heap.pool block.ptr) :
    ∃ next, Mm.kfree state.heap block.ptr = .ok (next, .slab owner.2.address) ∧
      Sound ⟨next, state.live.eraseP fun other => other.ptr = block.ptr⟩ := by
  obtain ⟨words, caches, freed, areSound, sizes, shapes, isPut⟩ :=
    slabFree_used sound.caches sound.memory.lists isOwner object notFree
  refine ⟨_, by rw [Mm.kfree, freed], ?_⟩
  apply sound.put areSound sizes shapes isPut sound.memory.frames (List.Sublist.refl _)
  · exact fun other => mem_of_mem_eraseP
  · exact fun _ _ area isArea _ => isArea
  · exact (sound.tokens_erase member).nodup_iff.mp sound.distinct

theorem Sound.kfree_area (isArea : area ∈ state.heap.kVmlist) (isPtr : block.ptr = area.vmStart) :
    ∃ next, Mm.kfree state.heap block.ptr = .ok (next, .area area.vmStart) ∧
      Sound ⟨next, state.live.eraseP fun other => other.ptr = block.ptr⟩ := by
  have outside : ∀ entry ∈ poolOf state.heap.cacheCacheHead, entry.2.inRange block.ptr = false := by
    intro entry inCaches
    have inPool : entry ∈ state.heap.pool := mem_append_left _ inCaches
    have high := (sound.memory.lists.shape inPool).high
    have above := (sound.placed area isArea).above
    rw [← Bool.not_eq_true]
    intro inRange
    have range := (sound.memory.lists.slabs entry inPool).inRange_iff.mp inRange
    unfold shapeOf miDirectMappingRangeEnd at high
    unfold sizeofSlab at range
    unfold miKernelVmareaSpaceStart at above
    simp only at high
    omega
  obtain ⟨found, others, search⟩ := mmGetVmArea_isSome isArea
  obtain ⟨permutation, foundStart⟩ := mmGetVmArea_perm search
  have foundMember : found ∈ state.heap.kVmlist := permutation.mem_iff.mpr mem_cons_self
  have isFound : found = area := sound.area_unique foundMember isArea foundStart
  subst isFound
  have apart := (permutation.pairwise_iff VmArea.Apart.symm).mp sound.ascending.apart
  have fewer := mmGetVmArea_sublist search
  obtain ⟨kmem, pages, unmapped, frames⟩ :=
    sound.memory.frames.unmap_area (sound.placed found isArea)
      (fun other inOthers => sound.placed other (fewer.subset inOthers))
      (pairwise_cons.mp apart).1 permutation
  obtain ⟨itsSlab, recordUsed⟩ := sound.records found isArea
  obtain ⟨⟨_, ⟨owner, isOwner, _, _, object⟩, _⟩, notFree⟩ := recordUsed
  obtain ⟨words, caches, freed, areSound, sizes, shapes, isPut⟩ :=
    slabFree_used sound.caches sound.memory.lists isOwner object notFree
  let next : Heap κ :=
    { state.heap with
      memory := ⟨kmem, pages, words⟩
      cacheCacheHead := caches
      kVmlist := others }
  have result : Mm.kfree state.heap block.ptr = .ok (next, .area found.vmStart) := by
    rw [Mm.kfree, slabFree_outside outside]
    simp only [vfreeKernel, isPtr, search, sound.flags found isArea, unmapped, freed]
    rfl
  have tokens : state.tokens.Perm (block.ptr :: state.heap.record found ::
      ((state.live.eraseP fun other => other.ptr = block.ptr).map
        HeapBlock.ptr ++ others.map state.heap.record)) := by
    refine (sound.tokens_erase member).trans (List.Perm.cons _ ?_)
    refine (List.Perm.append_left _ (permutation.map _)).trans ?_
    exact perm_middle
  obtain ⟨gone, distinct⟩ := nodup_cons.mp (tokens.nodup_iff.mp sound.distinct)
  refine ⟨next, result, ?_⟩
  apply sound.put areSound sizes shapes isPut frames fewer
  · exact fun other => mem_of_mem_eraseP
  · intro other inLeft itsArea isItsArea isStart
    rcases mem_cons.mp (permutation.mem_iff.mp isItsArea) with rfl | inOthers
    · have isToken := mem_map_of_mem (f := HeapBlock.ptr) inLeft
      rw [← isStart, ← isPtr] at isToken
      exact absurd (mem_cons_of_mem _ (mem_append_left _ isToken)) gone
    · exact inOthers
  · exact distinct

/-- `kfree` of a block in use returns it to its home. -/
theorem Sound.kfree : ∃ next, Mm.kfree state.heap block.ptr = .ok (next, block.home) ∧
      Sound ⟨next, state.live.eraseP fun other => other.ptr = block.ptr⟩ := by
  rcases sound.place member with
    ⟨owner, isOwner, isHome, object, _, _, notFree⟩ | ⟨area, isArea, isHome, isPtr, _, _⟩
  · rw [isHome]
    exact sound.kfree_slab member isOwner object notFree
  · rw [isHome]
    exact sound.kfree_area member isArea isPtr

end

end

/-! ## Allocating -/

/-- The addresses in use are different from an object that is taken. -/
theorem Sound.taken_fresh (sound : state.Sound) (next : Heap κ)
    {areas : List VmArea} (sameMeta : next.metaCache = state.heap.metaCache)
    (taken : SlabTaken state.heap.memory (poolOf state.heap.cacheCacheHead)
      state.heap.metaCache.pool areas next.memory
      (poolOf next.cacheCacheHead) object home objSize)
    (isObject : object < miKernelVmareaSpaceStart) :
    object ∉ state.tokens := by
  intro isToken
  rcases sound.token_cases isToken with ⟨size, slab, inUse⟩ | ⟨area, isArea, isStart⟩
  · exact (inUse.after_taken next sameMeta taken).2 rfl
  · have above := (sound.placed area isArea).above
    omega

theorem taken_inUse (heap next : Heap κ) {areas : List VmArea}
    (sameMeta : next.metaCache = heap.metaCache)
    (taken : SlabTaken heap.memory (poolOf heap.cacheCacheHead)
      heap.metaCache.pool areas next.memory (poolOf next.cacheCacheHead)
      object home objSize) (fits : size ≤ objSize) :
    next.InUse size object home := by
  refine ⟨⟨objSize, taken.home, fits⟩, ?_⟩
  rw [Heap.pool, sameMeta]
  exact taken.taken.taken

theorem le_kmallocSizeUp (size : Nat) : size ≤ kmallocSizeUp size := by
  unfold kmallocSizeUp
  split
  · exact le_refl size
  · omega

theorem Sound.kmalloc_small (sound : state.Sound) (small : kmallocSizeUp size ≤ slabAllocMaxSize) :
    Outcome
      (fun result => Sound (received state.live size
        ({ state.heap with
            memory := result.1
            cacheCacheHead := result.2.1 },
          result.2.2.map fun object => (object.1, Home.slab object.2))))
      (· = Panic.outOfMemory)
      (slabAlloc state.heap.memory (kmallocSizeUp size) state.heap.cacheCacheHead) := by
  refine (slabAlloc_outcome sound.caches (sound.cache_fits small) sound.memory).mono ?_
  rintro ⟨memory, caches, found⟩ ⟨object, slab, objSize, rfl, enough, areSound, sizes, taken⟩
  let next : Heap κ :=
    { state.heap with memory := memory, cacheCacheHead := caches }
  have newInUse : next.InUse size object slab :=
    taken_inUse state.heap next rfl taken ((le_kmallocSizeUp size).trans enough)
  have inUse : ∀ size ptr slab, state.heap.InUse size ptr slab → next.InUse size ptr slab :=
    fun _ _ _ isUsed => (isUsed.after_taken next rfl taken).1
  have fresh := sound.taken_fresh next rfl taken (newInUse.below taken.taken.sound)
  refine
    { memory := ⟨taken.taken.sound, taken.frames⟩, caches := areSound
      largest := ?_, placed := sound.placed, flags := sound.flags
      ascending := sound.ascending, blocks := ?_, records := ?_
      distinct := nodup_cons.mpr ⟨fresh, sound.distinct⟩ }
  · change ∃ objSize ∈ caches.map SlabCache.objSize, _
    rw [sizes]
    exact sound.largest
  · intro block member
    rcases mem_cons.mp member with rfl | old
    · exact newInUse
    · exact (sound.blocks block old).transfer (inUse _ _) (fun _ isArea _ => isArea)
  · intro area isArea
    obtain ⟨itsSlab, isUsed⟩ := sound.records area isArea
    exact ⟨itsSlab, inUse _ _ _ isUsed⟩

/-- `_vm_area_create` takes an object for the record. -/
theorem Sound.vmAreaCreate (sound : state.Sound) (area : VmArea) (areas : List VmArea) : Outcome
      (fun next => ∃ memory caches object slab objSize,
        sizeofVmArea ≤ objSize ∧ (∀ cache ∈ caches, cache.Sound) ∧
        caches.map SlabCache.objSize = state.heap.cacheCacheHead.map SlabCache.objSize ∧
        SlabTaken state.heap.memory (poolOf state.heap.cacheCacheHead)
          state.heap.metaCache.pool state.heap.kVmlist memory (poolOf caches)
          object slab objSize ∧
        next =
          { state.heap with
            memory := memory
            cacheCacheHead := caches
            kVmlist := areas
            record := update state.heap.record area object })
      (· = Panic.outOfMemory) (Mm.vmAreaCreate state.heap area areas) := by
  refine (slabAlloc_outcome sound.caches (sound.cache_fits (by decide)) sound.memory).bind ?_
  rintro ⟨memory, caches, found⟩ ⟨object, slab, objSize, rfl, enough, areSound, sizes, taken⟩
  exact ⟨memory, caches, object, slab, objSize, enough, areSound, sizes, taken, rfl⟩

theorem Sound.kmalloc_large (sound : state.Sound) (positive : 1 ≤ size)
    (small : size < miKernelVmareaSpaceSize) :
    Outcome
      (fun result => Sound (received state.live size
        (result.1, result.2.map fun ptr => (ptr, Home.area ptr))))
      (· = Panic.outOfMemory)
      (vmallocKernel state.heap (pageAlignUpIf size) vmmFlagsDefault) := by
  obtain ⟨enough, bounded⟩ := pageAlignUpIf_bounds small.le
  have aligned := pageAlignUpIf_aligned size
  generalize pageAlignUpIf size = bytes at enough bounded aligned
  have sameBytes : pageAlignUpIf bytes = bytes := by
    rw [pageAlignUpIf, if_neg]
    exact not_not.mpr (Nat.mod_eq_zero_of_dvd aligned)
  have inRegion : ¬mmGetVmareaStart vmmFlagsDefault ≤ bytes := by
    have isSize : miKernelVmareaSpaceSize = 2 ^ 40 := by decide
    have isStart : mmGetVmareaStart vmmFlagsDefault =
        0xfffffe0000000000 := by decide
    omega
  unfold vmallocKernel
  rw [if_neg (by omega)]
  simp only [sameBytes, if_neg inRegion]
  cases search : mmFindVmArea state.heap.kVmlist 0 bytes vmmFlagsDefault with
  | none => exact sound
  | some pair =>
    obtain ⟨area, areas⟩ := pair
    have found := mmFindVmArea_found sound.placed sound.ascending aligned (by omega) bounded search
    refine (sound.vmAreaCreate area areas).bind ?_
    rintro heap ⟨memory, caches, object, slab, objSize, enoughRoom, areSound, sizes, taken, rfl⟩
    apply Outcome.map
    refine (taken.frames.map_area found.placed sound.placed found.apart found.permutation).mono ?_
    rintro ⟨kmem, pages⟩ frames
    let next : Heap κ :=
      { state.heap with
        memory := memory
        cacheCacheHead := caches }
    have newInUse : next.InUse sizeofVmArea object slab :=
      taken_inUse state.heap next rfl taken enoughRoom
    have inUse : ∀ size ptr slab, state.heap.InUse size ptr slab → next.InUse size ptr slab :=
      fun _ _ _ isUsed => (isUsed.after_taken next rfl taken).1
    have below : object < miKernelVmareaSpaceStart := newInUse.below taken.taken.sound
    have fresh := sound.taken_fresh next rfl taken below
    have newArea : area ∉ state.heap.kVmlist := by
      intro old
      have apart := found.apart area old
      have nonempty := found.placed.nonempty
      unfold VmArea.Apart at apart
      omega
    have sameRecord : ∀ other ∈ state.heap.kVmlist,
        update state.heap.record area object other = state.heap.record other := by
      intro other member
      apply update_of_ne
      rintro rfl
      exact newArea member
    have members : ∀ other ∈ areas, other = area ∨ other ∈ state.heap.kVmlist :=
      fun other member =>
        mem_cons.mp (found.permutation.mem_iff.mp member)
    have startFresh : area.vmStart ∉ object :: state.tokens := by
      intro isToken
      have above := found.placed.above
      rcases mem_cons.mp isToken with isObject | isToken
      · omega
      · rcases sound.token_cases isToken with ⟨size, itsSlab, isUsed⟩ | ⟨other, isOther, isStart⟩
        · have low := isUsed.below sound.memory.lists
          omega
        · have apart := found.apart other isOther
          have nonempty := found.placed.nonempty
          have otherNonempty := (sound.placed other isOther).nonempty
          unfold VmArea.Apart at apart
          omega
    have tokens : (area.vmStart :: state.live.map ptr ++
        areas.map (update state.heap.record area object)).Perm
        (area.vmStart :: object :: state.tokens) := by
      have records : (areas.map (update state.heap.record area object)).Perm
          (object :: state.heap.kVmlist.map state.heap.record) := by
        refine (found.permutation.map _).trans ?_
        rw [map_cons, update_self, map_congr_left sameRecord]
      refine List.Perm.cons _ ?_
      refine (List.Perm.append_left _ records).trans ?_
      exact perm_middle
    refine
      { memory := ⟨taken.taken.sound, frames⟩, caches := areSound
        largest := ?_, placed := ?_, flags := ?_
        ascending := found.ascending, blocks := ?_, records := ?_
        distinct := ?_ }
    · change ∃ objSize ∈ caches.map SlabCache.objSize, _
      rw [sizes]
      exact sound.largest
    · intro other member
      rcases members other member with rfl | old
      · exact found.placed
      · exact sound.placed other old
    · intro other member
      rcases members other member with rfl | old
      · exact found.flags_eq
      · exact sound.flags other old
    · intro block member
      rcases mem_cons.mp member with rfl | old
      · refine ⟨rfl, area, ?_, rfl, ?_⟩
        · exact found.permutation.mem_iff.mpr mem_cons_self
        · exact enough.trans found.size_eq.ge
      · refine (sound.blocks block old).transfer (inUse _ _) ?_
        intro other isArea _
        exact found.permutation.mem_iff.mpr (mem_cons_of_mem _ isArea)
    · intro other member
      change ∃ slab, next.InUse sizeofVmArea (update state.heap.record area object other) slab
      rcases members other member with rfl | old
      · rw [update_self]
        exact ⟨slab, newInUse⟩
      · obtain ⟨itsSlab, isUsed⟩ := sound.records other old
        rw [sameRecord other old]
        exact ⟨itsSlab, inUse _ _ _ isUsed⟩
    · exact tokens.nodup_iff.mpr (nodup_cons.mpr
        ⟨startFresh, nodup_cons.mpr ⟨fresh, sound.distinct⟩⟩)

/-! ## Steps and runs -/

theorem Sound.kmalloc (sound : state.Sound) (positive : 1 ≤ size)
    (small : size < miKernelVmareaSpaceSize) :
    Outcome Sound (· = Panic.outOfMemory) (state.step (.kmalloc size)) := by
  apply Outcome.map
  rw [Mm.kmalloc, if_neg (by omega)]
  by_cases inSlabs : size ≤ slabAllocMaxSize ∧ kmallocSizeUp size ≤ slabAllocMaxSize
  · rw [if_pos inSlabs]
    apply Outcome.map
    refine (sound.kmalloc_small inSlabs.2).mono ?_
    rintro ⟨memory, caches, none | object⟩ isSound
    · exact isSound
    · exact isSound
  · rw [if_neg inSlabs]
    apply Outcome.map
    refine (sound.kmalloc_large positive small).mono ?_
    rintro ⟨heap, start⟩ isSound
    exact isSound

theorem Sound.store (sound : state.Sound) (member : block ∈ state.live) (contents : Nat → Nat) :
    Sound
      { state with
        heap :=
          { state.heap with
            memory :=
              { state.heap.memory with
                words := storeBlock block contents state.heap.memory.words } } } := by
  have agree : ∀ node, FreeObject state.heap.memory.words state.heap.pool node →
      storeBlock block contents state.heap.memory.words node = state.heap.memory.words node := by
    rintro node ⟨entry, inPool, isNode⟩
    have apart := sound.block_node member inPool isNode
    have wide : 8 ≤ entry.1 := (sound.memory.lists.shape inPool).wide
    have fits := sound.block_fits member
    refine if_pos ?_
    unfold RangesApart at *
    omega
  obtain ⟨lists, same⟩ := sound.memory.lists.congr agree
  have inUse : ∀ size ptr slab, state.heap.InUse size ptr slab →
      Heap.InUse
        { state.heap with
          memory :=
            { state.heap.memory with
              words := storeBlock block contents state.heap.memory.words } }
        size ptr slab := by
    rintro size ptr slab ⟨has, notFree⟩
    refine ⟨has, ?_⟩
    rintro ⟨entry, inPool, isNode⟩
    have sameNodes := same entry inPool
    exact notFree ⟨entry, inPool, sameNodes ▸ isNode⟩
  refine
    { memory := ⟨lists, sound.memory.frames⟩, caches := sound.caches
      largest := sound.largest, placed := sound.placed, flags := sound.flags
      ascending := sound.ascending, blocks := ?_, records := ?_
      distinct := sound.distinct }
  · intro other isLive
    exact (sound.blocks other isLive).transfer (inUse _ _) (fun _ isArea _ => isArea)
  · intro area isArea
    obtain ⟨slab, isUsed⟩ := sound.records area isArea
    exact ⟨slab, inUse _ _ _ isUsed⟩

theorem step_sound (sound : state.Sound) (op : HeapOp) (allowed : state.Allowed op) :
    Outcome Sound (· = Panic.outOfMemory) (state.step op) := by
  cases op with
  | kmalloc size => exact sound.kmalloc allowed.1 allowed.2
  | kfree ptr =>
    obtain ⟨block, member, rfl⟩ := allowed
    obtain ⟨next, result, isSound⟩ := sound.kfree member
    apply Outcome.map
    rw [result]
    exact isSound
  | store ptr contents =>
    rw [step]
    cases found : state.live.find? fun block => block.ptr = ptr with
    | none => exact sound
    | some block =>
      exact sound.store (List.mem_of_find?_eq_some found) contents

theorem Sound.safe (sound : state.Sound) : state.Safe := by
  have distinct : state.live.Pairwise fun left right =>
      left.ptr ≠ right.ptr := by
    have nodup := (nodup_append.mp sound.distinct).1
    exact pairwise_map.mp nodup
  have inPool : ∀ cache ∈ state.heap.metaCache :: state.heap.cacheCacheHead,
      ∀ slab ∈ cache.slabs, (cache.objSize, slab) ∈ state.heap.pool := by
    intro cache member slab inSlabs
    have inCache : (cache.objSize, slab) ∈ cache.pool := mem_map_of_mem inSlabs
    rcases mem_cons.mp member with rfl | inCaches
    · exact mem_append_right _ inCache
    · exact mem_append_left _ (mem_flatMap.mpr ⟨cache, inCaches, inCache⟩)
  refine
    { spans := ?_, apart := ?_, headers := ?_, nodes := ?_, records := ?_
      returns := ?_ }
  · intro block member
    exact sound.block_fits member
  · refine distinct.imp_of_mem ?_
    intro left right leftMember rightMember different
    exact sound.blocks_apart leftMember rightMember different
  · intro block member cache isCache slab inSlabs
    exact sound.block_header member (inPool cache isCache slab inSlabs)
  · intro block member cache isCache slab inSlabs node isNode
    exact sound.block_node member (inPool cache isCache slab inSlabs) isNode
  · intro block member area isArea
    obtain ⟨slab, ⟨objSize, ⟨entry, inCaches, _, rfl, object⟩, fits⟩, _⟩ :=
      sound.records area isArea
    have different : block.ptr ≠ state.heap.record area := by
      have crossed := (nodup_append.mp sound.distinct).2.2
      exact crossed _ (mem_map_of_mem member) _ (mem_map_of_mem isArea)
    have apart := sound.block_object member (mem_append_left _ inCaches) object different
    unfold RangesApart at *
    omega
  · intro block member
    obtain ⟨next, result, _⟩ := sound.kfree member
    exact ⟨next, result⟩

end KernelHeap

/-! ## Initialisation -/

section Init

variable {κ : Type} [FrameAllocator κ] {memory : KernelMemory κ} {metaCache : SlabCache}

/-- The sizes of a cache leave room for an object in every slab. -/
def SlabSize.Fits (slabSize : SlabSize) : Prop :=
  (1 ≤ slabSize.nrPages ∧ slabSize.nrPages ≤ 1024) ∧ 8 ≤ slabSize.objSize ∧
    sizeofSlab + slabSize.objSize ≤ slabSize.nrPages * pageSize

theorem slabSizeList_fits : ∀ slabSize ∈ slabSizeList, slabSize.Fits := by
  unfold SlabSize.Fits
  decide

theorem slabCacheInit_sound (address : Nat) {slabSize : SlabSize} (fits : slabSize.Fits) :
    (slabCacheInit address slabSize.name slabSize.objSize slabSize.nrPages).Sound :=
  ⟨fits.1, fits.2.1, fits.2.2, rfl⟩

theorem KernelMemory.Fresh.sound (fresh : memory.Fresh) : MemorySound memory [] [] := by
  have areas : ∀ index, KernelEntry index → memory.pages index = none := by
    intro index isKernel
    obtain ⟨lower, upper⟩ := isKernel
    have isIndex : pteIndex (0xffff000000000000 + index * pageSize) =
        index := by
      unfold pteIndex pageSize
      omega
    rw [← isIndex]
    apply fresh.vacantAreas
    · unfold miKernelVmareaSpaceStart pageSize
      omega
    · unfold miKernelVmareaSpaceEnd pageSize
      omega
  refine ⟨⟨?_, List.Pairwise.nil⟩, ?_⟩
  · intro entry member
    cases member
  · refine
      { valid := fresh.valid, range := ?_, slabs := ?_, direct := ?_
        entries := ?_, frames := ?_, injective := ?_ }
    · intro frame free
      have bound := fresh.direct frame free
      rw [directFrames_eq]
      unfold miDirectMappingRangeSize miDirectMappingRangeEnd
        miDirectMappingRangeStart pageSize at bound
      omega
    · intro shape member
      cases member
    · intro frame low present
      rw [directFrames_eq] at low
      rw [fresh.vacantDirect (directAddress frame) ?_ ?_] at present
      · cases present
      · exact Nat.le_add_right _ _
      · unfold directAddress miDirectMappingRangeStart miDirectMappingRangeEnd pageSize
        omega
    · intro index isKernel
      simp [areas index isKernel]
    · intro index pte isKernel isPte
      rw [areas index isKernel] at isPte
      cases isPte
    · intro left right leftPte rightPte leftKernel _ atLeft
      rw [areas left leftKernel] at atLeft
      cases atLeft

/-- The state of `slab_init` after some of the caches. -/
structure InitSound (memory : KernelMemory κ) (metaCache : SlabCache)
    (caches : List SlabCache) : Prop where
  memory : MemorySound memory (poolOf caches ++ metaCache.pool) []
  metaSound : metaCache.Sound
  metaSize : metaCache.objSize = sizeofSlabCache
  caches : ∀ cache ∈ caches, cache.Sound

private theorem poolOf_append_singleton (caches : List SlabCache)
    (cache : SlabCache) (rest : Pool) :
    (cache.pool ++ (poolOf caches ++ rest)).Perm (poolOf (caches ++ [cache]) ++ rest) := by
  rw [poolOf, poolOf, flatMap_append, flatMap_singleton, ← append_assoc]
  exact List.Perm.append_right rest perm_append_comm

theorem slabCacheCreateCache_outcome
    {caches : List SlabCache} (sound : InitSound memory metaCache caches)
    (name : String) (objSize nrPages : Nat) :
    Outcome
      (fun result => ∃ object, result.2.2 = some (slabCacheInit object name objSize nrPages) ∧
        InitSound result.1 result.2.1 caches)
      (· = Panic.outOfMemory)
      (slabCacheCreateCache memory metaCache name objSize nrPages) := by
  apply Outcome.map
  refine (slabCacheAlloc_outcome sound.metaSound sound.metaSize.ge
    (sound.memory.perm perm_append_comm)).mono ?_
  rintro ⟨next, nextMeta, found⟩ ⟨object, slab, rfl, isSound, sameSize, taken⟩
  refine ⟨object, rfl, ?_, isSound, sameSize.trans sound.metaSize, sound.caches⟩
  exact MemorySound.perm ⟨taken.taken.sound, taken.frames⟩ perm_append_comm

theorem slabInitCaches_outcome {caches : List SlabCache} {sizes : List SlabSize}
    (fits : ∀ slabSize ∈ sizes, slabSize.Fits)
    (sound : InitSound memory metaCache caches) :
    Outcome
      (fun result => InitSound result.1 result.2.1 result.2.2 ∧
        result.2.2.map objSize = caches.map objSize ++ sizes.map SlabSize.objSize)
      (· = Panic.outOfMemory)
      (slabInitCaches memory metaCache caches sizes) := by
  induction sizes generalizing memory metaCache caches with
  | nil => exact ⟨sound, (append_nil _).symm⟩
  | cons slabSize rest induction =>
    have headFits := fits slabSize mem_cons_self
    refine (slabCacheCreateCache_outcome sound slabSize.name
      slabSize.objSize slabSize.nrPages).bind ?_
    rintro ⟨next, nextMeta, found⟩ ⟨object, rfl, isInit⟩
    have grown := slabCacheGrowth_outcome (slabCacheInit_sound object headFits) isInit.memory
    refine grown.bind ?_
    rintro ⟨later, cache⟩ ⟨isSound, sameSize, _, isMemory, _⟩
    have following : InitSound later nextMeta (dlistAddPrev caches cache) := by
      refine ⟨?_, isInit.metaSound, isInit.metaSize, ?_⟩
      · exact isMemory.perm (poolOf_append_singleton caches cache _)
      · intro other member
        rcases mem_append.mp member with old | isNew
        · exact isInit.caches other old
        · rw [mem_singleton.mp isNew]
          exact isSound
    refine (induction (fun other member => fits other (mem_cons_of_mem _ member)) following).mono ?_
    rintro ⟨last, lastMeta, lastCaches⟩ ⟨isLast, isSizes⟩
    refine ⟨isLast, isSizes.trans ?_⟩
    rw [dlistAddPrev, map_append, append_assoc]
    exact congrArg (fun size => caches.map objSize ++ (size :: rest.map SlabSize.objSize)) sameSize

/-- After `slab_init` the heap is sound, with no block in use. -/
theorem heapInit_outcome (fresh : memory.Fresh) (metaAddress : Nat) :
    Outcome (fun heap => KernelHeap.Sound ⟨heap, []⟩)
      (· = Panic.outOfMemory) (heapInit memory metaAddress) := by
  have metaFits : SlabSize.Fits ⟨"slab_meta_cahce", sizeofSlabCache, slabMetaCacheNrPages⟩ := by
    unfold SlabSize.Fits
    decide
  apply Outcome.map
  have grown := slabCacheGrowth_outcome (slabCacheInit_sound metaAddress metaFits) fresh.sound
  refine grown.bind ?_
  rintro ⟨next, metaCache⟩ ⟨isSound, sameSize, _, isMemory, _⟩
  have start : InitSound next metaCache [] := by
    refine ⟨?_, isSound, sameSize, ?_⟩
    · exact isMemory.perm (by rw [append_nil]; exact .refl _)
    · intro cache member
      cases member
  refine (slabInitCaches_outcome slabSizeList_fits start).mono ?_
  rintro ⟨last, lastMeta, caches⟩ ⟨isLast, sizes⟩
  refine
    { memory := isLast.memory, caches := isLast.caches, largest := ?_
      placed := ?_, flags := ?_, ascending := List.Pairwise.nil
      blocks := ?_, records := ?_, distinct := nodup_nil }
  · change ∃ objSize ∈ caches.map SlabCache.objSize, _
    rw [sizes]
    exact ⟨8192, by decide, le_refl _⟩
  all_goals
    intro other member
    cases member

end Init

namespace KernelHeap

variable {κ : Type} [FrameAllocator κ]

/-- A machine of 128 frames, of which the upper half is free. -/
def heapFrames : Pmm.BootMemory where
  physLimit := 128 * pageSize
  pfnDatabaseStart := 0xffff800000100000
  bitmap := [0xffffffffffffffff#64, 0#64]
  past := fun _ => ⟨false, 0, 0⟩
  bitmap_inside := by
    rintro pfn ⟨word, found, _⟩
    have inside : pfn / 64 < 2 := (List.getElem?_eq_some_iff.mp found).1
    have quotient : 128 * pageSize / pageSize = 128 := by decide
    rw [quotient]
    omega
  past_used := fun _ _ => rfl

@[irreducible] def heapMemory : KernelMemory Pmm.Kmem :=
  { kmem := heapFrames.kmem.buddyInit
    pages := fun _ => none
    words := fun _ => 0 }

theorem heapMemory_fresh : heapMemory.Fresh := by
  obtain ⟨buddy, limit, _⟩ := Pmm.buddyInit_spec heapFrames
  unfold heapMemory
  refine ⟨⟨buddy, limit.trans_le (by decide)⟩, ?_, fun _ _ _ => rfl, fun _ _ _ => rfl⟩
  intro frame free
  obtain ⟨block, isFree, member⟩ := free
  have inside := buddy.inside block isFree frame member
  rw [limit] at inside
  have isLimit : heapFrames.physLimit / pageSize = 128 := by decide
  have isSize : miDirectMappingRangeSize = 2 ^ 39 := by decide
  unfold pageSize
  omega

/-- Two objects of different slabs and an area, stores into one of them, and
frees of the others. -/
def heapOps : List HeapOp :=
  [.kmalloc 5, .kmalloc 10000, .kmalloc 8192,
    .store 0xfffff70000042028 (fun _ => 1), .kfree 0xfffffe0000000000,
    .kfree 0xfffff70000058028, .kmalloc 6000]

end KernelHeap

end SeekOs.Mm
