import SeekOs.Mm.KernelFrames

/-!
# What the slab functions do

One specification for each function of the slab code over a sound memory:
creating a slab, growing a cache, taking an object from the caches and putting
one back.  `rest` stands for the slabs of the caches that are not looked at.
-/

namespace SeekOs.Mm

open SeekOs.Base SeekOs.Lib FrameAllocator Function List

variable {objSize : Nat}

theorem slabLinkEntries_spec {objStart : Nat} (positive : 0 < objSize)
    (rounds : Nat) (words : Nat → Nat) (index : Nat)
    (small : objStart + (index + rounds) * objSize < 2 ^ 64) :
    (∀ later, index ≤ later → later < index + rounds →
      slabLinkEntries objStart objSize words (objStart + index * objSize)
          (index + 1) rounds (objStart + later * objSize) =
        objStart + (later + 1) * objSize) ∧
      ∀ address, (∀ later, index ≤ later → later < index + rounds →
          address ≠ objStart + later * objSize) →
        slabLinkEntries objStart objSize words (objStart + index * objSize)
          (index + 1) rounds address = words address := by
  induction rounds generalizing words index with
  | zero =>
    refine ⟨?_, fun _ _ => rfl⟩
    intro later lower upper
    exact absurd upper (Nat.not_lt.mpr lower)
  | succ rounds induction =>
    have regroup : index + 1 + rounds = index + (rounds + 1) := by omega
    have step : objStart + (index + 1) * objSize ≤ objStart + (index + (rounds + 1)) * objSize := by
      apply Nat.add_le_add_left
      exact Nat.mul_le_mul_right _ (by omega)
    have entry : uptrAdd objStart ((index + 1) * objSize) = objStart + (index + 1) * objSize :=
      uptrAdd_eq (step.trans_lt small)
    obtain ⟨linked, others⟩ := induction
      (update words (objStart + index * objSize) (objStart + (index + 1) * objSize)) (index + 1)
      (by rw [regroup]; exact small)
    rw [slabLinkEntries, entry]
    refine ⟨?_, ?_⟩
    · intro later lower upper
      by_cases first : later = index
      · subst first
        rw [others _ ?_, update_self]
        intro other above _ same
        have strict : later * objSize < other * objSize :=
          Nat.mul_lt_mul_of_pos_right above positive
        omega
      · exact linked later (by omega) (by omega)
    · intro address outside
      rw [others address ?_, update_of_ne ?_]
      · exact outside index (le_refl _) (by omega)
      · intro later above below
        exact outside later (by omega) (by omega)

section Create

variable {κ : Type} [FrameAllocator κ] {memory : KernelMemory κ}
  {pool rest : Pool} {areas : List VmArea} {nrPages : Nat}

/-- The free lists and the frames behind the slabs. -/
structure MemorySound (memory : KernelMemory κ) (pool : Pool)
    (areas : List VmArea) : Prop where
  lists : PoolSound memory.words pool
  frames : FramesSound memory.kmem memory.pages (pool.map shapeOf) areas

theorem MemorySound.perm {other : Pool}
    (sound : MemorySound memory pool areas) (permutation : pool.Perm other) :
    MemorySound memory other areas :=
  ⟨sound.lists.perm permutation, sound.frames.perm (permutation.map _)⟩

theorem vmmAllocPages_outcome (sound : MemorySound memory pool areas)
    (positive : 1 ≤ nrPages) (small : nrPages ≤ 1024)
    (objSize : Nat) :
    Outcome
      (fun result => ∃ pfn, result.2 = directAddress pfn ∧ pfn + nrPages ≤ directFrames ∧
        result.1.words = memory.words ∧
        FramesSound result.1.kmem result.1.pages
          (FramesSound.blockShape objSize pfn nrPages :: pool.map shapeOf)
          areas ∧
        ∀ entry ∈ pool, (FramesSound.blockShape objSize pfn nrPages).Apart (shapeOf entry))
      (· = Panic.outOfMemory) (vmmAllocPages memory nrPages) := by
  unfold vmmAllocPages
  cases allocation : pmmAllocPages memory.kmem nrPages with
  | none => rfl
  | some pair =>
    obtain ⟨next, pfn⟩ := pair
    obtain ⟨bound, fresh⟩ := sound.frames.block_fresh positive small allocation
    obtain ⟨mapped, isMapped, frames⟩ := sound.frames.grow positive small allocation objSize
    have lowFrames := directFrames_eq ▸ bound
    have physical : pfn <<< pageShift % 2 ^ 64 = pfn * pageSize := by
      rw [Nat.shiftLeft_eq]
      change pfn * pageSize % _ = _
      apply Nat.mod_eq_of_lt
      unfold pageSize
      omega
    have virtual : uptrAdd miDirectMappingRangeStart (pfn * pageSize) = directAddress pfn := by
      apply uptrAdd_eq
      unfold miDirectMappingRangeStart pageSize
      omega
    simp only [physical, virtual, isMapped]
    refine ⟨pfn, rfl, bound, rfl, frames, ?_⟩
    intro entry member
    exact sound.frames.block_apart (fun frame lower upper => (fresh frame lower upper).1) positive
      (sound.lists.slabs entry member).shape (mem_map_of_mem member)

theorem slabObjCount_eq {bytes : Nat} (room : sizeofSlab ≤ bytes) (small : bytes < 2 ^ 32) :
    slabObjCount bytes objSize = (bytes - sizeofSlab) / objSize := by
  rw [slabObjCount, uptrSub_eq room (small.trans (by decide))]
  apply Nat.mod_eq_of_lt
  refine (Nat.div_le_self _ _).trans_lt ?_
  exact (Nat.sub_le _ _).trans_lt small

theorem freshSlab_sound {start bytes : Nat} (words : Nat → Nat)
    (shape : (⟨objSize, start, bytes⟩ : Shape).Sound) :
    let objCount := slabObjCount bytes objSize
    let linked := slabLinkEntries (start + sizeofSlab) objSize
      (memsetZero words start bytes) (start + sizeofSlab) 1 (objCount - 1)
    let slab : Slab :=
      { address := start
        sMem := start + sizeofSlab
        size := bytes
        freeObjects := objCount
        freeList := start + sizeofSlab }
    0 < objCount ∧ slab.Sound linked objSize ∧
      ∀ address, RangesApart address 8 start bytes → linked address = words address := by
  intro objCount linked slab
  have wide : 8 ≤ objSize := shape.wide
  have room : sizeofSlab + objSize ≤ bytes := shape.room
  have small : bytes < 2 ^ 32 := shape.small
  have high : start + bytes ≤ miDirectMappingRangeEnd + 1 := shape.high
  have isCount : objCount = (bytes - sizeofSlab) / objSize := slabObjCount_eq (by omega) small
  have positive : 0 < objCount := by
    rw [isCount]
    exact Nat.div_pos (by omega) (by omega)
  have extent : objCount * objSize ≤ bytes - sizeofSlab := by
    rw [isCount]
    exact Nat.div_mul_le_self _ _
  have below : ∀ later, later < objCount → later * objSize + objSize ≤ bytes - sizeofSlab := by
    intro later isBelow
    have bound : (later + 1) * objSize ≤ objCount * objSize := Nat.mul_le_mul_right _ isBelow
    rw [Nat.succ_mul] at bound
    omega
  obtain ⟨links, others⟩ := slabLinkEntries_spec (by omega) (objCount - 1)
    (memsetZero words start bytes) 0
    (show start + sizeofSlab + (0 + (objCount - 1)) * objSize < 2 ^ 64 by
      have last := below (0 + (objCount - 1)) (by omega)
      unfold miDirectMappingRangeEnd at high
      omega)
  rw [Nat.zero_mul, Nat.add_zero] at links others
  have nodes : slab.nodes linked = (List.range objCount).map
      fun index => start + sizeofSlab + index * objSize := by
    apply follow_strided
    intro index isBelow
    have isObject : index + 1 < objCount := isBelow
    exact links index (Nat.zero_le _) (by omega)
  refine ⟨positive, ⟨shape, rfl, ?_, ?_⟩, ?_⟩
  · rw [nodes]
    refine nodup_range.map ?_
    intro left right same
    have products : left * objSize = right * objSize := Nat.add_left_cancel same
    exact Nat.eq_of_mul_eq_mul_right (by omega) products
  · intro node isNode
    rw [nodes] at isNode
    obtain ⟨index, inRange, isIndex⟩ := mem_map.mp isNode
    refine ⟨index, ?_, isIndex.symm⟩
    change index < (bytes - sizeofSlab) / objSize
    rw [← isCount]
    exact mem_range.mp inRange
  · intro address apart
    unfold RangesApart at apart
    refine (others address ?_).trans (if_neg (by omega))
    intro later _ isBelow same
    have inside := below later (by omega)
    omega

/-- `slab_create` adds a slab of free objects to the pool, unless the frames
run out. -/
theorem slabCreate_outcome (sound : MemorySound memory pool areas)
    (positive : 1 ≤ nrPages) (small : nrPages ≤ 1024)
    (wide : 8 ≤ objSize) (room : sizeofSlab + objSize ≤ nrPages * pageSize) :
    Outcome
      (fun result => ∃ slab objCount, result.2 = some (slab, objCount) ∧
        0 < objCount ∧ slab.freeObjects = objCount ∧
        MemorySound result.1 ((objSize, slab) :: pool) areas ∧
        ∀ ptr, UsedObject memory.words pool ptr →
          ¬FreeObject result.1.words ((objSize, slab) :: pool) ptr)
      (· = Panic.outOfMemory) (slabCreate memory nrPages objSize) := by
  apply Outcome.map
  refine (vmmAllocPages_outcome sound positive small objSize).mono ?_
  rintro ⟨mapped, slabStart⟩ ⟨pfn, isStart, bound, sameWords, frames, apart⟩
  simp only at isStart sameWords frames
  rw [directFrames_eq] at bound
  have bytes : nrPages * pageSize % 2 ^ 32 = nrPages * pageSize := by
    apply Nat.mod_eq_of_lt
    unfold pageSize
    omega
  have shape : (FramesSound.blockShape objSize pfn nrPages).Sound := by
    refine ⟨⟨pfn, rfl⟩, ⟨nrPages, Nat.mul_comm _ _⟩, wide, room, ?_, ?_⟩
    · change nrPages * pageSize < 2 ^ 32
      omega
    · change directAddress pfn + nrPages * pageSize ≤ _
      unfold directAddress miDirectMappingRangeStart miDirectMappingRangeEnd pageSize
      omega
  have nonNull : slabStart ≠ 0 := by
    rw [isStart]
    unfold directAddress miDirectMappingRangeStart
    omega
  have objStart : uptrAdd slabStart sizeofSlab = slabStart + sizeofSlab := by
    apply uptrAdd_eq
    rw [isStart]
    unfold directAddress miDirectMappingRangeStart sizeofSlab pageSize
    omega
  obtain ⟨hasObjects, slabSound, agree⟩ := freshSlab_sound memory.words shape
  simp only [if_neg nonNull, bytes, objStart, sameWords]
  simp only [← isStart] at hasObjects slabSound agree
  have separate : ∀ old ∈ pool, Shape.Apart
      ⟨objSize, slabStart, nrPages * pageSize⟩ (shapeOf old) := by
    rw [isStart]
    exact apart
  obtain ⟨poolSound, used⟩ := sound.lists.grow slabSound separate agree
  refine ⟨_, _, rfl, hasObjects, rfl, ⟨poolSound, ?_⟩, used⟩
  rw [FramesSound.blockShape, ← isStart] at frames
  exact frames

end Create

/-- A cache whose slabs have room for an object, and whose counter is the
number of free objects of its slabs, as far as 32 bits can tell. -/
structure SlabCache.Sound (cache : SlabCache) : Prop where
  pages : 1 ≤ cache.nrPages ∧ cache.nrPages ≤ 1024
  wide : 8 ≤ cache.objSize
  room : sizeofSlab + cache.objSize ≤ cache.nrPages * pageSize
  counted : cache.freeObjects = (cache.slabs.map Slab.freeObjects).sum % 2 ^ 32

def SlabCache.pool (cache : SlabCache) : Pool :=
  cache.slabs.map fun slab => (cache.objSize, slab)

def poolOf (caches : List SlabCache) : Pool :=
  caches.flatMap SlabCache.pool

variable {before after : List Slab} {slab : Slab}

theorem SlabCache.pool_split (cache : SlabCache)
    (split : cache.slabs = before ++ slab :: after) (rest : Pool) :
    (cache.pool ++ rest).Perm ((cache.objSize, slab) ::
      (before ++ after).map (fun slab => (cache.objSize, slab)) ++ rest) := by
  refine List.Perm.append_right rest ?_
  rw [pool, split, map_append, map_append, map_cons]
  exact perm_middle

/-- Every slab is still there, with its outline. -/
def ShapesKept (before after : Pool) : Prop :=
  ∀ entry ∈ before, ∃ later ∈ after, shapeOf later = shapeOf entry

/-- The object belongs to a slab of the pool. -/
def HasObject (pool : Pool) (slab objSize object : Nat) : Prop :=
  ∃ entry ∈ pool, entry.2.address = slab ∧ entry.1 = objSize ∧ (shapeOf entry).Object object

theorem shapesKept_of_eq {before after : Pool} (same : after.map shapeOf = before.map shapeOf) :
    ShapesKept before after := by
  intro entry member
  have inShapes : shapeOf entry ∈ after.map shapeOf := same ▸ mem_map_of_mem member
  exact mem_map.mp inShapes

theorem ShapesKept.hasObject {before after : Pool} {slab object : Nat}
    (kept : ShapesKept before after)
    (has : HasObject before slab objSize object) :
    HasObject after slab objSize object := by
  obtain ⟨entry, member, rfl, rfl, isObject⟩ := has
  obtain ⟨later, inAfter, same⟩ := kept entry member
  refine ⟨later, inAfter, ?_, ?_, same ▸ isObject⟩
  · exact congrArg Shape.address same
  · exact congrArg Shape.objSize same

section Cache

variable {κ : Type} [FrameAllocator κ] {memory : KernelMemory κ}
  {rest : Pool} {areas : List VmArea} {cache : SlabCache} {size : Nat}

/-- `slab_cache_growth` gives the cache a slab with free objects, unless the
frames run out. -/
theorem slabCacheGrowth_outcome (isCache : cache.Sound)
    (sound : MemorySound memory (cache.pool ++ rest) areas) :
    Outcome
      (fun result => result.2.Sound ∧ result.2.objSize = cache.objSize ∧
        (∃ slab, 0 < slab.freeObjects ∧ result.2.slabs = slab :: cache.slabs) ∧
        MemorySound result.1 (result.2.pool ++ rest) areas ∧
        ∀ ptr, UsedObject memory.words (cache.pool ++ rest) ptr →
          ¬FreeObject result.1.words (result.2.pool ++ rest) ptr)
      (· = Panic.outOfMemory) (slabCacheGrowth memory cache) := by
  apply Outcome.map
  refine (slabCreate_outcome sound isCache.pages.1 isCache.pages.2 isCache.wide
    isCache.room).mono ?_
  rintro ⟨next, created⟩ ⟨slab, objCount, rfl, positive, isFree, grown, used⟩
  subst isFree
  refine ⟨⟨isCache.pages, isCache.wide, isCache.room, ?_⟩, rfl, ⟨slab, positive, rfl⟩, grown, used⟩
  have counted := isCache.counted
  simp only [dlistAddNext, map_cons, sum_cons]
  omega

theorem slabs_take (isCache : cache.Sound) (split : cache.slabs = before ++ slab :: after)
    (available : 0 < slab.freeObjects)
    (sound : MemorySound memory (cache.pool ++ rest) areas) :
    let words := update memory.words slab.freeList 0
    let taken : SlabCache :=
      { cache with
        slabs := before ++ slab.take memory.words :: after
        freeObjects := (cache.freeObjects + (2 ^ 32 - 1)) % 2 ^ 32 }
    taken.Sound ∧ taken.pool.map shapeOf = cache.pool.map shapeOf ∧
      HasObject taken.pool slab.address cache.objSize slab.freeList ∧
      ObjectTaken memory.words (cache.pool ++ rest) words (taken.pool ++ rest) slab.freeList := by
  intro words taken
  have counted := isCache.counted
  have old := cache.pool_split split rest
  have new := taken.pool_split rfl rest
  have isTaken := (sound.lists.perm old).take available
  have isNode : slab.freeList ∈ slab.nodes memory.words := by
    rw [Slab.nodes_eq_cons memory.words available]
    exact mem_cons_self
  have object := ((sound.lists.perm old).slabs (cache.objSize, slab) mem_cons_self).objects _ isNode
  refine ⟨⟨isCache.pages, isCache.wide, isCache.room, ?_⟩, ?_, ?_, isTaken.perm old.symm new.symm⟩
  · rw [split] at counted
    change (cache.freeObjects + (2 ^ 32 - 1)) % 2 ^ 32 =
      ((before ++ slab.take memory.words :: after).map Slab.freeObjects).sum % 2 ^ 32
    simp only [map_append, map_cons, sum_append, sum_cons, Slab.take] at counted ⊢
    omega
  · change ((before ++ slab.take memory.words :: after).map
      fun slab => (cache.objSize, slab)).map shapeOf = _
    rw [SlabCache.pool, split]
    simp only [map_append, map_cons]
    rfl
  · refine ⟨(cache.objSize, slab.take memory.words), ?_, rfl, rfl, object⟩
    apply mem_map_of_mem
    exact mem_append_right _ mem_cons_self

/-- What `slab_cache_alloc` and `slab_alloc` do when they return an object. -/
structure SlabTaken (memory : KernelMemory κ) (pool rest : Pool)
    (areas : List VmArea) (after : KernelMemory κ) (next : Pool)
    (object slab objSize : Nat) : Prop where
  taken : ObjectTaken memory.words (pool ++ rest) after.words (next ++ rest) object
  frames : FramesSound after.kmem after.pages ((next ++ rest).map shapeOf) areas
  kept : ShapesKept pool next
  home : HasObject next slab objSize object

theorem slabCacheAlloc_outcome (isCache : cache.Sound) (fits : size ≤ cache.objSize)
    (sound : MemorySound memory (cache.pool ++ rest) areas) :
    Outcome
      (fun result => ∃ object slab, result.2.2 = some (object, slab) ∧
        result.2.1.Sound ∧ result.2.1.objSize = cache.objSize ∧
        SlabTaken memory cache.pool rest areas result.1 result.2.1.pool object slab cache.objSize)
      (· = Panic.outOfMemory) (slabCacheAlloc memory cache size) := by
  rw [slabCacheAlloc, if_neg (Nat.not_lt.mpr fits)]
  -- after the growth, if there was one, some slab has a free object
  have grown : Outcome
      (fun result : KernelMemory κ × SlabCache => result.2.Sound ∧
        result.2.objSize = cache.objSize ∧
        (∃ slab ∈ result.2.slabs, 0 < slab.freeObjects) ∧
        ShapesKept cache.pool result.2.pool ∧
        MemorySound result.1 (result.2.pool ++ rest) areas ∧
        ∀ ptr, UsedObject memory.words (cache.pool ++ rest) ptr →
          UsedObject result.1.words (result.2.pool ++ rest) ptr)
      (· = Panic.outOfMemory)
      (if cache.freeObjects = 0 then
        slabCacheGrowth memory cache
      else
        .ok (memory, cache)) := by
    by_cases empty : cache.freeObjects = 0
    · rw [if_pos empty]
      refine (slabCacheGrowth_outcome isCache sound).mono ?_
      rintro ⟨next, larger⟩ ⟨isLarger, sameSize, ⟨slab, free, slabs⟩, after, used⟩
      simp only at sameSize slabs
      have contained : ∀ entry ∈ cache.pool, entry ∈ larger.pool := by
        intro entry member
        obtain ⟨old, inSlabs, rfl⟩ := mem_map.mp member
        refine mem_map.mpr ⟨old, ?_, ?_⟩
        · rw [slabs]
          exact mem_cons_of_mem slab inSlabs
        · simp only [sameSize]
      refine ⟨isLarger, sameSize, ⟨slab, ?_, free⟩, ?_, after, ?_⟩
      · rw [slabs]
        exact mem_cons_self
      · intro entry member
        exact ⟨entry, contained entry member, rfl⟩
      · intro ptr inUse
        refine ⟨?_, used ptr inUse⟩
        obtain ⟨⟨entry, member, object⟩, _⟩ := inUse
        refine ⟨entry, ?_, object⟩
        rcases mem_append.mp member with inCache | inRest
        · exact mem_append_left _ (contained entry inCache)
        · exact mem_append_right _ inRest
    · rw [if_neg empty]
      refine ⟨isCache, rfl, ?_, fun entry member => ⟨entry, member, rfl⟩, sound, fun _ used => used⟩
      have some : (cache.slabs.map Slab.freeObjects).sum ≠ 0 := by
        intro none
        rw [isCache.counted, none] at empty
        exact empty rfl
      by_contra noFree
      apply some
      apply sum_eq_zero
      intro count member
      obtain ⟨slab, inSlabs, rfl⟩ := mem_map.mp member
      by_contra free
      exact noFree ⟨slab, inSlabs, Nat.pos_of_ne_zero free⟩
  refine grown.bind ?_
  rintro ⟨next, larger⟩ ⟨isLarger, sameSize, ⟨free, isSlab, available⟩, kept, after, used⟩
  apply Outcome.map
  have nonNull : ∀ slab ∈ larger.slabs, 0 < slab.freeObjects → slab.freeList ≠ 0 := by
    intro slab member hasFree
    have inPool : (larger.objSize, slab) ∈ larger.pool ++ rest :=
      mem_append_left _ (mem_map_of_mem member)
    have isSound := after.lists.slabs _ inPool
    have isNode : slab.freeList ∈ slab.nodes next.words := by
      rw [Slab.nodes_eq_cons next.words hasFree]
      exact mem_cons_self
    have inside := (isSound.objects _ isNode).inside isSound.shape
    have low := isSound.shape.low
    unfold miDirectMappingRangeStart at low
    omega
  rcases slabsAlloc_cases nonNull with
    ⟨before, slab, later, split, hasFree, result⟩ | ⟨empty, _⟩
  · rw [result]
    obtain ⟨isSound, shapes, home, taken⟩ := slabs_take isLarger split hasFree after
    obtain ⟨owner, inTaken, isSlab, isSize, object⟩ := home
    refine ⟨slab.freeList, slab.address, rfl, isSound, sameSize, ?_⟩
    refine ⟨⟨taken.sound, taken.taken, ?_⟩, ?_, ?_,
      ⟨owner, inTaken, isSlab, isSize.trans sameSize, object⟩⟩
    · intro ptr inUse
      exact taken.others ptr (used ptr inUse)
    · have frames := after.frames
      rw [map_append] at frames ⊢
      rw [shapes]
      exact frames
    · intro entry member
      obtain ⟨grownEntry, inLarger, same⟩ := kept entry member
      obtain ⟨last, inLast, sameLast⟩ := shapesKept_of_eq shapes grownEntry inLarger
      exact ⟨last, inLast, sameLast.trans same⟩
  · exact absurd (empty free isSlab) available.ne'

/-- `slab_alloc` takes an object from the first cache whose objects are large
enough. -/
theorem slabAlloc_outcome {caches : List SlabCache} (areCaches : ∀ cache ∈ caches, cache.Sound)
    (fits : ∃ cache ∈ caches, size ≤ cache.objSize)
    (sound : MemorySound memory (poolOf caches ++ rest) areas) :
    Outcome
      (fun result => ∃ object slab objSize, result.2.2 = some (object, slab) ∧ size ≤ objSize ∧
        (∀ cache ∈ result.2.1, cache.Sound) ∧
        result.2.1.map SlabCache.objSize = caches.map SlabCache.objSize ∧
        SlabTaken memory (poolOf caches) rest areas result.1
          (poolOf result.2.1) object slab objSize)
      (· = Panic.outOfMemory) (slabAlloc memory size caches) := by
  induction caches generalizing rest with
  | nil =>
    obtain ⟨cache, member, _⟩ := fits
    cases member
  | cons head tail induction =>
    have isHead := areCaches head mem_cons_self
    rw [slabAlloc]
    by_cases large : size ≤ head.objSize
    · rw [if_pos large]
      apply Outcome.map
      have split : poolOf (head :: tail) ++ rest =
          head.pool ++ (poolOf tail ++ rest) := append_assoc _ _ _
      rw [split] at sound
      refine (slabCacheAlloc_outcome isHead large sound).mono ?_
      rintro ⟨next, cache, found⟩ ⟨object, slab, rfl, isCache, sameSize, taken⟩
      refine ⟨object, slab, head.objSize, rfl, large, ?_, ?_, ?_⟩
      · intro other member
        rcases mem_cons.mp member with rfl | inTail
        · exact isCache
        · exact areCaches other (mem_cons_of_mem _ inTail)
      · exact congrArg (· :: tail.map SlabCache.objSize) sameSize
      · have splitNext : poolOf (cache :: tail) ++ rest =
            cache.pool ++ (poolOf tail ++ rest) := append_assoc _ _ _
        refine ⟨?_, ?_, ?_, ?_⟩
        · rw [split, splitNext]
          exact taken.taken
        · rw [splitNext]
          exact taken.frames
        · intro entry member
          rcases mem_append.mp member with inHead | inTail
          · obtain ⟨later, inCache, same⟩ := taken.kept entry inHead
            exact ⟨later, mem_append_left _ inCache, same⟩
          · exact ⟨entry, mem_append_right _ inTail, rfl⟩
        · obtain ⟨entry, inCache, facts⟩ := taken.home
          exact ⟨entry, mem_append_left _ inCache, facts⟩
    · rw [if_neg large]
      apply Outcome.map
      have rotate : ∀ pool : Pool, (head.pool ++ pool ++ rest).Perm
          (pool ++ (head.pool ++ rest)) := by
        intro pool
        rw [← append_assoc]
        exact List.Perm.append_right rest perm_append_comm
      have smaller : ∃ cache ∈ tail, size ≤ cache.objSize := by
        obtain ⟨cache, member, fitsCache⟩ := fits
        rcases mem_cons.mp member with rfl | inTail
        · exact absurd fitsCache large
        · exact ⟨cache, inTail, fitsCache⟩
      refine (induction (fun cache member => areCaches cache (mem_cons_of_mem _ member))
        smaller (sound.perm (rotate _))).mono ?_
      rintro ⟨next, caches, found⟩ ⟨object, slab, objSize, rfl, enough, areSound, sizes, taken⟩
      refine ⟨object, slab, objSize, rfl, enough, ?_, ?_, ?_⟩
      · intro other member
        rcases mem_cons.mp member with rfl | inTail
        · exact isHead
        · exact areSound other inTail
      · exact congrArg (head.objSize :: ·) sizes
      · refine ⟨?_, ?_, ?_, ?_⟩
        · exact taken.taken.perm (rotate _).symm (rotate _).symm
        · exact taken.frames.perm ((rotate _).symm.map _)
        · intro entry member
          rcases mem_append.mp member with inHead | inTail
          · exact ⟨entry, mem_append_left _ inHead, rfl⟩
          · obtain ⟨later, inCaches, same⟩ := taken.kept entry inTail
            exact ⟨later, mem_append_right _ inCaches, same⟩
        · obtain ⟨entry, inCaches, facts⟩ := taken.home
          exact ⟨entry, mem_append_right _ inCaches, facts⟩

end Cache

variable {owner : Nat × Slab}

section Free

variable {words : Nat → Nat} {pool rest : Pool} {caches : List SlabCache} {ptr : Nat}

/-- The test of `slab_cache_free` accepts the memory after the header, and as
many bytes after the slab as the header has. -/
theorem Slab.Sound.inRange_iff (sound : slab.Sound words objSize) :
    slab.inRange ptr = true ↔ slab.address + sizeofSlab ≤ ptr ∧
      ptr < slab.address + sizeofSlab + slab.size := by
  have high : slab.address + slab.size ≤ miDirectMappingRangeEnd + 1 := sound.shape.high
  have noWrap : uptrAdd slab.sMem slab.size = slab.address + sizeofSlab + slab.size := by
    rw [sound.memory]
    apply uptrAdd_eq
    unfold miDirectMappingRangeEnd at high
    unfold sizeofSlab
    omega
  rw [Slab.inRange, noWrap, sound.memory, Bool.and_eq_true, decide_eq_true_iff, decide_eq_true_iff]

/-- The bytes after a slab belong to no object, so only the slab of an object
has it in its range. -/
theorem PoolSound.owner_unique (sound : PoolSound words pool)
    {other : Nat × Slab} (isOwner : owner ∈ pool) (member : other ∈ pool)
    (object : (shapeOf owner).Object ptr)
    (inRange : other.2.inRange ptr = true) :
    other = owner := by
  by_contra different
  have ownerSound := sound.slabs owner isOwner
  have otherSound := sound.slabs other member
  have inside := object.inside ownerSound.shape
  have range := otherSound.inRange_iff.mp inRange
  have wide := ownerSound.shape.wide
  have apart := sound.apart_of_ne member isOwner different
  unfold Shape.Apart RangesApart shapeOf at apart
  unfold shapeOf at inside wide
  simp only at apart inside wide
  omega

theorem PoolSound.owner_inRange (sound : PoolSound words pool)
    (isOwner : owner ∈ pool) (object : (shapeOf owner).Object ptr) :
    owner.2.inRange ptr = true := by
  have ownerSound := sound.slabs owner isOwner
  have inside := object.inside ownerSound.shape
  have wide := ownerSound.shape.wide
  refine ownerSound.inRange_iff.mpr ?_
  unfold shapeOf at inside wide
  simp only at inside wide
  omega

theorem slabs_put {cache : SlabCache} (isCache : cache.Sound)
    (split : cache.slabs = before ++ slab :: after)
    (sound : PoolSound words (cache.pool ++ rest))
    (object : (shapeOf (cache.objSize, slab)).Object ptr)
    (used : ¬FreeObject words (cache.pool ++ rest) ptr) :
    let returned : SlabCache :=
      { cache with
        slabs := before ++ slab.put ptr :: after
        freeObjects := (cache.freeObjects + 1) % 2 ^ 32 }
    returned.Sound ∧ returned.pool.map shapeOf = cache.pool.map shapeOf ∧
      ObjectPut words (cache.pool ++ rest) (update words ptr slab.freeList) (returned.pool ++ rest)
        ptr := by
  intro returned
  have counted := isCache.counted
  have old := cache.pool_split split rest
  have new := returned.pool_split rfl rest
  have isPut := (sound.perm old).put object (fun isFree => used ((freeObject_perm old).mpr isFree))
  refine ⟨⟨isCache.pages, isCache.wide, isCache.room, ?_⟩, ?_, isPut.perm old.symm new.symm⟩
  · rw [split] at counted
    change (cache.freeObjects + 1) % 2 ^ 32 =
      ((before ++ slab.put ptr :: after).map Slab.freeObjects).sum % 2 ^ 32
    simp only [map_append, map_cons, sum_append, sum_cons, Slab.put] at counted ⊢
    omega
  · change ((before ++ slab.put ptr :: after).map fun slab => (cache.objSize, slab)).map shapeOf = _
    rw [SlabCache.pool, split]
    simp only [map_append, map_cons]
    rfl

/-- `slab_free` puts an object in use back into its own slab. -/
theorem slabFree_used (areCaches : ∀ cache ∈ caches, cache.Sound)
    (sound : PoolSound words (poolOf caches ++ rest))
    (isOwner : owner ∈ poolOf caches) (object : (shapeOf owner).Object ptr)
    (used : ¬FreeObject words (poolOf caches ++ rest) ptr) :
    ∃ after next, slabFree words ptr caches = (after, next, some owner.2.address) ∧
      (∀ cache ∈ next, cache.Sound) ∧
      next.map SlabCache.objSize = caches.map SlabCache.objSize ∧
      (poolOf next).map shapeOf = (poolOf caches).map shapeOf ∧
      ObjectPut words (poolOf caches ++ rest) after (poolOf next ++ rest)
        ptr := by
  induction caches generalizing rest with
  | nil => cases isOwner
  | cons head tail induction =>
    have isHead := areCaches head mem_cons_self
    have split : poolOf (head :: tail) ++ rest =
        head.pool ++ (poolOf tail ++ rest) := append_assoc _ _ _
    rw [slabFree, slabCacheFree]
    rcases slabsFree_cases words ptr head.slabs with
      ⟨before, slab, after, slabs, inRange, result⟩ | ⟨outside, result⟩
    · have inHead : (head.objSize, slab) ∈ head.pool := by
        apply mem_map_of_mem
        rw [slabs]
        exact mem_append_right _ mem_cons_self
      have isSlab : (head.objSize, slab) = owner :=
        sound.owner_unique (mem_append_left _ isOwner)
          (mem_append_left _ (mem_append_left _ inHead)) object
          inRange
      subst isSlab
      rw [split] at sound used
      obtain ⟨isSound, shapes, isPut⟩ := slabs_put isHead slabs sound object used
      rw [result]
      refine ⟨_, _, rfl, ?_, rfl, ?_, ?_⟩
      · intro cache member
        rcases mem_cons.mp member with rfl | inTail
        · exact isSound
        · exact areCaches cache (mem_cons_of_mem _ inTail)
      · change List.map shapeOf (_ ++ poolOf tail) = List.map shapeOf (head.pool ++ poolOf tail)
        rw [map_append, map_append, ← shapes]
      · rw [split]
        have splitNext : ∀ cache : SlabCache,
            poolOf (cache :: tail) ++ rest = cache.pool ++ (poolOf tail ++ rest) :=
          fun _ => append_assoc _ _ _
        rw [splitNext]
        exact isPut
    · have rotate : ∀ pool : Pool, (head.pool ++ pool ++ rest).Perm
          (pool ++ (head.pool ++ rest)) := by
        intro pool
        rw [← append_assoc]
        exact List.Perm.append_right rest perm_append_comm
      have inTail : owner ∈ poolOf tail := by
        rcases mem_append.mp isOwner with inHead | later
        · have inRange := sound.owner_inRange (mem_append_left _ isOwner) object
          obtain ⟨slab, inSlabs, rfl⟩ := mem_map.mp inHead
          rw [outside slab inSlabs] at inRange
          cases inRange
        · exact later
      obtain ⟨after, next, freed, areSound, sizes, shapes, isPut⟩ :=
        induction
          (fun cache member =>
            areCaches cache (mem_cons_of_mem _ member))
          (sound.perm (rotate _)) inTail
          (fun isFree => used ((freeObject_perm (rotate _)).mpr isFree))
      rw [result, freed]
      refine ⟨after, head :: next, rfl, ?_, ?_, ?_, ?_⟩
      · intro cache member
        rcases mem_cons.mp member with rfl | inNext
        · exact isHead
        · exact areSound cache inNext
      · exact congrArg (head.objSize :: ·) sizes
      · change List.map shapeOf (head.pool ++ poolOf next) =
          List.map shapeOf (head.pool ++ poolOf tail)
        rw [map_append, map_append, shapes]
      · exact isPut.perm (rotate _).symm (rotate _).symm

/-- `slab_free` does nothing with an address that no slab has in its range. -/
theorem slabFree_outside (outside : ∀ entry ∈ poolOf caches, entry.2.inRange ptr = false) :
    slabFree words ptr caches = (words, caches, none) := by
  induction caches with
  | nil => rfl
  | cons head tail induction =>
    have notFound : slabsFree words ptr head.slabs = none := by
      rcases slabsFree_cases words ptr head.slabs with
        ⟨before, slab, after, slabs, inRange, _⟩ | ⟨_, result⟩
      · have inHead : (head.objSize, slab) ∈ head.pool := by
          apply mem_map_of_mem
          rw [slabs]
          exact mem_append_right _ mem_cons_self
        have notIn := outside _ (mem_append_left _ inHead)
        rw [inRange] at notIn
        cases notIn
      · exact result
    rw [slabFree, slabCacheFree, notFound,
      induction fun entry member =>
        outside entry (mem_append_right _ member)]
    rfl

end Free

end SeekOs.Mm
