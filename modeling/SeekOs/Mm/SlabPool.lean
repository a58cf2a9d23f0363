import SeekOs.Mm.Kmalloc

/-!
# Slabs as a pool of objects

The slabs of all caches are one pool here, in any order.  The outline of a slab
never changes; its free list does.  Each operation of the slab code takes a
free object of one slab, puts an object of one slab back, or adds a slab, and
is described by what it does to the free objects and to the objects in use.
-/

namespace SeekOs.Mm

open SeekOs.Base SeekOs.Lib Function List Slab Nat

/-- The outline of a slab. -/
structure Shape where
  objSize : Nat
  address : Nat
  size : Nat

namespace Shape

variable {shape other : Shape} {ptr : Nat} {left right : Nat}

/-- The address is that of an object of the slab. -/
def Object (shape : Shape) (ptr : Nat) : Prop :=
  ∃ index, index < (shape.size - sizeofSlab) / shape.objSize ∧
    ptr = shape.address + sizeofSlab + index * shape.objSize

def Apart (left right : Shape) : Prop :=
  RangesApart left.address left.size right.address right.size

theorem Apart.symm (apart : shape.Apart other) : other.Apart shape := Or.symm apart

/-- Whole pages of the direct mapping with room for the header and at least
one object. -/
structure Sound (shape : Shape) : Prop where
  start : ∃ pfn, shape.address = miDirectMappingRangeStart + pfn * pageSize
  whole : pageSize ∣ shape.size
  wide : 8 ≤ shape.objSize
  room : sizeofSlab + shape.objSize ≤ shape.size
  small : shape.size < 2 ^ 32
  high : shape.address + shape.size ≤ miDirectMappingRangeEnd + 1

theorem Sound.low (sound : shape.Sound) : miDirectMappingRangeStart ≤ shape.address := by
  obtain ⟨pfn, start⟩ := sound.start
  rw [start]
  exact le_add_right _ _

/-- Objects lie behind the header and before the end of the slab. -/
theorem Object.inside (object : shape.Object ptr) (sound : shape.Sound) :
    shape.address + sizeofSlab ≤ ptr ∧ ptr + shape.objSize ≤ shape.address + shape.size := by
  obtain ⟨index, below, isPtr⟩ := object
  have next : (index + 1) * shape.objSize ≤ shape.size - sizeofSlab :=
    (mul_le_mul_right _ below).trans (div_mul_le_self _ _)
  rw [succ_mul] at next
  have room := sound.room
  omega

theorem Object.apart_same (leftObject : shape.Object left)
    (rightObject : shape.Object right) (different : left ≠ right) :
    RangesApart left shape.objSize right shape.objSize := by
  obtain ⟨leftIndex, _, isLeft⟩ := leftObject
  obtain ⟨rightIndex, _, isRight⟩ := rightObject
  have indices : leftIndex ≠ rightIndex := by
    rintro rfl
    exact different (isLeft.trans isRight.symm)
  unfold RangesApart
  rcases lt_or_gt_of_ne indices with before | after
  · have step : (leftIndex + 1) * shape.objSize ≤
        rightIndex * shape.objSize := mul_le_mul_right _ before
    rw [succ_mul] at step
    omega
  · have step : (rightIndex + 1) * shape.objSize ≤
        leftIndex * shape.objSize := mul_le_mul_right _ after
    rw [succ_mul] at step
    omega

theorem Object.apart_other (leftObject : shape.Object left) (rightObject : other.Object right)
    (sound : shape.Sound) (otherSound : other.Sound)
    (apart : shape.Apart other) :
    RangesApart left shape.objSize right other.objSize := by
  have leftInside := leftObject.inside sound
  have rightInside := rightObject.inside otherSound
  unfold Apart RangesApart at apart
  unfold RangesApart
  omega

end Shape

/-- The slabs of several caches with the object sizes. -/
abbrev Pool := List (Nat × Slab)

def shapeOf (entry : Nat × Slab) : Shape :=
  ⟨entry.1, entry.2.address, entry.2.size⟩

section

variable (words : Nat → Nat)

/-- A slab whose free list runs through different objects of its own. -/
structure Slab.Sound (objSize : Nat) (slab : Slab) : Prop where
  shape : (shapeOf (objSize, slab)).Sound
  memory : slab.sMem = slab.address + sizeofSlab
  nodup : (slab.nodes words).Nodup
  objects : ∀ node ∈ slab.nodes words, (shapeOf (objSize, slab)).Object node

structure PoolSound (pool : Pool) : Prop where
  slabs : ∀ entry ∈ pool, entry.2.Sound words entry.1
  apart : pool.Pairwise fun left right => (shapeOf left).Apart (shapeOf right)

/-- A node of one of the free lists. -/
def FreeObject (pool : Pool) (ptr : Nat) : Prop :=
  ∃ entry ∈ pool, ptr ∈ entry.2.nodes words

/-- An object that is not free. -/
def UsedObject (pool : Pool) (ptr : Nat) : Prop :=
  (∃ entry ∈ pool, (shapeOf entry).Object ptr) ∧ ¬FreeObject words pool ptr

end

variable {slab : Slab} {objSize : Nat}

section Pool

variable {words other : Nat → Nat} {pool next rest : Pool} {entry : Nat × Slab} {ptr : Nat}
  {after : Nat → Nat} {before later : Pool} {object : Nat}

theorem freeObject_perm (permutation : pool.Perm next) :
    FreeObject words pool ptr ↔ FreeObject words next ptr := by
  simp only [FreeObject, permutation.mem_iff]

theorem usedObject_perm (permutation : pool.Perm next) :
    UsedObject words pool ptr ↔ UsedObject words next ptr := by
  simp only [UsedObject, FreeObject, permutation.mem_iff]

theorem not_object_of_apart {left right : Shape} (sound : left.Sound)
    (otherSound : right.Sound) (apart : left.Apart right)
    (object : left.Object ptr) : ¬right.Object ptr := by
  intro again
  have separate := object.apart_other again sound otherSound apart
  have wide := sound.wide
  have otherWide := otherSound.wide
  unfold RangesApart at separate
  omega

section

variable (sound : PoolSound words pool)
include sound

theorem PoolSound.perm (permutation : pool.Perm next) : PoolSound words next := by
  constructor
  · intro entry member
    exact sound.slabs entry (permutation.mem_iff.mpr member)
  · refine (permutation.pairwise_iff ?_).mp sound.apart
    intro left right apart
    exact apart.symm

theorem PoolSound.shape (member : entry ∈ pool) : (shapeOf entry).Sound :=
  (sound.slabs entry member).shape

theorem PoolSound.apart_of_ne {left right : Nat × Slab} (leftMember : left ∈ pool)
    (rightMember : right ∈ pool) (different : left ≠ right) :
    (shapeOf left).Apart (shapeOf right) := by
  have symmetric : Std.Symm fun left right : Nat × Slab =>
      (shapeOf left).Apart (shapeOf right) := ⟨fun _ _ => Shape.Apart.symm⟩
  exact sound.apart.forall leftMember rightMember different

theorem PoolSound.congr (agree : ∀ node, FreeObject words pool node → other node = words node) :
    PoolSound other pool ∧ ∀ entry ∈ pool, entry.2.nodes other = entry.2.nodes words := by
  have same : ∀ entry ∈ pool, entry.2.nodes other = entry.2.nodes words := by
    intro entry member
    apply follow_congr
    intro node isNode
    exact agree node ⟨entry, member, isNode⟩
  refine ⟨⟨?_, sound.apart⟩, same⟩
  intro entry member
  have before := sound.slabs entry member
  refine ⟨before.shape, before.memory, ?_, ?_⟩
  · rw [same entry member]
    exact before.nodup
  · intro node isNode
    rw [same entry member] at isNode
    exact before.objects node isNode

end

/-- What taking an object means for the free lists: it is out of them, and it
was in nobody's use. -/
structure ObjectTaken (words : Nat → Nat) (pool : Pool) (after : Nat → Nat)
    (next : Pool) (object : Nat) : Prop where
  sound : PoolSound after next
  taken : ¬FreeObject after next object
  others : ∀ ptr, UsedObject words pool ptr → ptr ≠ object ∧ ¬FreeObject after next ptr

theorem ObjectTaken.perm (taken : ObjectTaken words pool after next object)
    (first : pool.Perm before) (second : next.Perm later) :
    ObjectTaken words before after later object := by
  refine ⟨taken.sound.perm second, ?_, ?_⟩
  · rw [← freeObject_perm second]
    exact taken.taken
  · intro ptr used
    rw [← freeObject_perm second]
    exact taken.others ptr ((usedObject_perm first).mpr used)

theorem Slab.nodes_eq_cons (words : Nat → Nat) (available : 0 < slab.freeObjects) :
    slab.nodes words =
      slab.freeList :: follow words (words slab.freeList) (slab.freeObjects - 1) := by
  obtain ⟨count, isCount⟩ := exists_eq_succ_of_ne_zero available.ne'
  rw [nodes, isCount]
  rfl

/-- Taking the first free object of a slab leaves its other nodes. -/
theorem Slab.nodes_take (value : Nat) (sound : slab.Sound words objSize)
    (available : 0 < slab.freeObjects) :
    (slab.take words).nodes (update words slab.freeList value) =
      follow words (words slab.freeList) (slab.freeObjects - 1) := by
  have nodup := sound.nodup
  rw [nodes_eq_cons words available] at nodup
  exact follow_update (nodup_cons.mp nodup).1

theorem Slab.Sound.count_lt (sound : slab.Sound words objSize)
    (object : (shapeOf (objSize, slab)).Object ptr)
    (used : ptr ∉ slab.nodes words) : slab.freeObjects + 1 < 2 ^ 32 := by
  have wide : 8 ≤ objSize := sound.shape.wide
  have small : slab.size < 2 ^ 32 := sound.shape.small
  let objects := (List.range ((slab.size - sizeofSlab) / objSize)).map
    fun index => slab.address + sizeofSlab + index * objSize
  have subset : ptr :: slab.nodes words ⊆ objects := by
    intro node member
    have isObject : (shapeOf (objSize, slab)).Object node := by
      rcases mem_cons.mp member with rfl | isNode
      · exact object
      · exact sound.objects node isNode
    obtain ⟨index, below, isNode⟩ := isObject
    exact mem_map.mpr ⟨index, mem_range.mpr below, isNode.symm⟩
  have length := (subperm_of_subset (nodup_cons.mpr ⟨used, sound.nodup⟩) subset).length_le
  simp only [objects, length_cons, nodes, length_follow, length_map, length_range] at length
  have quotient : (slab.size - sizeofSlab) / objSize ≤ slab.size / 8 :=
    Nat.div_le_div (Nat.sub_le _ _) wide (by decide)
  omega

/-- What putting an object back means for the pool. -/
structure ObjectPut (words : Nat → Nat) (pool : Pool) (after : Nat → Nat)
    (next : Pool) (object : Nat) : Prop where
  sound : PoolSound after next
  others : ∀ ptr, UsedObject words pool ptr → ptr ≠ object → ¬FreeObject after next ptr

theorem ObjectPut.perm (isPut : ObjectPut words pool after next object)
    (first : pool.Perm before) (second : next.Perm later) :
    ObjectPut words before after later object := by
  refine ⟨isPut.sound.perm second, ?_⟩
  intro ptr used different
  rw [← freeObject_perm second]
  exact isPut.others ptr ((usedObject_perm first).mpr used) different

section

variable (sound : PoolSound words (entry :: rest))
include sound

theorem PoolSound.head : entry.2.Sound words entry.1 ∧ PoolSound words rest ∧
      ∀ other ∈ rest, (shapeOf entry).Apart (shapeOf other) := by
  obtain ⟨apart, pairwise⟩ := pairwise_cons.mp sound.apart
  refine ⟨sound.slabs entry mem_cons_self, ⟨?_, pairwise⟩, apart⟩
  intro other member
  exact sound.slabs other (mem_cons_of_mem entry member)

omit sound in
theorem PoolSound.cons (sound : PoolSound words rest) (head : entry.2.Sound words entry.1)
    (apart : ∀ other ∈ rest, (shapeOf entry).Apart (shapeOf other)) :
    PoolSound words (entry :: rest) := by
  refine ⟨?_, pairwise_cons.mpr ⟨apart, sound.apart⟩⟩
  intro other member
  rcases mem_cons.mp member with rfl | inRest
  · exact head
  · exact sound.slabs other inRest

/-- A store into an object of one slab does not reach the free lists of the others. -/
theorem PoolSound.update_others (object : (shapeOf entry).Object ptr) (value : Nat) :
    PoolSound (update words ptr value) rest ∧
      ∀ entry ∈ rest, entry.2.nodes (update words ptr value) = entry.2.nodes words := by
  obtain ⟨head, tail, apart⟩ := sound.head
  refine tail.congr ?_
  rintro node ⟨others, member, isNode⟩
  apply update_of_ne
  rintro rfl
  have otherSound := tail.slabs others member
  exact not_object_of_apart head.shape otherSound.shape (apart others member)
    object (otherSound.objects node isNode)

theorem PoolSound.take (available : 0 < entry.2.freeObjects) :
    ObjectTaken words (entry :: rest) (update words entry.2.freeList 0)
      ((entry.1, entry.2.take words) :: rest) entry.2.freeList := by
  obtain ⟨head, tail, apart⟩ := sound.head
  have nodes := nodes_eq_cons words available
  have isNode : entry.2.freeList ∈ entry.2.nodes words := by
    rw [nodes]
    exact mem_cons_self
  have object := head.objects _ isNode
  have left := nodes_take 0 head available
  have nodup := head.nodup
  rw [nodes] at nodup
  obtain ⟨gone, leftNodup⟩ := nodup_cons.mp nodup
  obtain ⟨others, same⟩ := sound.update_others object 0
  have members : ∀ node, node ∈ (entry.2.take words).nodes (update words entry.2.freeList 0) →
      node ∈ entry.2.nodes words ∧ node ≠ entry.2.freeList := by
    intro node isLeft
    rw [left] at isLeft
    refine ⟨nodes ▸ mem_cons_of_mem _ isLeft, ?_⟩
    rintro rfl
    exact gone isLeft
  have free : ∀ node,
      FreeObject (update words entry.2.freeList 0) ((entry.1, entry.2.take words) :: rest) node →
      FreeObject words (entry :: rest) node ∧ node ≠ entry.2.freeList := by
    rintro node ⟨owner, member, isLeft⟩
    rcases mem_cons.mp member with rfl | inRest
    · obtain ⟨old, different⟩ := members node isLeft
      exact ⟨⟨entry, mem_cons_self, old⟩, different⟩
    · rw [same owner inRest] at isLeft
      refine ⟨⟨owner, mem_cons_of_mem _ inRest, isLeft⟩, ?_⟩
      rintro rfl
      have ownerSound := tail.slabs owner inRest
      exact not_object_of_apart head.shape ownerSound.shape
        (apart owner inRest) object (ownerSound.objects _ isLeft)
  refine ⟨others.cons ⟨head.shape, head.memory, ?_, ?_⟩ apart, ?_, ?_⟩
  · rw [left]
    exact leftNodup
  · intro node isLeft
    exact head.objects node (members node isLeft).1
  · intro isFree
    exact (free _ isFree).2 rfl
  · rintro ptr ⟨_, notFree⟩
    refine ⟨?_, fun isFree => notFree (free ptr isFree).1⟩
    rintro rfl
    exact notFree ⟨entry, mem_cons_self, isNode⟩

theorem PoolSound.put (object : (shapeOf entry).Object ptr)
    (used : ¬FreeObject words (entry :: rest) ptr) :
    ObjectPut words (entry :: rest) (update words ptr entry.2.freeList)
      ((entry.1, entry.2.put ptr) :: rest) ptr := by
  obtain ⟨head, _, apart⟩ := sound.head
  have notNode : ptr ∉ entry.2.nodes words := fun isNode => used ⟨entry, mem_cons_self, isNode⟩
  have nodes : (entry.2.put ptr).nodes
      (update words ptr entry.2.freeList) = ptr :: entry.2.nodes words := by
    have small := head.count_lt object notNode
    rw [Slab.nodes, Slab.put, mod_eq_of_lt small]
    exact follow_push notNode
  obtain ⟨others, same⟩ := sound.update_others object entry.2.freeList
  refine ⟨others.cons ⟨head.shape, head.memory, ?_, ?_⟩ apart, ?_⟩
  · rw [nodes]
    exact nodup_cons.mpr ⟨notNode, head.nodup⟩
  · intro node isNode
    rw [nodes] at isNode
    rcases mem_cons.mp isNode with rfl | old
    · exact object
    · exact head.objects node old
  · rintro node ⟨_, notFree⟩ different ⟨owner, member, isNode⟩
    rcases mem_cons.mp member with rfl | inRest
    · rw [nodes] at isNode
      rcases mem_cons.mp isNode with isPtr | old
      · exact different isPtr
      · exact notFree ⟨entry, mem_cons_self, old⟩
    · rw [same owner inRest] at isNode
      exact notFree ⟨owner, mem_cons_of_mem _ inRest, isNode⟩

end

theorem PoolSound.grow (sound : PoolSound words rest) (head : slab.Sound other objSize)
    (apart : ∀ old ∈ rest, (shapeOf (objSize, slab)).Apart (shapeOf old))
    (agree : ∀ address, RangesApart address 8 slab.address slab.size →
      other address = words address) :
    PoolSound other ((objSize, slab) :: rest) ∧
      ∀ ptr, UsedObject words rest ptr → ¬FreeObject other ((objSize, slab) :: rest) ptr := by
  obtain ⟨tail, same⟩ : PoolSound other rest ∧
      ∀ old ∈ rest, old.2.nodes other = old.2.nodes words := by
    refine sound.congr ?_
    rintro node ⟨old, member, isNode⟩
    have oldSound := sound.slabs old member
    have inside := (oldSound.objects node isNode).inside oldSound.shape
    have wide := oldSound.shape.wide
    have separate := apart old member
    apply agree
    unfold Shape.Apart at separate
    unfold RangesApart shapeOf at *
    simp only at *
    omega
  have grown : PoolSound other ((objSize, slab) :: rest) := tail.cons head apart
  refine ⟨grown, ?_⟩
  rintro ptr ⟨⟨old, member, object⟩, notFree⟩ ⟨owner, inPool, isNode⟩
  rcases mem_cons.mp inPool with rfl | inRest
  · exact not_object_of_apart head.shape (sound.slabs old member).shape
      (apart old member) (head.objects ptr isNode) object
  · rw [same owner inRest] at isNode
    exact notFree ⟨owner, inRest, isNode⟩

/-! ## The loops of the slab code -/

/-- The loop of `slab_cache_alloc` takes the first free object of the first
slab that has one. -/
theorem slabsAlloc_cases {slabs : List Slab}
    (nonNull : ∀ slab ∈ slabs, 0 < slab.freeObjects → slab.freeList ≠ 0) :
    (∃ before slab after, slabs = before ++ slab :: after ∧ 0 < slab.freeObjects ∧
      slabsAlloc words slabs = .ok (some
        { words := update words slab.freeList 0
          slabs := before ++ slab.take words :: after
          object := slab.freeList
          slab := slab.address })) ∨
      ((∀ slab ∈ slabs, slab.freeObjects = 0) ∧ slabsAlloc words slabs = .ok none) := by
  induction slabs with
  | nil => exact .inr ⟨fun _ member => absurd member not_mem_nil, rfl⟩
  | cons head rest induction =>
    by_cases available : 0 < head.freeObjects
    · refine .inl ⟨[], head, rest, rfl, available, ?_⟩
      rw [slabsAlloc, if_pos available, if_neg (nonNull head mem_cons_self available)]
      rfl
    · have found := induction fun slab member =>
        nonNull slab (mem_cons_of_mem head member)
      rcases found with
        ⟨before, slab, after, rfl, isFree, result⟩ | ⟨empty, result⟩
      · refine .inl ⟨head :: before, slab, after, rfl, isFree, ?_⟩
        rw [slabsAlloc, if_neg available, result]
        rfl
      · refine .inr ⟨?_, ?_⟩
        · intro slab member
          rcases mem_cons.mp member with rfl | inRest
          · exact Nat.eq_zero_of_not_pos available
          · exact empty slab inRest
        · rw [slabsAlloc, if_neg available, result]
          rfl

/-- The loop of `slab_cache_free` puts the object into the first slab whose
range has the address. -/
theorem slabsFree_cases (words : Nat → Nat) (ptr : Nat) (slabs : List Slab) :
    (∃ before slab after, slabs = before ++ slab :: after ∧ slab.inRange ptr = true ∧
      slabsFree words ptr slabs = some
        (update words ptr slab.freeList, before ++ slab.put ptr :: after, slab.address)) ∨
      ((∀ slab ∈ slabs, slab.inRange ptr = false) ∧ slabsFree words ptr slabs = none) := by
  induction slabs with
  | nil => exact .inr ⟨fun _ member => absurd member not_mem_nil, rfl⟩
  | cons head rest induction =>
    by_cases inHead : head.inRange ptr = true
    · refine .inl ⟨[], head, rest, rfl, inHead, ?_⟩
      rw [slabsFree, if_pos inHead]
      rfl
    · rcases induction with
        ⟨before, slab, after, rfl, inSlab, result⟩ | ⟨outside, result⟩
      · refine .inl ⟨head :: before, slab, after, rfl, inSlab, ?_⟩
        rw [slabsFree, if_neg inHead, result]
        rfl
      · refine .inr ⟨?_, ?_⟩
        · intro slab member
          rcases mem_cons.mp member with rfl | inRest
          · exact Bool.not_eq_true _ ▸ inHead
          · exact outside slab inRest
        · rw [slabsFree, if_neg inHead, result]
          rfl

end Pool

end SeekOs.Mm
