import SeekOs.Mm.SlabPool
import SeekOs.Mm.VmAreas

/-!
# The frames behind the kernel heap

Slabs are frames of the direct mapping, areas of `k_vmlist` have a frame of
their own for every page.  The frames of the slabs, the frames of the areas and
the free frames are kept apart, and so the code never maps a page twice.
-/

namespace SeekOs.Mm

open SeekOs.Base SeekOs.Lib FrameAllocator List Option

/-- The number of frames that have an address in the direct mapping. -/
def directFrames : Nat :=
  miDirectMappingRangeSize / pageSize

def directAddress (frame : Nat) : Nat :=
  miDirectMappingRangeStart + frame * pageSize

/-- The frame is one of the pages of the slab. -/
def Shape.Covers (shape : Shape) (frame : Nat) : Prop :=
  shape.address ≤ directAddress frame ∧ directAddress frame < shape.address + shape.size

theorem directFrames_eq : directFrames = 2 ^ 27 := by decide

variable {frame : Nat}

theorem pteIndex_directAddress (low : frame < directFrames) :
    pteIndex (directAddress frame) = 0xf70000000 + frame := by
  rw [directFrames_eq] at low
  unfold pteIndex directAddress miDirectMappingRangeStart pageSize
  omega

/-- An index of the leaf entries of the region of the kernel's areas. -/
def KernelEntry (index : Nat) : Prop :=
  0xfe0000000 ≤ index ∧ index < 0xff0000000

theorem not_kernelEntry_of_direct (low : frame < directFrames) :
    ¬KernelEntry (pteIndex (directAddress frame)) := by
  rw [pteIndex_directAddress low]
  rw [directFrames_eq] at low
  unfold KernelEntry
  omega

/-- An area of the kernel's region. -/
abbrev KernelArea (area : VmArea) : Prop :=
  area.Placed miKernelVmareaSpaceStart miKernelVmareaSpaceEnd

theorem kernel_window : miKernelVmareaSpaceStart / 2 ^ 48 = miKernelVmareaSpaceEnd / 2 ^ 48 ∧
      miKernelVmareaSpaceEnd < 2 ^ 64 := by
  decide

variable {area : VmArea} {index : Nat}

theorem VmArea.Placed.entries (placed : KernelArea area) :
    0xfe0000000 ≤ pteIndex area.vmStart ∧ pteIndex area.vmStart ≤ pteIndex area.vmEnd ∧
      pteIndex area.vmEnd ≤ 0xff0000000 := by
  obtain ⟨nonempty, _, _, above, below⟩ := placed
  unfold miKernelVmareaSpaceStart miKernelVmareaSpaceEnd at *
  unfold pteIndex pageSize
  omega

theorem VmArea.InEntries.kernel (inArea : area.InEntries index) (placed : KernelArea area) :
    KernelEntry index := by
  obtain ⟨first, _, last⟩ := placed.entries
  exact ⟨first.trans inArea.1, inArea.2.trans_le last⟩

theorem not_inEntries_of_apart {other : VmArea}
    (placed : KernelArea area) (otherPlaced : KernelArea other)
    (apart : area.Apart other) (inArea : area.InEntries index) :
    ¬other.InEntries index := by
  obtain ⟨nonempty, _, _, above, below⟩ := placed
  obtain ⟨otherNonempty, _, _, otherAbove, otherBelow⟩ := otherPlaced
  unfold VmArea.InEntries VmArea.Apart at *
  unfold miKernelVmareaSpaceStart miKernelVmareaSpaceEnd at *
  unfold pteIndex pageSize at *
  omega

/-- How frames, slabs, areas and leaf entries fit together. -/
structure FramesSound {κ : Type} [FrameAllocator κ] (kmem : κ) (pages : Pages)
    (shapes : List Shape) (areas : List VmArea) : Prop where
  valid : Valid kmem
  range : ∀ frame, Free kmem frame → frame < directFrames
  slabs : ∀ shape ∈ shapes, ∀ frame, shape.Covers frame → ¬Free kmem frame
  direct : ∀ frame, frame < directFrames →
    (pages (pteIndex (directAddress frame))).isSome →
    ∃ shape ∈ shapes, shape.Covers frame
  entries : ∀ index, KernelEntry index →
    ((pages index).isSome ↔ ∃ area ∈ areas, area.InEntries index)
  frames : ∀ index pte, KernelEntry index → pages index = some pte →
    Single kmem pte.pageFrame ∧ pte.pageFrame < directFrames ∧
      ∀ shape ∈ shapes, ¬shape.Covers pte.pageFrame
  injective : ∀ left right leftPte rightPte, KernelEntry left →
    KernelEntry right → pages left = some leftPte →
    pages right = some rightPte →
    leftPte.pageFrame = rightPte.pageFrame → left = right

namespace FramesSound

variable {κ : Type} [FrameAllocator κ] {kmem next : κ} {pages after : Pages}
  {shapes : List Shape} {areas : List VmArea}
variable {pfn count : Nat}

theorem perm {other : List Shape} (sound : FramesSound kmem pages shapes areas)
    (permutation : shapes.Perm other) :
    FramesSound kmem pages other areas := by
  refine
    { valid := sound.valid, range := sound.range, slabs := ?_, direct := ?_
      entries := sound.entries, frames := ?_, injective := sound.injective }
  · intro shape member
    exact sound.slabs shape (permutation.mem_iff.mpr member)
  · intro frame low present
    obtain ⟨shape, member, covers⟩ := sound.direct frame low present
    exact ⟨shape, permutation.mem_iff.mp member, covers⟩
  · intro index pte isEntry isPte
    obtain ⟨single, low, apart⟩ := sound.frames index pte isEntry isPte
    refine ⟨single, low, ?_⟩
    intro shape member
    exact apart shape (permutation.mem_iff.mpr member)

/-! ## A new slab -/

/-- The shape of a slab made of a block of frames. -/
def blockShape (objSize pfn count : Nat) : Shape :=
  ⟨objSize, directAddress pfn, count * pageSize⟩

omit [FrameAllocator κ] in
theorem blockShape_covers {objSize frame : Nat} :
    (blockShape objSize pfn count).Covers frame ↔ pfn ≤ frame ∧ frame < pfn + count := by
  unfold blockShape Shape.Covers directAddress pageSize
  simp only
  omega

section

variable (sound : FramesSound kmem pages shapes areas)
include sound

theorem block_fresh (positive : 1 ≤ count) (small : count ≤ 1024)
    (result : pmmAllocPages kmem count = some (next, pfn)) :
    pfn + count ≤ directFrames ∧
      ∀ frame, pfn ≤ frame → frame < pfn + count → Free kmem frame ∧ ¬Free next frame := by
  have fresh : ∀ frame, pfn ≤ frame → frame < pfn + count → Free kmem frame :=
    free_of_alloc sound.valid positive small result
  constructor
  · have last := sound.range _ (fresh (pfn + count - 1) (by omega) (by omega))
    omega
  · intro frame lower upper
    refine ⟨fresh frame lower upper, ?_⟩
    intro still
    have apart := (free_after_alloc sound.valid positive small result frame still).2
    omega

theorem block_apart {objSize : Nat}
    (fresh : ∀ frame, pfn ≤ frame → frame < pfn + count → Free kmem frame)
    (positive : 1 ≤ count) {shape : Shape} (isShape : shape.Sound)
    (member : shape ∈ shapes) :
    (blockShape objSize pfn count).Apart shape := by
  obtain ⟨⟨first, start⟩, ⟨pageCount, whole⟩, _, room, _, _⟩ := isShape
  by_contra overlap
  -- the later of the two first pages is a page of both
  have both : shape.Covers (max pfn first) ∧ pfn ≤ max pfn first ∧ max pfn first < pfn + count := by
    unfold Shape.Apart RangesApart blockShape directAddress at overlap
    unfold Shape.Covers directAddress
    unfold pageSize at *
    simp only at overlap
    omega
  exact sound.slabs shape member _ both.1 (fresh _ both.2.1 both.2.2)

/-- Taking a block of frames and mapping it makes room for a slab. -/
theorem grow (positive : 1 ≤ count) (small : count ≤ 1024)
    (result : pmmAllocPages kmem count = some (next, pfn)) (objSize : Nat) :
    ∃ mapped, ptmMapPages pages (directAddress pfn) (pfn * pageSize) count
        vmmFlagsDefault = .ok mapped ∧
      FramesSound next mapped (blockShape objSize pfn count :: shapes)
        areas := by
  obtain ⟨bound, fresh⟩ := sound.block_fresh positive small result
  have index : ∀ frame, pfn ≤ frame → frame < pfn + count →
      pteIndex (directAddress frame) = pteIndex (directAddress pfn) + (frame - pfn) := by
    intro frame lower upper
    rw [pteIndex_directAddress (by omega), pteIndex_directAddress (by omega)]
    omega
  have window : Window (directAddress pfn) count := by
    rw [directFrames_eq] at bound
    constructor
    all_goals
      unfold directAddress miDirectMappingRangeStart pageSize
      omega
  have vacant : ∀ entry, pteIndex (directAddress pfn) ≤ entry →
      entry < pteIndex (directAddress pfn) + count → pages entry = none := by
    intro entry lower upper
    let frame := pfn + (entry - pteIndex (directAddress pfn))
    have isEntry : entry = pteIndex (directAddress frame) := by
      rw [index frame (by omega) (by omega)]
      omega
    rw [isEntry, ← not_isSome_iff_eq_none]
    intro present
    obtain ⟨shape, member, covers⟩ := sound.direct frame (by omega) present
    exact sound.slabs shape member frame covers (fresh frame (by omega) (by omega)).1
  have present : vmmFlagsDefault.testBit 0 = true := by decide
  obtain ⟨mapped, isMapped, spec⟩ := ptmMapPages_vacant (pfn * pageSize) present window vacant
  refine ⟨mapped, isMapped, ?_⟩
  have kernel : ∀ entry, KernelEntry entry → mapped entry = pages entry := by
    intro entry isKernel
    apply spec.outside
    rw [pteIndex_directAddress (by omega)]
    rw [directFrames_eq] at bound
    unfold KernelEntry at isKernel
    omega
  refine
    { valid := valid_of_alloc sound.valid positive small result
      range := ?_, slabs := ?_, direct := ?_, entries := ?_, frames := ?_
      injective := ?_ }
  · intro frame free
    exact sound.range frame (free_after_alloc sound.valid positive small result frame free).1
  · intro shape member frame covers free
    obtain ⟨before, apart⟩ := free_after_alloc sound.valid positive small result frame free
    rcases mem_cons.mp member with rfl | old
    · have inside := blockShape_covers.mp covers
      omega
    · exact sound.slabs shape old frame covers before
  · intro frame low present
    by_cases inBlock : pfn ≤ frame ∧ frame < pfn + count
    · exact ⟨_, mem_cons_self, blockShape_covers.mpr inBlock⟩
    · have same : mapped (pteIndex (directAddress frame)) =
          pages (pteIndex (directAddress frame)) := by
        apply spec.outside
        rw [pteIndex_directAddress low, pteIndex_directAddress (by omega)]
        omega
      rw [same] at present
      obtain ⟨shape, member, covers⟩ := sound.direct frame low present
      exact ⟨shape, mem_cons_of_mem _ member, covers⟩
  · intro entry isKernel
    rw [kernel entry isKernel]
    exact sound.entries entry isKernel
  · intro entry pte isKernel isPte
    rw [kernel entry isKernel] at isPte
    obtain ⟨single, low, apart⟩ := sound.frames entry pte isKernel isPte
    refine ⟨single_after_alloc sound.valid positive small result single, low, ?_⟩
    intro shape member covers
    rcases mem_cons.mp member with rfl | old
    · obtain ⟨lower, upper⟩ := blockShape_covers.mp covers
      exact not_free_of_single single (fresh _ lower upper).1
    · exact apart shape old covers
  · intro left right leftPte rightPte leftKernel rightKernel atLeft atRight
    rw [kernel left leftKernel] at atLeft
    rw [kernel right rightKernel] at atRight
    exact sound.injective left right leftPte rightPte leftKernel rightKernel atLeft atRight

end

/-! ## Areas -/

theorem map_area (sound : FramesSound kmem pages shapes areas)
    {linked : List VmArea} (placed : KernelArea area)
    (othersPlaced : ∀ other ∈ areas, KernelArea other)
    (apart : ∀ other ∈ areas, area.Apart other)
    (permutation : linked.Perm (area :: areas)) :
    Outcome (fun result => FramesSound result.1 result.2 shapes linked) (· = Panic.outOfMemory)
      (vmmVmap kmem pages area.vmStart area.nrPages vmmFlagsDefault) := by
  obtain ⟨sameWindow, upper⟩ := kernel_window
  have ordinary : OrdinaryFlags vmmFlagsDefault := by
    constructor
    all_goals decide
  have vacant : ∀ index, area.InEntries index → pages index = none := by
    intro index inArea
    rw [← not_isSome_iff_eq_none]
    intro present
    obtain ⟨other, member, inOther⟩ := (sound.entries index (inArea.kernel placed)).mp present
    exact not_inEntries_of_apart placed (othersPlaced other member)
      (apart other member) inArea inOther
  have outcome := vmmVmap_entries ordinary placed sameWindow upper kmem vacant
  cases result : vmmVmap kmem pages area.vmStart area.nrPages vmmFlagsDefault with
  | error failure =>
    rw [result] at outcome
    exact outcome
  | ok pair =>
    obtain ⟨next, mapped⟩ := pair
    have backed := vmmVmap_entries_backed ordinary placed sameWindow upper sound.valid result
    refine
      { valid := backed.valid, range := ?_, slabs := ?_, direct := ?_
        entries := ?_, frames := ?_, injective := backed.injOn ?_ sound.injective }
    · intro frame free
      exact sound.range frame (backed.shrinks frame free)
    · intro shape member frame covers free
      exact sound.slabs shape member frame covers (backed.shrinks frame free)
    · intro frame low present
      obtain ⟨pte, isPte⟩ := isSome_iff_exists.mp present
      rcases backed.page_cases isPte with ⟨inArea, _⟩ | ⟨_, old⟩
      · exact absurd (VmArea.InEntries.kernel inArea placed) (not_kernelEntry_of_direct low)
      · exact sound.direct frame low (old ▸ rfl)
    · intro index isKernel
      exact backed.isSome_iff permutation Iff.rfl (sound.entries index isKernel)
    · intro index pte isKernel isPte
      rcases backed.page_cases isPte with ⟨_, free, single⟩ | ⟨_, old⟩
      · refine ⟨single, sound.range _ free, ?_⟩
        intro shape member covers
        exact sound.slabs shape member _ covers free
      · obtain ⟨single, low, apart⟩ := sound.frames index pte isKernel old
        exact ⟨backed.keeps _ single, low, apart⟩
    · intro index pte isKernel isPte
      exact not_free_of_single (sound.frames index pte isKernel isPte).1

theorem unmap_area (sound : FramesSound kmem pages shapes areas)
    {others : List VmArea} (placed : KernelArea area)
    (othersPlaced : ∀ other ∈ others, KernelArea other)
    (apart : ∀ other ∈ others, area.Apart other)
    (permutation : areas.Perm (area :: others)) :
    ∃ next cleared,
      vmmVunmap kmem pages area.vmStart area.nrPages vmmFlagsDefault = .ok (next, cleared) ∧
      FramesSound next cleared shapes others := by
  obtain ⟨sameWindow, upper⟩ := kernel_window
  have ordinary : OrdinaryFlags vmmFlagsDefault := by
    constructor
    all_goals decide
  have ordered := placed.entries.2.1
  have member : area ∈ areas := permutation.mem_iff.mpr mem_cons_self
  have mapped : ∀ index, area.InEntries index → (pages index).isSome := by
    intro index inArea
    exact (sound.entries index (inArea.kernel placed)).mpr ⟨area, member, inArea⟩
  obtain ⟨next, cleared, result, spec⟩ :=
    vmmVunmap_entries ordinary placed sameWindow upper kmem mapped
  have returned := vmmVunmap_entries_returned ordinary placed sameWindow upper sound.valid
    (fun index pte inArea isPte =>
      (sound.frames index pte (inArea.kernel placed) isPte).1)
    (fun left right leftPte rightPte leftIn rightIn =>
      sound.injective left right leftPte rightPte (leftIn.kernel placed)
        (rightIn.kernel placed)) result
  -- the entries that are left are those outside the area
  have left : ∀ index pte, cleared index = some pte →
      ¬area.InEntries index ∧ pages index = some pte := by
    intro index pte isPte
    by_cases inArea : area.InEntries index
    · rw [spec.gone inArea] at isPte
      cases isPte
    · exact ⟨inArea, (spec.same inArea).symm.trans isPte⟩
  have freed : ∀ frame, Free next frame → Free kmem frame ∨
      ∃ index pte, area.InEntries index ∧ pages index = some pte ∧ pte.pageFrame = frame := by
    intro frame free
    rcases returned.freed frame free with
      before | ⟨index, pte, lower, upper, isPte, isFrame⟩
    · exact .inl before
    · exact .inr ⟨index, pte, ⟨lower, by omega⟩, isPte, isFrame⟩
  refine ⟨next, cleared, result, ?_⟩
  refine
    { valid := returned.valid, range := ?_, slabs := ?_, direct := ?_
      entries := ?_, frames := ?_, injective := ?_ }
  · intro frame free
    rcases freed frame free with before | ⟨index, pte, inArea, isPte, rfl⟩
    · exact sound.range frame before
    · exact (sound.frames index pte (inArea.kernel placed) isPte).2.1
  · intro shape inShapes frame covers free
    rcases freed frame free with before | ⟨index, pte, inArea, isPte, rfl⟩
    · exact sound.slabs shape inShapes frame covers before
    · exact (sound.frames index pte (inArea.kernel placed) isPte).2.2 shape inShapes covers
  · intro frame low present
    obtain ⟨pte, isPte⟩ := isSome_iff_exists.mp present
    exact sound.direct frame low ((left _ pte isPte).2 ▸ rfl)
  · intro index isKernel
    refine spec.isSome_iff permutation Iff.rfl ?_ (sound.entries index isKernel)
    intro other inOthers
    exact not_inEntries_of_apart placed (othersPlaced other inOthers) (apart other inOthers)
  · intro index pte isKernel isPte
    obtain ⟨outside, old⟩ := left index pte isPte
    obtain ⟨single, low, separate⟩ := sound.frames index pte isKernel old
    refine ⟨returned.keeps _ single ?_, low, separate⟩
    intro other otherPte lower upper isOther same
    have inArea : area.InEntries other := ⟨lower, by omega⟩
    have isIndex := sound.injective other index otherPte pte
      (inArea.kernel placed) isKernel isOther old same
    exact outside (isIndex ▸ inArea)
  · intro first second firstPte secondPte firstKernel secondKernel atFirst atSecond
    exact sound.injective first second firstPte secondPte firstKernel
      secondKernel (left first firstPte atFirst).2
      (left second secondPte atSecond).2

end FramesSound

end SeekOs.Mm
