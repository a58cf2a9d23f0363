import SeekOs.Mm.VmAreas

/-!
# User address spaces under arbitrary requests

A user program chooses the address and the size of every `vmalloc`.  The areas
it gets stay disjoint as long as each request is refused or asks for a free
range; the request that encloses an existing area shows that `vmalloc` does not
check this by itself.
-/

namespace SeekOs.Mm

open SeekOs.Base SeekOs.Lib List

/-- The calls of `sys_vmalloc` and `sys_vfree`. -/
inductive VmRequest where
  | vmalloc (ptr size : UInt64)
  | vfree (ptr : UInt64)

structure UserSpace (κ : Type) where
  kmem : κ
  mm : MmStruct

namespace UserSpace

variable {κ : Type} [FrameAllocator κ]
variable {size start : Nat} {areas next : List VmArea} {area : VmArea}

section

variable (space : UserSpace κ)

def step : VmRequest → Except Panic (UserSpace κ)
  | .vmalloc ptr size =>
    (vmalloc space.kmem space.mm ptr.toNat size.toNat vmmFlagsUser).map
      fun (kmem, mm, _) => ⟨kmem, mm⟩
  | .vfree ptr =>
    (vfree space.kmem space.mm ptr.toNat).map fun (kmem, mm) => ⟨kmem, mm⟩

/-- Only live areas are freed. -/
def Live : VmRequest → Prop
  | .vmalloc _ _ => True
  | .vfree ptr =>
    ∃ area ∈ space.mm.vmAreaHead, area.vmStart = ptr.toNat

/-- An explicit range that `mm_find_vm_area` turns down. -/
def Refused (areas : List VmArea) (ptr size : Nat) : Prop :=
  ptr ≠ 0 ∧
    (miUserVmareaSpaceEnd ≤ uptrAdd ptr size ∨
      ∃ area ∈ areas, area.allocated ptr (uptrAdd ptr size) = true)

/-- A non-empty, aligned range of user addresses that no area shares. -/
def RangeFree (areas : List VmArea) (start size : Nat) : Prop :=
  0 < size ∧ pageSize ∣ start ∧ miUserVmareaSpaceStart ≤ start ∧ start + size < 2 ^ 64 ∧
    ∀ area ∈ areas, area.vmEnd ≤ start ∨ start + size ≤ area.vmStart

/-- The request is refused, or the range it is given is free. -/
def Fits : VmRequest → Prop
  | .vmalloc ptr size =>
    let areas := space.mm.vmAreaHead
    let rounded := pageAlignUpIf size.toNat
    size.toNat = 0 ∨ miUserVmareaSpaceStart ≤ rounded ∨ Refused areas ptr.toNat rounded ∨
      RangeFree areas (chosenStart vmmFlagsUser areas ptr.toNat rounded) rounded
  | .vfree _ => True

instance  : DecidablePred space.Live
  | .vmalloc _ _ => inferInstanceAs (Decidable True)
  | .vfree ptr =>
    inferInstanceAs (Decidable (∃ area ∈ space.mm.vmAreaHead, area.vmStart = ptr.toNat))

instance (areas : List VmArea) (ptr size : Nat) : Decidable (Refused areas ptr size) :=
  inferInstanceAs (Decidable (_ ∧ (_ ∨ _)))

instance (areas : List VmArea) (start size : Nat) : Decidable (RangeFree areas start size) :=
  inferInstanceAs (Decidable (_ ∧ _ ∧ _ ∧ _ ∧ _))

instance  : DecidablePred space.Fits
  | .vmalloc _ _ => inferInstanceAs (Decidable (_ ∨ _ ∨ _ ∨ _))
  | .vfree _ => inferInstanceAs (Decidable True)

/-- The recorded areas are non-empty, page aligned, user addresses and
pairwise disjoint. -/
def Disjoint : Prop :=
  AreasPlaced miUserVmareaSpaceStart (miUserVmareaSpaceEnd + 1) space.mm.vmAreaHead

/-- In the lower half exactly the pages of the areas are mapped. -/
structure Sound : Prop where
  disjoint : space.Disjoint
  user : ∀ area ∈ space.mm.vmAreaHead, area.vmFlags = vmmFlagsUser
  backed : ∀ index, index < 2 ^ 35 →
    ((space.mm.pages index).isSome ↔ ∃ area ∈ space.mm.vmAreaHead, area.InPages index)

end

section Steps

variable {space : UserSpace κ}

theorem mmFindVmArea_refused {ptr : Nat} (refused : Refused areas ptr size) :
    mmFindVmArea areas ptr size vmmFlagsUser = none := by
  obtain ⟨explicit, reason⟩ := refused
  have regionEnd : mmGetVmareaEnd vmmFlagsUser = miUserVmareaSpaceEnd := rfl
  unfold mmFindVmArea
  rw [if_pos explicit, regionEnd]
  by_cases tooHigh : miUserVmareaSpaceEnd ≤ uptrAdd ptr size
  · simp only [tooHigh, if_true]
  · have taken : ∃ area ∈ areas, area.allocated ptr (uptrAdd ptr size) = true :=
      reason.resolve_left tooHigh
    simp only [tooHigh, if_false, any_eq_true.mpr taken, if_true]

private theorem userFlags_user : UserFlags vmmFlagsUser := by decide

private theorem userEnd_low : miUserVmareaSpaceEnd + 1 ≤ 2 ^ 47 := by decide

/-- An area linked over a free range is placed and disjoint from the
others. -/
theorem rangeFree_placed (placed : AreasPlaced miUserVmareaSpaceStart (miUserVmareaSpaceEnd + 1)
      areas) (linked : AreaLinked vmmFlagsUser start size areas area next)
    (alignedSize : pageSize ∣ size) (free : RangeFree areas start size) :
    area.Placed miUserVmareaSpaceStart (miUserVmareaSpaceEnd + 1) ∧
      ∀ other ∈ areas, area.Apart other := by
  obtain ⟨positive, aligned, above, noWrap, clear⟩ := free
  have isArea : area = ⟨start, start + size, vmmFlagsUser⟩ := by
    rw [linked.area_eq, uptrAdd_eq noWrap]
  refine ⟨⟨?_, ?_, ?_, ?_, ?_⟩, ?_⟩
  · rw [isArea]
    exact Nat.lt_add_of_pos_right positive
  · rw [isArea]
    exact aligned
  · rw [isArea]
    exact Nat.dvd_add aligned alignedSize
  · rw [isArea]
    exact above
  · rcases linked.bounded with below | ⟨other, member, below⟩
    · exact below.le.trans (Nat.le_succ _)
    · have otherPlaced := placed.placed other member
      exact below.trans (otherPlaced.nonempty.le.trans otherPlaced.below)
  · intro other member
    rw [isArea]
    exact (clear other member).symm

theorem sound_map (sound : space.Sound)
    (linked : AreaLinked vmmFlagsUser start size space.mm.vmAreaHead area next)
    (alignedSize : pageSize ∣ size)
    (free : RangeFree space.mm.vmAreaHead start size) :
    Outcome
      (fun result =>
        UserSpace.Sound ⟨result.1, ⟨next, result.2⟩⟩)
      (· = Panic.outOfMemory)
      (vmmVmap space.kmem space.mm.pages area.vmStart area.nrPages vmmFlagsUser) := by
  obtain ⟨placed, apart⟩ := rangeFree_placed sound.disjoint linked alignedSize free
  have vacant : ∀ index, area.InPages index → space.mm.pages index = none := by
    intro index inArea
    have notSome : ¬(space.mm.pages index).isSome := by
      intro mapped
      obtain ⟨other, member, inOther⟩ :=
        (sound.backed index (placed.inPages_bound userEnd_low inArea)).mp mapped
      exact VmArea.not_inPages_of_apart (apart other member) inArea inOther
    exact Option.not_isSome_iff_eq_none.mp notSome
  refine (vmmVmap_area userFlags_user space.kmem placed userEnd_low vacant).mono ?_
  intro result mapped
  refine ⟨sound.disjoint.insert linked.permutation placed apart, ?_, ?_⟩
  · intro other member
    rcases mem_cons.mp (linked.permutation.mem_iff.mp member) with
      same | old
    · rw [same, linked.area_eq]
    · exact sound.user other old
  · intro index small
    exact mapped.isSome_iff linked.permutation Iff.rfl (sound.backed index small)

/-- The condition on a range is exact: the list with the new area is well
placed only if the range was free. -/
theorem areasPlaced_iff_rangeFree
    (placed : AreasPlaced miUserVmareaSpaceStart (miUserVmareaSpaceEnd + 1)
      areas) (linked : AreaLinked vmmFlagsUser start size areas area next)
    (alignedSize : pageSize ∣ size) (smallStart : start < 2 ^ 64)
    (smallSize : size < 2 ^ 64) :
    AreasPlaced miUserVmareaSpaceStart (miUserVmareaSpaceEnd + 1) next ↔
      RangeFree areas start size := by
  constructor
  · intro after
    have member : area ∈ next := linked.permutation.mem_iff.mpr mem_cons_self
    have newPlaced := after.placed area member
    have nonempty : start < uptrAdd start size := by
      have := newPlaced.nonempty
      rwa [linked.area_eq] at this
    have noWrap : start + size < 2 ^ 64 := by
      by_contra wraps
      unfold uptrAdd at nonempty
      omega
    have apart := (after.remove linked.permutation).2
    rw [linked.area_eq, uptrAdd_eq noWrap] at newPlaced apart
    refine ⟨?_, newPlaced.alignedStart, newPlaced.above, noWrap, ?_⟩
    · exact Nat.pos_of_lt_add_right newPlaced.nonempty
    · intro other inAreas
      exact (apart other inAreas).symm
  · intro free
    obtain ⟨newPlaced, apart⟩ := rangeFree_placed placed linked alignedSize free
    exact placed.insert linked.permutation newPlaced apart

theorem sound_vmalloc (sound : space.Sound) (ptr size : UInt64)
    (fits : space.Fits (.vmalloc ptr size)) :
    Outcome Sound (· = Panic.outOfMemory) (space.step (.vmalloc ptr size)) := by
  apply Outcome.map
  apply vmalloc_outcome sound
  intro area next nonzero small search
  have free : RangeFree space.mm.vmAreaHead
      (chosenStart vmmFlagsUser space.mm.vmAreaHead ptr.toNat
        (pageAlignUpIf size.toNat)) (pageAlignUpIf size.toNat) := by
    rcases fits with isZero | large | refused | free
    · exact absurd isZero nonzero
    · exact absurd large (Nat.not_le.mpr small)
    · rw [mmFindVmArea_refused refused] at search
      cases search
    · exact free
  exact sound_map sound (mmFindVmArea_linked search) (pageAlignUpIf_aligned size.toNat) free

theorem sound_vfree (sound : space.Sound) (ptr : UInt64) (live : space.Live (.vfree ptr)) :
    Outcome Sound (· = Panic.outOfMemory) (space.step (.vfree ptr)) := by
  obtain ⟨wanted, isLive, starts⟩ := live
  obtain ⟨area, next, search⟩ := mmGetVmArea_isSome isLive
  rw [starts] at search
  obtain ⟨permutation, _⟩ := mmGetVmArea_perm search
  have member : area ∈ space.mm.vmAreaHead := permutation.mem_iff.mpr mem_cons_self
  have placed := sound.disjoint.placed area member
  obtain ⟨disjoint, apart⟩ := sound.disjoint.remove permutation
  have mapped : ∀ index, area.InPages index → (space.mm.pages index).isSome := by
    intro index inArea
    refine (sound.backed index ?_).mpr ⟨area, member, inArea⟩
    exact placed.inPages_bound userEnd_low inArea
  obtain ⟨kmem, pages, unmapped, cleared⟩ :=
    vmmVunmap_area userFlags_user space.kmem placed userEnd_low mapped
  have result : space.step (.vfree ptr) = .ok ⟨kmem, ⟨next, pages⟩⟩ := by
    simp only [step, vfree, search, sound.user area member, unmapped]
    rfl
  rw [result]
  refine ⟨disjoint, ?_, ?_⟩
  · intro other inNext
    exact sound.user other (permutation.mem_iff.mpr (mem_cons_of_mem area inNext))
  · intro index small
    refine cleared.isSome_iff permutation Iff.rfl ?_ (sound.backed index small)
    intro other inNext
    exact VmArea.not_inPages_of_apart (apart other inNext)

/-- One call keeps an address space sound, if it frees a live area or fits. -/
theorem step_sound (sound : space.Sound) (request : VmRequest)
    (live : space.Live request) (fits : space.Fits request) :
    Outcome Sound (· = Panic.outOfMemory) (space.step request) := by
  cases request with
  | vmalloc ptr size => exact sound_vmalloc sound ptr size fits
  | vfree ptr => exact sound_vfree sound ptr live

end Steps

/-- An address space fresh from `mm_create`: no areas and an empty lower
half. -/
def created (kmem : κ) (pages : Pages) : UserSpace κ :=
  ⟨kmem, ⟨[], pages⟩⟩

omit [FrameAllocator κ] in
theorem created_sound (kmem : κ) {pages : Pages}
    (empty : ∀ index, index < 2 ^ 35 → pages index = none) :
    (created kmem pages).Sound := by
  refine ⟨⟨?_, List.Pairwise.nil⟩, ?_, ?_⟩
  · intro area member
    cases member
  · intro area member
    cases member
  · intro index small
    simp [created, empty index small]

def Backed (space : UserSpace κ) : Prop :=
  ∀ index, index < 2 ^ 35 →
    ((space.mm.pages index).isSome ↔ ∃ area ∈ space.mm.vmAreaHead, area.InPages index)

/-- In the same runs exactly the pages of the recorded areas are mapped. -/
theorem backed_of_fitting_run (kmem : κ) (pages : Pages)
    (empty : ∀ index, index < 2 ^ 35 → pages index = none) (requests : List VmRequest)
    (live : Along step Live (created kmem pages) requests)
    (fits : Along step Fits (created kmem pages) requests) :
    ∀ done, done <+: requests →
      Outcome Backed (· = Panic.outOfMemory) (runExcept step (created kmem pages) done) := by
  intro done isPrefix
  have outcome := runExcept_outcome
    (fun space request sound condition => step_sound sound request condition.1 condition.2)
    (created_sound kmem empty) ((live.of_prefix isPrefix).and (fits.of_prefix isPrefix))
  exact outcome.mono fun space sound => sound.backed

/-- The buddy allocator over fifteen free frames, and an address space with
nothing in it. -/
@[irreducible] def smallSpace : UserSpace Pmm.Kmem :=
  created Pmm.Allocator.smallMemory.kmem.buddyInit fun _ => none

/-- An explicit range, a range found by the search, and a free. -/
def fittingRequests : List VmRequest :=
  [.vmalloc 0x20000 0x1000, .vmalloc 0 0x2000, .vfree 0x20000]

theorem backed_of_fitting_run_small :
    Outcome Backed (· = Panic.outOfMemory) (runExcept step smallSpace fittingRequests) := by
  have live : Along step Live smallSpace fittingRequests := by
    decide +kernel
  have fits : Along step Fits smallSpace fittingRequests := by
    decide +kernel
  unfold smallSpace at live fits ⊢
  generalize fittingRequests = requests at live fits ⊢
  exact backed_of_fitting_run _ _ (fun _ _ => rfl) _ live fits _ (prefix_refl _)

/-- The second request encloses the area of the first. -/
def enclosingRequests : List VmRequest :=
  [.vmalloc 0x20000 0x1000, .vmalloc 0x1f000 0x3000]

private theorem enclosing_request_panics : Outcome (fun _ => False) (· = Panic.pteExists)
      (runExcept step smallSpace enclosingRequests) := by
  decide +kernel

end UserSpace

end SeekOs.Mm
