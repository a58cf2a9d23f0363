import SeekOs.Mm.AreaOrder

/-!
# First fit in the kernel's area list

Calls of `vmalloc` that leave the address to the search, and calls of `vfree`
on live areas, keep `k_vmlist` in the order of addresses.  In such a list the
unsigned differences that the search compares are the sizes of the gaps, and
the search is first fit.
-/

namespace SeekOs.Mm

open SeekOs.Base SeekOs.Lib List Option

/-! ## What first fit means -/

/-- The free ranges between consecutive areas. -/
def areaGaps (areas : List VmArea) : List (Nat × Nat) :=
  areas.zipWith (fun lower upper => (lower.vmEnd, upper.vmStart)) areas.tail

/-- The start of the first gap that has room. -/
def firstGap (size : Nat) (areas : List VmArea) : Option Nat :=
  ((areaGaps areas).find? fun gap => gap.1 + size ≤ gap.2).map Prod.fst

/-- The end of the last area, or the start of the region. -/
def areasEnd (areas : List VmArea) : Nat :=
  (areas.getLast?.map VmArea.vmEnd).getD miKernelVmareaSpaceStart

/-- The address that first fit gives to a range, zero for null. -/
structure FirstFit (size : Nat) (areas : List VmArea) (va : Nat) : Prop where
  gap : ∀ start, firstGap size areas = some start → va = start
  behind : firstGap size areas = none →
    areasEnd areas + size < miKernelVmareaSpaceEnd → va = areasEnd areas
  null_iff : va = 0 ↔ firstGap size areas = none ∧ miKernelVmareaSpaceEnd ≤ areasEnd areas + size

/-- Page-aligned, non-empty, disjoint areas of the kernel's region in the
order of their addresses. -/
structure AreasSorted (areas : List VmArea) : Prop where
  placed : ∀ area ∈ areas, KernelArea area
  sorted : areas.Pairwise fun lower upper => lower.vmStart < upper.vmStart
  apart : areas.Pairwise VmArea.Apart

/-! ## The search -/

section Search

variable {size : Nat} {areas : List VmArea} {start : Nat}

theorem firstGap_cons (size : Nat) (lower upper : VmArea) (rest : List VmArea) :
    firstGap size (lower :: upper :: rest) =
      if lower.vmEnd + size ≤ upper.vmStart then
        some lower.vmEnd
      else
        firstGap size (upper :: rest) := by
  by_cases fits : lower.vmEnd + size ≤ upper.vmStart
  · simp [firstGap, areaGaps, fits]
  · simp [firstGap, areaGaps, fits]

theorem firstGap_mem (isGap : firstGap size areas = some start) :
    ∃ area ∈ areas, area.vmEnd = start := by
  induction areas with
  | nil => cases isGap
  | cons lower tail induction =>
    cases tail with
    | nil => cases isGap
    | cons upper rest =>
      rw [firstGap_cons] at isGap
      split at isGap
      · cases isGap
        exact ⟨lower, mem_cons_self, rfl⟩
      · obtain ⟨area, member, isEnd⟩ := induction isGap
        exact ⟨area, mem_cons_of_mem lower member, isEnd⟩

theorem areasEnd_inRegion (placed : ∀ area ∈ areas, KernelArea area) :
    miKernelVmareaSpaceStart ≤ areasEnd areas ∧ areasEnd areas ≤ miKernelVmareaSpaceEnd := by
  unfold areasEnd
  cases isLast : areas.getLast? with
  | none => decide
  | some last =>
    have isPlaced := placed last (List.mem_of_getLast? isLast)
    exact ⟨isPlaced.above.trans isPlaced.nonempty.le, isPlaced.below⟩

/-- In an ordered list the unsigned difference is the size of the gap. -/
theorem gap_fits_iff {lower upper : VmArea} (ordered : lower.vmEnd ≤ upper.vmStart)
    (lowerPlaced : KernelArea lower) (upperPlaced : KernelArea upper)
    (small : size ≤ miKernelVmareaSpaceSize) :
    (size ≤ uptrSub upper.vmStart lower.vmEnd ↔ lower.vmEnd + size ≤ upper.vmStart) ∧
      uptrAdd lower.vmEnd size = lower.vmEnd + size := by
  obtain ⟨_, _, _, _, lowerHigh⟩ := lowerPlaced
  obtain ⟨upperNonempty, _, _, _, upperHigh⟩ := upperPlaced
  unfold miKernelVmareaSpaceSize miKernelVmareaSpaceStart miKernelVmareaSpaceEnd at *
  constructor
  · rw [uptrSub_eq ordered (by omega)]
    omega
  · exact uptrAdd_eq (by omega)

/-- The search for a cave takes the first gap, and what it takes fits. -/
theorem findCave_firstGap (flags : Nat)
    (placed : ∀ area ∈ areas, KernelArea area) (ascending : Ascending areas)
    (small : size ≤ miKernelVmareaSpaceSize) :
    (findCave size flags areas).map (Option.map fun found => found.1.vmStart) =
      (firstGap size areas).map some := by
  induction areas with
  | nil => rfl
  | cons lower tail induction =>
    cases tail with
    | nil => rfl
    | cons upper rest =>
      obtain ⟨before, later⟩ := pairwise_cons.mp ascending
      obtain ⟨fitsIff, noWrap⟩ := gap_fits_iff (before upper mem_cons_self)
        (placed lower mem_cons_self)
        (placed upper (mem_cons_of_mem lower mem_cons_self))
        small
      rw [findCave, firstGap_cons]
      by_cases fits : lower.vmEnd + size ≤ upper.vmStart
      · rw [if_pos (fitsIff.mpr fits), if_pos fits]
        simp only [noWrap, Nat.not_lt.mpr fits, if_false, map_some]
      · rw [if_neg (mt fitsIff.mp fits), if_neg fits]
        have inTail := induction (fun area member => placed area (mem_cons_of_mem lower member))
          later
        rw [← inTail]
        cases findCave size flags (upper :: rest) with
        | none => rfl
        | some found =>
          cases found with
          | none => rfl
          | some pair => rfl

theorem vmAreaAppend_start (noWrap : uptrAdd start size = start + size) :
    (vmAreaAppend areas start size vmmFlagsDefault).map (fun found => found.1.vmStart) =
      if miKernelVmareaSpaceEnd ≤ start + size then none else some start := by
  have regionEnd : mmGetVmareaEnd vmmFlagsDefault = miKernelVmareaSpaceEnd := rfl
  unfold vmAreaAppend
  rw [noWrap, regionEnd]
  by_cases tooHigh : miKernelVmareaSpaceEnd ≤ start + size
  · simp only [tooHigh, if_true, map_none]
  · simp only [tooHigh, if_false, map_some]

/-- The first gap, else the end of the areas unless it is too high. -/
def fitStart (size : Nat) (areas : List VmArea) : Option Nat :=
  match firstGap size areas with
  | some start => some start
  | none =>
    if miKernelVmareaSpaceEnd ≤ areasEnd areas + size then
      none
    else
      some (areasEnd areas)

theorem firstFit_fitStart (size : Nat) (placed : ∀ area ∈ areas, KernelArea area) :
    FirstFit size areas ((fitStart size areas).getD 0) := by
  have regionStart : 0 < miKernelVmareaSpaceStart := by decide
  unfold fitStart
  cases isGap : firstGap size areas with
  | some start =>
    obtain ⟨area, member, rfl⟩ := firstGap_mem isGap
    have isPlaced := placed area member
    have nonzero : area.vmEnd ≠ 0 := Nat.ne_of_gt (Nat.zero_lt_of_lt isPlaced.nonempty)
    constructor
    · intro start isStart
      exact Option.some.inj (isGap.symm.trans isStart)
    · intro noGap
      cases isGap.symm.trans noGap
    · simp [isGap, nonzero]
  | none =>
    have nonzero : areasEnd areas ≠ 0 :=
      Nat.ne_of_gt (regionStart.trans_le (areasEnd_inRegion placed).1)
    by_cases tooHigh : miKernelVmareaSpaceEnd ≤ areasEnd areas + size
    · constructor
      · intro start isStart
        cases isGap.symm.trans isStart
      · intro _ fits
        exact absurd tooHigh (Nat.not_le.mpr fits)
      · simp [isGap, tooHigh]
    · constructor
      · intro start isStart
        cases isGap.symm.trans isStart
      · intro _ _
        simp [tooHigh]
      · simp [isGap, tooHigh, nonzero]

/-- `mm_find_vm_area` on an ordered list. -/
theorem mmFindVmArea_start (placed : ∀ area ∈ areas, KernelArea area)
    (ascending : Ascending areas) (small : size ≤ miKernelVmareaSpaceSize) :
    (mmFindVmArea areas 0 size vmmFlagsDefault).map
        (fun found => found.1.vmStart) = fitStart size areas := by
  have noWrap : uptrAdd (areasEnd areas) size = areasEnd areas + size := by
    apply uptrAdd_eq
    have inRegion := areasEnd_inRegion placed
    unfold miKernelVmareaSpaceSize miKernelVmareaSpaceStart miKernelVmareaSpaceEnd at *
    omega
  unfold mmFindVmArea fitStart
  match areas with
  | [] => exact vmAreaAppend_start noWrap
  | [only] => exact vmAreaAppend_start noWrap
  | first :: second :: rest =>
    have cave := findCave_firstGap vmmFlagsDefault placed ascending small
    cases isGap : firstGap size (first :: second :: rest) with
    | some start =>
      rw [isGap] at cave
      obtain ⟨found, isCave, isStart⟩ := map_eq_some_iff.mp cave
      simp only [isCave]
      exact isStart
    | none =>
      rw [isGap] at cave
      have noCave := map_eq_none_iff.mp cave
      simp only [noCave]
      exact vmAreaAppend_start noWrap

end Search

/-! ## The calls -/

/-- `vmalloc(null, null, size, VMM_FLAGS_DEFAULT)` and `vfree(null, ptr)`. -/
inductive KernelRequest where
  | vmalloc (size : Nat)
  | vfree (ptr : Nat)

/-- The frames, and `k_vmlist` with the leaf entries of the kernel. -/
structure KernelSpace (κ : Type) where
  kmem : κ
  mm : MmStruct

namespace KernelSpace

variable {κ : Type} [FrameAllocator κ]

section

variable (space : KernelSpace κ)

def step : KernelRequest → Except Panic (KernelSpace κ)
  | .vmalloc size =>
    (vmalloc space.kmem space.mm 0 size vmmFlagsDefault).map fun (kmem, mm, _) => ⟨kmem, mm⟩
  | .vfree ptr =>
    (vfree space.kmem space.mm ptr).map fun (kmem, mm) => ⟨kmem, mm⟩

/-- Sizes up to that of the region are requested, and live areas are freed. -/
def Allowed : KernelRequest → Prop
  | .vmalloc size => 0 < size ∧ size ≤ miKernelVmareaSpaceSize
  | .vfree ptr => ∃ area ∈ space.mm.vmAreaHead, area.vmStart = ptr

instance  : DecidablePred space.Allowed
  | .vmalloc _ => inferInstanceAs (Decidable (_ ∧ _))
  | .vfree ptr =>
    inferInstanceAs (Decidable (∃ area ∈ space.mm.vmAreaHead, area.vmStart = ptr))

/-- Ordered areas of the region, whose leaf entries are exactly the present
ones of the region. -/
structure Sound : Prop where
  placed : ∀ area ∈ space.mm.vmAreaHead, KernelArea area
  flags : ∀ area ∈ space.mm.vmAreaHead, area.vmFlags = vmmFlagsDefault
  ascending : Ascending space.mm.vmAreaHead
  entries : ∀ index, KernelEntry index →
    ((space.mm.pages index).isSome ↔ ∃ area ∈ space.mm.vmAreaHead, area.InEntries index)

end

section Steps

variable {space : KernelSpace κ} {size : Nat}

omit [FrameAllocator κ] in
theorem Sound.sorted (sound : space.Sound) : AreasSorted space.mm.vmAreaHead := by
  refine ⟨sound.placed, ?_, sound.ascending.apart⟩
  refine List.Pairwise.imp_of_mem ?_ sound.ascending
  intro lower upper lowerMember _ before
  exact (sound.placed lower lowerMember).nonempty.trans_le before

private theorem ordinary_default : OrdinaryFlags vmmFlagsDefault := by
  constructor
  all_goals decide

theorem Sound.map (sound : space.Sound) {area : VmArea} {next : List VmArea}
    (found : AreaFound size space.mm.vmAreaHead area next) :
    Outcome (fun result => Sound ⟨result.1, ⟨next, result.2⟩⟩) (· = Panic.outOfMemory)
      (vmmVmap space.kmem space.mm.pages area.vmStart area.nrPages vmmFlagsDefault) := by
  obtain ⟨sameWindow, upper⟩ := kernel_window
  have members : ∀ other ∈ next, other = area ∨ other ∈ space.mm.vmAreaHead := fun other member =>
    mem_cons.mp (found.permutation.mem_iff.mp member)
  have vacant : ∀ index, area.InEntries index → space.mm.pages index = none := by
    intro index inArea
    rw [← not_isSome_iff_eq_none]
    intro present
    obtain ⟨other, member, inOther⟩ := (sound.entries index (inArea.kernel found.placed)).mp present
    exact not_inEntries_of_apart found.placed (sound.placed other member)
      (found.apart other member) inArea inOther
  have mapped := vmmVmap_entries ordinary_default found.placed sameWindow upper space.kmem vacant
  refine mapped.mono ?_
  intro result isMapped
  refine { placed := ?_, flags := ?_, ascending := found.ascending, entries := ?_ }
  · intro other member
    rcases members other member with rfl | old
    · exact found.placed
    · exact sound.placed other old
  · intro other member
    rcases members other member with rfl | old
    · exact found.flags_eq
    · exact sound.flags other old
  · intro index isKernel
    exact isMapped.isSome_iff found.permutation Iff.rfl (sound.entries index isKernel)

/-- `vmalloc` is first fit, and keeps the areas and their entries. -/
theorem Sound.vmalloc (sound : space.Sound) (positive : 0 < size)
    (small : size ≤ miKernelVmareaSpaceSize) :
    Outcome
      (fun result => Sound ⟨result.1, result.2.1⟩ ∧
        FirstFit (pageAlignUpIf size) space.mm.vmAreaHead result.2.2)
      (· = Panic.outOfMemory)
      (Mm.vmalloc space.kmem space.mm 0 size vmmFlagsDefault) := by
  obtain ⟨enough, bounded⟩ := pageAlignUpIf_bounds small
  have isStart := mmFindVmArea_start sound.placed sound.ascending bounded
  have fit := firstFit_fitStart (pageAlignUpIf size) sound.placed
  rw [← isStart] at fit
  have notLarge : ¬mmGetVmareaStart vmmFlagsDefault ≤ pageAlignUpIf size := by
    have isRegion : mmGetVmareaStart vmmFlagsDefault =
      miKernelVmareaSpaceStart := rfl
    have larger : miKernelVmareaSpaceSize < miKernelVmareaSpaceStart := by
      decide
    omega
  unfold Mm.vmalloc
  simp only [Nat.ne_of_gt positive, notLarge, if_false]
  cases search : mmFindVmArea space.mm.vmAreaHead 0 (pageAlignUpIf size) vmmFlagsDefault with
  | none =>
    rw [search] at fit
    exact ⟨sound, fit⟩
  | some pair =>
    obtain ⟨area, next⟩ := pair
    rw [search] at fit
    have found := mmFindVmArea_found sound.placed sound.ascending
      (pageAlignUpIf_aligned size) (positive.trans_le enough) bounded search
    apply Outcome.map
    refine (sound.map found).mono ?_
    intro result nextSound
    exact ⟨nextSound, fit⟩

/-- `vfree` of a live area. -/
theorem Sound.vfree (sound : space.Sound) {ptr : Nat}
    (live : ∃ area ∈ space.mm.vmAreaHead, area.vmStart = ptr) :
    Outcome Sound (· = Panic.outOfMemory) (space.step (.vfree ptr)) := by
  obtain ⟨sameWindow, upper⟩ := kernel_window
  obtain ⟨wanted, isLive, rfl⟩ := live
  obtain ⟨area, next, search⟩ := mmGetVmArea_isSome isLive
  have permutation := (mmGetVmArea_perm search).1
  have sublist := mmGetVmArea_sublist search
  have member : area ∈ space.mm.vmAreaHead := permutation.mem_iff.mpr mem_cons_self
  have placed := sound.placed area member
  have apart : ∀ other ∈ next, area.Apart other :=
    (pairwise_cons.mp ((permutation.pairwise_iff VmArea.Apart.symm).mp sound.ascending.apart)).1
  have mapped : ∀ index, area.InEntries index → (space.mm.pages index).isSome := by
    intro index inArea
    exact (sound.entries index (inArea.kernel placed)).mpr ⟨area, member, inArea⟩
  obtain ⟨kmem, pages, unmapped, cleared⟩ :=
    vmmVunmap_entries ordinary_default placed sameWindow upper space.kmem mapped
  have result : space.step (.vfree wanted.vmStart) = .ok ⟨kmem, ⟨next, pages⟩⟩ := by
    simp only [step, Mm.vfree, search, sound.flags area member, unmapped]
    rfl
  rw [result]
  refine { placed := ?_, flags := ?_, ascending := ?_, entries := ?_ }
  · intro other inNext
    exact sound.placed other (sublist.subset inNext)
  · intro other inNext
    exact sound.flags other (sublist.subset inNext)
  · exact List.Pairwise.sublist sublist sound.ascending
  · intro index isKernel
    refine cleared.isSome_iff permutation Iff.rfl ?_ (sound.entries index isKernel)
    intro other inNext
    exact not_inEntries_of_apart placed (sound.placed other (sublist.subset inNext))
      (apart other inNext)

theorem Sound.step (sound : space.Sound) (request : KernelRequest)
    (allowed : space.Allowed request) :
    Outcome Sound (· = Panic.outOfMemory) (space.step request) := by
  cases request with
  | vmalloc size =>
    obtain ⟨positive, small⟩ := allowed
    apply Outcome.map
    refine (sound.vmalloc positive small).mono ?_
    intro result outcome
    exact outcome.1
  | vfree ptr => exact sound.vfree allowed

end Steps

/-- An empty `k_vmlist`. -/
def empty (kmem : κ) (pages : Pages) : KernelSpace κ :=
  ⟨kmem, ⟨[], pages⟩⟩

omit [FrameAllocator κ] in
theorem empty_sound (kmem : κ) {pages : Pages}
    (vacant : ∀ index, KernelEntry index → pages index = none) :
    (empty kmem pages).Sound := by
  refine ⟨?_, ?_, List.Pairwise.nil, ?_⟩
  · intro area member
    cases member
  · intro area member
    cases member
  · intro index isKernel
    simp [empty, vacant index isKernel]

/-- After every run of allowed calls `k_vmlist` is sorted, and a further
`vmalloc` is first fit; memory can run out, but nothing else stops the
kernel. -/
theorem first_fit_of_run (kmem : κ) (pages : Pages)
    (vacant : ∀ index, KernelEntry index → pages index = none)
    (requests : List KernelRequest)
    (allowed : Along step Allowed (empty kmem pages) requests) :
    Outcome
      (fun space => AreasSorted space.mm.vmAreaHead ∧
        ∀ size, 0 < size → size ≤ miKernelVmareaSpaceSize →
          Outcome (fun result => FirstFit (pageAlignUpIf size) space.mm.vmAreaHead result.2.2)
            (· = Panic.outOfMemory)
            (Mm.vmalloc space.kmem space.mm 0 size vmmFlagsDefault))
      (· = Panic.outOfMemory)
      (runExcept step (empty kmem pages) requests) := by
  have outcome := runExcept_outcome
    (fun space request (sound : space.Sound) isAllowed =>
      sound.step request isAllowed)
    (empty_sound kmem vacant) allowed
  refine outcome.mono ?_
  intro space sound
  refine ⟨sound.sorted, ?_⟩
  intro size positive small
  refine (sound.vmalloc positive small).mono ?_
  intro result outcome
  exact outcome.2

/-- The buddy allocator over fifteen free frames, and an empty list. -/
@[irreducible] def smallKernel : KernelSpace Pmm.Kmem :=
  empty Pmm.Allocator.smallMemory.kmem.buddyInit fun _ => none

/-- Three areas, the middle one of which is freed. -/
def gapRequests : List KernelRequest :=
  [.vmalloc 0x1000, .vmalloc 0x1800, .vmalloc 1, .vfree 0xfffffe0000001000]

/-- A request that fits the gap gets it. -/
theorem first_fit_of_run_small : Along step Allowed smallKernel gapRequests ∧ Outcome
        (fun space => AreasSorted space.mm.vmAreaHead ∧
          firstGap 0x2000 space.mm.vmAreaHead = some 0xfffffe0000001000 ∧
          Outcome (fun result => result.2.2 = 0xfffffe0000001000) (· = Panic.outOfMemory)
            (Mm.vmalloc space.kmem space.mm 0 0x1001 vmmFlagsDefault))
        (fun _ => False) (runExcept step smallKernel gapRequests) := by
  have allowed : Along step Allowed smallKernel gapRequests := by
    decide +kernel
  have ran : Outcome
      (fun space =>
        firstGap 0x2000 space.mm.vmAreaHead = some 0xfffffe0000001000)
      (fun _ => False) (runExcept step smallKernel gapRequests) := by
    decide +kernel
  obtain ⟨space, reached, isGap⟩ := ran.exists_ok
  -- the frames are hidden, so that nothing evaluates the run again
  obtain ⟨kmem, isEmpty⟩ : ∃ kmem, smallKernel = empty kmem fun _ => none := by
    unfold smallKernel
    exact ⟨_, rfl⟩
  rw [isEmpty] at allowed reached ⊢
  have outcome := first_fit_of_run kmem (fun _ => none) (fun _ _ => rfl) gapRequests allowed
  rw [reached] at outcome ⊢
  refine ⟨allowed, outcome.1, isGap, ?_⟩
  refine (outcome.2 0x1001 (by decide) (by decide)).mono ?_
  intro result fit
  have rounded : pageAlignUpIf 0x1001 = 0x2000 := by decide
  exact fit.gap _ isGap

end KernelSpace

end SeekOs.Mm
