import SeekOs.Mm.MmCopy

/-!
# Fork copies memory and isolates it

Every page of the child gets a frame that was free before, while the frames of
the parent are never free.  The two page maps therefore reach different cells,
which is all that the isolation of later reads and writes needs.
-/

namespace SeekOs.Mm

open SeekOs.Base SeekOs.Lib List Option

/-- Different pages of the lower half have different frames. -/
def FramesInjective (mm : MmStruct) : Prop :=
  ∀ left right leftPte rightPte, left < 2 ^ 35 → right < 2 ^ 35 →
    mm.pages left = some leftPte → mm.pages right = some rightPte →
    leftPte.pageFrame = rightPte.pageFrame → left = right

/-- No page of the first space shares a frame with a page in the lower half of
the second. -/
def FramesSeparate (parent child : MmStruct) : Prop :=
  ∀ index other parentPte childPte, other < 2 ^ 35 →
    parent.pages index = some parentPte → child.pages other = some childPte →
    parentPte.pageFrame ≠ childPte.pageFrame

/-- No page in the lower half has this frame. -/
def FrameUnused (mm : MmStruct) (frame : Nat) : Prop :=
  ∀ index pte, index < 2 ^ 35 → mm.pages index = some pte → pte.pageFrame ≠ frame

section Translate

variable {mm parent child : MmStruct} {va : Nat} {cell : Nat × Nat} {other : Nat}

theorem translate_eq_some (translated : translate mm.pages va = some cell) :
    ∃ pte, mm.pages (pteIndex va) = some pte ∧ cell = (pte.pageFrame, va % pageSize) := by
  obtain ⟨pte, isPte, same⟩ := map_eq_some_iff.mp translated
  exact ⟨pte, isPte, same.symm⟩

theorem pteIndex_low (low : va < 2 ^ 47) : pteIndex va = va / pageSize ∧ pteIndex va < 2 ^ 35 := by
  have isQuotient := pteIndex_eq (low.trans (by decide))
  refine ⟨isQuotient, ?_⟩
  rw [isQuotient]
  exact Nat.div_lt_of_lt_mul low

theorem translate_injective (injective : FramesInjective mm)
    (low : va < 2 ^ 47) (otherLow : other < 2 ^ 47)
    (first : translate mm.pages va = some cell)
    (second : translate mm.pages other = some cell) : va = other := by
  obtain ⟨pte, isPte, isCell⟩ := translate_eq_some first
  obtain ⟨otherPte, isOther, sameCell⟩ := translate_eq_some second
  obtain ⟨quotient, small⟩ := pteIndex_low low
  obtain ⟨otherQuotient, otherSmall⟩ := pteIndex_low otherLow
  have pair : (pte.pageFrame, va % pageSize) =
      (otherPte.pageFrame, other % pageSize) := isCell.symm.trans sameCell
  obtain ⟨frames, offsets⟩ := Prod.mk.inj pair
  have indices := injective _ _ pte otherPte small otherSmall isPte isOther frames
  rw [quotient, otherQuotient] at indices
  calc
    va = pageSize * (va / pageSize) + va % pageSize := (Nat.div_add_mod _ _).symm
    _ = pageSize * (other / pageSize) + other % pageSize := by
      rw [indices, offsets]
    _ = other := Nat.div_add_mod _ _

theorem translate_separate (separate : FramesSeparate parent child) (otherLow : other < 2 ^ 47)
    (first : translate parent.pages va = some cell) :
    translate child.pages other ≠ some cell := by
  intro second
  obtain ⟨pte, isPte, isCell⟩ := translate_eq_some first
  obtain ⟨childPte, isChild, sameCell⟩ := translate_eq_some second
  have frames := congrArg Prod.fst (isCell.symm.trans sameCell)
  exact separate _ _ pte childPte (pteIndex_low otherLow).2 isPte isChild frames

theorem translate_unused (unused : FrameUnused mm cell.1)
    (low : va < 2 ^ 47) : translate mm.pages va ≠ some cell := by
  intro translated
  obtain ⟨pte, isPte, isCell⟩ := translate_eq_some translated
  exact unused _ pte (pteIndex_low low).2 isPte (congrArg Prod.fst isCell).symm

end Translate

theorem orFault_eq_ok {α : Type} {result : Option α} {value : α} :
    orFault result = .ok value ↔ result = some value := by
  cases result with
  | none => simp [orFault]
  | some other => simp [orFault]

variable {va : Nat} {len : Nat}

section Access

variable {parent child : MmStruct} {memory written : Memory} {virt : Nat} {data : List UInt8}

theorem mmRead_parent_of_child_write (separate : FramesSeparate parent child)
    (low : virt + data.length ≤ 2 ^ 47)
    (write : mmWrite memory child virt data = .ok written) (va len : Nat) :
    mmRead written parent va len = mmRead memory parent va len := by
  have stored := orFault_eq_ok.mp write
  unfold mmRead
  rw [readThrough_separate stored]
  intro offset inside index _ cell translated seen
  exact translate_separate separate (by omega) seen translated

theorem mmRead_child_of_parent_write (separate : FramesSeparate parent child)
    (write : mmWrite memory parent virt data = .ok written)
    (low : va + len ≤ 2 ^ 47) :
    mmRead written child va len = mmRead memory child va len := by
  have stored := orFault_eq_ok.mp write
  unfold mmRead
  rw [readThrough_separate stored]
  intro offset _ index inside cell translated
  exact translate_separate separate (by omega) translated

end Access

variable {count : Nat} {after : Memory}

section CopyPages

variable {parent child : MmStruct} {memory : Memory} {area : VmArea}

/-- What copying the addresses from `va` up to `limit` does. -/
structure RangeCopied (parent child : MmStruct) (before after : Memory)
    (va limit : Nat) : Prop where
  unused : ∀ cell : Nat × Nat, FrameUnused child cell.1 → after cell = before cell
  copied : ∀ address, va ≤ address → address < limit → ∃ byte,
    valueThrough after (translate child.pages) address = some byte ∧
      valueThrough before (translate parent.pages) address = some byte
  others : ∀ address, address < 2 ^ 47 → address < va ∨ limit ≤ address →
    valueThrough after (translate child.pages) address =
      valueThrough before (translate child.pages) address

theorem rangeCopied_of_transfer (injective : FramesInjective child)
    {written : Memory} {buffer : List UInt8}
    (low : va + len ≤ 2 ^ 47) (read : mmRead memory parent va len = .ok buffer)
    (write : mmWrite memory child va buffer = .ok written) :
    RangeCopied parent child memory written va (va + len) := by
  have loaded := orFault_eq_ok.mp read
  have stored := orFault_eq_ok.mp write
  have length : buffer.length = len := readThrough_length loaded
  constructor
  · intro cell unused
    apply writeThrough_outside stored
    intro offset inside
    exact translate_unused unused (by omega)
  · intro address lower upper
    obtain ⟨offset, rfl⟩ := Nat.exists_eq_add_of_le lower
    have inside : offset < len := Nat.lt_of_add_lt_add_left upper
    have fromParent := readThrough_value loaded inside
    have inChild := writeThrough_inside stored
      (by
        intro left right leftIn rightIn cell atLeft atRight
        have same := translate_injective injective (by omega) (by omega) atLeft atRight
        omega)
      (length ▸ inside)
    have isByte := List.getElem?_eq_getElem (length ▸ inside)
    exact ⟨_, inChild.trans isByte, fromParent.trans isByte⟩
  · intro address small outside
    unfold valueThrough
    cases translated : translate child.pages address with
    | none => rfl
    | some cell =>
      have kept : written cell = memory cell := by
        apply writeThrough_outside stored
        intro offset inside same
        have equal := translate_injective injective small (by omega) translated same
        omega
      simp only [map_some, kept]

theorem copy_round (above : area.vmStart ≤ va) (extent : va + (count + 1) * pageSize = area.vmEnd)
    (low : area.vmEnd ≤ 2 ^ 47) :
    min (uptrSub (uptrSub area.vmEnd area.vmStart) (uptrSub va area.vmStart)) pageSize = pageSize ∧
      uptrAdd va pageSize = va + pageSize ∧
      va + pageSize + count * pageSize = area.vmEnd := by
  have expand : (count + 1) * pageSize = count * pageSize + pageSize := Nat.succ_mul count pageSize
  have size : uptrSub area.vmEnd area.vmStart =
      area.vmEnd - area.vmStart := uptrSub_eq (by omega) (by omega)
  have offset : uptrSub va area.vmStart = va - area.vmStart := uptrSub_eq above (by omega)
  have remaining : uptrSub (area.vmEnd - area.vmStart) (va - area.vmStart) = area.vmEnd - va := by
    rw [uptrSub_eq (by omega) (by omega)]
    omega
  refine ⟨?_, uptrAdd_eq (by omega), by omega⟩
  rw [size, offset, remaining]
  exact Nat.min_eq_right (by omega)

theorem RangeCopied.trans {middle : Memory} {split limit : Nat}
    (separate : FramesSeparate parent child) (ordered : va ≤ split)
    (inside : split ≤ limit) (low : limit ≤ 2 ^ 47)
    (first : RangeCopied parent child memory middle va split)
    (second : RangeCopied parent child middle after split limit) :
    RangeCopied parent child memory after va limit := by
  constructor
  · intro cell unused
    rw [second.unused cell unused, first.unused cell unused]
  · intro address lower upper
    by_cases early : address < split
    · obtain ⟨byte, inChild, inParent⟩ := first.copied address lower early
      refine ⟨byte, ?_, inParent⟩
      rw [second.others address (by omega) (.inl early), inChild]
    · obtain ⟨byte, inChild, inParent⟩ := second.copied address (Nat.le_of_not_lt early) upper
      refine ⟨byte, inChild, ?_⟩
      rw [← inParent]
      unfold valueThrough
      cases translated : translate parent.pages address with
      | none => rfl
      | some cell =>
        have unused : FrameUnused child cell.1 := by
          intro index pte small isPte same
          obtain ⟨parentPte, isParent, isCell⟩ := translate_eq_some translated
          refine separate _ index parentPte pte small isParent isPte ?_
          rw [same, isCell]
        simp only [map_some, first.unused cell unused]
  · intro address small outside
    rw [second.others address small (by omega), first.others address small (by omega)]

/-- The page loop of `mm_copy` does not fault on a range that both spaces
map. -/
theorem mmCopyPages_total (memory : Memory) (above : area.vmStart ≤ va)
    (extent : va + count * pageSize = area.vmEnd) (low : area.vmEnd ≤ 2 ^ 47)
    (inParent : ∀ address, va ≤ address → address < area.vmEnd →
      (translate parent.pages address).isSome)
    (inChild : ∀ address, va ≤ address → address < area.vmEnd →
      (translate child.pages address).isSome) :
    ∃ after, mmCopyPages parent child area memory va count = .ok after := by
  induction count generalizing memory va with
  | zero => exact ⟨memory, rfl⟩
  | succ count induction =>
    obtain ⟨chunk, nextVa, inside⟩ := copy_round above extent low
    have readable : ∀ offset, offset < pageSize →
        (translate parent.pages (va + offset)).isSome := by
      intro offset below
      exact inParent (va + offset) (by omega) (by omega)
    obtain ⟨buffer, loaded⟩ := readThrough_total memory readable
    have length : buffer.length = pageSize := readThrough_length loaded
    have writable : ∀ offset, offset < buffer.length →
        (translate child.pages (va + offset)).isSome := by
      intro offset below
      exact inChild (va + offset) (by omega) (by omega)
    obtain ⟨written, stored⟩ := writeThrough_total memory writable
    have restParent : ∀ address, va + pageSize ≤ address →
        address < area.vmEnd → (translate parent.pages address).isSome := by
      intro address lower upper
      exact inParent address (by omega) upper
    have restChild : ∀ address, va + pageSize ≤ address →
        address < area.vmEnd → (translate child.pages address).isSome := by
      intro address lower upper
      exact inChild address (by omega) upper
    obtain ⟨after, rest⟩ := induction written (by omega) inside restParent restChild
    refine ⟨after, ?_⟩
    rw [mmCopyPages]
    simp only [chunk, nextVa, mmRead, mmWrite, loaded, stored, orFault, Except.bind]
    exact rest

/-- The page loop of `mm_copy`. -/
theorem mmCopyPages_copied (injective : FramesInjective child)
    (separate : FramesSeparate parent child) (above : area.vmStart ≤ va)
    (extent : va + count * pageSize = area.vmEnd) (low : area.vmEnd ≤ 2 ^ 47)
    (result : mmCopyPages parent child area memory va count = .ok after) :
    RangeCopied parent child memory after va area.vmEnd := by
  induction count generalizing memory va with
  | zero =>
    cases result
    have empty : va = area.vmEnd := by simpa using extent
    refine ⟨fun _ _ => rfl, ?_, fun _ _ _ => rfl⟩
    intro address lower upper
    exact absurd upper (Nat.not_lt.mpr (empty ▸ lower))
  | succ count induction =>
    obtain ⟨chunk, nextVa, rest⟩ := copy_round above extent low
    rw [mmCopyPages] at result
    simp only [chunk, nextVa] at result
    cases read : mmRead memory parent va pageSize with
    | error failure => simp [read, Except.bind] at result
    | ok buffer =>
      cases write : mmWrite memory child va buffer with
      | error failure => simp [read, write, Except.bind] at result
      | ok written =>
        simp only [read, write, Except.bind] at result
        have first := rangeCopied_of_transfer injective (by omega) read write
        have second := induction (by omega) rest result
        exact first.trans separate (Nat.le_add_right va pageSize) (by omega) low second

end CopyPages

/-- A recorded area is a page-aligned range of ordinary user memory. -/
structure VmArea.Regular (area : VmArea) : Prop where
  ordered : area.vmStart ≤ area.vmEnd
  word : area.vmEnd < 2 ^ 64
  alignedStart : pageSize ∣ area.vmStart
  alignedEnd : pageSize ∣ area.vmEnd
  user : UserFlags area.vmFlags

variable {child : MmStruct} {ptr index : Nat} {pageDir : Nat}

section CopyAreas

variable {κ : Type} [FrameAllocator κ] {parent : MmStruct} {memory : Memory}
  {state : Forking κ} {copied : List VmArea} {area : VmArea}
variable {kmem : κ} {flags : Nat}

open FrameAllocator

/-- The state of `mm_copy` after some areas of the parent. -/
structure Forked (parent : MmStruct) (memory : Memory) (state : Forking κ)
    (copied : List VmArea) : Prop where
  valid : Valid state.kmem
  areas : state.child.vmAreaHead = copied
  placed : ∀ area ∈ copied, area.Placed 0 (2 ^ 47)
  backed : ∀ index, index < 2 ^ 35 →
    ((state.child.pages index).isSome ↔ ∃ area ∈ copied, area.InPages index)
  parentHeld : ∀ index pte, parent.pages index = some pte → ¬Free state.kmem pte.pageFrame
  childHeld : ∀ index pte, index < 2 ^ 35 →
    state.child.pages index = some pte → ¬Free state.kmem pte.pageFrame
  injective : FramesInjective state.child
  separate : FramesSeparate parent state.child
  unused : ∀ cell : Nat × Nat, FrameUnused state.child cell.1 → state.memory cell = memory cell
  bytes : ∀ area ∈ copied, ∀ va, area.vmStart ≤ va → va < area.vmEnd →
    ∃ byte, valueThrough state.memory (translate state.child.pages) va = some byte ∧
      valueThrough memory (translate parent.pages) va = some byte

private theorem mmGetVmareaEnd_user (user : UserFlags flags) : mmGetVmareaEnd flags < 2 ^ 47 := by
  rw [mmGetVmareaEnd, if_pos user.1]
  decide

private theorem mmGetVmareaStart_user (user : UserFlags flags) :
    mmGetVmareaStart flags = miUserVmareaSpaceStart := by
  rw [mmGetVmareaStart, if_pos user.1]

/-- The request that `mm_copy` makes for an area. -/
theorem VmArea.Regular.request (regular : area.Regular) :
    uptrSub area.vmEnd area.vmStart = area.vmEnd - area.vmStart ∧
      pageAlignUpIf (area.vmEnd - area.vmStart) = area.vmEnd - area.vmStart ∧
      uptrAdd area.vmStart (area.vmEnd - area.vmStart) = area.vmEnd := by
  have aligned : (area.vmEnd - area.vmStart) % pageSize = 0 :=
    Nat.mod_eq_zero_of_dvd (Nat.dvd_sub regular.alignedEnd regular.alignedStart)
  have sum : area.vmStart + (area.vmEnd - area.vmStart) = area.vmEnd :=
    Nat.add_sub_cancel' regular.ordered
  refine ⟨uptrSub_eq regular.ordered regular.word, ?_, ?_⟩
  · simp [pageAlignUpIf, aligned]
  · rw [uptrAdd_eq (sum.trans_lt regular.word), sum]

/-- What the mapping of a new area does to a child under construction. -/
structure Extended (state : Forking κ) (kmem : κ) (child : MmStruct)
    (area : VmArea) : Prop where
  placed : area.Placed 0 (2 ^ 47)
  areas : child.vmAreaHead = state.child.vmAreaHead ++ [area]
  pages : PagesBacked area.vmFlags state.kmem kmem state.child.pages
    child.pages (area.vmStart / pageSize)
    (area.vmEnd / pageSize - area.vmStart / pageSize)

theorem mmCopyPages_unmapped (zero : area.vmStart = 0)
    (positive : 0 < area.vmEnd) (word : area.vmEnd < 2 ^ 64)
    (unmapped : child.pages 0 = none) :
    mmCopyPages parent child area memory 0 (count + 1) ≠ .ok after := by
  intro result
  have size : uptrSub area.vmEnd 0 = area.vmEnd := uptrSub_eq (Nat.zero_le _) word
  have chunk : ∃ rest, min area.vmEnd pageSize = rest + 1 :=
    Nat.exists_eq_succ_of_ne_zero (by
      have page : pageSize = 4096 := rfl
      omega)
  obtain ⟨rest, isChunk⟩ := chunk
  have none_at : translate child.pages 0 = none := by
    simp [translate, pteIndex, unmapped]
  rw [mmCopyPages] at result
  simp only [zero, size, isChunk, uptrSub_eq (le_refl 0) (by decide), Nat.sub_self] at result
  cases read : mmRead memory parent 0 (rest + 1) with
  | error failure => simp [read, Except.bind] at result
  | ok buffer =>
    have length := readThrough_length (orFault_eq_ok.mp read)
    cases buffer with
    | nil => simp at length
    | cons head tail =>
      simp [read, Except.bind, mmWrite, writeThrough, none_at, orFault] at result

section

variable (forked : Forked parent memory state copied)
include forked

/-- An area that does not start at address zero is recorded as it is. -/
theorem vmalloc_extended (regular : area.Regular) (explicit : area.vmStart ≠ 0)
    (result : vmalloc state.kmem state.child area.vmStart
        (uptrSub area.vmEnd area.vmStart) area.vmFlags =
      .ok (kmem, child, ptr)) (returned : ptr ≠ 0) :
    Extended state kmem child area := by
  obtain ⟨isSize, rounded, isEnd⟩ := regular.request
  rw [isSize] at result
  obtain ⟨found, areas, nonzero, _, search, mapped, isAreas, _⟩ := vmalloc_ok result returned
  rw [rounded] at search
  obtain ⟨isFound, isNext, below⟩ := mmFindVmArea_explicit explicit search
  rw [isEnd] at isFound
  have same : found = area := isFound
  subst same
  have placed : found.Placed 0 (2 ^ 47) := by
    refine ⟨?_, regular.alignedStart, regular.alignedEnd, Nat.zero_le _, ?_⟩
    · exact Nat.lt_of_sub_ne_zero nonzero
    · exact (below.trans (mmGetVmareaEnd_user regular.user)).le
  refine ⟨placed, isAreas.trans isNext, ?_⟩
  exact vmmVmap_area_backed regular.user forked.valid placed (le_refl _) mapped

/-- An area at address zero is searched for instead, and page zero of the
child stays unmapped. -/
theorem vmalloc_zero (regular : area.Regular) (zero : area.vmStart = 0)
    (apart : ∀ other ∈ copied, other.Apart area)
    (result : vmalloc state.kmem state.child area.vmStart
        (uptrSub area.vmEnd area.vmStart) area.vmFlags =
      .ok (kmem, child, ptr)) (returned : ptr ≠ 0) :
    0 < area.vmEnd ∧ child.pages 0 = none := by
  obtain ⟨isSize, rounded, _⟩ := regular.request
  rw [isSize] at result
  obtain ⟨found, areas, nonzero, small, search, mapped, _, _⟩ := vmalloc_ok result returned
  rw [rounded] at search small
  rw [mmGetVmareaStart_user regular.user] at small
  have linked := mmFindVmArea_linked search
  have positive : 0 < area.vmEnd := by omega
  have lowerBound : ∀ other ∈ copied, pageSize ≤ other.vmEnd := by
    intro other member
    have otherPlaced := forked.placed other member
    have endPositive : 0 < other.vmEnd := (Nat.zero_le other.vmStart).trans_lt otherPlaced.nonempty
    exact Nat.le_of_dvd endPositive otherPlaced.alignedEnd
  have chosen : chosenStart area.vmFlags state.child.vmAreaHead area.vmStart
      (area.vmEnd - area.vmStart) =
        searchStart area.vmFlags (area.vmEnd - area.vmStart) copied := by
    rw [chosenStart, zero, if_neg (by simp), forked.areas]
  rw [chosen] at linked
  have start : pageSize ≤ searchStart area.vmFlags (area.vmEnd - area.vmStart) copied ∧
      pageSize ∣ searchStart area.vmFlags (area.vmEnd - area.vmStart) copied ∧
      searchStart area.vmFlags (area.vmEnd - area.vmStart) copied ≤ 2 ^ 47 := by
    rcases searchStart_cases area.vmFlags (area.vmEnd - area.vmStart) copied with
      atRegion | ⟨other, member, atEnd⟩
    · rw [atRegion, mmGetVmareaStart_user regular.user]
      decide
    · rw [atEnd]
      have otherPlaced := forked.placed other member
      exact ⟨lowerBound other member, otherPlaced.alignedEnd, otherPlaced.below⟩
  obtain ⟨above, aligned, low⟩ := start
  have alignedSize : pageSize ∣ area.vmEnd - area.vmStart :=
    Nat.dvd_sub regular.alignedEnd regular.alignedStart
  have region : miUserVmareaSpaceStart = 65536 := rfl
  have finish : uptrAdd (searchStart area.vmFlags (area.vmEnd - area.vmStart) copied)
      (area.vmEnd - area.vmStart) =
        searchStart area.vmFlags (area.vmEnd - area.vmStart) copied +
          (area.vmEnd - area.vmStart) := uptrAdd_eq (by omega)
  have isFound := linked.area_eq
  rw [finish] at isFound
  have placed : found.Placed 0 (2 ^ 47) := by
    refine ⟨?_, ?_, ?_, Nat.zero_le _, ?_⟩
    · rw [isFound]
      exact Nat.lt_add_of_pos_right (Nat.pos_of_ne_zero nonzero)
    · rw [isFound]
      exact aligned
    · rw [isFound]
      exact Nat.dvd_add aligned alignedSize
    · rcases linked.bounded with below | ⟨other, member, below⟩
      · exact (below.trans (mmGetVmareaEnd_user regular.user)).le
      · rw [forked.areas] at member
        have otherPlaced := forked.placed other member
        exact below.trans (otherPlaced.nonempty.le.trans otherPlaced.below)
  have backed := vmmVmap_area_backed regular.user forked.valid placed (le_refl _) mapped
  have pageStart : 0 < found.vmStart / pageSize := by
    rw [isFound]
    exact Nat.div_pos above (by decide)
  refine ⟨positive, ?_⟩
  rw [backed.outside 0 (.inl pageStart)]
  have unmapped : ¬(state.child.pages 0).isSome := by
    intro isMapped
    obtain ⟨other, member, inOther⟩ := (forked.backed 0 (by decide)).mp isMapped
    have otherPlaced := forked.placed other member
    have otherZero : other.vmStart = 0 := by
      obtain ⟨multiple, isMultiple⟩ := otherPlaced.alignedStart
      have := inOther.1
      rw [isMultiple, Nat.mul_div_cancel_left _ (by decide)] at this
      rw [isMultiple, Nat.le_zero.mp this, Nat.mul_zero]
    have nonempty := otherPlaced.nonempty
    rcases apart other member with before | after
    · omega
    · omega
  exact not_isSome_iff_eq_none.mp unmapped

theorem Forked.vacant (placed : area.Placed 0 (2 ^ 47))
    (apart : ∀ other ∈ copied, other.Apart area) (inArea : area.InPages index) :
    state.child.pages index = none := by
  have unmapped : ¬(state.child.pages index).isSome := by
    intro isMapped
    obtain ⟨other, member, inOther⟩ :=
      (forked.backed index (placed.inPages_bound (le_refl _) inArea)).mp isMapped
    exact VmArea.not_inPages_of_apart (apart other member) inOther inArea
  exact not_isSome_iff_eq_none.mp unmapped

end

section Extension

variable {kmem : κ}

theorem Extended.injective (extended : Extended state kmem child area)
    (forked : Forked parent memory state copied) : FramesInjective child :=
  extended.pages.injOn forked.childHeld forked.injective

theorem Extended.separate (extended : Extended state kmem child area)
    (forked : Forked parent memory state copied) :
    FramesSeparate parent child := by
  intro index other parentPte childPte otherLow atParent atChild
  rcases extended.pages.page_cases atChild with ⟨_, free, _⟩ | ⟨_, old⟩
  · intro same
    rw [← same] at free
    exact forked.parentHeld index parentPte atParent free
  · exact forked.separate index other parentPte childPte otherLow atParent old

section

variable (forked : Forked parent memory state copied)
include forked

theorem Forked.parent_value (va : Nat) : valueThrough state.memory (translate parent.pages) va =
      valueThrough memory (translate parent.pages) va := by
  unfold valueThrough
  cases translated : translate parent.pages va with
  | none => rfl
  | some cell =>
    have unused : FrameUnused state.child cell.1 := by
      intro index pte small isPte same
      obtain ⟨parentPte, isParent, isCell⟩ := translate_eq_some translated
      refine forked.separate _ index parentPte pte small isParent isPte ?_
      rw [same, isCell]
    simp only [map_some, forked.unused cell unused]

theorem Forked.extend (extended : Extended state kmem child area)
    (apart : ∀ other ∈ copied, other.Apart area)
    (pages : RangeCopied parent child state.memory after area.vmStart area.vmEnd) :
    Forked parent memory ⟨kmem, after, child⟩ (copied ++ [area]) := by
  have kept : ∀ index pte, state.child.pages index = some pte → child.pages index = some pte := by
    intro index pte old
    rw [← old]
    apply extended.pages.same
    intro inArea
    rw [forked.vacant extended.placed apart inArea] at old
    cases old
  refine
    { valid := extended.pages.valid
      areas := by rw [extended.areas, forked.areas]
      placed := ?_, backed := ?_, parentHeld := ?_, childHeld := ?_
      injective := extended.injective forked
      separate := extended.separate forked
      unused := ?_, bytes := ?_ }
  · intro other member
    rcases mem_append.mp member with old | isNew
    · exact forked.placed other old
    · rw [mem_singleton.mp isNew]
      exact extended.placed
  · intro index small
    exact extended.pages.isSome_iff (perm_append_singleton area copied) Iff.rfl
      (forked.backed index small)
  · intro index pte atParent free
    exact forked.parentHeld index pte atParent (extended.pages.shrinks _ free)
  · intro index pte small atChild free
    rcases extended.pages.page_cases atChild with ⟨_, _, single⟩ | ⟨_, old⟩
    · exact not_free_of_single single free
    · exact forked.childHeld index pte small old (extended.pages.shrinks _ free)
  · intro cell unused
    refine (pages.unused cell unused).trans ?_
    apply forked.unused
    intro index pte small old
    exact unused index pte small (kept index pte old)
  · intro other member va lower upper
    rcases mem_append.mp member with old | isNew
    · obtain ⟨byte, inChild, inParent⟩ := forked.bytes other old va lower upper
      refine ⟨byte, ?_, inParent⟩
      have otherPlaced := forked.placed other old
      have low : va < 2 ^ 47 := upper.trans_le otherPlaced.below
      have outside : va < area.vmStart ∨ area.vmEnd ≤ va := by
        rcases apart other old with before | behind
        · exact .inl (upper.trans_le before)
        · exact .inr (behind.trans lower)
      rw [pages.others va low outside, ← inChild]
      have samePage : child.pages (pteIndex va) = state.child.pages (pteIndex va) := by
        obtain ⟨cell, translated, _⟩ := map_eq_some_iff.mp inChild
        obtain ⟨pte, isPte, _⟩ := translate_eq_some translated
        rw [isPte]
        exact kept _ pte isPte
      simp only [valueThrough, translate, samePage]
    · rw [mem_singleton.mp isNew] at lower upper
      obtain ⟨byte, inChild, inParent⟩ := pages.copied va lower upper
      refine ⟨byte, inChild, ?_⟩
      rw [← forked.parent_value va, inParent]

theorem Forked.extend_of_copy (regular : area.Regular) (apart : ∀ other ∈ copied, other.Apart area)
    (result : vmalloc state.kmem state.child area.vmStart
        (uptrSub area.vmEnd area.vmStart) area.vmFlags =
      .ok (kmem, child, ptr)) (returned : ptr ≠ 0)
    (copy : mmCopyPages parent child area state.memory area.vmStart
        ((area.vmEnd - area.vmStart + (pageSize - 1)) / pageSize) =
      .ok after) :
    Forked parent memory ⟨kmem, after, child⟩ (copied ++ [area]) := by
  have page : pageSize = 4096 := rfl
  by_cases zero : area.vmStart = 0
  · obtain ⟨positive, unmapped⟩ := vmalloc_zero forked regular zero apart result returned
    have rounds : ∃ count, (area.vmEnd - area.vmStart + (pageSize - 1)) / pageSize = count + 1 :=
      Nat.exists_eq_succ_of_ne_zero (by
        rw [page]
        omega)
    obtain ⟨count, isCount⟩ := rounds
    rw [isCount, zero] at copy
    exact absurd copy (mmCopyPages_unmapped zero positive regular.word unmapped)
  · have extended := vmalloc_extended forked regular zero result returned
    obtain ⟨first, isFirst⟩ := regular.alignedStart
    obtain ⟨last, isLast⟩ := regular.alignedEnd
    have nonempty := extended.placed.nonempty
    have extent : area.vmStart +
        (area.vmEnd - area.vmStart + (pageSize - 1)) / pageSize * pageSize = area.vmEnd := by
      simp only [page] at *
      omega
    exact forked.extend extended apart
      (mmCopyPages_copied (extended.injective forked)
        (extended.separate forked) (le_refl _) extent extended.placed.below
        copy)

end

end Extension

/-- The area loop of `mm_copy`, when it gets to its end. -/
theorem mmCopyAreas_forked {rest : List VmArea} {final : Forking κ}
    (forked : Forked parent memory state copied)
    (regular : ∀ area ∈ rest, area.Regular)
    (apart : (copied ++ rest).Pairwise VmArea.Apart)
    (result : mmCopyAreas parent state rest = .ok (final, true)) :
    Forked parent memory final (copied ++ rest) := by
  induction rest generalizing state copied with
  | nil =>
    cases result
    simpa using forked
  | cons area rest induction =>
    have isRegular := regular area mem_cons_self
    have before : ∀ other ∈ copied, other.Apart area := by
      intro other member
      exact (pairwise_append.mp apart).2.2 other member area mem_cons_self
    rw [mmCopyAreas] at result
    cases allocation : vmalloc state.kmem state.child area.vmStart
        (uptrSub area.vmEnd area.vmStart) area.vmFlags with
    | error failure => simp [allocation, Except.bind] at result
    | ok reached =>
      obtain ⟨kmem, child, ptr⟩ := reached
      by_cases isNull : ptr = 0
      · simp [allocation, Except.bind, isNull] at result
      · simp only [allocation, Except.bind, isNull, if_false] at result
        cases copy : mmCopyPages parent child area state.memory area.vmStart
            ((area.vmEnd - area.vmStart + (pageSize - 1)) / pageSize) with
        | error failure => simp [copy] at result
        | ok after =>
          simp only [copy] at result
          have next : Forked parent memory ⟨kmem, after, child⟩ (copied ++ [area]) :=
            forked.extend_of_copy isRegular before allocation isNull copy
          have tail := induction next
            (fun other member =>
              regular other (mem_cons_of_mem area member))
            (by simpa using apart) result
          simpa using tail

/-- The child fresh from `mm_create`. -/
theorem created_forked {created : κ} (valid : Valid kmem)
    (held : ∀ index pte, parent.pages index = some pte → ¬Free kmem pte.pageFrame)
    (result : mmCreate kmem parent.pages = .ok (created, child, pageDir)) :
    Forked parent memory ⟨created, memory, child⟩ [] := by
  unfold mmCreate at result
  cases allocation : pmmAllocPages kmem 1 with
  | none => simp [allocation] at result
  | some pair =>
    obtain ⟨next, pfn⟩ := pair
    simp only [allocation, Except.ok.injEq, Prod.mk.injEq] at result
    obtain ⟨rfl, rfl, rfl⟩ := result
    have lower : ∀ index, index < 2 ^ 35 →
        (if index < 2 ^ 35 then none else parent.pages index) = none :=
      fun index small => if_pos small
    have noPage : ∀ index pte, index < 2 ^ 35 →
        (if index < 2 ^ 35 then none else parent.pages index) ≠ some pte := by
      intro index pte small mapped
      rw [lower index small] at mapped
      cases mapped
    refine
      { valid := valid_of_alloc valid (le_refl 1) (by decide) allocation
        areas := rfl
        placed := ?_, backed := ?_, parentHeld := ?_, childHeld := ?_
        injective := ?_, separate := ?_
        unused := fun _ _ => rfl
        bytes := ?_ }
    · intro area member
      cases member
    · intro index small
      simp only [lower index small]
      simp
    · intro index pte atParent free
      exact held index pte atParent
        (free_after_alloc valid (le_refl 1) (by decide) allocation _ free).1
    · intro index pte small mapped
      exact absurd mapped (noPage index pte small)
    · intro left right leftPte rightPte small _ mapped
      exact absurd mapped (noPage left leftPte small)
    · intro index other parentPte childPte small _ mapped
      exact absurd mapped (noPage other childPte small)
    · intro area member
      cases member

end CopyAreas

/-- What a fork promises about the two address spaces and the memory. -/
structure CopiedAndIsolated (parent child : MmStruct)
    (before after : Memory) : Prop where
  /-- The same areas, in the same order, with the same bounds and flags. -/
  areas : child.vmAreaHead = parent.vmAreaHead
  /-- Every range inside an area reads in the child as in the parent. -/
  bytes : ∀ area ∈ parent.vmAreaHead, ∀ va len, area.vmStart ≤ va →
    va + len ≤ area.vmEnd →
    ∃ data, mmRead after child va len = .ok data ∧ mmRead before parent va len = .ok data
  /-- The parent reads as before. -/
  parentKept : ∀ va len, mmRead after parent va len = mmRead before parent va len
  /-- No frame backs a user page of both spaces. -/
  frames : ∀ index other parentPte childPte,
    index < 2 ^ 35 → other < 2 ^ 35 →
    parent.pages index = some parentPte → child.pages other = some childPte →
    parentPte.pageFrame ≠ childPte.pageFrame
  /-- A later write to the child is invisible in the parent. -/
  childWrites : ∀ memory written virt data,
    virt + data.length ≤ 2 ^ 47 →
    mmWrite memory child virt data = .ok written →
    ∀ va len, mmRead written parent va len = mmRead memory parent va len
  /-- A later write to the parent is invisible in the child. -/
  parentWrites : ∀ memory written virt data,
    mmWrite memory parent virt data = .ok written →
    ∀ va len, va + len ≤ 2 ^ 47 → mmRead written child va len = mmRead memory child va len

section Fork

variable {κ : Type} [FrameAllocator κ] {memory : Memory}

open FrameAllocator

theorem Forked.isolated {parent : MmStruct}
    {state : Forking κ} (forked : Forked parent memory state parent.vmAreaHead) :
    CopiedAndIsolated parent state.child memory state.memory := by
  refine ⟨forked.areas, ?_, ?_, ?_, ?_, ?_⟩
  · intro area member va len lower upper
    have agree : ∀ offset, offset < len → ∃ byte,
        valueThrough state.memory (translate state.child.pages) (va + offset) = some byte ∧
          valueThrough memory (translate parent.pages) (va + offset) = some byte := by
      intro offset inside
      exact forked.bytes area member (va + offset) (by omega) (by omega)
    obtain ⟨data, inChild, inParent⟩ := readThrough_agree agree
    exact ⟨data, orFault_eq_ok.mpr inChild, orFault_eq_ok.mpr inParent⟩
  · intro va len
    unfold mmRead
    congr 1
    apply readThrough_congr
    intro offset _ cell translated
    have value := forked.parent_value (va + offset)
    simpa [valueThrough, translated] using value
  · intro index other parentPte childPte _ small atParent atChild
    exact forked.separate index other parentPte childPte small atParent atChild
  · intro memory written virt data low write va len
    exact mmRead_parent_of_child_write forked.separate low write va len
  · intro memory written virt data write va len low
    exact mmRead_child_of_parent_write forked.separate write low

theorem mmCopy_single {kmem created next : κ} {parent fresh : MmStruct} {area : VmArea}
    (areas : parent.vmAreaHead = [area])
    (creation : mmCreate kmem parent.pages = .ok (created, fresh, pageDir))
    (allocation : vmalloc created fresh area.vmStart
        (uptrSub area.vmEnd area.vmStart) area.vmFlags =
      .ok (next, child, ptr)) (returned : ptr ≠ 0)
    (copied : mmCopyPages parent child area memory area.vmStart
        ((area.vmEnd - area.vmStart + (pageSize - 1)) / pageSize) =
      .ok after) :
    mmCopy kmem memory parent = .ok (next, after, some child) := by
  simp only [mmCopy, creation, areas, mmCopyAreas, allocation, Except.bind,
    returned, if_false, copied, if_true]

end Fork

section Small

open Pmm

def smallArea : VmArea :=
  ⟨0x20000, 0x21000, vmmFlagsUser⟩

/-- One area of one page, backed by the first frame the allocator gives out. -/
def smallParent : MmStruct :=
  { vmAreaHead := [smallArea]
    pages := fun index => if index = 0x20 then some ⟨1, vmmFlagsUser⟩ else none }

/-- The allocator after the frame of the parent was taken. -/
@[irreducible] def smallKmem : Kmem :=
  match bootedKmem.pmmAllocPages 1 with
  | none => bootedKmem
  | some (kmem, _) => kmem

private theorem bootedKmem_allocates : (bootedKmem.pmmAllocPages 1).map Prod.snd = some 1 := by
  decide +kernel

private theorem smallChild_allocates : Outcome
      (fun created => Outcome (fun reached => reached.2.2 ≠ 0 ∧ (reached.2.1.pages 0x20).isSome)
        (fun _ => False)
        (vmalloc created.1 created.2.1 smallArea.vmStart
          (uptrSub smallArea.vmEnd smallArea.vmStart) smallArea.vmFlags))
      (fun _ => False) (mmCreate smallKmem smallParent.pages) := by
  decide +kernel

private theorem smallParent_mapped (child : MmStruct)
    (mapped : (child.pages 0x20).isSome) (address : Nat)
    (lower : 0x20000 ≤ address) (upper : address < 0x21000) :
    (translate child.pages address).isSome := by
  have page : pteIndex address = 0x20 := by
    rw [pteIndex_eq (by omega)]
    simp only [pageSize]
    omega
  simpa [translate, page] using mapped

private theorem smallCopy_succeeds : ∃ next after child,
      mmCopy smallKmem (fun _ => 0) smallParent = .ok (next, after, some child) := by
  obtain ⟨⟨created, fresh, pageDir⟩, creation, allocates⟩ := smallChild_allocates.exists_ok
  obtain ⟨⟨kmem, child, ptr⟩, allocation, returned, mapped⟩ := allocates.exists_ok
  have extent : smallArea.vmStart +
      (smallArea.vmEnd - smallArea.vmStart + (pageSize - 1)) /
        pageSize * pageSize = smallArea.vmEnd := by decide
  obtain ⟨after, copied⟩ :=
    mmCopyPages_total (fun _ => 0) (le_refl smallArea.vmStart) extent (by decide)
      (smallParent_mapped smallParent (by decide))
      (smallParent_mapped child mapped)
  exact ⟨kmem, after, child, mmCopy_single rfl creation allocation returned copied⟩

end Small

end SeekOs.Mm
