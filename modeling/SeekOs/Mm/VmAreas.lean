import SeekOs.Mm.AddressSpace

/-!
# Areas and the pages behind them

One specification for each function of the address-space model: what mapping
and unmapping a range of pages does to the leaf entries, and where the area
search links a new area.
-/

namespace SeekOs.Mm

open SeekOs.Base SeekOs.Lib Function List Option

variable {first : Nat} {after : Pages}

section Mapping

variable {flags va count : Nat} {pages : Pages} {pte : Pte}

theorem pteIndex_eq (low : va < 2 ^ 48) : pteIndex va = va / pageSize := by
  apply Nat.mod_eq_of_lt
  exact Nat.div_lt_of_lt_mul low

/-- A range of pages that stays inside one window of 48-bit addresses, so that
the leaf entries of its pages are consecutive. -/
structure Window (va count : Nat) : Prop where
  inside : va % 2 ^ 48 + count * pageSize < 2 ^ 48
  small : va + count * pageSize < 2 ^ 64

theorem Window.next (window : Window va (count + 1)) :
    Window va 1 ∧ Window (va + pageSize) count ∧ uptrAdd va pageSize = va + pageSize ∧
      pteIndex (va + pageSize) = pteIndex va + 1 := by
  obtain ⟨inside, small⟩ := window
  have expand : (count + 1) * pageSize = count * pageSize + pageSize := Nat.succ_mul count pageSize
  have noWrap : va + pageSize < 2 ^ 64 := by omega
  refine ⟨⟨by omega, by omega⟩, ⟨?_, by omega⟩, uptrAdd_eq noWrap, ?_⟩
  · unfold pageSize at *
    omega
  · unfold pteIndex pageSize at *
    omega

theorem pteCount_eq (window : Window va count) : pteCount va count = count := by
  obtain ⟨inside, small⟩ := window
  have size : pageToSize count = count * pageSize := Nat.mod_eq_of_lt (by omega)
  rw [pteCount, size, uptrAdd_eq small]
  unfold pteIndex pageSize at *
  omega

theorem ptmMapPages_one (flags pa : Nat) (window : Window va 1)
    (vacant : pages (pteIndex va) = none) :
    ptmMapPages pages va pa 1 flags =
      .ok (update pages (pteIndex va) (leafEntry (pa >>> pageShift) flags)) := by
  rw [ptmMapPages, pteCount_eq window, ptmMapLoop, vacant]
  rfl

/-- What mapping `count` pages does to the leaf entries. -/
structure PagesMapped (flags : Nat) (before after : Pages)
    (first count : Nat) : Prop where
  outside : ∀ index, index < first ∨ first + count ≤ index → after index = before index
  inside : ∀ index, first ≤ index → index < first + count →
    ∃ pte, after index = some pte ∧ pte.flags = flags &&& pteFlagMask

/-- What unmapping `count` pages does to the leaf entries. -/
structure PagesCleared (before after : Pages) (first count : Nat) : Prop where
  outside : ∀ index, index < first ∨ first + count ≤ index → after index = before index
  inside : ∀ index, first ≤ index → index < first + count → after index = none

section Present

variable {last index : Nat} {before : Pages} {P : VmArea → Prop}
  {area : VmArea} {areas next : List VmArea}

theorem PagesMapped.same (mapped : PagesMapped flags before after first (last - first))
    (outside : ¬(first ≤ index ∧ index < last)) : after index = before index :=
  mapped.outside index (by omega)

section

variable (cleared : PagesCleared before after first (last - first))
include cleared

theorem PagesCleared.same
    (outside : ¬(first ≤ index ∧ index < last)) : after index = before index :=
  cleared.outside index (by omega)

theorem PagesCleared.gone (inside : first ≤ index ∧ index < last) : after index = none :=
  cleared.inside index inside.1 (by omega)

omit cleared in
/-- If an entry was present just when an area has it, it still is after a new
area was mapped. -/
theorem PagesMapped.isSome_iff (mapped : PagesMapped flags before after first (last - first))
    (permutation : next.Perm (area :: areas)) (inArea : P area ↔ first ≤ index ∧ index < last)
    (known : (before index).isSome ↔ ∃ other ∈ areas, P other) :
    (after index).isSome ↔ ∃ other ∈ next, P other := by
  simp only [permutation.mem_iff, mem_cons, exists_eq_or_imp, ← known]
  by_cases inside : first ≤ index ∧ index < last
  · obtain ⟨pte, stored, _⟩ := mapped.inside index inside.1 (by omega)
    simp [stored, inArea.mpr inside]
  · simp [mapped.same inside, inArea, inside]

/-- The same after an area was unmapped that shares the entry with no other. -/
theorem PagesCleared.isSome_iff
    (permutation : areas.Perm (area :: next)) (inArea : P area ↔ first ≤ index ∧ index < last)
    (apart : ∀ other ∈ next, P area → ¬P other)
    (known : (before index).isSome ↔ ∃ other ∈ areas, P other) :
    (after index).isSome ↔ ∃ other ∈ next, P other := by
  simp only [permutation.mem_iff, mem_cons, exists_eq_or_imp] at known
  by_cases inside : first ≤ index ∧ index < last
  · have elsewhere : ¬∃ other ∈ next, P other := by
      rintro ⟨other, member, inOther⟩
      exact apart other member (inArea.mpr inside) inOther
    simp [cleared.gone inside, elsewhere]
  · simp [cleared.same inside, known, inArea, inside]

end

end Present

theorem leafEntry_present (present : flags.testBit 0 = true) (pfn : Nat) :
    leafEntry pfn flags = some ⟨pfn % 2 ^ 36, flags &&& pteFlagMask⟩ := by
  simp [leafEntry, present]

theorem PagesMapped.cons (flagged : pte.flags = flags &&& pteFlagMask)
    (rest : PagesMapped flags (update pages first (some pte)) after (first + 1) count) :
    PagesMapped flags pages after first (count + 1) := by
  constructor
  · intro index outside
    have different : index ≠ first := by omega
    rw [rest.outside index (by omega), update_of_ne different]
  · intro index lower upper
    by_cases head : index = first
    · subst head
      refine ⟨pte, ?_, flagged⟩
      rw [rest.outside index (.inl (Nat.lt_succ_self index)), update_self]
    · exact rest.inside index (by omega) (by omega)

theorem PagesCleared.cons (rest : PagesCleared (update pages first none) after (first + 1) count) :
    PagesCleared pages after first (count + 1) := by
  constructor
  · intro index outside
    have different : index ≠ first := by omega
    rw [rest.outside index (by omega), update_of_ne different]
  · intro index lower upper
    by_cases head : index = first
    · subst head
      rw [rest.outside index (.inl (Nat.lt_succ_self index)), update_self]
    · exact rest.inside index (by omega) (by omega)

theorem ptmMapLoop_vacant (present : flags.testBit 0 = true)
    (vacant : ∀ index, first ≤ index → index < first + count → pages index = none) (pfn : Nat) :
    ∃ after, ptmMapLoop flags pages first pfn count = .ok after ∧
      PagesMapped flags pages after first count := by
  induction count generalizing pages first pfn with
  | zero =>
    refine ⟨pages, rfl, fun _ _ => rfl, ?_⟩
    intro index lower upper
    exact absurd upper (Nat.not_lt.mpr lower)
  | succ count induction =>
    have head : pages first = none := vacant first (le_refl _) (by omega)
    have restVacant : ∀ index, first + 1 ≤ index → index < first + 1 + count →
        update pages first (leafEntry pfn flags) index = none := by
      intro index lower upper
      rw [update_of_ne (by omega)]
      exact vacant index (by omega) (by omega)
    obtain ⟨after, result, mapped⟩ := induction restVacant (pfn + 1)
    refine ⟨after, ?_, ?_⟩
    · rw [ptmMapLoop, head]
      exact result
    · rw [leafEntry_present present] at mapped
      exact mapped.cons rfl

theorem ptmMapPages_vacant (pa : Nat) (present : flags.testBit 0 = true) (window : Window va count)
    (vacant : ∀ index, pteIndex va ≤ index → index < pteIndex va + count → pages index = none) :
    ∃ after, ptmMapPages pages va pa count flags = .ok after ∧
      PagesMapped flags pages after (pteIndex va) count := by
  rw [ptmMapPages, pteCount_eq window]
  exact ptmMapLoop_vacant present vacant _

variable {κ : Type} [FrameAllocator κ] {kmem next : κ} {before : Pages}

open FrameAllocator

/-- The loop of `vmm_vmap` over a range without present entries maps all of
it, unless the frames run out. -/
theorem vmmVmapLoop_pages (present : flags.testBit 0 = true) (kmem : κ) (window : Window va count)
    (vacant : ∀ index, pteIndex va ≤ index → index < pteIndex va + count → pages index = none) :
    Outcome
      (fun result =>
        PagesMapped flags pages result.2 (pteIndex va) count)
      (· = Panic.outOfMemory)
      (vmmVmapLoop flags kmem pages va count) := by
  induction count generalizing kmem pages va with
  | zero =>
    constructor
    · intro index _
      rfl
    · intro index lower upper
      exact absurd upper (Nat.not_lt.mpr lower)
  | succ count induction =>
    obtain ⟨page, nextWindow, nextVa, nextIndex⟩ := window.next
    rw [vmmVmapLoop]
    cases allocation : pmmAllocPages kmem 1 with
    | none => rfl
    | some pair =>
      obtain ⟨next, pfn⟩ := pair
      have head : pages (pteIndex va) = none := vacant _ (le_refl _) (by omega)
      have mapped := ptmMapPages_one flags (pfn <<< pageShift) page head
      have restVacant : ∀ index, pteIndex (va + pageSize) ≤ index →
          index < pteIndex (va + pageSize) + count →
          update pages (pteIndex va) (leafEntry ((pfn <<< pageShift) >>> pageShift) flags) index =
            none := by
        intro index lower upper
        rw [update_of_ne (by omega)]
        exact vacant index (by omega) (by omega)
      simp only [mapped, Except.bind, nextVa]
      refine (induction next nextWindow restVacant).mono ?_
      intro result restMapped
      rw [nextIndex, leafEntry_present present] at restMapped
      exact restMapped.cons rfl

/-- What a successful mapping takes from the allocator: every new page has a
frame of its own that was free. -/
structure PagesBacked (flags : Nat) (kmem next : κ) (before after : Pages)
    (first count : Nat) : Prop
    extends PagesMapped flags before after first count where
  valid : Valid next
  shrinks : ∀ frame, Free next frame → Free kmem frame
  keeps : ∀ frame, Single kmem frame → Single next frame
  fresh : ∀ index pte, first ≤ index → index < first + count →
    after index = some pte →
    Free kmem pte.pageFrame ∧ Single next pte.pageFrame
  injective : ∀ left right leftPte rightPte, first ≤ left →
    left < first + count → first ≤ right → right < first + count →
    after left = some leftPte → after right = some rightPte →
    leftPte.pageFrame = rightPte.pageFrame → left = right

/-- A page is a new one with a fresh frame, or was there before. -/
theorem PagesBacked.page_cases {first last index : Nat}
    (backed : PagesBacked flags kmem next before after first (last - first))
    (mapped : after index = some pte) :
    ((first ≤ index ∧ index < last) ∧ Free kmem pte.pageFrame ∧ Single next pte.pageFrame) ∨
      (¬(first ≤ index ∧ index < last) ∧ before index = some pte) := by
  by_cases inside : first ≤ index ∧ index < last
  · exact .inl ⟨inside, backed.fresh index pte inside.1 (by omega) mapped⟩
  · exact .inr ⟨inside, (backed.same inside).symm.trans mapped⟩

/-- If the old pages have frames of their own that are in use, all pages have
frames of their own. -/
theorem PagesBacked.injOn {first last : Nat}
    {K : Nat → Prop} (backed : PagesBacked flags kmem next before after first (last - first))
    (held : ∀ index pte, K index → before index = some pte → ¬Free kmem pte.pageFrame)
    (injective : ∀ left right leftPte rightPte, K left → K right → before left = some leftPte →
      before right = some rightPte → leftPte.pageFrame = rightPte.pageFrame → left = right)
    (left right : Nat) (leftPte rightPte : Pte) (leftIn : K left) (rightIn : K right)
    (atLeft : after left = some leftPte) (atRight : after right = some rightPte)
    (same : leftPte.pageFrame = rightPte.pageFrame) : left = right := by
  rcases backed.page_cases atLeft with ⟨leftNew, leftFree, _⟩ | ⟨_, leftOld⟩
  · rcases backed.page_cases atRight with ⟨rightNew, _, _⟩ | ⟨_, rightOld⟩
    · exact backed.injective left right leftPte rightPte leftNew.1
        (by omega) rightNew.1 (by omega) atLeft atRight same
    · exact absurd (same ▸ leftFree) (held right rightPte rightIn rightOld)
  · rcases backed.page_cases atRight with ⟨_, rightFree, _⟩ | ⟨_, rightOld⟩
    · exact absurd (same ▸ rightFree) (held left leftPte leftIn leftOld)
    · exact injective left right leftPte rightPte leftIn rightIn leftOld rightOld same

theorem ptmMapPages_one_ok {pa : Nat} (window : Window va 1)
    (result : ptmMapPages pages va pa 1 flags = .ok after) :
    after = update pages (pteIndex va) (leafEntry (pa >>> pageShift) flags) := by
  cases head : pages (pteIndex va) with
  | none =>
    rw [ptmMapPages_one flags pa window head] at result
    exact (Except.ok.inj result).symm
  | some pte =>
    rw [ptmMapPages, pteCount_eq window, ptmMapLoop, head] at result
    cases result

/-- The first round of the loop of `vmm_vmap`, when it gets to its end. -/
theorem vmmVmapLoop_step (present : flags.testBit 0 = true) (valid : Valid kmem)
    (window : Window va (count + 1))
    (result : vmmVmapLoop flags kmem pages va (count + 1) = .ok (next, after)) :
    ∃ taken pfn, pmmAllocPages kmem 1 = some (taken, pfn) ∧
      vmmVmapLoop flags taken
        (update pages (pteIndex va) (some ⟨pfn, flags &&& pteFlagMask⟩)) (va + pageSize) count =
        .ok (next, after) := by
  obtain ⟨page, _, nextVa, _⟩ := window.next
  rw [vmmVmapLoop] at result
  cases allocation : pmmAllocPages kmem 1 with
  | none => simp [allocation] at result
  | some pair =>
    obtain ⟨taken, pfn⟩ := pair
    have isFree : Free kmem pfn :=
      free_of_alloc valid (le_refl 1) (by decide) allocation pfn (le_refl _) (Nat.lt_succ_self _)
    have stored : leafEntry ((pfn <<< pageShift) >>> pageShift) flags =
        some ⟨pfn, flags &&& pteFlagMask⟩ := by
      rw [leafEntry_present present, Nat.shiftLeft_shiftRight,
        Nat.mod_eq_of_lt (free_bound valid pfn isFree)]
    cases mapping : ptmMapPages pages va (pfn <<< pageShift) 1 flags with
    | error failure => simp [allocation, mapping, Except.bind] at result
    | ok mapped =>
      simp only [allocation, mapping, Except.bind, nextVa] at result
      have isMapped := ptmMapPages_one_ok page mapping
      rw [stored] at isMapped
      subst isMapped
      exact ⟨taken, pfn, rfl, result⟩

/-- The loop of `vmm_vmap`, when it gets to its end. -/
theorem vmmVmapLoop_backed (present : flags.testBit 0 = true)
    (valid : Valid kmem) (window : Window va count)
    (result : vmmVmapLoop flags kmem pages va count = .ok (next, after)) :
    PagesBacked flags kmem next pages after (pteIndex va) count := by
  induction count generalizing kmem pages va with
  | zero =>
    cases result
    refine ⟨⟨fun _ _ => rfl, ?_⟩, valid, fun _ free => free, fun _ single => single, ?_, ?_⟩
    · intro index lower upper
      exact absurd upper (Nat.not_lt.mpr lower)
    · intro index pte lower upper
      exact absurd upper (Nat.not_lt.mpr lower)
    · intro left right leftPte rightPte lower upper
      exact absurd upper (Nat.not_lt.mpr lower)
  | succ count induction =>
    obtain ⟨_, nextWindow, _, nextIndex⟩ := window.next
    obtain ⟨taken, pfn, allocation, result⟩ := vmmVmapLoop_step present valid window result
    have isFree : Free kmem pfn :=
      free_of_alloc valid (le_refl 1) (by decide) allocation pfn (le_refl _) (Nat.lt_succ_self _)
    have notFree : ∀ frame, Free taken frame → Free kmem frame ∧ frame ≠ pfn := by
      intro frame free
      obtain ⟨before, apart⟩ := free_after_alloc valid (le_refl 1) (by decide) allocation frame free
      exact ⟨before, by omega⟩
    have takenValid : Valid taken := valid_of_alloc valid (le_refl 1) (by decide) allocation
    have rest := induction takenValid nextWindow result
    rw [nextIndex] at rest
    have head : after (pteIndex va) = some ⟨pfn, flags &&& pteFlagMask⟩ := by
      rw [rest.outside _ (.inl (Nat.lt_succ_self _)), update_self]
    have headOnly : ∀ index pte, pteIndex va + 1 ≤ index → index < pteIndex va + 1 + count →
        after index = some pte → pte.pageFrame ≠ pfn := by
      intro index pte lower upper isPte same
      have taken := (rest.fresh index pte lower upper isPte).1
      exact (notFree pte.pageFrame taken).2 same
    refine ⟨rest.toPagesMapped.cons rfl, rest.valid, ?_, ?_, ?_, ?_⟩
    · intro frame free
      exact (notFree frame (rest.shrinks frame free)).1
    · intro frame single
      apply rest.keeps
      exact single_after_alloc valid (le_refl 1) (by decide) allocation single
    · intro index pte lower upper isPte
      by_cases isHead : index = pteIndex va
      · subst isHead
        cases head.symm.trans isPte
        exact ⟨isFree, rest.keeps pfn (single_of_alloc valid allocation)⟩
      · obtain ⟨free, single⟩ := rest.fresh index pte (by omega) (by omega) isPte
        exact ⟨(notFree pte.pageFrame free).1, single⟩
    · intro left right leftPte rightPte leftLower leftUpper rightLower
        rightUpper atLeft atRight same
      by_cases leftHead : left = pteIndex va
      · by_cases rightHead : right = pteIndex va
        · exact leftHead.trans rightHead.symm
        · subst leftHead
          cases head.symm.trans atLeft
          exact absurd same.symm (headOnly right rightPte (by omega) (by omega) atRight)
      · by_cases rightHead : right = pteIndex va
        · subst rightHead
          cases head.symm.trans atRight
          exact absurd same (headOnly left leftPte (by omega) (by omega) atLeft)
        · exact rest.injective left right leftPte rightPte (by omega)
            (by omega) (by omega) (by omega) atLeft atRight same

theorem ptmUnmapPages_one (kmem : κ) (window : Window va 1)
    (mapped : pages (pteIndex va) = some pte) :
    ptmUnmapPages kmem pages va 1 =
      .ok (pmmFreePages kmem pte.pageFrame, update pages (pteIndex va) none) := by
  rw [ptmUnmapPages, pteCount_eq window, ptmUnmapLoop, mapped]
  rfl

/-- The frames behind consecutive leaf entries. -/
def framesAt (pages : Pages) (first count : Nat) : List Nat :=
  (List.range' first count).filterMap fun index =>
    (pages index).map Pte.pageFrame

theorem framesAt_succ (mapped : pages first = some pte) :
    framesAt pages first (count + 1) = pte.pageFrame :: framesAt pages (first + 1) count := by
  unfold framesAt
  exact filterMap_cons_some (by rw [mapped]; rfl)

theorem framesAt_update (entry : Option Pte) :
    framesAt (update pages first entry) (first + 1) count = framesAt pages (first + 1) count := by
  apply filterMap_congr
  intro index inside
  have apart : index ≠ first := by
    have bounds := mem_range'_1.mp inside
    omega
  rw [update_of_ne apart]

/-- The loop of `vmm_vunmap` over mapped pages clears them, and frees their frames
in order. -/
theorem vmmVunmapLoop_pages (kmem : κ) (window : Window va count)
    (mapped : ∀ index, pteIndex va ≤ index → index < pteIndex va + count → (pages index).isSome) :
    ∃ after, vmmVunmapLoop kmem pages va count =
        .ok ((framesAt pages (pteIndex va) count).foldl pmmFreePages kmem, after) ∧
      PagesCleared pages after (pteIndex va) count := by
  induction count generalizing kmem pages va with
  | zero =>
    refine ⟨pages, rfl, ?_, ?_⟩
    · intro index _
      rfl
    · intro index lower upper
      exact absurd upper (Nat.not_lt.mpr lower)
  | succ count induction =>
    obtain ⟨page, nextWindow, nextVa, nextIndex⟩ := window.next
    have headMapped := mapped (pteIndex va) (le_refl _) (by omega)
    obtain ⟨pte, head⟩ := isSome_iff_exists.mp headMapped
    have restMapped : ∀ index, pteIndex (va + pageSize) ≤ index →
        index < pteIndex (va + pageSize) + count →
        (update pages (pteIndex va) none index).isSome := by
      intro index lower upper
      rw [update_of_ne (by omega)]
      exact mapped index (by omega) (by omega)
    obtain ⟨after, rest, cleared⟩ :=
      induction (pmmFreePages kmem pte.pageFrame) nextWindow restMapped
    rw [nextIndex] at rest cleared
    rw [framesAt_update] at rest
    refine ⟨after, ?_, cleared.cons⟩
    rw [vmmVunmapLoop, ptmUnmapPages_one kmem page head, framesAt_succ head]
    simpa only [Except.bind, nextVa, foldl_cons] using rest

/-- What unmapping gives back to the allocator: the frames of the pages and
no others. -/
structure PagesReturned (kmem next : κ) (before : Pages)
    (first count : Nat) : Prop where
  valid : Valid next
  freed : ∀ frame, Free next frame → Free kmem frame ∨
    ∃ index pte, first ≤ index ∧ index < first + count ∧
      before index = some pte ∧ pte.pageFrame = frame
  keeps : ∀ frame, Single kmem frame →
    (∀ index pte, first ≤ index → index < first + count →
      before index = some pte → pte.pageFrame ≠ frame) →
    Single next frame

/-- The loop of `vmm_vunmap` over pages that each have a frame of their
own. -/
theorem vmmVunmapLoop_returned (valid : Valid kmem) (window : Window va count)
    (single : ∀ index pte, pteIndex va ≤ index →
      index < pteIndex va + count → pages index = some pte →
      Single kmem pte.pageFrame)
    (injective : ∀ left right leftPte rightPte, pteIndex va ≤ left →
      left < pteIndex va + count → pteIndex va ≤ right →
      right < pteIndex va + count → pages left = some leftPte →
      pages right = some rightPte →
      leftPte.pageFrame = rightPte.pageFrame → left = right)
    (result : vmmVunmapLoop kmem pages va count = .ok (next, after)) :
    PagesReturned kmem next pages (pteIndex va) count := by
  induction count generalizing kmem pages va with
  | zero =>
    cases result
    exact ⟨valid, fun _ free => .inl free, fun _ single _ => single⟩
  | succ count induction =>
    obtain ⟨page, nextWindow, nextVa, nextIndex⟩ := window.next
    rw [vmmVunmapLoop] at result
    cases head : pages (pteIndex va) with
    | none =>
      rw [ptmUnmapPages, pteCount_eq page, ptmUnmapLoop, head] at result
      cases result
    | some pte =>
      rw [ptmUnmapPages_one kmem page head] at result
      simp only [Except.bind, nextVa] at result
      have headSingle : Single kmem pte.pageFrame := single _ pte (le_refl _) (by omega) head
      have others : ∀ index other, pteIndex va + 1 ≤ index → index < pteIndex va + 1 + count →
          update pages (pteIndex va) none index = some other →
          pages index = some other ∧ other.pageFrame ≠ pte.pageFrame := by
        intro index other lower upper isOther
        rw [update_of_ne (by omega)] at isOther
        refine ⟨isOther, ?_⟩
        intro same
        have : index = pteIndex va :=
          injective index _ other pte (by omega) (by omega) (le_refl _) (by omega) isOther head same
        omega
      have rest := induction (valid_of_free valid headSingle) nextWindow
        (by
          intro index other lower upper isOther
          rw [nextIndex] at lower upper
          obtain ⟨old, different⟩ := others index other lower upper isOther
          exact single_after_free valid headSingle
            (single index other (by omega) (by omega) old) different)
        (by
          intro left right leftPte rightPte leftLower leftUpper
            rightLower rightUpper atLeft atRight same
          rw [nextIndex] at leftLower leftUpper rightLower rightUpper
          exact injective left right leftPte rightPte (by omega) (by omega) (by omega) (by omega)
            (others left leftPte leftLower leftUpper atLeft).1
            (others right rightPte rightLower rightUpper atRight).1 same)
        result
      rw [nextIndex] at rest
      refine ⟨rest.valid, ?_, ?_⟩
      · intro frame free
        rcases rest.freed frame free with
          before | ⟨index, other, lower, upper, isOther, isFrame⟩
        · rcases free_after_free valid headSingle frame before with
            old | isHead
          · exact .inl old
          · exact .inr ⟨_, pte, le_refl _, by omega, head, isHead.symm⟩
        · refine .inr ⟨index, other, by omega, by omega, ?_, isFrame⟩
          exact (others index other lower upper isOther).1
      · intro frame isSingle avoids
        refine rest.keeps frame ?_ ?_
        · exact single_after_free valid headSingle isSingle
            (avoids _ pte (le_refl _) (by omega) head).symm
        · intro index other lower upper isOther
          exact avoids index other (by omega) (by omega) (others index other lower upper isOther).1

end Mapping

namespace VmArea

/-- The page count that `vmalloc` and `vfree` compute for an area. -/
abbrev nrPages (area : VmArea) : Nat :=
  sizeToPage (uptrSub area.vmEnd area.vmStart)

/-- Two areas share no address. -/
def Apart (left right : VmArea) : Prop :=
  left.vmEnd ≤ right.vmStart ∨ right.vmEnd ≤ left.vmStart

theorem Apart.symm {left right : VmArea} (apart : left.Apart right) : right.Apart left :=
  Or.symm apart

/-- A non-empty page-aligned area between two bounds. -/
structure Placed (lower upper : Nat) (area : VmArea) : Prop where
  nonempty : area.vmStart < area.vmEnd
  alignedStart : pageSize ∣ area.vmStart
  alignedEnd : pageSize ∣ area.vmEnd
  above : lower ≤ area.vmStart
  below : area.vmEnd ≤ upper

end VmArea

/-- Flags of user pages that are ordinary memory. -/
def UserFlags (flags : Nat) : Prop :=
  flags &&& vmmFlagsUser = vmmFlagsUser ∧ flags &&& vmmFlagsMmio ≠ vmmFlagsMmio

instance (flags : Nat) : Decidable (UserFlags flags) :=
  inferInstanceAs (Decidable (_ ∧ _))

variable {flags : Nat}

theorem UserFlags.present (user : UserFlags flags) : flags.testBit 0 = true := by
  have bit : (flags &&& vmmFlagsUser).testBit 0 = vmmFlagsUser.testBit 0 :=
    congrArg (Nat.testBit · 0) user.1
  rw [Nat.testBit_and] at bit
  have userBit : vmmFlagsUser.testBit 0 = true := by decide
  simpa [userBit] using bit

namespace VmArea

variable {area other : VmArea} {lower upper : Nat} {index : Nat}

def InPages (area : VmArea) (index : Nat) : Prop :=
  area.vmStart / pageSize ≤ index ∧ index < area.vmEnd / pageSize

theorem not_inPages_of_apart (apart : area.Apart other)
    (inArea : area.InPages index) : ¬other.InPages index := by
  intro inOther
  rcases apart with before | after
  · have ordered : area.vmEnd / pageSize ≤ other.vmStart / pageSize := Nat.div_le_div_right before
    exact absurd (inArea.2.trans_le ordered) (Nat.not_lt.mpr inOther.1)
  · have ordered : other.vmEnd / pageSize ≤ area.vmStart / pageSize := Nat.div_le_div_right after
    exact absurd (inOther.2.trans_le ordered) (Nat.not_lt.mpr inArea.1)

theorem Placed.inPages_bound (placed : area.Placed lower upper)
    (low : upper ≤ 2 ^ 47) (inArea : area.InPages index) :
    index < 2 ^ 35 := by
  have bounded : area.vmEnd / pageSize ≤ 2 ^ 47 / pageSize :=
    Nat.div_le_div_right (placed.below.trans low)
  exact inArea.2.trans_le (bounded.trans (by decide))

def InEntries (area : VmArea) (index : Nat) : Prop :=
  pteIndex area.vmStart ≤ index ∧ index < pteIndex area.vmEnd

theorem Placed.window (placed : area.Placed lower upper)
    (sameWindow : lower / 2 ^ 48 = upper / 2 ^ 48) (small : upper < 2 ^ 64) :
    ∃ count, area.nrPages = count ∧ area.vmStart + count * pageSize = area.vmEnd ∧
      pteIndex area.vmStart + count = pteIndex area.vmEnd ∧
      Window area.vmStart count := by
  obtain ⟨first, start⟩ := placed.alignedStart
  obtain ⟨last, finish⟩ := placed.alignedEnd
  have nonempty := placed.nonempty
  have above := placed.above
  have below := placed.below
  have difference : uptrSub area.vmEnd area.vmStart = area.vmEnd - area.vmStart :=
    uptrSub_eq nonempty.le (below.trans_lt small)
  refine ⟨last - first, ?_, ?_, ?_, ?_, ?_⟩
  all_goals
    simp only [sizeToPage, difference, pteIndex, pageSize] at *
    omega

/-- Areas of the lower half are in one window, and their leaf entries have
their page numbers. -/
theorem Placed.low_window (placed : area.Placed lower upper) (low : upper ≤ 2 ^ 47) :
    lower / 2 ^ 48 = upper / 2 ^ 48 ∧ upper < 2 ^ 64 ∧
      pteIndex area.vmStart = area.vmStart / pageSize ∧
      pteIndex area.vmEnd = area.vmEnd / pageSize := by
  have nonempty := placed.nonempty
  have above := placed.above
  have below := placed.below
  refine ⟨by omega, by omega, ?_, ?_⟩
  · exact pteIndex_eq (by omega)
  · exact pteIndex_eq (by omega)

end VmArea

theorem pageRounds_extent {start count : Nat} (small : start + count * pageSize < 2 ^ 64) :
    pageRounds start count = count := by
  have size : pageToSize count = count * pageSize := Nat.mod_eq_of_lt (by omega)
  have finish : uptrAdd start (count * pageSize) = start + count * pageSize := uptrAdd_eq small
  rw [pageRounds, size, finish]
  simp only [pageSize]
  omega

/-- Flags of pages that are ordinary memory. -/
def OrdinaryFlags (flags : Nat) : Prop :=
  flags.testBit 0 = true ∧ flags &&& vmmFlagsMmio ≠ vmmFlagsMmio

theorem UserFlags.ordinary (user : UserFlags flags) : OrdinaryFlags flags := ⟨user.present, user.2⟩

section AreaEntries

variable {κ : Type} [FrameAllocator κ] {area : VmArea}
  {lower upper : Nat} {pages : Pages}
  (ordinary : OrdinaryFlags flags) (placed : area.Placed lower upper)
  (sameWindow : lower / 2 ^ 48 = upper / 2 ^ 48) (small : upper < 2 ^ 64)

include ordinary placed sameWindow small

open FrameAllocator

/-- On an area of ordinary memory `vmm_vmap` and `vmm_vunmap` run their loops
once a page. -/
theorem loops_of_placed (κ : Type) [FrameAllocator κ] :
    ∃ count, Window area.vmStart count ∧ pteIndex area.vmEnd - pteIndex area.vmStart = count ∧
      pteIndex area.vmStart + count = pteIndex area.vmEnd ∧
      (∀ (kmem : κ) pages, vmmVmap kmem pages area.vmStart area.nrPages flags =
        vmmVmapLoop flags kmem pages area.vmStart count) ∧
      ∀ (kmem : κ) pages, vmmVunmap kmem pages area.vmStart area.nrPages flags =
        vmmVunmapLoop kmem pages area.vmStart count := by
  obtain ⟨count, isCount, _, last, window⟩ := placed.window sameWindow small
  have rounds : pageRounds area.vmStart count = count := pageRounds_extent window.small
  refine ⟨count, window, Nat.sub_eq_of_eq_add' last.symm, last, ?_, ?_⟩
  · intro kmem pages
    rw [isCount, vmmVmap, if_neg ordinary.2, rounds]
  · intro kmem pages
    rw [isCount, vmmVunmap, if_neg ordinary.2, rounds]

theorem vmmVmap_entries (kmem : κ) (vacant : ∀ index, area.InEntries index → pages index = none) :
    Outcome
      (fun result => PagesMapped flags pages result.2 (pteIndex area.vmStart)
        (pteIndex area.vmEnd - pteIndex area.vmStart))
      (· = Panic.outOfMemory)
      (vmmVmap kmem pages area.vmStart area.nrPages flags) := by
  obtain ⟨count, window, isCount, last, loop, _⟩ :=
    loops_of_placed ordinary placed sameWindow small κ
  rw [loop, isCount]
  refine vmmVmapLoop_pages ordinary.1 kmem window ?_
  intro index above below
  exact vacant index ⟨above, last ▸ below⟩

theorem vmmVmap_entries_backed {kmem next : κ} (valid : Valid kmem)
    (result : vmmVmap kmem pages area.vmStart area.nrPages flags = .ok (next, after)) :
    PagesBacked flags kmem next pages after (pteIndex area.vmStart)
      (pteIndex area.vmEnd - pteIndex area.vmStart) := by
  obtain ⟨count, window, isCount, _, loop, _⟩ := loops_of_placed ordinary placed sameWindow small κ
  rw [loop] at result
  rw [isCount]
  exact vmmVmapLoop_backed ordinary.1 valid window result

theorem vmmVunmap_entries (kmem : κ)
    (mapped : ∀ index, area.InEntries index → (pages index).isSome) :
    ∃ next after,
      vmmVunmap kmem pages area.vmStart area.nrPages flags = .ok (next, after) ∧
      PagesCleared pages after (pteIndex area.vmStart)
        (pteIndex area.vmEnd - pteIndex area.vmStart) := by
  obtain ⟨count, window, isCount, last, _, loop⟩ :=
    loops_of_placed ordinary placed sameWindow small κ
  rw [loop, isCount]
  refine ⟨_, vmmVunmapLoop_pages kmem window ?_⟩
  intro index above below
  exact mapped index ⟨above, last ▸ below⟩

theorem vmmVunmap_entries_returned {kmem next : κ} (valid : Valid kmem)
    (single : ∀ index pte, area.InEntries index → pages index = some pte →
      Single kmem pte.pageFrame)
    (injective : ∀ left right leftPte rightPte, area.InEntries left →
      area.InEntries right → pages left = some leftPte →
      pages right = some rightPte →
      leftPte.pageFrame = rightPte.pageFrame → left = right)
    (result : vmmVunmap kmem pages area.vmStart area.nrPages flags = .ok (next, after)) :
    PagesReturned kmem next pages (pteIndex area.vmStart)
      (pteIndex area.vmEnd - pteIndex area.vmStart) := by
  obtain ⟨count, window, isCount, last, _, loop⟩ :=
    loops_of_placed ordinary placed sameWindow small κ
  rw [loop] at result
  rw [isCount]
  refine vmmVunmapLoop_returned valid window ?_ ?_ result
  · intro index pte above below
    exact single index pte ⟨above, last ▸ below⟩
  · intro left right leftPte rightPte leftAbove leftBelow rightAbove rightBelow
    exact injective left right leftPte rightPte ⟨leftAbove, last ▸ leftBelow⟩
      ⟨rightAbove, last ▸ rightBelow⟩

end AreaEntries

section AreaPages

variable {κ : Type} [FrameAllocator κ] {area : VmArea} {lower upper : Nat} {pages : Pages}

theorem vmmVmap_area (user : UserFlags flags) (kmem : κ)
    (placed : area.Placed lower upper) (low : upper ≤ 2 ^ 47)
    (vacant : ∀ index, area.InPages index → pages index = none) :
    Outcome
      (fun result => PagesMapped flags pages result.2 (area.vmStart / pageSize)
        (area.vmEnd / pageSize - area.vmStart / pageSize))
      (· = Panic.outOfMemory)
      (vmmVmap kmem pages area.vmStart area.nrPages flags) := by
  obtain ⟨sameWindow, small, start, finish⟩ := placed.low_window low
  rw [← start, ← finish]
  refine vmmVmap_entries user.ordinary placed sameWindow small kmem ?_
  intro index inEntries
  rw [VmArea.InEntries, start, finish] at inEntries
  exact vacant index inEntries

theorem vmmVmap_area_backed (user : UserFlags flags) {kmem next : κ}
    (valid : FrameAllocator.Valid kmem) (placed : area.Placed lower upper)
    (low : upper ≤ 2 ^ 47) (result : vmmVmap kmem pages area.vmStart area.nrPages flags =
      .ok (next, after)) :
    PagesBacked flags kmem next pages after (area.vmStart / pageSize)
      (area.vmEnd / pageSize - area.vmStart / pageSize) := by
  obtain ⟨sameWindow, small, start, finish⟩ := placed.low_window low
  rw [← start, ← finish]
  exact vmmVmap_entries_backed user.ordinary placed sameWindow small valid result

theorem vmmVunmap_area (user : UserFlags flags) (kmem : κ)
    (placed : area.Placed lower upper) (low : upper ≤ 2 ^ 47)
    (mapped : ∀ index, area.InPages index → (pages index).isSome) :
    ∃ next after,
      vmmVunmap kmem pages area.vmStart area.nrPages flags = .ok (next, after) ∧
      PagesCleared pages after (area.vmStart / pageSize)
        (area.vmEnd / pageSize - area.vmStart / pageSize) := by
  obtain ⟨sameWindow, small, start, finish⟩ := placed.low_window low
  rw [← start, ← finish]
  refine vmmVunmap_entries user.ordinary placed sameWindow small kmem ?_
  intro index inEntries
  rw [VmArea.InEntries, start, finish] at inEntries
  exact mapped index inEntries

end AreaPages

/-- The areas are placed between the bounds and are pairwise disjoint. -/
structure AreasPlaced (lower upper : Nat) (areas : List VmArea) : Prop where
  placed : ∀ area ∈ areas, area.Placed lower upper
  apart : areas.Pairwise VmArea.Apart

namespace AreasPlaced

variable {lower upper : Nat} {areas next : List VmArea} {area : VmArea}

theorem insert (placed : AreasPlaced lower upper areas) (permutation : next.Perm (area :: areas))
    (newPlaced : area.Placed lower upper)
    (newApart : ∀ other ∈ areas, area.Apart other) :
    AreasPlaced lower upper next := by
  constructor
  · intro other member
    rcases mem_cons.mp (permutation.mem_iff.mp member) with rfl | old
    · exact newPlaced
    · exact placed.placed other old
  · refine (permutation.pairwise_iff VmArea.Apart.symm).mpr ?_
    exact pairwise_cons.mpr ⟨newApart, placed.apart⟩

theorem remove (placed : AreasPlaced lower upper areas) (permutation : areas.Perm (area :: next)) :
    AreasPlaced lower upper next ∧ ∀ other ∈ next, area.Apart other := by
  have pairwise := (permutation.pairwise_iff VmArea.Apart.symm).mp placed.apart
  obtain ⟨apart, rest⟩ := pairwise_cons.mp pairwise
  refine ⟨⟨?_, rest⟩, apart⟩
  intro other member
  exact placed.placed other (permutation.mem_iff.mpr (mem_cons_of_mem area member))

end AreasPlaced

section Search

variable {ptr size : Nat} {areas next : List VmArea} {area : VmArea} {rest : List VmArea}

/-- Where the search of `mm_find_vm_area` puts an area: after the first area
whose successor in the list is far enough away, else after the last one. -/
def searchStart (flags size : Nat) : List VmArea → Nat
  | [] => mmGetVmareaStart flags
  | [only] => only.vmEnd
  | lower :: upper :: rest =>
    if size ≤ uptrSub upper.vmStart lower.vmEnd then
      lower.vmEnd
    else
      searchStart flags size (upper :: rest)

/-- The address at which an accepted request is placed. -/
def chosenStart (flags : Nat) (areas : List VmArea) (ptr size : Nat) : Nat :=
  if ptr ≠ 0 then ptr else searchStart flags size areas

/-- What linking a new area means for the list. -/
structure AreaLinked (flags start size : Nat) (areas : List VmArea)
    (area : VmArea) (next : List VmArea) : Prop where
  area_eq : area = ⟨start, uptrAdd start size, flags⟩
  permutation : next.Perm (area :: areas)
  bounded : area.vmEnd < mmGetVmareaEnd flags ∨ ∃ other ∈ areas, area.vmEnd ≤ other.vmStart

theorem vmAreaAppend_linked {start : Nat}
    (result : vmAreaAppend areas start size flags = some (area, next)) :
    AreaLinked flags start size areas area next := by
  unfold vmAreaAppend at result
  by_cases tooHigh : mmGetVmareaEnd flags ≤ uptrAdd start size
  · simp [tooHigh] at result
  · simp only [tooHigh, if_false, Option.some.injEq, Prod.mk.injEq] at result
    obtain ⟨rfl, rfl⟩ := result
    refine ⟨rfl, ?_, .inl (Nat.lt_of_not_le tooHigh)⟩
    exact perm_append_singleton _ areas

theorem findCave_linked (result : findCave size flags areas = some (some (area, next))) :
    AreaLinked flags (searchStart flags size areas) size areas area next := by
  induction areas generalizing next with
  | nil => cases result
  | cons lower tail induction =>
    cases tail with
    | nil => cases result
    | cons upper rest =>
      rw [findCave] at result
      rw [searchStart]
      by_cases wide : size ≤ uptrSub upper.vmStart lower.vmEnd
      · rw [if_pos wide] at result ⊢
        by_cases short : upper.vmStart < uptrAdd lower.vmEnd size
        · simp [short] at result
        · simp only [short, if_false, Option.some.injEq, Prod.mk.injEq] at result
          obtain ⟨rfl, rfl⟩ := result
          refine ⟨rfl, List.Perm.swap _ _ _, .inr ⟨upper, by simp, ?_⟩⟩
          exact Nat.le_of_not_lt short
      · rw [if_neg wide] at result ⊢
        simp only [map_eq_some_iff, Prod.exists, Prod.mk.injEq] at result
        obtain ⟨found, cave, _, others, rfl, rfl, rfl⟩ := result
        have linked := induction cave
        refine ⟨linked.area_eq, ?_, ?_⟩
        · exact (linked.permutation.cons lower).trans (List.Perm.swap _ _ _)
        · refine linked.bounded.imp_right ?_
          intro ⟨other, member, ends⟩
          exact ⟨other, mem_cons_of_mem lower member, ends⟩

theorem findCave_cons_none {lower upper : VmArea}
    (result : findCave size flags (lower :: upper :: rest) = none) :
    ¬size ≤ uptrSub upper.vmStart lower.vmEnd ∧ findCave size flags (upper :: rest) = none := by
  rw [findCave] at result
  by_cases wide : size ≤ uptrSub upper.vmStart lower.vmEnd
  · rw [if_pos wide] at result
    by_cases short : upper.vmStart < uptrAdd lower.vmEnd size
    · simp [short] at result
    · simp [short] at result
  · rw [if_neg wide, map_eq_none_iff] at result
    exact ⟨wide, result⟩

theorem searchStart_of_no_cave {first second : VmArea}
    (result : findCave size flags (first :: second :: rest) = none) :
    searchStart flags size (first :: second :: rest) = ((second :: rest).getLastD first).vmEnd := by
  induction rest generalizing first second with
  | nil =>
    obtain ⟨narrow, _⟩ := findCave_cons_none result
    simp [searchStart, narrow]
  | cons third rest induction =>
    obtain ⟨narrow, others⟩ := findCave_cons_none result
    rw [searchStart, if_neg narrow, induction others]
    simp only [getLastD_cons]

/-- Every accepted request links one area, at the chosen address. -/
theorem mmFindVmArea_linked (result : mmFindVmArea areas ptr size flags = some (area, next)) :
    AreaLinked flags (chosenStart flags areas ptr size) size areas area
      next := by
  unfold mmFindVmArea at result
  unfold chosenStart
  by_cases explicit : ptr ≠ 0
  · rw [if_pos explicit] at result ⊢
    by_cases tooHigh : mmGetVmareaEnd flags ≤ uptrAdd ptr size
    · simp [tooHigh] at result
    · simp only [tooHigh, if_false] at result
      split at result
      · cases result
      · cases result
        refine ⟨rfl, ?_, .inl (Nat.lt_of_not_le tooHigh)⟩
        exact perm_append_singleton _ areas
  · rw [if_neg explicit] at result ⊢
    match areas with
    | [] => exact vmAreaAppend_linked result
    | [only] => exact vmAreaAppend_linked result
    | first :: second :: rest =>
      cases cave : findCave size flags (first :: second :: rest) with
      | some found =>
        simp only [cave] at result
        subst result
        exact findCave_linked cave
      | none =>
        simp only [cave] at result
        rw [searchStart_of_no_cave cave]
        exact vmAreaAppend_linked result

/-- An explicit range that is accepted is recorded at the end of the list. -/
theorem mmFindVmArea_explicit (explicit : ptr ≠ 0)
    (result : mmFindVmArea areas ptr size flags = some (area, next)) :
    area = ⟨ptr, uptrAdd ptr size, flags⟩ ∧ next = areas ++ [area] ∧
      area.vmEnd < mmGetVmareaEnd flags := by
  unfold mmFindVmArea at result
  rw [if_pos explicit] at result
  by_cases tooHigh : mmGetVmareaEnd flags ≤ uptrAdd ptr size
  · simp [tooHigh] at result
  · simp only [tooHigh, if_false] at result
    split at result
    · cases result
    · cases result
      exact ⟨rfl, rfl, Nat.lt_of_not_le tooHigh⟩

theorem searchStart_cons (flags size : Nat) (first : VmArea) (rest : List VmArea) :
    ∃ area ∈ first :: rest, searchStart flags size (first :: rest) = area.vmEnd := by
  induction rest generalizing first with
  | nil => exact ⟨first, mem_cons_self, rfl⟩
  | cons second rest induction =>
    rw [searchStart]
    by_cases wide : size ≤ uptrSub second.vmStart first.vmEnd
    · exact ⟨first, mem_cons_self, if_pos wide⟩
    · obtain ⟨area, member, isEnd⟩ := induction second
      rw [if_neg wide]
      exact ⟨area, mem_cons_of_mem first member, isEnd⟩

theorem searchStart_cases (flags size : Nat) (areas : List VmArea) :
    searchStart flags size areas = mmGetVmareaStart flags ∨
      ∃ area ∈ areas, searchStart flags size areas = area.vmEnd := by
  cases areas with
  | nil => exact .inl rfl
  | cons first rest => exact .inr (searchStart_cons flags size first rest)

/-- `mm_get_vm_area` unlinks the first area with the given start. -/
theorem mmGetVmArea_perm (result : mmGetVmArea ptr areas = some (area, next)) :
    areas.Perm (area :: next) ∧ area.vmStart = ptr := by
  induction areas generalizing next with
  | nil => cases result
  | cons head rest induction =>
    rw [mmGetVmArea] at result
    by_cases found : ptr = head.vmStart
    · rw [if_pos found] at result
      cases result
      exact ⟨List.Perm.refl _, found.symm⟩
    · rw [if_neg found] at result
      simp only [map_eq_some_iff, Prod.exists, Prod.mk.injEq] at result
      obtain ⟨_, others, inRest, rfl, rfl⟩ := result
      obtain ⟨permutation, starts⟩ := induction inRest
      exact ⟨(permutation.cons head).trans (List.Perm.swap _ _ _), starts⟩

theorem mmGetVmArea_sublist (result : mmGetVmArea ptr areas = some (area, next)) :
    next.Sublist areas := by
  induction areas generalizing next with
  | nil => cases result
  | cons head rest induction =>
    rw [mmGetVmArea] at result
    split at result
    · cases result
      exact sublist_cons_self _ _
    · simp only [map_eq_some_iff, Prod.exists, Prod.mk.injEq] at result
      obtain ⟨_, others, found, rfl, rfl⟩ := result
      exact (induction found).cons_cons head

theorem mmGetVmArea_isSome (member : area ∈ areas) :
    ∃ found next, mmGetVmArea area.vmStart areas = some (found, next) := by
  induction areas with
  | nil => cases member
  | cons head rest induction =>
    rw [mmGetVmArea]
    by_cases found : area.vmStart = head.vmStart
    · exact ⟨head, rest, if_pos found⟩
    · have inRest : area ∈ rest := by
        rcases mem_cons.mp member with rfl | inRest
        · exact absurd rfl found
        · exact inRest
      obtain ⟨other, next, result⟩ := induction inRest
      exact ⟨other, head :: next, by rw [if_neg found, result]; rfl⟩

end Search

section Vmalloc

variable {κ : Type} [FrameAllocator κ]

/-- `vmalloc` either refuses and changes nothing, or links an area and maps
it. -/
theorem vmalloc_outcome {kmem : κ} {mm : MmStruct} {ptr size : Nat}
    {accepts : κ × MmStruct × Nat → Prop} {tolerates : Panic → Prop}
    (refused : accepts (kmem, mm, 0)) (linked : ∀ area next, size ≠ 0 →
      pageAlignUpIf size < mmGetVmareaStart flags →
      mmFindVmArea mm.vmAreaHead ptr (pageAlignUpIf size) flags = some (area, next) →
      Outcome (fun result => accepts (result.1, ⟨next, result.2⟩, area.vmStart)) tolerates
        (vmmVmap kmem mm.pages area.vmStart area.nrPages flags)) :
    Outcome accepts tolerates (vmalloc kmem mm ptr size flags) := by
  unfold vmalloc
  by_cases zero : size = 0
  · rw [if_pos zero]
    exact refused
  · rw [if_neg zero]
    by_cases tooLarge : mmGetVmareaStart flags ≤ pageAlignUpIf size
    · simp only [tooLarge, if_true]
      exact refused
    · simp only [tooLarge, if_false]
      cases search : mmFindVmArea mm.vmAreaHead ptr (pageAlignUpIf size) flags with
      | none => exact refused
      | some pair =>
        obtain ⟨area, next⟩ := pair
        exact (linked area next zero (Nat.lt_of_not_le tooLarge) search).map

/-- A `vmalloc` that returns an address has linked and mapped an area. -/
theorem vmalloc_ok {kmem next : κ} {mm after : MmStruct} {ptr size va : Nat}
    (result : vmalloc kmem mm ptr size flags = .ok (next, after, va))
    (returned : va ≠ 0) :
    ∃ area areas, size ≠ 0 ∧ pageAlignUpIf size < mmGetVmareaStart flags ∧
      mmFindVmArea mm.vmAreaHead ptr (pageAlignUpIf size) flags = some (area, areas) ∧
      vmmVmap kmem mm.pages area.vmStart area.nrPages flags = .ok (next, after.pages) ∧
      after.vmAreaHead = areas ∧ va = area.vmStart := by
  have outcome : Outcome
      (fun reached : κ × MmStruct × Nat => reached.2.2 ≠ 0 →
        ∃ area areas, size ≠ 0 ∧ pageAlignUpIf size < mmGetVmareaStart flags ∧
          mmFindVmArea mm.vmAreaHead ptr (pageAlignUpIf size) flags = some (area, areas) ∧
          vmmVmap kmem mm.pages area.vmStart area.nrPages flags =
            .ok (reached.1, reached.2.1.pages) ∧
          reached.2.1.vmAreaHead = areas ∧ reached.2.2 = area.vmStart)
      (fun _ => True) (vmalloc kmem mm ptr size flags) := by
    apply vmalloc_outcome
    · intro isNull
      exact absurd rfl isNull
    · intro area areas nonzero small search
      refine (Outcome.self _).mono ?_
      intro reached mapped _
      exact ⟨area, areas, nonzero, small, search, mapped, rfl, rfl⟩
  rw [result] at outcome
  exact outcome returned

end Vmalloc

end SeekOs.Mm
