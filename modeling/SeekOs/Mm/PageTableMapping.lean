import SeekOs.Mm.PageTableWindow

/-!
# The mapping law of the page tables

The three table passes of `ptm_map_pages` only ever hang an empty table into a
vacant entry, which no walk outside the recursive window can see, and the leaf
loop changes one walk at a time.  Over the leaf entries alone this is the model
of `ptm_map_pages` that the address spaces are built on.
-/

namespace SeekOs.Mm

open SeekOs.Lib SeekOs.Lib.Radix Function List Option PtEntry

/-! ## The table passes -/

variable {page table first count : Nat} {assignsLarge : Bool} {before : PhysMemory}

section Passes

variable {κ : Type} [FrameAllocator κ]

open FrameAllocator

/-- The state between two steps of a mapping: none of the tables is a frame
that can still be handed out. -/
structure TablesSound (kmem : κ) (memory : PhysMemory) (root : Nat) :
    Prop where
  tree : PageTree memory root
  noLarge : NoLargePages memory root
  valid : Valid kmem
  used : ∀ {path : List (Fin 512)} {table : Nat},
    Direct recursiveEntryIdx path → path.length ≤ 3 →
    descend PtEntry.table memory root path = some table → ¬Free kmem table

variable {kmem next : κ} {memory : PhysMemory} {root flags : Nat}

/-- What a table pass hangs into a vacant entry. -/
structure NewTable (memory : PhysMemory) (root : Nat)
    (path : List (Fin 512)) (table : Nat) (slot : Fin 512) (entry : PtEntry)
    (fresh : Nat) : Prop where
  linkable : Linkable PtEntry.table recursiveEntryIdx 3 memory root path table
    slot entry fresh PtEntry.zero
  absent : ¬(memory table slot).present = true
  small : entry.largePage = false

namespace NewTable

variable {path : List (Fin 512)} {fresh : Nat} {slot : Fin 512} {entry : PtEntry}

/-- Away from the vacant entry and the new table nothing changes. -/
theorem link_other (new : NewTable memory root path table slot entry fresh)
    {other : List (Fin 512)} {reached : Nat}
    (direct : Direct recursiveEntryIdx other) (short : other.length ≤ 3)
    (reaches : descend PtEntry.table memory root other = some reached)
    {otherSlot : Fin 512} (different : reached = table → otherSlot ≠ slot) :
    link memory table slot entry fresh zero reached otherSlot = memory reached otherSlot := by
  have notFresh : reached ≠ fresh := by
    intro same
    rw [same] at reaches
    exact new.linkable.unused direct short reaches
  rw [link, update_of_ne notFresh, put_of_ne entry different]

theorem extends_link (tree : PageTree memory root)
    (new : NewTable memory root path table slot entry fresh) :
    Extends memory (link memory table slot entry fresh zero)
      root := by
  have treeAfter := new.linkable.tree_link tree
  have tables : ∀ {other : List (Fin 512)} {reached : Nat},
      Direct recursiveEntryIdx other → other.length ≤ 3 →
      descend PtEntry.table memory root other = some reached →
      descend PtEntry.table
        (link memory table slot entry fresh zero) root other = some reached := by
    intro other reached direct short reaches
    rw [new.linkable.descend_link tree direct short, if_neg]
    · exact reaches
    · intro isNew
      rw [isNew, descend_concat, new.linkable.reaches, bind_some, new.linkable.vacant] at reaches
      cases reaches
  refine ⟨tables, ?_, ?_⟩
  · intro page direct
    unfold walkPage
    rw [new.linkable.descend_link tree direct (by simp [tablePath])]
    by_cases isNew : tablePath page = path ++ [slot]
    · -- the new leaf table is empty, and there was none before
      rw [if_pos isNew, isNew, descend_concat, new.linkable.reaches]
      simp [new.linkable.vacant, link, zero]
    · rw [if_neg isNew]
      cases reached : descend PtEntry.table memory root (tablePath page) with
      | none => rfl
      | some leafTable =>
        simp only [bind_some]
        rw [new.link_other direct (by simp [tablePath]) reached]
        intro same
        rw [same] at reached
        have samePath := tree.distinct direct new.linkable.direct.of_concat (by simp [tablePath])
          new.linkable.short.le reached new.linkable.reaches
        have short := new.linkable.short
        rw [← samePath] at short
        simp [tablePath] at short
  · intro page found mapped
    unfold walkPage at mapped ⊢
    cases reached : descend PtEntry.table memory root (tablePath page) with
    | none =>
      rw [reached] at mapped
      cases mapped
    | some leafTable =>
      rw [reached, bind_some] at mapped
      have present : (memory leafTable (tableSlot page)).present =
          true := by
        by_contra absent
        simp [absent] at mapped
      rw [← descend_directPath tree.loop] at reached
      have short : (directPath recursiveEntryIdx (tablePath page)).length ≤ 3 :=
        directPath_length _ (tablePath page)
      rw [← descend_directPath treeAfter.loop,
        tables (directPath_direct _ _) short reached, bind_some,
        new.link_other (directPath_direct _ _) short reached]
      · exact mapped
      · intro same sameSlot
        rw [same, sameSlot] at present
        exact new.absent present

theorem noLarge_link (tree : PageTree memory root) (noLarge : NoLargePages memory root)
    (new : NewTable memory root path table slot entry fresh) :
    NoLargePages (link memory table slot entry fresh zero) root := by
  have stored : ∀ {other : List (Fin 512)} {reached : Nat}
      {otherSlot : Fin 512}, Direct recursiveEntryIdx other →
      other.length ≤ 3 →
      descend PtEntry.table memory root other = some reached →
      ((reached = table → otherSlot ≠ slot) → (memory reached otherSlot).largePage = false) →
      (link memory table slot entry fresh zero reached otherSlot).largePage = false := by
    intro other reached otherSlot direct short reaches small
    by_cases here : reached = table ∧ otherSlot = slot
    · obtain ⟨rfl, rfl⟩ := here
      have notFresh : reached ≠ fresh := by
        intro same
        rw [same] at reaches
        exact new.linkable.unused direct short reaches
      rw [link, update_of_ne notFresh, put_same]
      exact new.small
    · have elsewhere : reached = table → otherSlot ≠ slot :=
        fun same sameSlot => here ⟨same, sameSlot⟩
      rw [new.link_other direct short reaches elsewhere]
      exact small elsewhere
  constructor
  · intro otherSlot
    exact stored .nil (Nat.zero_le 3) rfl fun _ => noLarge.mustBeZero otherSlot
  · intro other reached otherSlot direct short reaches present
    rw [new.linkable.descend_link tree direct (by omega)] at reaches
    by_cases isNew : other = path ++ [slot]
    · rw [if_pos isNew] at reaches
      cases reaches
      simp [link, zero]
    · rw [if_neg isNew] at reaches
      apply stored direct (by omega) reaches
      intro elsewhere
      rw [new.link_other direct (by omega) reaches elsewhere] at present
      exact noLarge.lower direct short reaches present

theorem sound_link (sound : TablesSound kmem memory root)
    (allocated : pmmAllocPages kmem 1 = some (next, fresh))
    (new : NewTable memory root path table slot entry fresh) :
    TablesSound next (link memory table slot entry fresh zero)
      root := by
  have freeAfter := free_after_alloc sound.valid le_rfl (by decide) allocated
  refine ⟨new.linkable.tree_link sound.tree, new.noLarge_link sound.tree sound.noLarge,
    valid_of_alloc sound.valid le_rfl (by decide) allocated, ?_⟩
  intro other reached direct short reaches free
  obtain ⟨wasFree, elsewhere⟩ := freeAfter reached free
  rw [new.linkable.descend_link sound.tree direct short] at reaches
  by_cases isNew : other = path ++ [slot]
  · rw [if_pos isNew] at reaches
    cases reaches
    omega
  · rw [if_neg isNew] at reaches
    exact sound.used direct short reaches wasFree

end NewTable

/-- The table of a page is there. -/
def Reachable (memory : PhysMemory) (root page : Nat) : Prop :=
  ∃ table, descend PtEntry.table memory root (tablePath page) = some table

/-- What a pass over the entries of some pages achieves: the tables that their
entries lead to are there. -/
structure PassDone (kmem : κ) (memory before : PhysMemory) (root : Nat)
    (pages : Nat → Prop) : Prop where
  sound : TablesSound kmem memory root
  extends_before : Extends before memory root
  reachable : ∀ (page : Nat) {below : Nat}, pages page →
    below / 2 ^ 9 % 2 ^ 27 = page % 2 ^ 27 → Reachable memory root below

/-- The entry of a page whose walk starts in the recursive slot leads to the
table of the pages below it. -/
theorem reachable_below (tree : PageTree memory root) {below : Nat}
    (lower : pdePages ≤ page) (upper : page < pdePages + 2 ^ 27)
    (inside : below / 2 ^ 9 % 2 ^ 27 = page % 2 ^ 27) :
    descend PtEntry.table memory root
        (directPath recursiveEntryIdx (tablePath page) ++ [tableSlot page]) =
      descend PtEntry.table memory root (tablePath below) := by
  have belowEq : tablePath below = [Fin.ofNat 512 (page / 2 ^ 18),
      Fin.ofNat 512 (page / 2 ^ 9), tableSlot page] := by
    unfold tablePath tableSlot
    rw [ofNat_eq (below / 2 ^ 27) (page / 2 ^ 18) (by omega),
      ofNat_eq (below / 2 ^ 18) (page / 2 ^ 9) (by omega),
      ofNat_eq (below / 2 ^ 9) page (by omega)]
  rw [descend_concat, descend_directPath tree.loop,
    tablePath_window lower upper, ← descend_concat, belowEq, cons_append,
    descend, tree.loop, bind_some]
  rfl

/-- One round of a pass: the entry is there, or an empty table is hung into
it. -/
theorem allocEntry_spec (sound : TablesSound kmem memory root)
    (present : flags.testBit 0 = true) (small : flags.testBit 7 = false)
    (lower : pdePages ≤ page) (upper : page < pdePages + 2 ^ 27)
    (reaches : descend PtEntry.table memory root (tablePath page) =
      some table) (assigned : assignsLarge = true ∨ table = root) :
    Outcome
      (fun (result : κ × PhysMemory) =>
        PassDone result.1 result.2 memory root (· = page))
      (· = Panic.outOfMemory)
      (allocEntry (setTable assignsLarge flags) root kmem memory (pagePointer page)) := by
  have pageSmall : page < 2 ^ 36 := by
    unfold pdePages at upper
    omega
  have located := entryAt_pagePointer sound.tree sound.noLarge pageSmall
  rw [reaches, map_some] at located
  have pathShort : (directPath recursiveEntryIdx (tablePath page)).length < 3 := by
    rw [tablePath_window lower upper]
    have tailLength := directPath_length recursiveEntryIdx
      [Fin.ofNat 512 (page / 2 ^ 18), Fin.ofNat 512 (page / 2 ^ 9)]
    simp only [directPath, dropWhile_cons, decide_true, if_true,
      length_cons, length_nil] at tailLength ⊢
    omega
  have directReaches := reaches
  rw [← descend_directPath sound.tree.loop] at directReaches
  unfold allocEntry
  rw [located]
  simp only
  by_cases isPresent : (memory table (tableSlot page)).present = true
  · rw [if_pos isPresent]
    refine ⟨sound, Extends.refl memory root, ?_⟩
    intro visited below isPage inside
    rw [isPage] at inside
    have notLarge := sound.noLarge.lower (directPath_direct _ _)
      (Nat.le_of_lt_succ pathShort) directReaches isPresent
    refine ⟨(memory table (tableSlot page)).pageFrame, ?_⟩
    rw [← reachable_below sound.tree lower upper inside, descend_concat,
      directReaches, bind_some, table_of_present isPresent notLarge]
  rw [if_neg isPresent]
  cases allocated : pmmAllocPages kmem 1 with
  | none => exact rfl
  | some pair =>
    obtain ⟨next, pfn⟩ := pair
    have wasFree := free_of_alloc sound.valid le_rfl (by decide) allocated
      pfn le_rfl (Nat.lt_succ_self pfn)
    have frameEq : pfn % 2 ^ 36 = pfn := Nat.mod_eq_of_lt (free_bound sound.valid pfn wasFree)
    have notLarge : (setTable assignsLarge flags
        (memory table (tableSlot page)) pfn).largePage = false := by
      rcases assigned with isAssigned | isRoot
      · simp [setTable, isAssigned, small]
      · cases assignsLarge with
        | true => simp [setTable, small]
        | false =>
          rw [isRoot]
          exact sound.noLarge.mustBeZero (tableSlot page)
    have new : NewTable memory root (directPath recursiveEntryIdx (tablePath page)) table
        (tableSlot page)
        (setTable assignsLarge flags (memory table (tableSlot page)) pfn) pfn := by
      refine ⟨⟨?_, pathShort, directReaches, table_of_absent isPresent, ?_,
        rfl, ?_⟩, isPresent, notLarge⟩
      · apply (directPath_direct _ _).concat
        intro atRoot isLoop
        rw [atRoot] at directReaches
        have isRoot : root = table := Option.some.inj directReaches
        have loop := (table_eq_some sound.tree.loop).1
        rw [isRoot, ← isLoop] at loop
        exact isPresent loop
      · rw [table_of_present present notLarge]
        exact congrArg some frameEq
      · intro other direct short reached
        exact sound.used direct short reached wasFree
    have storedReaches : descend PtEntry.table
        (put memory table (tableSlot page)
          (setTable assignsLarge flags (memory table (tableSlot page)) pfn)) root
        (tablePath page) = some table := by
      rw [← descend_directPath (new.linkable.loop_put sound.tree)]
      exact new.linkable.descend_put_path sound.tree
    have cleared := clearPage_pagePointer pageSmall storedReaches (by rw [put_same]; exact present)
    rw [put_same] at cleared
    have frame : (setTable assignsLarge flags
        (memory table (tableSlot page)) pfn).pageFrame = pfn := frameEq
    rw [frame] at cleared
    simp only [cleared, Except.map]
    refine ⟨new.sound_link sound allocated, new.extends_link sound.tree, ?_⟩
    intro visited below isPage inside
    rw [isPage] at inside
    have treeAfter := new.linkable.tree_link sound.tree
    refine ⟨pfn, ?_⟩
    refine (reachable_below treeAfter lower upper inside).symm.trans ?_
    refine (new.linkable.descend_link sound.tree new.linkable.direct ?_).trans (if_pos rfl)
    rw [length_append, length_singleton]
    exact pathShort

theorem PassDone.reachable_of {pages : Nat → Prop} {kmemBefore : κ}
    (done : PassDone kmem memory before root pages)
    (sound : TablesSound kmemBefore before root)
    (reachable : Reachable before root page) :
    Reachable memory root page := by
  obtain ⟨table, reaches⟩ := reachable
  exact ⟨table, done.extends_before.reachable sound.tree done.sound.tree
    (directPath_length _ (tablePath page)) reaches⟩

theorem PassDone.append {middle : PhysMemory} {kmemMiddle : κ}
    {head tail pages : Nat → Prop}
    (first : PassDone kmemMiddle middle before root head)
    (second : PassDone kmem memory middle root tail)
    (covered : ∀ page, pages page → head page ∨ tail page) :
    PassDone kmem memory before root pages := by
  refine ⟨second.sound, first.extends_before.trans second.extends_before, ?_⟩
  intro page below visited inside
  rcases covered page visited with inHead | inTail
  · exact second.reachable_of first.sound (first.reachable page inHead inside)
  · exact second.reachable page inTail inside

theorem allocEntries_spec (sound : TablesSound kmem memory root)
    (present : flags.testBit 0 = true) (small : flags.testBit 7 = false)
    {last : Nat} (isCount : first + count = last + 1) (lower : pdePages ≤ first)
    (upper : last < pdePages + 2 ^ 27)
    (reachable : ∀ page, first ≤ page → page ≤ last →
      Reachable memory root page) (assigned : assignsLarge = true ∨
      ∀ page, first ≤ page → page ≤ last → tablePath page =
        [recursiveEntryIdx, recursiveEntryIdx, recursiveEntryIdx]) :
    Outcome
      (fun (result : κ × PhysMemory) =>
        PassDone result.1 result.2 memory root fun page => first ≤ page ∧ page ≤ last)
      (· = Panic.outOfMemory)
      (allocEntries (setTable assignsLarge flags) root kmem memory (pagePointer first) count) := by
  induction count generalizing kmem memory first with
  | zero =>
    refine ⟨sound, Extends.refl memory root, ?_⟩
    intro page below visited
    omega
  | succ count induction =>
    obtain ⟨table, reaches⟩ := reachable first le_rfl (by omega)
    have assignedHere : assignsLarge = true ∨ table = root := by
      refine assigned.imp id ?_
      intro rootOnly
      rw [rootOnly first le_rfl (by omega)] at reaches
      simpa [descend, sound.tree.loop, eq_comm] using reaches
    refine (allocEntry_spec sound present small lower (by omega) reaches assignedHere).bind ?_
    intro middle done
    have pointerEq : pagePointer first + 8 = pagePointer (first + 1) := by
      unfold pagePointer
      omega
    simp only [pointerEq]
    refine (induction done.sound (by omega) (by omega) ?_ ?_).mono ?_
    · intro page from_first inside
      exact done.reachable_of sound (reachable page (by omega) inside)
    · refine assigned.imp id ?_
      intro rootOnly page from_first inside
      exact rootOnly page (by omega) inside
    · intro final rest
      refine done.append rest ?_
      intro page visited
      omega

end Passes

/-! ## The leaf loop -/

section Leaves

variable {memory : PhysMemory} {root flags : Nat}

/-- What the leaf loop does to the walks: the pages of the range get their
entries, and every other page keeps its walk. -/
structure LeavesSet (memory after : PhysMemory)
    (root flags first pfn count : Nat) : Prop where
  leaf : ∀ offset < count,
    walkPage after root (first + offset) = some (PtEntry.leaf flags (pfn + offset))
  other : ∀ {page : Nat},
    (∀ offset < count, page % 2 ^ 36 ≠ first + offset) →
    walkPage after root page = walkPage memory root page

/-- One leaf entry: the tables stay as they are, and only the walk of its page
changes. -/
theorem put_leaf_spec (tree : PageTree memory root) (noLarge : NoLargePages memory root)
    (direct : Direct recursiveEntryIdx (tablePath page))
    (reaches : descend PtEntry.table memory root (tablePath page) = some table) (entry : PtEntry) :
    PageTree (put memory table (tableSlot page) entry) root ∧
      NoLargePages (put memory table (tableSlot page) entry) root ∧
      (∀ path, Direct recursiveEntryIdx path → path.length ≤ 3 →
        descend PtEntry.table (put memory table (tableSlot page) entry) root
          path = descend PtEntry.table memory root path) ∧
      ∀ other, other % 2 ^ 36 ≠ page % 2 ^ 36 →
        walkPage (put memory table (tableSlot page) entry) root other =
          walkPage memory root other := by
  have long : (tablePath page).length = 3 := rfl
  have treeAfter : PageTree (put memory table (tableSlot page) entry) root :=
    tree.put_leaf direct long (by decide) reaches
  have tables : ∀ path, Direct recursiveEntryIdx path → path.length ≤ 3 →
      descend PtEntry.table (put memory table (tableSlot page) entry) root
        path = descend PtEntry.table memory root path :=
    fun path pathDirect short =>
      tree.descend_put_leaf direct long reaches pathDirect short
  -- a table above the leaves is not the table of the page
  have upper : ∀ {path : List (Fin 512)} {upperTable : Nat},
      Direct recursiveEntryIdx path → path.length ≤ 2 →
      descend PtEntry.table memory root path = some upperTable →
      upperTable ≠ table := by
    intro path upperTable pathDirect short pathReaches same
    rw [same] at pathReaches
    have samePath := tree.distinct pathDirect direct (by omega) long.le pathReaches reaches
    rw [samePath, long] at short
    omega
  refine ⟨treeAfter, ⟨?_, ?_⟩, tables, ?_⟩
  · intro slot
    have notTable : root ≠ table := upper (.nil : Direct recursiveEntryIdx []) (by simp) rfl
    rw [put_of_ne entry fun same => absurd same notTable]
    exact noLarge.mustBeZero slot
  · intro path upperTable slot pathDirect short pathReaches present
    rw [tables path pathDirect (by omega)] at pathReaches
    have notTable := upper pathDirect short pathReaches
    rw [put_of_ne entry fun same => absurd same notTable] at present ⊢
    exact noLarge.lower pathDirect short pathReaches present
  · intro other different
    have shortened := directPath_length recursiveEntryIdx (tablePath other)
    unfold walkPage
    rw [← descend_directPath treeAfter.loop, ← descend_directPath tree.loop,
      tables _ (directPath_direct _ _) shortened]
    cases reached : descend PtEntry.table memory root
        (directPath recursiveEntryIdx (tablePath other)) with
    | none => rfl
    | some otherTable =>
      simp only [bind_some]
      rw [put_of_ne]
      intro same sameSlot
      rw [same] at reached
      have samePath := tree.distinct (directPath_direct _ _) direct
        shortened long.le reached reaches
      have suffix : directPath recursiveEntryIdx (tablePath other) = tablePath other := by
        apply (dropWhile_suffix _).eq_of_length
        exact (congrArg List.length samePath).trans rfl
      exact different (page_of_tablePath (suffix.symm.trans samePath) sameSlot)

theorem setLeaves_spec (tree : PageTree memory root)
    (noLarge : NoLargePages memory root) (pfn : Nat)
    (small : first + count ≤ 2 ^ 36) (direct : ∀ offset < count,
      Direct recursiveEntryIdx (tablePath (first + offset)))
    (reachable : ∀ offset < count, Reachable memory root (first + offset))
    (vacant : ∀ offset < count, walkPage memory root (first + offset) = none)
    (present : flags.testBit 0 = true) :
    ∃ after, setLeaves flags root memory (pagePointer first) pfn count = .ok after ∧
      LeavesSet memory after root flags first pfn count := by
  induction count generalizing memory first pfn with
  | zero =>
    refine ⟨memory, rfl, ?_, fun _ => rfl⟩
    intro offset impossible
    exact absurd impossible (Nat.not_lt_zero offset)
  | succ count induction =>
    have directHere := direct 0 (Nat.succ_pos count)
    obtain ⟨table, reaches⟩ := reachable 0 (Nat.succ_pos count)
    have vacantHere := vacant 0 (Nat.succ_pos count)
    rw [Nat.add_zero] at directHere reaches vacantHere
    have shift : ∀ offset, first + 1 + offset = first + (offset + 1) := fun offset => by omega
    have absent : ¬(memory table (tableSlot first)).present = true := by
      intro isPresent
      simp [walkPage, reaches, isPresent] at vacantHere
    obtain ⟨treeAfter, noLargeAfter, tables, others⟩ :=
      put_leaf_spec tree noLarge directHere reaches (leaf flags pfn)
    have firstEq : first % 2 ^ 36 = first := Nat.mod_eq_of_lt (by omega)
    have elsewhere : ∀ offset < count, (first + (offset + 1)) % 2 ^ 36 ≠ first % 2 ^ 36 := by
      intro offset inside
      omega
    obtain ⟨after, loop, done⟩ : ∃ after,
        setLeaves flags root (put memory table (tableSlot first) (leaf flags pfn))
            (pagePointer (first + 1)) (pfn + 1) count = .ok after ∧
          LeavesSet (put memory table (tableSlot first) (leaf flags pfn))
            after root flags (first + 1) (pfn + 1) count := by
      apply induction treeAfter noLargeAfter (pfn + 1) (by omega)
      · intro offset inside
        rw [shift]
        exact direct (offset + 1) (by omega)
      · intro offset inside
        rw [shift]
        obtain ⟨other, otherReaches⟩ := reachable (offset + 1) (by omega)
        refine ⟨other, ?_⟩
        rw [tables _ (direct (offset + 1) (by omega)) le_rfl]
        exact otherReaches
      · intro offset inside
        rw [shift, others _ (elsewhere offset inside)]
        exact vacant (offset + 1) (by omega)
    have pointerEq : pagePointer first + 8 = pagePointer (first + 1) := by
      unfold pagePointer
      omega
    refine ⟨after, ?_, ?_, ?_⟩
    · rw [setLeaves, entryAt_pagePointer tree noLarge (by omega), reaches]
      simp only [map_some, if_neg absent, pointerEq]
      exact loop
    · intro offset inside
      cases offset with
      | zero =>
        have notLater : ∀ later < count, first % 2 ^ 36 ≠ first + 1 + later := by
          intro later _
          omega
        rw [Nat.add_zero, Nat.add_zero, done.other notLater, walkPage,
          tables _ directHere le_rfl, reaches, bind_some, put_same]
        exact if_pos present
      | succ offset =>
        have later := done.leaf offset (by omega)
        rw [shift] at later
        rw [later]
        congr 2
        omega
    · intro page outside
      have notFirst : page % 2 ^ 36 ≠ first % 2 ^ 36 := by
        rw [firstEq]
        exact outside 0 (Nat.succ_pos count)
      have notLater : ∀ later < count, page % 2 ^ 36 ≠ first + 1 + later := by
        intro later inside
        rw [shift]
        exact outside (later + 1) (by omega)
      rw [done.other notLater, others page notFirst]

end Leaves

/-! ## The law -/

def Canonical (va : Nat) : Prop :=
  va < 2 ^ 47 ∨ 2 ^ 64 - 2 ^ 47 ≤ va ∧ va < 2 ^ 64

def InRecursiveWindow (va : Nat) : Prop :=
  miRecursiveStart ≤ va ∧ va ≤ miRecursiveEnd

/-- A range of pages in one canonical half, short of the end of the address
space, that avoids the recursive window. -/
structure MappableRange (va nrPages : Nat) : Prop where
  aligned : va % pageSize = 0
  few : nrPages < 2 ^ 20
  half : va + nrPages * pageSize ≤ 2 ^ 47 ∨ 2 ^ 64 - 2 ^ 47 ≤ va ∧ va + nrPages * pageSize < 2 ^ 64
  avoids : ∀ i < nrPages, ¬InRecursiveWindow (va + i * pageSize)

/-- After a mapping the pages of the range are mapped to consecutive frames,
every other address outside the window translates as before, and what the
window showed before it still shows. -/
structure MappingLaw (memory after : PhysMemory)
    (root va pa nrPages flags : Nat) : Prop where
  mapped : ∀ i < nrPages, walk after root (va + i * pageSize) =
    some (PtEntry.leaf flags (pa / pageSize + i))
  others : ∀ {other : Nat}, Canonical other → ¬InRecursiveWindow other →
    other < va ∨ va + nrPages * pageSize ≤ other →
    walk after root other = walk memory root other
  window : ∀ {other : Nat} {entry : PtEntry}, InRecursiveWindow other →
    walk memory root other = some entry → walk after root other = some entry

/-- The page number of an address, as the walk sees it. -/
def pageOf (va : Nat) : Nat :=
  va / 2 ^ 12 % 2 ^ 36

theorem walk_eq_pageOf (memory : PhysMemory) (root va : Nat) :
    walk memory root va = walkPage memory root (pageOf va) := by
  obtain ⟨pathEq, slotEq⟩ := tablePath_congr (Nat.mod_mod (va / 2 ^ 12) (2 ^ 36))
  rw [walk_eq_walkPage, walkPage, walkPage, pageOf, pathEq, slotEq]

theorem direct_of_outside {va : Nat} (canonical : Canonical va) (outside : ¬InRecursiveWindow va) :
    Direct recursiveEntryIdx (tablePath (pageOf va)) := by
  intro same
  have first := congrArg Fin.val (Option.some.inj same)
  have index : pageOf va / 2 ^ 27 % 512 = 0x1fe := first
  apply outside
  unfold Canonical at canonical
  unfold pageOf at index
  unfold InRecursiveWindow miRecursiveStart miRecursiveEnd
  omega

namespace MappableRange

variable {va nrPages : Nat}
variable {i : Nat}

section

variable (range : MappableRange va nrPages)

include range

theorem rangeEnd_eq : rangeEnd va nrPages = va + nrPages * pageSize := by
  have few := range.few
  have half := range.half
  unfold rangeEnd uptrAdd
  simp only [pageSize] at half ⊢
  omega

theorem uptrAdd_eq : uptrAdd va (pageToSize nrPages) = va + nrPages * pageSize := by
  have few := range.few
  have half := range.half
  unfold pageToSize uptrAdd
  omega

theorem pageOf_add (inside : i ≤ nrPages) : pageOf (va + i * pageSize) = pageOf va + i := by
  have half := range.half
  unfold pageOf
  simp only [pageSize] at half ⊢
  omega

theorem pageOf_end : pageOf va + nrPages < 2 ^ 36 := by
  rw [← range.pageOf_add le_rfl]
  exact Nat.mod_lt _ (by decide)

theorem canonical (inside : i < nrPages) : Canonical (va + i * pageSize) := by
  have half := range.half
  unfold Canonical
  simp only [pageSize] at half ⊢
  omega

theorem pageOf_ne {other : Nat} (canonical : Canonical other)
    (outside : other < va ∨ va + nrPages * pageSize ≤ other)
    (inside : i < nrPages) :
    pageOf other % 2 ^ 36 ≠ pageOf va + i := by
  have half := range.half
  have aligned := range.aligned
  unfold Canonical at canonical
  unfold pageOf
  simp only [pageSize] at half aligned outside
  omega

end

end MappableRange

/-- The index of an address at an upper level, from its page number. -/
private theorem index_eq (va shift bits lower : Nat)
    (shiftEq : shift = 12 + lower) (bitsEq : 36 = lower + bits) :
    va / 2 ^ shift % 2 ^ bits = pageOf va / 2 ^ lower := by
  unfold pageOf
  rw [bitsEq, shiftEq, Nat.pow_add, Nat.pow_add, ← Nat.div_div_eq_div_mul]
  exact (Nat.mod_mul_right_div_self _ _ _).symm

section Mapping

variable {κ : Type} [FrameAllocator κ] {kmem : κ} {memory : PhysMemory}
  {root va pa nrPages flags : Nat}

/-- The window pages of the entries that a range needs at an upper level. -/
abbrev LevelPages (base lower va nrPages page : Nat) : Prop :=
  base + pageOf va / 2 ^ lower ≤ page ∧ page ≤ base + (pageOf va + nrPages) / 2 ^ lower

section Passes

variable (range : MappableRange va nrPages) (present : flags.testBit 0 = true)
  (small : flags.testBit 7 = false)

include range present small

/-- After the first pass the entries of the root table are there. -/
theorem ptmAllocPml4es_spec (sound : TablesSound kmem memory root) :
    Outcome
      (fun (result : κ × PhysMemory) =>
        PassDone result.1 result.2 memory root (LevelPages pml4ePages 27 va nrPages))
      (· = Panic.outOfMemory)
      (ptmAllocPml4es root kmem memory va nrPages flags) := by
  have firstEq := index_eq va 39 9 27 rfl rfl
  have lastEq := index_eq (va + nrPages * pageSize) 39 9 27 rfl rfl
  rw [range.pageOf_add le_rfl] at lastEq
  have rootOnly : ∀ page, pml4ePages + pageOf va / 2 ^ 27 ≤ page →
      page ≤ pml4ePages + (pageOf va + nrPages) / 2 ^ 27 →
      tablePath page = [recursiveEntryIdx, recursiveEntryIdx, recursiveEntryIdx] := by
    intro page lower upper
    have recursive : recursiveEntryIdx = Fin.ofNat 512 0x1fe := rfl
    unfold pml4ePages pdptePages pdePages at lower upper
    unfold tablePath
    rw [recursive, ofNat_eq (page / 2 ^ 27) 0x1fe (by omega),
      ofNat_eq (page / 2 ^ 18) 0x1fe (by omega),
      ofNat_eq (page / 2 ^ 9) 0x1fe (by omega)]
  unfold ptmAllocPml4es
  rw [range.rangeEnd_eq, miPtrToPml4e_eq, miPtrToPml4e_eq, firstEq, lastEq]
  apply allocEntries_spec sound present small
  · unfold entryRounds pagePointer
    omega
  · unfold pml4ePages pdptePages
    omega
  · unfold pml4ePages pdptePages pdePages
    omega
  · intro page lower upper
    refine ⟨root, ?_⟩
    rw [rootOnly page lower upper]
    simp [descend, sound.tree.loop]
  · exact Or.inr rootOnly

/-- After the second pass the page-directory-pointer entries are there. -/
theorem ptmAllocPdptes_spec
    (done : PassDone kmem memory before root (LevelPages pml4ePages 27 va nrPages)) :
    Outcome
      (fun (result : κ × PhysMemory) =>
        PassDone result.1 result.2 memory root (LevelPages pdptePages 18 va nrPages))
      (· = Panic.outOfMemory)
      (ptmAllocPdptes root kmem memory va nrPages flags) := by
  have last := range.pageOf_end
  have firstEq := index_eq va 30 18 18 rfl rfl
  have lastEq := index_eq (va + nrPages * pageSize) 30 18 18 rfl rfl
  rw [range.pageOf_add le_rfl] at lastEq
  unfold ptmAllocPdptes
  rw [range.rangeEnd_eq, miPtrToPdpte_eq, miPtrToPdpte_eq, firstEq, lastEq]
  apply allocEntries_spec done.sound present small
  · unfold entryRounds pagePointer
    omega
  · unfold pdptePages
    omega
  · unfold pdptePages pdePages
    omega
  · intro page lower upper
    apply done.reachable (pml4ePages + (page - pdptePages) / 2 ^ 9)
    · constructor
      · omega
      · omega
    · unfold pml4ePages pdptePages pdePages at *
      omega
  · exact Or.inl rfl

theorem ptmAllocPdes_spec
    (done : PassDone kmem memory before root (LevelPages pdptePages 18 va nrPages)) :
    Outcome
      (fun (result : κ × PhysMemory) =>
        PassDone result.1 result.2 memory root (LevelPages pdePages 9 va nrPages))
      (· = Panic.outOfMemory)
      (ptmAllocPdes root kmem memory va nrPages flags) := by
  have last := range.pageOf_end
  have firstEq := index_eq va 21 27 9 rfl rfl
  have lastEq := index_eq (va + nrPages * pageSize) 21 27 9 rfl rfl
  rw [range.pageOf_add le_rfl] at lastEq
  unfold ptmAllocPdes
  rw [range.rangeEnd_eq, miPtrToPde_eq, miPtrToPde_eq, firstEq, lastEq]
  apply allocEntries_spec done.sound present small
  · unfold entryRounds pagePointer
    omega
  · omega
  · omega
  · intro page lower upper
    apply done.reachable (pdptePages + (page - pdePages) / 2 ^ 9)
    · constructor
      · omega
      · omega
    · unfold pdptePages pdePages at *
      omega
  · exact Or.inl rfl

end Passes

theorem setLeaves_law (pa : Nat) (sound : TablesSound kmem memory root)
    (extension : Extends before memory root) (range : MappableRange va nrPages)
    (present : flags.testBit 0 = true)
    (reachable : ∀ i < nrPages, Reachable memory root (pageOf va + i))
    (vacant : ∀ i < nrPages, walk before root (va + i * pageSize) = none) :
    ∃ after, setLeaves flags root memory (pagePointer (pageOf va))
        (pa >>> pageShift) nrPages = .ok after ∧
      MappingLaw before after root va pa nrPages flags := by
  have direct : ∀ i < nrPages, Direct recursiveEntryIdx (tablePath (pageOf va + i)) := by
    intro i inside
    rw [← range.pageOf_add inside.le]
    exact direct_of_outside (range.canonical inside) (range.avoids i inside)
  have vacantNow : ∀ i < nrPages, walkPage memory root (pageOf va + i) = none := by
    intro i inside
    rw [extension.leaves (direct i inside), ← range.pageOf_add inside.le, ← walk_eq_pageOf]
    exact vacant i inside
  obtain ⟨after, loop, leaves⟩ := setLeaves_spec sound.tree sound.noLarge
    (pa >>> pageShift) range.pageOf_end.le direct reachable vacantNow present
  refine ⟨after, loop, ?_, ?_, ?_⟩
  · intro i inside
    rw [walk_eq_pageOf, range.pageOf_add inside.le, leaves.leaf i inside, Nat.shiftRight_eq_div_pow]
    rfl
  · intro other canonical outside apart
    rw [walk_eq_pageOf, walk_eq_pageOf,
      leaves.other fun i inside => range.pageOf_ne canonical apart inside]
    exact extension.leaves (direct_of_outside canonical outside)
  · intro other entry inWindow found
    rw [walk_eq_pageOf] at found ⊢
    rw [leaves.other]
    · exact extension.mapped found
    · intro i inside same
      apply range.avoids i inside
      have canonical := range.canonical inside
      have pages := range.pageOf_add inside.le
      rw [← pages] at same
      unfold Canonical at canonical
      unfold pageOf at same
      unfold InRecursiveWindow miRecursiveStart miRecursiveEnd at inWindow ⊢
      omega

end Mapping

/-! ## The pages of an address space -/

/-- The flag bits of an entry, as `ptm_map_pages` is given them. -/
def PtEntry.flags (entry : PtEntry) : Nat :=
  entry.present.toNat ||| entry.write.toNat <<< 1 |||
    entry.supervisor.toNat <<< 2 ||| entry.writeThrough.toNat <<< 3 |||
    entry.cacheDisable.toNat <<< 4 ||| entry.accessed.toNat <<< 5 |||
    entry.dirty.toNat <<< 6 ||| entry.restart.toNat <<< 11

/-- The leaf entries of an address space, by page number and without the
recursive window. -/
def leafPages (memory : PhysMemory) (root : Nat) : Pages := fun page =>
  if page < 2 ^ 36 ∧ page / 2 ^ 27 ≠ 0x1fe then
    (walkPage memory root page).map fun entry =>
      ⟨entry.pageFrame, entry.flags⟩
  else
    none

private theorem testBit_toNat (bit : Bool) (index : Nat) :
    bit.toNat.testBit index = (bit && decide (index = 0)) := by
  cases bit with
  | false => simp
  | true =>
    cases index with
    | zero => rfl
    | succ index => simp [Nat.testBit_succ]

theorem leaf_flags (flags pfn : Nat) : (PtEntry.leaf flags pfn).flags = flags &&& pteFlagMask := by
  apply Nat.eq_of_testBit_eq
  intro index
  simp only [PtEntry.flags, PtEntry.leaf, Nat.testBit_or, Nat.testBit_and,
    Nat.testBit_shiftLeft, testBit_toNat]
  by_cases low : index < 12
  · interval_cases index <;> simp [pteFlagMask, Nat.testBit]
  · have high : pteFlagMask.testBit index = false := by
      apply Nat.testBit_lt_two_pow
      calc pteFlagMask < 2 ^ 12 := by decide
        _ ≤ 2 ^ index := Nat.pow_le_pow_right (by decide) (by omega)
    have nonzero : ¬index = 0 := by omega
    have apart : ∀ bit ≤ 11, ¬index - bit = 0 := fun bit small => by omega
    simp [high, nonzero, apart]

/-- The loop over the abstract pages sets the pages of the range. -/
theorem ptmMapLoop_eq {flags : Nat} {pages : Pages} {index pfn : Nat}
    (vacant : ∀ i < count, pages (index + i) = none) :
    ptmMapLoop flags pages index pfn count = .ok fun page =>
      if index ≤ page ∧ page < index + count then
        leafEntry (pfn + (page - index)) flags
      else
        pages page := by
  induction count generalizing pages index pfn with
  | zero =>
    simp only [ptmMapLoop, Except.ok.injEq]
    funext page
    rw [if_neg (by omega)]
  | succ count induction =>
    have vacantHere := vacant 0 (Nat.succ_pos count)
    rw [Nat.add_zero] at vacantHere
    rw [ptmMapLoop, vacantHere]
    simp only [isSome_none, Bool.false_eq_true, if_false]
    rw [induction]
    · congr 1
      funext page
      by_cases here : page = index
      · subst here
        rw [if_neg (by omega), if_pos (by omega), update_self, Nat.sub_self, Nat.add_zero]
      · rw [update_of_ne here]
        by_cases later : index + 1 ≤ page ∧ page < index + 1 + count
        · rw [if_pos later, if_pos (by omega)]
          congr 1
          omega
        · rw [if_neg later, if_neg (by omega)]
    · intro i inside
      rw [update_of_ne (by omega), Nat.add_right_comm, Nat.add_assoc]
      exact vacant (i + 1) (by omega)

private theorem window_of_direct (direct : Direct recursiveEntryIdx (tablePath page)) :
    page / 2 ^ 27 ≠ 0x1fe := by
  intro same
  apply direct
  have recursive : recursiveEntryIdx = Fin.ofNat 512 0x1fe := rfl
  rw [recursive]
  exact congrArg some (ofNat_eq _ _ (by omega))

private theorem exists_address (small : page < 2 ^ 36) :
    ∃ va, Canonical va ∧ pageOf va = page ∧ va % pageSize = 0 := by
  unfold Canonical pageOf pageSize
  by_cases low : page < 2 ^ 35
  · exact ⟨page * 4096, by omega, by omega, by omega⟩
  · exact ⟨2 ^ 64 - 2 ^ 48 + page * 4096, by omega, by omega, by omega⟩

/-- Mapping in the tables is mapping in the leaf entries: the law makes
`ptm_map_pages` refine its model over pages. -/
theorem MappingLaw.refines {memory after : PhysMemory}
    {root va pa nrPages flags : Nat}
    (law : MappingLaw memory after root va pa nrPages flags)
    (range : MappableRange va nrPages) (present : flags.testBit 0 = true)
    (vacant : ∀ i < nrPages, walk memory root (va + i * pageSize) = none) :
    ptmMapPages (leafPages memory root) va pa nrPages flags = .ok (leafPages after root) := by
  have last := range.pageOf_end
  have startEq : pteIndex va = pageOf va := rfl
  have endEq : pteIndex (uptrAdd va (pageToSize nrPages)) = pageOf va + nrPages := by
    rw [range.uptrAdd_eq, ← range.pageOf_add le_rfl]
    rfl
  have vacantPages : ∀ i < nrPages, leafPages memory root (pageOf va + i) = none := by
    intro i inside
    have vacantHere := vacant i inside
    rw [walk_eq_pageOf, range.pageOf_add inside.le] at vacantHere
    simp [leafPages, vacantHere]
  unfold ptmMapPages pteCount
  rw [startEq, endEq, Nat.add_sub_cancel_left, ptmMapLoop_eq vacantPages]
  congr 1
  funext page
  by_cases inRange : pageOf va ≤ page ∧ page < pageOf va + nrPages
  · obtain ⟨i, rfl⟩ := Nat.exists_eq_add_of_le inRange.1
    have inside : i < nrPages := Nat.lt_of_add_lt_add_left inRange.2
    have mapped := law.mapped i inside
    have direct := direct_of_outside (range.canonical inside) (range.avoids i inside)
    rw [walk_eq_pageOf] at mapped
    rw [range.pageOf_add inside.le] at mapped direct
    have notWindow := window_of_direct direct
    rw [if_pos inRange, Nat.add_sub_cancel_left, leafEntry, if_pos present,
      leafPages, if_pos ⟨by omega, notWindow⟩, mapped, map_some,
      leaf_flags, Nat.shiftRight_eq_div_pow]
    rfl
  · rw [if_neg inRange]
    unfold leafPages
    by_cases visible : page < 2 ^ 36 ∧ page / 2 ^ 27 ≠ 0x1fe
    · rw [if_pos visible, if_pos visible]
      obtain ⟨other, canonical, isPage, aligned⟩ := exists_address visible.1
      have outside : ¬InRecursiveWindow other := by
        intro inWindow
        apply visible.2
        unfold InRecursiveWindow miRecursiveStart miRecursiveEnd at inWindow
        unfold pageOf at isPage
        omega
      have apart : other < va ∨ va + nrPages * pageSize ≤ other := by
        by_contra both
        apply inRange
        have half := range.half
        have start := range.aligned
        unfold pageOf at isPage ⊢
        simp only [pageSize] at both half start aligned
        omega
      have kept := law.others canonical outside apart
      rw [walk_eq_pageOf, walk_eq_pageOf, isPage] at kept
      rw [kept]
    · rw [if_neg visible, if_neg visible]

/-! ## A machine without mappings -/

/-- Only the recursive slot of the root table, in the reserved frame. -/
def bareTables : PhysMemory := fun frame slot =>
  if frame = 0 ∧ slot = recursiveEntryIdx then
    { PtEntry.zero with present := true, write := true }
  else
    PtEntry.zero

private theorem bareTables_direct {path : List (Fin 512)} (direct : Direct recursiveEntryIdx path)
    (reaches : descend PtEntry.table bareTables 0 path = some table) :
    path = [] ∧ table = 0 := by
  cases path with
  | nil => exact ⟨rfl, (Option.some.inj reaches).symm⟩
  | cons slot path =>
    have notLoop : slot ≠ recursiveEntryIdx := fun same => direct (congrArg some same)
    simp [descend, bareTables, notLoop, PtEntry.zero, PtEntry.table] at reaches

theorem bareTables_sound : TablesSound bootedKmem bareTables 0 := by
  refine ⟨⟨by decide, ?_⟩, ⟨?_, ?_⟩, bootedKmem_valid, ?_⟩
  · intro left right table leftDirect rightDirect _ _ leftReaches rightReaches
    rw [(bareTables_direct leftDirect leftReaches).1,
      (bareTables_direct rightDirect rightReaches).1]
  · intro slot
    unfold bareTables
    split
    · rfl
    · rfl
  · intro path table slot direct _ reaches _
    unfold bareTables
    split
    · rfl
    · rfl
  · intro path table direct _ reaches
    rw [(bareTables_direct direct reaches).2]
    exact bootedKmem_reserved

private theorem bareTables_vacant (va : Nat) (canonical : Canonical va)
    (outside : ¬InRecursiveWindow va) : walk bareTables 0 va = none := by
  rw [walk_eq_pageOf, walkPage]
  cases reached : descend PtEntry.table bareTables 0 (tablePath (pageOf va)) with
  | none => rfl
  | some table =>
    have isRoot := (bareTables_direct (direct_of_outside canonical outside) reached).1
    cases isRoot

private theorem smallRange : MappableRange 0x400000 2 := by
  refine ⟨by decide, by decide, Or.inl (by decide), ?_⟩
  intro i inside
  unfold InRecursiveWindow miRecursiveStart miRecursiveEnd pageSize
  omega

private theorem smallMapping_returns :
    Outcome
      (fun (result : Pmm.Kmem × PhysMemory) =>
        walk bareTables 0 (miPtrToPte 0x400000) = none ∧
          walk result.2 0 (miPtrToPte 0x400000) = some { leaf vmmFlagsUser 3 with dirty := false })
      (fun _ => False)
      (ptmMapPageTables 0 bootedKmem bareTables 0x400000 0x5000 2 vmmFlagsUser) := by
  decide +kernel

end SeekOs.Mm
