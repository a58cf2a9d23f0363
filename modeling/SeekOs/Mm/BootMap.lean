import SeekOs.Mm.FrameAllocator

/-!
# The allocator's tables in the boot loader's memory map

`pmm.c` sizes the frame bitmap and the page database by the end of the map,
takes each of them off the end of the first usable entry that is larger, and
clears the bits of the frames that the usable entries have left.
-/

namespace SeekOs.Pmm

open SeekOs.Mm Function List

inductive MemmapType
  | usable
  | executableAndModules
  | bootloaderReclaimable
  | reservedMapped
  | other
  deriving DecidableEq

structure MemmapEntry where
  base : Nat
  length : Nat
  type : MemmapType
  deriving DecidableEq

variable {map : List MemmapEntry} {entry : MemmapEntry} {left : List MemmapEntry}

variable (map)

/-- The limit that `_kmem_init` computes: the end of the last entry. -/
def kmemLimit : Nat :=
  map.foldl (fun _ entry => pageAlignUpIf (uptrAdd entry.base entry.length)) 0

def bitmapPerU64 : Nat := pageSize * 64

def bitmapCount (physLimit : Nat) : Nat :=
  (uptrAdd physLimit bitmapPerU64 &&& (2 ^ 64 - 1 - bitmapPerU64)) / bitmapPerU64

def bitmapSize (physLimit : Nat) : Nat :=
  bitmapCount physLimit * 8

def pfnDbSize (physLimit : Nat) : Nat :=
  pageAlignUpIf (sizeToPage physLimit * sizeofPage)

/-- The loop of `_bitmap_init` and of `_pfn_database_init`: the start of the
table and the entries that are left. -/
def takeFirstFit (size : Nat) : List MemmapEntry → Nat × List MemmapEntry
  | [] => (0, [])
  | entry :: rest =>
    if entry.type = .usable ∧ size < entry.length then
      (uptrSub (uptrAdd entry.base entry.length) size,
        { entry with length := entry.length - size } :: rest)
    else
      let (start, left) := takeFirstFit size rest
      (start, entry :: left)

def bitmapInit : Nat × List MemmapEntry :=
  takeFirstFit (bitmapSize (kmemLimit map)) map

def pfnDatabaseInit : Nat × List MemmapEntry :=
  takeFirstFit (pfnDbSize (kmemLimit map)) (bitmapInit map).2

/-- One round of `_bitmap_clear` on the words from `bitmap_start` on; the
index of the word is an `u32`. -/
def clearBit (bitmap : Nat → BitVec 64) (pfn : Nat) : Nat → BitVec 64 :=
  let idx := pfn / 64 % 2 ^ 32
  update bitmap idx (bitmap idx &&& ~~~(1#64 <<< (pfn % 64)))

def bitmapClear (bitmap : Nat → BitVec 64) (pfn nrPages : Nat) : Nat → BitVec 64 :=
  (List.range nrPages).foldl (fun bitmap i => clearBit bitmap (pfn + i)) bitmap

def bitmapFreePages (bitmap : Nat → BitVec 64) : Nat → BitVec 64 :=
  map.foldl
    (fun bitmap entry =>
      if entry.type = .usable then
        bitmapClear bitmap (entry.base >>> pageShift) (sizeToPage entry.length)
      else
        bitmap) bitmap

variable {map}

/-- The frames of an entry that `_bitmap_free_pages` goes through. -/
def MemmapEntry.Frees (entry : MemmapEntry) (pfn : Nat) : Prop :=
  entry.type = .usable ∧ entry.base >>> pageShift ≤ pfn ∧
    pfn < entry.base >>> pageShift + sizeToPage entry.length

/-- The frames that the two loops of `_buddy_init` look at. -/
def examinedFrames (bitmapCount : Nat) : List Nat :=
  (List.range bitmapCount).flatMap fun i =>
    (List.range 64).map fun bitIdx => i * 64 + bitIdx

section Bits

variable {bitmap : Nat → BitVec 64} {word bit : Nat}

theorem clearBit_clear_iff (small : bit < 64) (pfn : Nat) :
    (clearBit bitmap pfn word).getLsbD bit = false ↔
      (bitmap word).getLsbD bit = false ∨ pfn / 64 % 2 ^ 32 = word ∧ pfn % 64 = bit := by
  unfold clearBit
  by_cases same : pfn / 64 % 2 ^ 32 = word
  · subst same
    rw [update_self, BitVec.getLsbD_and, Bool.and_eq_false_iff]
    apply or_congr_right
    grind
  · rw [update_of_ne (Ne.symm same), or_iff_left]
    exact fun place => same place.1

theorem bitmapClear_clear_iff (small : bit < 64) (pfn nrPages : Nat) :
    (bitmapClear bitmap pfn nrPages word).getLsbD bit = false ↔
      (bitmap word).getLsbD bit = false ∨
        ∃ i < nrPages, (pfn + i) / 64 % 2 ^ 32 = word ∧ (pfn + i) % 64 = bit := by
  unfold bitmapClear
  simp only [← mem_range]
  induction List.range nrPages generalizing bitmap with
  | nil => simp
  | cons i rest induction =>
    rw [foldl_cons, induction, clearBit_clear_iff small, or_assoc, exists_mem_cons_iff]

/-- The bits that are clear behind `_bitmap_free_pages`. -/
theorem bitmapFreePages_clear_iff (small : bit < 64) :
    (bitmapFreePages map bitmap word).getLsbD bit = false ↔
      (bitmap word).getLsbD bit = false ∨
        ∃ entry ∈ map, ∃ pfn, entry.Frees pfn ∧ pfn / 64 % 2 ^ 32 = word ∧ pfn % 64 = bit := by
  unfold bitmapFreePages
  induction map generalizing bitmap with
  | nil => simp
  | cons entry map induction =>
    rw [foldl_cons, induction, exists_mem_cons_iff, ← or_assoc]
    apply or_congr_left
    by_cases isUsable : entry.type = .usable
    · rw [if_pos isUsable, bitmapClear_clear_iff small]
      apply or_congr_right
      constructor
      · rintro ⟨i, inside, place⟩
        exact ⟨_, ⟨isUsable, Nat.le_add_right _ _, by omega⟩, place⟩
      · rintro ⟨pfn, ⟨_, lower, upper⟩, place⟩
        obtain ⟨i, rfl⟩ := Nat.exists_eq_add_of_le lower
        exact ⟨i, by omega, place⟩
    · rw [if_neg isUsable, or_iff_left]
      rintro ⟨pfn, frees, _⟩
      exact isUsable frees.1

end Bits

/-! ## The size of the bitmap -/

theorem and_clear_lowest {value : Nat} (small : value < 2 ^ 46) :
    value &&& (2 ^ 46 - 2) = value / 2 * 2 := by
  have half : (value &&& (2 ^ 46 - 2)) / 2 = value / 2 := by
    have shifted : (value &&& (2 ^ 46 - 2)) >>> 1 =
        value >>> 1 &&& (2 ^ 45 - 1) := Nat.shiftRight_and_distrib ..
    rw [Nat.and_two_pow_sub_one_eq_mod, Nat.shiftRight_one, Nat.shiftRight_one] at shifted
    omega
  have even : (value &&& (2 ^ 46 - 2)) % 2 = 0 := by
    have reduced : (value &&& (2 ^ 46 - 2)) % 2 ^ 1 =
        value % 2 ^ 1 &&& (2 ^ 46 - 2) % 2 ^ 1 := Nat.and_mod_two_pow ..
    simpa using reduced
  omega

theorem bitmapCount_eq (physLimit : Nat) :
    bitmapCount physLimit = (physLimit + 2 ^ 18) % 2 ^ 64 / 2 ^ 18 / 2 * 2 := by
  rw [← and_clear_lowest (by omega)]
  have distributed : ((physLimit + 2 ^ 18) % 2 ^ 64 &&& (2 ^ 64 - 1 - 2 ^ 18)) >>> 18 =
      ((physLimit + 2 ^ 18) % 2 ^ 64) >>> 18 &&& (2 ^ 46 - 2) :=
    Nat.shiftRight_and_distrib ..
  rw [Nat.shiftRight_eq_div_pow, Nat.shiftRight_eq_div_pow] at distributed
  exact distributed

theorem examinedFrames_eq (count : Nat) : examinedFrames count = List.range (count * 64) := by
  induction count with
  | zero => rfl
  | succ count induction =>
    have last : examinedFrames (count + 1) = examinedFrames count ++
        (List.range 64).map fun bitIdx => count * 64 + bitIdx := by
      simp [examinedFrames, range_succ (n := count)]
    rw [last, induction, Nat.add_mul, range_add]

/-- The bitmap has a bit for every frame below the limit; freeing the frames
of a map below the limit stays inside the bitmap, and each of them is examined
once. -/
def BitmapCovers (physLimit : Nat) : Prop :=
  physLimit / pageSize ≤ bitmapCount physLimit * 64 ∧
    ∀ map : List MemmapEntry, (∀ entry ∈ map, entry.base + entry.length ≤ physLimit) →
      (∀ bitmap word, bitmapCount physLimit ≤ word →
        bitmapFreePages map bitmap word = bitmap word) ∧
      ∀ entry ∈ map, ∀ pfn, entry.Frees pfn → (examinedFrames (bitmapCount physLimit)).count pfn = 1

theorem MemmapEntry.Frees.below {pfn physLimit : Nat} (frees : entry.Frees pfn)
    (ends : entry.base + entry.length ≤ physLimit) :
    pfn < physLimit / pageSize := by
  have upper := frees.2.2
  simp only [sizeToPage, pageSize, pageShift] at upper ⊢
  omega

/-- The mask of the word count clears one bit and does not round. -/
theorem bitmapCovers_iff (physLimit : Nat) (small : physLimit < 2 ^ 64)
    (aligned : pageSize ∣ physLimit) :
    BitmapCovers physLimit ↔
      physLimit + bitmapPerU64 < 2 ^ 64 ∧
        (physLimit / bitmapPerU64 % 2 = 1 ∨ bitmapPerU64 ∣ physLimit) := by
  have enough : physLimit / pageSize ≤ bitmapCount physLimit * 64 ↔
      physLimit + bitmapPerU64 < 2 ^ 64 ∧
        (physLimit / bitmapPerU64 % 2 = 1 ∨ bitmapPerU64 ∣ physLimit) := by
    simp only [bitmapCount_eq, bitmapPerU64, pageSize] at aligned ⊢
    omega
  rw [← enough]
  refine ⟨fun covers => covers.1, fun covers => ⟨covers, ?_⟩⟩
  intro map ends
  constructor
  · intro bitmap word outside
    apply BitVec.eq_of_getLsbD_eq
    intro bit inside
    rw [Bool.eq_iff_iff, ← not_iff_not, Bool.not_eq_true, Bool.not_eq_true,
      bitmapFreePages_clear_iff inside, or_iff_left]
    rintro ⟨entry, member, frame, frees, isWord, _⟩
    have below := frees.below (ends entry member)
    omega
  · intro entry member pfn frees
    have below := frees.below (ends entry member)
    rw [examinedFrames_eq]
    exact count_eq_one_of_mem nodup_range (mem_range.mpr (by omega))

theorem bitmapCovers_iff_odd : BitmapCovers 0x7ffff000 ↔ 0x7ffff000 + bitmapPerU64 < 2 ^ 64 ∧
        (0x7ffff000 / bitmapPerU64 % 2 = 1 ∨ bitmapPerU64 ∣ 0x7ffff000) :=
  bitmapCovers_iff 0x7ffff000 (by decide) (by decide)

/-- One frame gets no word at all. -/
theorem not_bitmapCovers_one_page : ¬BitmapCovers 0x1000 := by
  intro covers
  exact absurd covers.1 (by decide)

/-! ## Taking the tables off the map -/

def MemmapEntry.limit (entry : MemmapEntry) : Nat :=
  entry.base + entry.length

variable (map)

/-- The range meets no usable entry. -/
def Avoids (start limit : Nat) : Prop :=
  ∀ entry ∈ map, entry.type = .usable → limit ≤ entry.base ∨ entry.limit ≤ start

/-- The range lies in a usable entry. -/
def InUsable (start limit : Nat) : Prop :=
  ∃ entry ∈ map, entry.type = .usable ∧ entry.base ≤ start ∧ limit ≤ entry.limit

/-- A usable entry meets no other entry. -/
def MemmapEntry.Apart (left right : MemmapEntry) : Prop :=
  left.type = .usable ∨ right.type = .usable → left.limit ≤ right.base ∨ right.limit ≤ left.base

instance : DecidableRel MemmapEntry.Apart := fun left right =>
  inferInstanceAs (Decidable (left.type = .usable ∨ right.type = .usable →
    left.limit ≤ right.base ∨ right.limit ≤ left.base))

instance : Std.Symm MemmapEntry.Apart where
  symm _ _ apart isUsable := (apart isUsable.symm).symm

/-- The usable entries are page aligned and meet no other entry. -/
structure MapSound : Prop where
  inside : ∀ entry ∈ map, entry.limit < 2 ^ 64
  aligned : ∀ entry ∈ map, entry.type = .usable → pageSize ∣ entry.base ∧ pageSize ∣ entry.length
  apart : map.Pairwise MemmapEntry.Apart

/-- Some usable entry is larger than the table. -/
def HasRoom (size : Nat) : Prop :=
  ∃ entry ∈ map, entry.type = .usable ∧ size < entry.length

variable {map}

/-- The entry may have lost its end. -/
def MemmapEntry.Within (entry old : MemmapEntry) : Prop :=
  entry.type = old.type ∧ entry.base = old.base ∧ entry.length ≤ old.length

/-- What is left of a map when a range has been taken off one entry. -/
structure Taken (map left : List MemmapEntry) (start limit : Nat) : Prop where
  inUsable : InUsable map start limit
  avoided : Avoids left start limit
  entries : ∀ entry ∈ left, ∃ old ∈ map, entry.Within old

theorem Taken.avoids {start limit first last : Nat}
    (taken : Taken map left start limit) (avoids : Avoids map first last) :
    Avoids left first last := by
  intro entry member isUsable
  obtain ⟨old, isOld, sameType, sameBase, shorter⟩ := taken.entries entry member
  have apart := avoids old isOld (sameType.symm.trans isUsable)
  unfold MemmapEntry.limit at *
  omega

theorem Avoids.apart {start limit first last : Nat}
    (avoids : Avoids map first last) (inUsable : InUsable map start limit) :
    limit ≤ first ∨ last ≤ start := by
  obtain ⟨entry, member, isUsable, above, below⟩ := inUsable
  have apart := avoids entry member isUsable
  omega


theorem MemmapEntry.Apart.within {other old : MemmapEntry}
    (apart : other.Apart old) (within : entry.Within old) :
    other.Apart entry := by
  obtain ⟨sameType, sameBase, shorter⟩ := within
  unfold MemmapEntry.Apart MemmapEntry.limit at *
  rw [sameType, sameBase]
  intro isUsable
  have ordered := apart isUsable
  omega

theorem Taken.cons {start limit : Nat} (taken : Taken map left start limit)
    (apart : ∀ other ∈ map, entry.Apart other) :
    Taken (entry :: map) (entry :: left) start limit := by
  obtain ⟨old, isOld, isUsable, above, below⟩ := taken.inUsable
  constructor
  · exact ⟨old, mem_cons_of_mem _ isOld, isUsable, above, below⟩
  · intro other member otherUsable
    rcases mem_cons.mp member with rfl | isLeft
    · have ordered := apart old isOld (.inl otherUsable)
      omega
    · exact taken.avoided other isLeft otherUsable
  · intro other member
    rcases mem_cons.mp member with rfl | isLeft
    · exact ⟨other, mem_cons_self, rfl, rfl, le_refl _⟩
    · obtain ⟨old, isOld, within⟩ := taken.entries other isLeft
      exact ⟨old, mem_cons_of_mem _ isOld, within⟩

/-- A first fit takes its range off one entry, and what is left is apart. -/
theorem takeFirstFit_taken {size : Nat} (inside : ∀ entry ∈ map, entry.limit < 2 ^ 64)
    (apart : map.Pairwise MemmapEntry.Apart) (room : HasRoom map size) :
    Taken map (takeFirstFit size map).2 (takeFirstFit size map).1
        ((takeFirstFit size map).1 + size) ∧
      (takeFirstFit size map).2.Pairwise MemmapEntry.Apart := by
  induction map with
  | nil =>
    obtain ⟨entry, member, _⟩ := room
    cases member
  | cons entry rest induction =>
    obtain ⟨apartHead, apartRest⟩ := pairwise_cons.mp apart
    unfold takeFirstFit
    by_cases fits : entry.type = .usable ∧ size < entry.length
    · rw [if_pos fits]
      obtain ⟨isUsable, large⟩ := fits
      have bound := inside entry mem_cons_self
      have start : uptrSub (uptrAdd entry.base entry.length) size = entry.limit - size := by
        unfold MemmapEntry.limit at *
        rw [uptrAdd_eq bound, uptrSub_eq (by omega) bound]
      have ends : entry.limit - size + size = entry.limit :=
        Nat.sub_add_cancel (by unfold MemmapEntry.limit; omega)
      have within : { entry with length := entry.length - size }.Within entry :=
        ⟨rfl, rfl, Nat.sub_le _ _⟩
      simp only [start, ends]
      refine ⟨⟨⟨entry, mem_cons_self, isUsable, ?_, le_refl _⟩, ?_, ?_⟩, ?_⟩
      · unfold MemmapEntry.limit
        omega
      · intro other member otherUsable
        rcases mem_cons.mp member with rfl | inRest
        · right
          unfold MemmapEntry.limit
          simp only
          omega
        · have ordered := apartHead other inRest (.inl isUsable)
          unfold MemmapEntry.limit at *
          omega
      · intro other member
        rcases mem_cons.mp member with rfl | inRest
        · exact ⟨entry, mem_cons_self, within⟩
        · exact ⟨other, mem_cons_of_mem _ inRest, rfl, rfl, le_refl _⟩
      · refine pairwise_cons.mpr ⟨fun other inRest either => ?_, apartRest⟩
        have ordered := apartHead other inRest either
        unfold MemmapEntry.limit at *
        simp only
        omega
    · rw [if_neg fits]
      have roomRest : HasRoom rest size := by
        obtain ⟨other, member, larger⟩ := room
        rcases mem_cons.mp member with rfl | inRest
        · exact absurd larger fits
        · exact ⟨other, inRest, larger⟩
      obtain ⟨taken, leftApart⟩ := induction
        (fun other inRest => inside other (mem_cons_of_mem _ inRest))
        apartRest roomRest
      refine ⟨taken.cons apartHead, pairwise_cons.mpr ⟨?_, leftApart⟩⟩
      intro other isLeft
      obtain ⟨old, isOld, within⟩ := taken.entries other isLeft
      exact (apartHead old isOld).within within

/-- The bit of the frame is clear behind `_bitmap_free_pages`. -/
def MarkedFree (map : List MemmapEntry) (pfn : Nat) : Prop :=
  (bitmapFreePages (pfnDatabaseInit map).2 (fun _ => BitVec.allOnes 64)
    (pfn / 64)).getLsbD (pfn % 64) = false

/-- The pages of the two ranges are different. -/
def PageApart (pfn start limit : Nat) : Prop :=
  limit ≤ pfn * pageSize ∨ (pfn + 1) * pageSize ≤ start

/-- The two tables lie in usable memory, apart from each other, and the free
frames are apart from both and from every other entry. -/
structure CarvedOut (map : List MemmapEntry) : Prop where
  bitmap : InUsable map (bitmapInit map).1 ((bitmapInit map).1 + bitmapSize (kmemLimit map))
  database : InUsable map (pfnDatabaseInit map).1
    ((pfnDatabaseInit map).1 + pfnDbSize (kmemLimit map))
  apart :
    (pfnDatabaseInit map).1 + pfnDbSize (kmemLimit map) ≤ (bitmapInit map).1 ∨
      (bitmapInit map).1 + bitmapSize (kmemLimit map) ≤ (pfnDatabaseInit map).1
  free : ∀ pfn, MarkedFree map pfn →
    PageApart pfn (bitmapInit map).1 ((bitmapInit map).1 + bitmapSize (kmemLimit map)) ∧
    PageApart pfn (pfnDatabaseInit map).1 ((pfnDatabaseInit map).1 + pfnDbSize (kmemLimit map)) ∧
    ∀ entry ∈ map, entry.type ≠ .usable → PageApart pfn entry.base entry.limit

theorem InUsable.of_taken {start limit first last : Nat} (taken : Taken map left start limit)
    (inUsable : InUsable left first last) : InUsable map first last := by
  obtain ⟨entry, member, isUsable, above, below⟩ := inUsable
  obtain ⟨old, isOld, sameType, sameBase, shorter⟩ := taken.entries entry member
  unfold MemmapEntry.limit at *
  exact ⟨old, isOld, sameType.symm.trans isUsable, by omega,
    by unfold MemmapEntry.limit; omega⟩

theorem inUsable_of_frees {pfn : Nat} (member : entry ∈ map)
    (aligned : pageSize ∣ entry.base) (frees : entry.Frees pfn) :
    InUsable map (pfn * pageSize) ((pfn + 1) * pageSize) := by
  obtain ⟨isUsable, lower, upper⟩ := frees
  refine ⟨entry, member, isUsable, ?_, ?_⟩
  all_goals
    simp only [MemmapEntry.limit, sizeToPage, pageSize, pageShift] at *
    omega

/-- A reserved page and usable memory from one pebibyte on. -/
def highMap : List MemmapEntry :=
  [⟨0, 0x1000, .other⟩, ⟨2 ^ 50, 2 ^ 45, .usable⟩]

end SeekOs.Pmm
