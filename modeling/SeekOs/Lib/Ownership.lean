import Mathlib.Data.List.Basic
import Mathlib.Logic.Function.Basic
import Mathlib.Tactic

/-!
# Items with one owner

Items are allocated, read and freed, and the events are logged, the last one
first.  Owners hold at most one item each.  The rules below say which changes
of the owners' pointers go with an event so that every item has one owner from
its allocation until it is freed.
-/

namespace SeekOs.Lib

open Function List

variable {ο β : Type*}

inductive UseEvent (β : Type*) where
  | alloc (item : β)
  | read (item : β)
  | free (item : β)
  deriving DecidableEq

def UseEvent.item : UseEvent β → β
  | .alloc item => item
  | .read item => item
  | .free item => item

/-- Items are allocated once, freed at most once, and read only in between. -/
def WellUsed : List (UseEvent β) → Prop
  | [] => True
  | .alloc item :: earlier => .alloc item ∉ earlier ∧ WellUsed earlier
  | .read item :: earlier =>
    .alloc item ∈ earlier ∧ .free item ∉ earlier ∧ WellUsed earlier
  | .free item :: earlier =>
    .alloc item ∈ earlier ∧ .free item ∉ earlier ∧ WellUsed earlier

instance WellUsed.decidable [DecidableEq β] :
    (trace : List (UseEvent β)) → Decidable (WellUsed trace)
  | [] => .isTrue trivial
  | .alloc item :: earlier =>
    have := WellUsed.decidable earlier
    inferInstanceAs (Decidable (.alloc item ∉ earlier ∧ WellUsed earlier))
  | .read item :: earlier =>
    have := WellUsed.decidable earlier
    inferInstanceAs (Decidable (.alloc item ∈ earlier ∧ .free item ∉ earlier ∧ WellUsed earlier))
  | .free item :: earlier =>
    have := WellUsed.decidable earlier
    inferInstanceAs (Decidable (.alloc item ∈ earlier ∧ .free item ∉ earlier ∧ WellUsed earlier))

/-- An item was allocated and not freed yet. -/
def InUse (trace : List (UseEvent β)) (item : β) : Prop :=
  .alloc item ∈ trace ∧ .free item ∉ trace

/-- Exactly the items in use are held, each by one owner. -/
structure Owns (pointer : ο → Option β) (trace : List (UseEvent β)) :
    Prop where
  used : WellUsed trace
  held : ∀ {owner item}, pointer owner = some item → InUse trace item
  unique : ∀ {first second item}, pointer first = some item →
    pointer second = some item → first = second
  owned : ∀ {item}, InUse trace item → ∃ owner, pointer owner = some item

theorem WellUsed.free_count [DecidableEq β] {trace : List (UseEvent β)}
    (used : WellUsed trace) (item : β) :
    trace.count (.free item) ≤ 1 := by
  induction trace with
  | nil => simp
  | cons event earlier induction =>
    cases event with
    | alloc other =>
      exact induction used.2
    | read other =>
      exact induction used.2.2
    | free other =>
      by_cases same : other = item
      · subst other
        rw [count_cons_self, count_eq_zero.mpr used.2.1]
      · rw [count_cons_of_ne (by simpa using same)]
        exact induction used.2.2

namespace Owns

variable {pointer : ο → Option β} {trace : List (UseEvent β)} {owner : ο} {item : β}

theorem nothing (empty : ∀ owner, pointer owner = none) :
    Owns pointer ([] : List (UseEvent β)) := by
  refine ⟨trivial, ?_, ?_, ?_⟩
  · intro owner item points
    rw [empty] at points
    cases points
  · intro first second item points
    rw [empty] at points
    cases points
  · intro item inUse
    exact absurd inUse.1 not_mem_nil

theorem read (owns : Owns pointer trace) (points : pointer owner = some item) :
    Owns pointer (.read item :: trace) := by
  have iff : ∀ other, InUse (.read item :: trace) other ↔ InUse trace other := by
    intro other
    simp [InUse]
  obtain ⟨allocated, unfreed⟩ := owns.held points
  refine ⟨⟨allocated, unfreed, owns.used⟩, ?_, owns.unique, ?_⟩
  · intro other held points
    exact (iff held).mpr (owns.held points)
  · intro other inUse
    exact owns.owned ((iff other).mp inUse)

variable [DecidableEq ο]

theorem alloc (owns : Owns pointer trace) (vacant : pointer owner = none)
    (isNew : ∀ event ∈ trace, event.item ≠ item) :
    Owns (update pointer owner (some item)) (.alloc item :: trace) := by
  have unused : ∀ {other}, InUse trace other → other ≠ item := by
    rintro other inUse rfl
    exact isNew _ inUse.1 rfl
  have notFreed : .free item ∉ trace := fun freed => isNew _ freed rfl
  refine ⟨⟨fun allocated => isNew _ allocated rfl, owns.used⟩, ?_, ?_, ?_⟩
  · intro other held points
    by_cases same : other = owner
    · subst other
      rw [update_self, Option.some.injEq] at points
      subst held
      exact ⟨mem_cons_self, by simpa using notFreed⟩
    · rw [update_of_ne same] at points
      obtain ⟨allocated, unfreed⟩ := owns.held points
      exact ⟨mem_cons_of_mem _ allocated, by simpa using unfreed⟩
  · intro first second held left right
    by_cases isFirst : first = owner
    · by_cases isSecond : second = owner
      · rw [isFirst, isSecond]
      · rw [isFirst, update_self, Option.some.injEq] at left
        rw [update_of_ne isSecond] at right
        exact absurd left.symm (unused (owns.held right))
    · rw [update_of_ne isFirst] at left
      by_cases isSecond : second = owner
      · rw [isSecond, update_self, Option.some.injEq] at right
        exact absurd right.symm (unused (owns.held left))
      · rw [update_of_ne isSecond] at right
        exact owns.unique left right
  · intro other inUse
    obtain ⟨allocated, unfreed⟩ := inUse
    rcases mem_cons.mp allocated with isItem | earlier
    · cases isItem
      exact ⟨owner, update_self _ _ _⟩
    · obtain ⟨holder, points⟩ :=
        owns.owned ⟨earlier, fun freed => unfreed (mem_cons_of_mem _ freed)⟩
      refine ⟨holder, ?_⟩
      rw [update_of_ne]
      · exact points
      · rintro rfl
        rw [vacant] at points
        cases points

theorem free (owns : Owns pointer trace) (points : pointer owner = some item) :
    Owns (update pointer owner none) (.free item :: trace) := by
  obtain ⟨allocated, unfreed⟩ := owns.held points
  refine ⟨⟨allocated, unfreed, owns.used⟩, ?_, ?_, ?_⟩
  · intro other held pointsOther
    by_cases same : other = owner
    · rw [same, update_self] at pointsOther
      cases pointsOther
    · rw [update_of_ne same] at pointsOther
      have different : held ≠ item := by
        rintro rfl
        exact same (owns.unique pointsOther points)
      obtain ⟨heldAllocated, heldUnfreed⟩ := owns.held pointsOther
      refine ⟨mem_cons_of_mem _ heldAllocated, ?_⟩
      simp [different, heldUnfreed]
  · intro first second held left right
    by_cases isFirst : first = owner
    · rw [isFirst, update_self] at left
      cases left
    · by_cases isSecond : second = owner
      · rw [isSecond, update_self] at right
        cases right
      · rw [update_of_ne isFirst] at left
        rw [update_of_ne isSecond] at right
        exact owns.unique left right
  · intro other inUse
    obtain ⟨otherAllocated, otherUnfreed⟩ := inUse
    have different : other ≠ item := by
      rintro rfl
      exact otherUnfreed mem_cons_self
    have before : InUse trace other := by
      refine ⟨?_, fun freed => otherUnfreed (mem_cons_of_mem _ freed)⟩
      simpa using otherAllocated
    obtain ⟨holder, pointsHolder⟩ := owns.owned before
    refine ⟨holder, ?_⟩
    rw [update_of_ne]
    · exact pointsHolder
    · rintro rfl
      rw [points, Option.some.injEq] at pointsHolder
      exact different pointsHolder.symm

/-- An owner hands what it holds, if anything, to an owner without an item. -/
theorem move (owns : Owns pointer trace) {giver taker : ο}
    (apart : giver ≠ taker) (vacant : pointer taker = none) :
    Owns (update (update pointer giver none) taker (pointer giver)) trace := by
  have atTaker : update (update pointer giver none) taker
      (pointer giver) taker = pointer giver := update_self _ _ _
  have atGiver : update (update pointer giver none) taker (pointer giver) giver = none := by
    rw [update_of_ne apart, update_self]
  have elsewhere : ∀ owner, owner ≠ giver → owner ≠ taker →
      update (update pointer giver none) taker (pointer giver) owner = pointer owner := by
    intro owner notGiver notTaker
    rw [update_of_ne notTaker, update_of_ne notGiver]
  -- every holder after the move was a holder before it
  have origin : ∀ {owner item},
      update (update pointer giver none) taker (pointer giver) owner = some item →
      ∃ source, pointer source = some item ∧
        (owner = taker ∧ source = giver ∨ owner = source ∧ owner ≠ taker) := by
    intro owner item points
    by_cases isTaker : owner = taker
    · rw [isTaker, atTaker] at points
      exact ⟨giver, points, .inl ⟨isTaker, rfl⟩⟩
    · by_cases isGiver : owner = giver
      · rw [isGiver, atGiver] at points
        cases points
      · rw [elsewhere owner isGiver isTaker] at points
        exact ⟨owner, points, .inr ⟨rfl, isTaker⟩⟩
  refine ⟨owns.used, ?_, ?_, ?_⟩
  · intro owner item points
    obtain ⟨source, sourcePoints, _⟩ := origin points
    exact owns.held sourcePoints
  · intro first second item left right
    obtain ⟨one, onePoints, firstIs⟩ := origin left
    obtain ⟨two, twoPoints, secondIs⟩ := origin right
    have same := owns.unique onePoints twoPoints
    rcases firstIs with ⟨rfl, rfl⟩ | ⟨rfl, notTaker⟩
    · rcases secondIs with ⟨rfl, _⟩ | ⟨rfl, _⟩
      · rfl
      · rw [← same, atGiver] at right
        cases right
    · rcases secondIs with ⟨rfl, rfl⟩ | ⟨rfl, _⟩
      · rw [same, atGiver] at left
        cases left
      · exact same
  · intro item inUse
    obtain ⟨owner, points⟩ := owns.owned inUse
    by_cases isGiver : owner = giver
    · refine ⟨taker, ?_⟩
      rw [atTaker, ← isGiver]
      exact points
    · refine ⟨owner, ?_⟩
      rw [elsewhere owner isGiver]
      · exact points
      · rintro rfl
        rw [vacant] at points
        cases points

end Owns

end SeekOs.Lib
