import Mathlib.Data.List.Basic
import Mathlib.Logic.Function.Basic
import Mathlib.Tactic

/-!
# Radix tables with a recursive slot

A memory maps tables and slots to entries, and an entry may lead to another
table.  One slot of the root leads back to the root, so that a path which
starts with that slot reaches what the rest of it reaches.  The tables at the
other paths are pairwise different, down to a given depth.
-/

namespace SeekOs.Lib.Radix

open Function List Option

variable {τ ι ε : Type*}

/-- The table at the end of a path. -/
def descend (child : ε → Option τ) (memory : τ → ι → ε) :
    τ → List ι → Option τ
  | table, [] => some table
  | table, slot :: path =>
    (child (memory table slot)).bind fun next =>
      descend child memory next path

/-- A path that does not start with the recursive slot. -/
def Direct (recursive : ι) (path : List ι) : Prop :=
  path.head? ≠ some recursive

structure Tree (child : ε → Option τ) (recursive : ι) (depth : Nat)
    (memory : τ → ι → ε) (root : τ) : Prop where
  loop : child (memory root recursive) = some root
  distinct : ∀ {left right : List ι} {table : τ},
    Direct recursive left → Direct recursive right →
    left.length ≤ depth → right.length ≤ depth →
    descend child memory root left = some table →
    descend child memory root right = some table → left = right

variable {child : ε → Option τ} {recursive : ι} {depth : Nat} {memory : τ → ι → ε} {root : τ}
  {path : List ι} {slot : ι}

theorem descend_append (table : τ) (first second : List ι) :
    descend child memory table (first ++ second) =
      (descend child memory table first).bind fun middle =>
        descend child memory middle second := by
  induction first generalizing table with
  | nil => rfl
  | cons slot first induction =>
    simp only [cons_append, descend, bind_assoc]
    congr 1
    funext next
    exact induction next

theorem descend_concat (table : τ) (path : List ι) (slot : ι) :
    descend child memory table (path ++ [slot]) =
      (descend child memory table path).bind fun last =>
        child (memory last slot) := by
  rw [descend_append]
  congr 1
  funext last
  simp [descend]

theorem Direct.nil : Direct recursive ([] : List ι) := by
  simp [Direct]

theorem Direct.of_concat (direct : Direct recursive (path ++ [slot])) : Direct recursive path := by
  cases path with
  | nil => exact .nil
  | cons first path => exact direct

theorem Direct.concat (direct : Direct recursive path) (notLoop : path = [] → slot ≠ recursive) :
    Direct recursive (path ++ [slot]) := by
  cases path with
  | nil =>
    intro same
    exact notLoop rfl (Option.some.inj same)
  | cons first path => exact direct

/-- The path without its leading recursive slots. -/
def directPath [DecidableEq ι] (recursive : ι) (path : List ι) : List ι :=
  path.dropWhile (· = recursive)

section DirectPath

variable [DecidableEq ι]

theorem directPath_direct (recursive : ι) (path : List ι) :
    Direct recursive (directPath recursive path) := by
  induction path with
  | nil => exact .nil
  | cons slot path induction =>
    by_cases isLoop : slot = recursive
    · simpa [directPath, isLoop] using induction
    · simp [directPath, isLoop, Direct]

theorem directPath_length (recursive : ι) (path : List ι) :
    (directPath recursive path).length ≤ path.length :=
  (dropWhile_sublist _).length_le

theorem descend_directPath (loop : child (memory root recursive) = some root) (path : List ι) :
    descend child memory root (directPath recursive path) = descend child memory root path := by
  induction path with
  | nil => rfl
  | cons slot path induction =>
    by_cases isLoop : slot = recursive
    · have dropped : directPath recursive (slot :: path) = directPath recursive path := by
        simp [directPath, isLoop]
      rw [dropped, induction, isLoop, descend, loop, bind_some]
    · simp [directPath, isLoop]

end DirectPath

section Update

variable [DecidableEq τ] [DecidableEq ι]

def put (memory : τ → ι → ε) (table : τ) (slot : ι) (entry : ε) :
    τ → ι → ε :=
  update memory table (update (memory table) slot entry)

@[simp] theorem put_same (table : τ) (slot : ι) (entry : ε) :
    put memory table slot entry table slot = entry := by
  simp [put]

theorem put_of_ne {table other : τ} {slot otherSlot : ι} (entry : ε)
    (different : other = table → otherSlot ≠ slot) :
    put memory table slot entry other otherSlot = memory other otherSlot := by
  unfold put
  by_cases same : other = table
  · subst same
    rw [update_self, update_of_ne (different rfl)]
  · rw [update_of_ne same]

variable {table : τ} {entry : ε}

section

variable (tree : Tree child recursive depth memory root)
include tree

variable {other : List ι}

/-- Storing an entry at a direct path leaves every direct path alone that does
not run through it. -/
theorem Tree.descend_put (direct : Direct recursive path) (short : path.length ≤ depth)
    (reaches : descend child memory root path = some table)
    (otherDirect : Direct recursive other)
    (otherShort : other.length ≤ depth + 1)
    (apart : ¬path ++ [slot] <+: other) :
    descend child (put memory table slot entry) root other = descend child memory root other := by
  induction other using List.reverseRecOn with
  | nil => rfl
  | append_singleton other last induction =>
    rw [length_append, length_singleton] at otherShort
    have before := otherDirect.of_concat
    have apartBefore : ¬path ++ [slot] <+: other :=
      fun isPrefix => apart (isPrefix.trans (prefix_append other _))
    rw [descend_concat, descend_concat, induction before (by omega) apartBefore]
    cases reached : descend child memory root other with
    | none => rfl
    | some middle =>
      simp only [bind_some]
      rw [put_of_ne]
      intro same sameSlot
      subst same
      have samePath := tree.distinct before direct (by omega) short reached reaches
      rw [samePath, sameSlot] at apart
      exact apart (prefix_refl _)

/-- Storing an entry at the greatest depth changes no path to a table. -/
theorem Tree.descend_put_leaf (direct : Direct recursive path) (long : path.length = depth)
    (reaches : descend child memory root path = some table)
    (otherDirect : Direct recursive other)
    (otherShort : other.length ≤ depth) :
    descend child (put memory table slot entry) root other = descend child memory root other := by
  apply tree.descend_put direct long.le reaches otherDirect (Nat.le_succ_of_le otherShort)
  intro isPrefix
  have length := isPrefix.length_le
  rw [length_append, length_singleton] at length
  omega

theorem Tree.put_leaf (direct : Direct recursive path) (long : path.length = depth)
    (positive : 0 < depth)
    (reaches : descend child memory root path = some table) :
    Tree child recursive depth (put memory table slot entry) root := by
  constructor
  · have rootReaches : descend child memory root [] = some root := rfl
    rw [put_of_ne]
    · exact tree.loop
    · intro same
      subst same
      have isRoot := tree.distinct direct .nil long.le (Nat.zero_le depth) reaches rootReaches
      rw [isRoot, length_nil] at long
      omega
  · intro left right reached leftDirect rightDirect leftShort rightShort leftReaches rightReaches
    rw [tree.descend_put_leaf direct long reaches leftDirect leftShort] at leftReaches
    rw [tree.descend_put_leaf direct long reaches rightDirect rightShort] at rightReaches
    exact tree.distinct leftDirect rightDirect leftShort rightShort leftReaches rightReaches

end

/-- Store an entry that leads to a new table, and clear that table. -/
def link (memory : τ → ι → ε) (table : τ) (slot : ι) (entry : ε)
    (fresh : τ) (blank : ε) : τ → ι → ε :=
  update (put memory table slot entry) fresh fun _ => blank

/-- What it takes to hang a new table into the tree. -/
structure Linkable (child : ε → Option τ) (recursive : ι) (depth : Nat)
    (memory : τ → ι → ε) (root : τ) (path : List ι) (table : τ) (slot : ι)
    (entry : ε) (fresh : τ) (blank : ε) : Prop where
  direct : Direct recursive (path ++ [slot])
  short : path.length < depth
  reaches : descend child memory root path = some table
  vacant : child (memory table slot) = none
  leads : child entry = some fresh
  blank : child blank = none
  unused : ∀ {other : List ι}, Direct recursive other →
    other.length ≤ depth → descend child memory root other ≠ some fresh

namespace Linkable

variable {fresh : τ} {blank : ε}

/-- After the link the new path leads to the new table, and every other path
leads where it led before. -/
theorem descend_link (tree : Tree child recursive depth memory root)
    (linkable : Linkable child recursive depth memory root path table slot entry fresh blank)
    {other : List ι} (direct : Direct recursive other)
    (short : other.length ≤ depth) :
    descend child (link memory table slot entry fresh blank) root other =
      if other = path ++ [slot] then some fresh
      else descend child memory root other := by
  induction other using List.reverseRecOn with
  | nil =>
    rw [if_neg (by simp)]
    rfl
  | append_singleton other last induction =>
    rw [length_append, length_singleton] at short
    have before := direct.of_concat
    rw [descend_concat, induction before (by omega), descend_concat]
    by_cases isNew : other = path ++ [slot]
    · -- below the new table nothing is reached, before and after
      have longer : other ++ [last] ≠ path ++ [slot] := by
        intro same
        have lengths := congrArg List.length same
        rw [isNew] at lengths
        simp at lengths
      rw [if_pos isNew, if_neg longer, isNew, descend_concat, linkable.reaches]
      simp [linkable.vacant, link, linkable.blank]
    · rw [if_neg isNew]
      cases reached : descend child memory root other with
      | none =>
        have differs : other ++ [last] ≠ path ++ [slot] := by
          intro same
          have samePath := (append_inj' same rfl).1
          rw [samePath, linkable.reaches] at reached
          cases reached
        rw [if_neg differs]
        rfl
      | some middle =>
        have notFresh : middle ≠ fresh := by
          intro same
          rw [same] at reached
          exact linkable.unused before (by omega) reached
        simp only [bind_some, link, update_of_ne notFresh]
        by_cases here : other = path ∧ last = slot
        · obtain ⟨rfl, rfl⟩ := here
          rw [linkable.reaches] at reached
          cases reached
          rw [if_pos rfl, put_same, linkable.leads]
        · have differs : other ++ [last] ≠ path ++ [slot] := by
            intro same
            have parts := append_inj' same rfl
            exact here ⟨parts.1, singleton_inj.mp parts.2⟩
          rw [if_neg differs, put_of_ne]
          intro sameTable sameSlot
          subst sameTable
          have samePath := tree.distinct before
            linkable.direct.of_concat (by omega) linkable.short.le
            reached linkable.reaches
          exact here ⟨samePath, sameSlot⟩

omit [DecidableEq τ] [DecidableEq ι] in
theorem fresh_ne_root (linkable : Linkable child recursive depth memory root path table slot
      entry fresh blank) : root ≠ fresh := by
  intro same
  have reached : descend child memory root [] = some fresh := by
    rw [← same]
    rfl
  exact linkable.unused .nil (Nat.zero_le depth) reached

section

variable (tree : Tree child recursive depth memory root)
include tree

section

variable (linkable : Linkable child recursive depth memory root path table slot entry fresh blank)
include linkable

theorem descend_put_path : descend child (put memory table slot entry) root path = some table := by
  have direct := linkable.direct.of_concat
  rw [tree.descend_put direct linkable.short.le linkable.reaches direct
    (by have := linkable.short; omega)]
  · exact linkable.reaches
  · intro isPrefix
    have length := isPrefix.length_le
    simp at length

theorem loop_put : child (put memory table slot entry root recursive) = some root := by
  rw [put_of_ne]
  · exact tree.loop
  · intro isRoot isSlot
    have vacant := linkable.vacant
    rw [← isRoot, ← isSlot, tree.loop] at vacant
    cases vacant

theorem tree_link : Tree child recursive depth (link memory table slot entry fresh blank) root := by
  constructor
  · rw [link, update_of_ne linkable.fresh_ne_root]
    exact linkable.loop_put tree
  · intro left right reached leftDirect rightDirect leftShort rightShort leftReaches rightReaches
    rw [linkable.descend_link tree leftDirect leftShort] at leftReaches
    rw [linkable.descend_link tree rightDirect rightShort] at rightReaches
    by_cases leftNew : left = path ++ [slot]
    · rw [if_pos leftNew] at leftReaches
      cases leftReaches
      by_cases rightNew : right = path ++ [slot]
      · rw [leftNew, rightNew]
      · rw [if_neg rightNew] at rightReaches
        exact absurd rightReaches (linkable.unused rightDirect rightShort)
    · rw [if_neg leftNew] at leftReaches
      by_cases rightNew : right = path ++ [slot]
      · rw [if_pos rightNew] at rightReaches
        cases rightReaches
        exact absurd leftReaches (linkable.unused leftDirect leftShort)
      · rw [if_neg rightNew] at rightReaches
        exact tree.distinct leftDirect rightDirect leftShort rightShort leftReaches rightReaches

end

end

end Linkable

end Update

end SeekOs.Lib.Radix
