import Mathlib.Data.List.Basic
import Mathlib.Tactic

/-!
# Lists threaded through memory

A free list stores the address of the next free object in the object itself.
`follow` reads such a list back from memory.  The lemmas say what the stores
of an allocator do to it: a store elsewhere, taking the first node, putting a
node in front, and a list whose nodes lie at equal distances.
-/

namespace SeekOs.Lib

open Function List

variable {words other : Nat → Nat} {head node count : Nat}

/-- The first `count` nodes of the list that starts at `head`. -/
def follow (words : Nat → Nat) : Nat → Nat → List Nat
  | _, 0 => []
  | head, count + 1 => head :: follow words (words head) count

@[simp] theorem follow_succ (words : Nat → Nat) (head count : Nat) :
    follow words head (count + 1) = head :: follow words (words head) count := rfl

@[simp] theorem length_follow (words : Nat → Nat) (head count : Nat) :
    (follow words head count).length = count := by
  induction count generalizing head with
  | zero => rfl
  | succ count induction => rw [follow_succ, length_cons, induction]

theorem follow_congr (agree : ∀ node ∈ follow words head count, other node = words node) :
    follow other head count = follow words head count := by
  induction count generalizing head with
  | zero => rfl
  | succ count induction =>
    rw [follow_succ, follow_succ, agree head mem_cons_self]
    congr 1
    apply induction
    intro node member
    exact agree node (mem_cons_of_mem head member)

theorem follow_update {value : Nat} (outside : node ∉ follow words head count) :
    follow (update words node value) head count = follow words head count := by
  apply follow_congr
  intro member isMember
  apply update_of_ne
  rintro rfl
  exact outside isMember

theorem follow_push (outside : node ∉ follow words head count) :
    follow (update words node head) node (count + 1) = node :: follow words head count := by
  rw [follow_succ, update_self, follow_update outside]

theorem follow_strided {start stride : Nat}
    (linked : ∀ index, index + 1 < count →
      words (start + index * stride) = start + (index + 1) * stride) :
    follow words start count = (List.range count).map fun index => start + index * stride := by
  induction count generalizing start with
  | zero => rfl
  | succ count induction =>
    have tail : ∀ index, start + stride + index * stride = start + (index + 1) * stride := by
      intro index
      ring
    rw [follow_succ, range_succ_eq_map, map_cons, map_map, Nat.zero_mul, Nat.add_zero]
    congr 1
    cases count with
    | zero => rfl
    | succ count =>
      have second : words start = start + stride := by
        simpa using linked 0 (by omega)
      rw [second, induction]
      · apply map_congr_left
        intro index _
        exact tail index
      · intro index below
        rw [tail, tail]
        exact linked (index + 1) (by omega)

end SeekOs.Lib
