import Mathlib.Data.List.Basic
import Mathlib.Data.List.TakeWhile
import Mathlib.Tactic

/-!
# Bounded buffers holding terminated text

A buffer is the list of its cells.  A store that would leave the buffer is no
store at all, and the length of a text is known only if its terminator lies in
the buffer.
-/

namespace SeekOs.Lib

open List Option

variable {α : Type*} [Zero α] {buffer : List α}

/-- Overwrite the cells from an offset on, all of them inside the buffer. -/
def store (buffer : List α) (offset : Nat) (cells : List α) :
    Option (List α) :=
  if offset + cells.length ≤ buffer.length then
    some (buffer.take offset ++ cells ++ buffer.drop (offset + cells.length))
  else
    none

/-- Overwrite a range of cells by terminators. -/
def clear (buffer : List α) (offset count : Nat) : Option (List α) :=
  store buffer offset (List.replicate count 0)

/-- The cells before the first terminator. -/
def textOf [DecidableEq α] (buffer : List α) : List α :=
  buffer.takeWhile (· ≠ 0)

/-- The number of cells before the first terminator, if there is one. -/
def textLength [DecidableEq α] (buffer : List α) : Option Nat :=
  let length := (textOf buffer).length
  if length < buffer.length then some length else none

/-- Store a text behind the one in the buffer. -/
def cat [DecidableEq α] (buffer more : List α) : Option (List α) :=
  (textLength buffer).bind fun length => store buffer length more

theorem textLength_eq_none [DecidableEq α]
    (proper : (0 : α) ∉ buffer) : textLength buffer = none := by
  have allText : textOf buffer = buffer := by
    rw [textOf, takeWhile_eq_self_iff]
    intro cell member
    have different : cell ≠ 0 := fun isNul => proper (isNul ▸ member)
    simpa using different
  rw [textLength, allText]
  exact if_neg (Nat.lt_irrefl _)

theorem not_mem_of_textLength [DecidableEq α]
    (unknown : textLength buffer = none) : (0 : α) ∉ buffer := by
  intro member
  have known : (textOf buffer).length < buffer.length := by
    have initial : textOf buffer <+: buffer := takeWhile_prefix _
    apply lt_of_le_of_ne initial.length_le
    intro same
    have allText := takeWhile_eq_self_iff.mp (initial.eq_of_length same)
    exact absurd rfl (of_decide_eq_true (allText 0 member))
  rw [textLength, if_pos known] at unknown
  cases unknown

omit [Zero α] in
/-- What a store leaves in the buffer was there before or has been stored. -/
theorem mem_of_store {buffer cells stored : List α} {offset : Nat}
    (storedEq : store buffer offset cells = some stored) {cell : α}
    (member : cell ∈ stored) :
    cell ∈ buffer ∨ cell ∈ cells := by
  unfold store at storedEq
  split at storedEq
  · cases storedEq
    rcases mem_append.mp member with front | behind
    · rcases mem_append.mp front with before | new
      · exact Or.inl (mem_of_mem_take before)
      · exact Or.inr new
    · exact Or.inl (mem_of_mem_drop behind)
  · cases storedEq

/-- A buffer of the given size holds a text, and terminators from its end
on. -/
structure HoldsText (size : Nat) (buffer text : List α) : Prop where
  cells : buffer = text ++ List.replicate (size - text.length) 0
  short : text.length < size
  proper : (0 : α) ∉ text

omit [Zero α] in
/-- A text moved back and a lead stored in front of it. -/
theorem store_front (lead text : List α)
    (inside : lead.length + text.length ≤ buffer.length) :
    ∃ moved, store buffer lead.length text = some moved ∧
      store moved 0 lead = some (lead ++ text ++ buffer.drop (lead.length + text.length)) := by
  have frontLength : (buffer.take lead.length).length = lead.length := by
    rw [length_take]
    omega
  refine ⟨_, if_pos inside, ?_⟩
  rw [store, if_pos (by simp; omega), take_zero, nil_append, Nat.zero_add, append_assoc,
    drop_left' frontLength, append_assoc]

namespace HoldsText

variable {size : Nat} {text : List α}

section

variable (holds : HoldsText size buffer text)

include holds

theorem length : buffer.length = size := by
  have short := holds.short
  rw [holds.cells, length_append, length_replicate]
  omega

theorem take : buffer.take text.length = text := by
  rw [holds.cells, take_left]

theorem textOf [DecidableEq α] : Lib.textOf buffer = text := by
  obtain ⟨left, leftEq⟩ : ∃ left, size - text.length = left + 1 :=
    ⟨size - text.length - 1, by have := holds.short; omega⟩
  rw [Lib.textOf, holds.cells, leftEq, replicate_succ, takeWhile_append_of_pos]
  · simp
  · intro cell member
    have different : cell ≠ 0 := fun same => holds.proper (same ▸ member)
    simpa using different

theorem textLength [DecidableEq α] : Lib.textLength buffer = some text.length := by
  have inside : text.length < buffer.length := by
    rw [holds.length]
    exact holds.short
  simp only [Lib.textLength, holds.textOf, if_pos inside]

end

theorem empty (positive : 0 < size) : HoldsText size (List.replicate size (0 : α)) [] :=
  ⟨by simp, by simpa using positive, by simp⟩

section

variable (holds : HoldsText size buffer text) {more : List α}

include holds

theorem append (proper : (0 : α) ∉ more) (short : text.length + more.length < size) :
    ∃ extended, store buffer text.length more = some extended ∧
      HoldsText size extended (text ++ more) := by
  have inside : text.length + more.length ≤ buffer.length := by
    rw [holds.length]
    exact short.le
  refine ⟨_, if_pos inside, ?_, ?_, ?_⟩
  · rw [holds.take]
    congr 1
    rw [holds.cells, drop_append, drop_eq_nil_of_le (by omega), nil_append, drop_replicate]
    congr 1
    rw [length_append]
    omega
  · rw [length_append]
    exact short
  · intro member
    rcases mem_append.mp member with old | new
    · exact holds.proper old
    · exact proper new

theorem terminate : store buffer text.length [0] = some buffer := by
  obtain ⟨left, leftEq⟩ : ∃ left, size - text.length = left + 1 :=
    ⟨size - text.length - 1, by have := holds.short; omega⟩
  have inside : text.length + 1 ≤ buffer.length := by
    rw [holds.length]
    exact holds.short
  rw [store, length_singleton, if_pos inside, holds.take]
  congr 1
  rw [holds.cells, leftEq, replicate_succ, append_assoc, drop_length_add_append]
  rfl

/-- A store behind the text that leaves no room for the terminator. -/
theorem append_overrun [DecidableEq α] (proper : (0 : α) ∉ more)
    (long : size ≤ text.length + more.length) :
    (store buffer text.length more).bind Lib.textLength = none := by
  unfold store
  split
  · next fits =>
      have nothingBehind : buffer.drop (text.length + more.length) = [] := by
        rw [drop_eq_nil_iff, holds.length]
        exact long
      rw [bind_some, holds.take, nothingBehind, append_nil]
      apply textLength_eq_none
      intro member
      rcases mem_append.mp member with old | new
      · exact holds.proper old
      · exact proper new
  · rfl

theorem prepend {lead : List α}
    (proper : (0 : α) ∉ lead) (short : lead.length + text.length < size) :
    ∃ moved stored, store buffer lead.length text = some moved ∧
      store moved 0 lead = some stored ∧ HoldsText size stored (lead ++ text) := by
  have lengthEq := holds.length
  obtain ⟨moved, movedEq, storedEq⟩ := store_front lead text (lengthEq ▸ short.le)
  refine ⟨moved, _, movedEq, storedEq, ?_, ?_, ?_⟩
  · rw [holds.cells, Nat.add_comm, drop_length_add_append, drop_replicate, length_append,
      Nat.sub_sub, Nat.add_comm text.length]
  · rw [length_append]
    exact short
  · intro member
    rcases mem_append.mp member with new | old
    · exact proper new
    · exact holds.proper old

theorem prepend_overrun [DecidableEq α] {lead moved stored : List α} (proper : (0 : α) ∉ lead)
    (long : size ≤ lead.length + text.length)
    (movedEq : store buffer lead.length text = some moved)
    (storedEq : store moved 0 lead = some stored) :
    Lib.textLength stored = none := by
  have lengthEq := holds.length
  have inside : lead.length + text.length ≤ buffer.length := by
    by_contra outside
    rw [store, if_neg outside] at movedEq
    cases movedEq
  obtain ⟨again, againEq, whole⟩ := store_front lead text inside
  cases movedEq.symm.trans againEq
  cases storedEq.symm.trans whole
  have nothingBehind : buffer.drop (lead.length + text.length) = [] := by
    rw [drop_eq_nil_iff, lengthEq]
    exact long
  rw [nothingBehind, append_nil]
  apply textLength_eq_none
  intro member
  rcases mem_append.mp member with new | old
  · exact proper new
  · exact holds.proper old

theorem replace {longer : List α} (proper : (0 : α) ∉ longer) (short : longer.length < size)
    (covers : text.length ≤ longer.length) :
    ∃ stored, store buffer 0 longer = some stored ∧ HoldsText size stored longer := by
  have lengthEq := holds.length
  have inside : 0 + longer.length ≤ buffer.length := by omega
  refine ⟨_, if_pos inside, ?_, short, proper⟩
  rw [take_zero, nil_append, Nat.zero_add, holds.cells,
    drop_append, drop_eq_nil_of_le covers, nil_append,
    drop_replicate]
  congr 2
  omega

end

/-- Moving the end of the text to the front and clearing as many cells behind
it as the text had, if they are in the buffer. -/
theorem shift {gone rest : List α} (holds : HoldsText size buffer (gone ++ rest))
    (fits : rest.length + (gone ++ rest).length ≤ size) :
    ∃ moved shifted, store buffer 0 rest = some moved ∧
      clear moved rest.length (gone ++ rest).length = some shifted ∧
      HoldsText size shifted rest := by
  have short := holds.short
  have lengthEq := holds.length
  rw [length_append] at short fits
  have inside : 0 + rest.length ≤ buffer.length := by omega
  have movedLength :
      (buffer.take 0 ++ rest ++ buffer.drop (0 + rest.length)).length =
        size := by
    simp only [take_zero, nil_append, length_append, length_drop]
    omega
  refine ⟨_, _, if_pos inside, if_pos ?_, ?_, ?_, ?_⟩
  · rw [movedLength, length_replicate, length_append]
    exact fits
  · have behind :
        buffer.drop (rest.length + (gone ++ rest).length) =
          List.replicate (size - (gone ++ rest).length - rest.length) 0 := by
      rw [holds.cells, Nat.add_comm, drop_length_add_append, drop_replicate]
    simp only [take_zero, nil_append, length_replicate, Nat.zero_add]
    rw [take_left, drop_length_add_append, drop_drop, behind,
      append_assoc, replicate_append_replicate]
    congr 2
    rw [length_append]
    omega
  · omega
  · intro member
    exact holds.proper (mem_append_right gone member)

/-- Moving the end of the text to the front fails if clearing behind it
leaves the buffer. -/
theorem shift_overrun {gone rest moved : List α} (holds : HoldsText size buffer (gone ++ rest))
    (overrun : size < rest.length + (gone ++ rest).length)
    (stored : store buffer 0 rest = some moved) :
    clear moved rest.length (gone ++ rest).length = none := by
  have lengthEq := holds.length
  have short := holds.short
  have movedLength : moved.length = size := by
    unfold store at stored
    split at stored
    · cases stored
      simp only [take_zero, nil_append, length_append, length_drop]
      omega
    · cases stored
  refine if_neg ?_
  rw [length_replicate, movedLength]
  omega

theorem erase (holds : HoldsText size buffer text) :
    ∃ cleared, clear buffer 0 (text.length + 1) = some cleared ∧ HoldsText size cleared [] := by
  have short := holds.short
  have lengthEq := holds.length
  have inside : 0 + (List.replicate (text.length + 1) (0 : α)).length ≤ buffer.length := by
    rw [length_replicate]
    omega
  refine ⟨_, if_pos inside, ?_, ?_, ?_⟩
  · simp only [take_zero, nil_append, length_replicate, length_nil, Nat.zero_add, Nat.sub_zero]
    rw [holds.cells, drop_append, drop_eq_nil_of_le (by omega),
      nil_append, drop_replicate, replicate_append_replicate]
    congr 1
    omega
  · exact Nat.zero_lt_of_lt short
  · simp

/-- Texts that are put behind each other end up in the buffer if they fit, and
leave it without a terminator otherwise. -/
theorem cats [DecidableEq α] (holds : HoldsText size buffer text) {pieces : List (List α)}
    (proper : ∀ piece ∈ pieces, (0 : α) ∉ piece) :
    ((text ++ pieces.flatten).length < size → ∃ whole, pieces.foldlM cat buffer = some whole ∧
      HoldsText size whole (text ++ pieces.flatten)) ∧
    (size ≤ (text ++ pieces.flatten).length →
      (pieces.foldlM cat buffer).bind Lib.textLength = none) := by
  induction pieces generalizing buffer text with
  | nil =>
    rw [flatten_nil, append_nil]
    exact ⟨fun _ => ⟨buffer, rfl, holds⟩, fun long => absurd holds.short (Nat.not_lt.mpr long)⟩
  | cons piece rest induction =>
    have pieceProper := proper piece mem_cons_self
    have restProper := fun other member => proper other (mem_cons_of_mem piece member)
    have first : cat buffer piece = store buffer text.length piece := by
      rw [cat, holds.textLength, bind_some]
    rw [foldlM_cons, first, flatten_cons, ← append_assoc]
    by_cases short : text.length + piece.length < size
    · obtain ⟨extended, isExtended, extendedHolds⟩ := holds.append pieceProper short
      rw [isExtended]
      exact induction extendedHolds restProper
    · constructor
      · simp only [length_append]
        omega
      · intro _
        have fails := holds.append_overrun pieceProper (Nat.not_lt.mp short)
        cases stored : store buffer text.length piece with
        | none => rfl
        | some extended =>
          rw [stored, bind_some] at fails
          cases rest with
          | nil => exact fails
          | cons _ _ => simp [foldlM_cons, cat, fails]

end HoldsText

theorem clear_all {size : Nat} (lengthEq : buffer.length = size) :
    clear buffer 0 size = some (List.replicate size 0) := by
  subst lengthEq
  simp [clear, store]

end SeekOs.Lib
