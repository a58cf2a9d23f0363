import Mathlib.Data.List.Basic
import Mathlib.Tactic

/-!
# Memory behind a translation

A range of addresses is read and written through a partial translation from
addresses to cells.  Two translations onto different cells do not see each
other's writes.
-/

namespace SeekOs.Lib

open Function Option Nat

variable {κ β : Type*} {offset : Nat} {view : Nat → Option κ}

/-- The value behind one address. -/
def valueThrough (memory : κ → β) (translate : Nat → Option κ)
    (address : Nat) : Option β :=
  (translate address).map memory

/-- The values of a range of addresses, if all of it is translated. -/
def readThrough (memory : κ → β) (translate : Nat → Option κ)
    (start : Nat) : Nat → Option (List β)
  | 0 => some []
  | count + 1 =>
    (translate start).bind fun cell =>
      (readThrough memory translate (start + 1) count).map fun rest =>
        memory cell :: rest

/-- Store a list of values from an address on. -/
def writeThrough [DecidableEq κ] (memory : κ → β)
    (translate : Nat → Option κ) (start : Nat) : List β → Option (κ → β)
  | [] => some memory
  | value :: rest =>
    (translate start).bind fun cell =>
      writeThrough (update memory cell value) translate (start + 1) rest

section Read

variable {memory other : κ → β} {translate : Nat → Option κ} {start count : Nat} {values : List β}

theorem readThrough_length (read : readThrough memory translate start count = some values) :
    values.length = count := by
  induction count generalizing start values with
  | zero =>
    cases read
    rfl
  | succ count induction =>
    simp only [readThrough, bind_eq_some_iff, map_eq_some_iff] at read
    obtain ⟨cell, _, rest, readRest, rfl⟩ := read
    simp [induction readRest]

theorem readThrough_value (read : readThrough memory translate start count = some values)
    (inside : offset < count) :
    valueThrough memory translate (start + offset) = values[offset]? := by
  induction count generalizing start values offset with
  | zero => exact absurd inside (not_lt_zero offset)
  | succ count induction =>
    simp only [readThrough, bind_eq_some_iff, map_eq_some_iff] at read
    obtain ⟨cell, translated, rest, readRest, rfl⟩ := read
    cases offset with
    | zero => simp [valueThrough, translated]
    | succ offset =>
      have tail := induction readRest (lt_of_succ_lt_succ inside)
      rw [add_assoc, add_comm 1] at tail
      simpa using tail

theorem readThrough_total (memory : κ → β)
    (translated : ∀ offset, offset < count → (translate (start + offset)).isSome) :
    ∃ values, readThrough memory translate start count = some values := by
  induction count generalizing start with
  | zero => exact ⟨[], rfl⟩
  | succ count induction =>
    have tail : ∀ offset, offset < count → (translate (start + 1 + offset)).isSome := by
      intro offset inside
      rw [add_assoc, add_comm 1]
      exact translated (offset + 1) (succ_lt_succ inside)
    obtain ⟨rest, readRest⟩ := induction tail
    obtain ⟨cell, isCell⟩ := isSome_iff_exists.mp (translated 0 (succ_pos count))
    rw [add_zero] at isCell
    exact ⟨memory cell :: rest, by simp [readThrough, isCell, readRest]⟩

theorem readThrough_congr (same : ∀ offset, offset < count → ∀ cell,
      translate (start + offset) = some cell → memory cell = other cell) :
    readThrough memory translate start count = readThrough other translate start count := by
  induction count generalizing start with
  | zero => rfl
  | succ count induction =>
    have rest : readThrough memory translate (start + 1) count =
        readThrough other translate (start + 1) count := by
      apply induction
      intro offset inside cell translated
      refine same (offset + 1) (succ_lt_succ inside) cell ?_
      rwa [add_comm offset, ← add_assoc]
    cases translated : translate start with
    | none => simp [readThrough, translated]
    | some cell =>
      have head := same 0 (succ_pos count) cell translated
      simp [readThrough, translated, head, rest]

/-- Two ranges that hold the same values address by address read alike. -/
theorem readThrough_agree (agree : ∀ offset, offset < count → ∃ value,
      valueThrough memory translate (start + offset) = some value ∧
        valueThrough other view (start + offset) = some value) :
    ∃ values, readThrough memory translate start count = some values ∧
      readThrough other view start count = some values := by
  induction count generalizing start with
  | zero => exact ⟨[], rfl, rfl⟩
  | succ count induction =>
    obtain ⟨head, atStart, inView⟩ := agree 0 (succ_pos count)
    have tail : ∀ offset, offset < count → ∃ value,
        valueThrough memory translate (start + 1 + offset) = some value ∧
          valueThrough other view (start + 1 + offset) = some value := by
      intro offset inside
      rw [add_assoc, add_comm 1]
      exact agree (offset + 1) (succ_lt_succ inside)
    obtain ⟨rest, readRest, viewRest⟩ := induction tail
    obtain ⟨cell, translated, isHead⟩ := map_eq_some_iff.mp atStart
    obtain ⟨seen, viewed, isSeen⟩ := map_eq_some_iff.mp inView
    rw [add_zero] at translated viewed
    refine ⟨head :: rest, ?_, ?_⟩
    · simp [readThrough, translated, readRest, isHead]
    · simp [readThrough, viewed, viewRest, isSeen]

end Read

section Write

variable [DecidableEq κ] {memory after : κ → β}
  {translate : Nat → Option κ} {start : Nat} {values : List β}

theorem writeThrough_total (memory : κ → β)
    (translated : ∀ offset, offset < values.length → (translate (start + offset)).isSome) :
    ∃ written, writeThrough memory translate start values = some written := by
  induction values generalizing memory start with
  | nil => exact ⟨memory, rfl⟩
  | cons value rest induction =>
    obtain ⟨cell, isCell⟩ := isSome_iff_exists.mp (translated 0 (by simp))
    rw [add_zero] at isCell
    have tail : ∀ offset, offset < rest.length → (translate (start + 1 + offset)).isSome := by
      intro offset inside
      rw [add_assoc, add_comm 1]
      exact translated (offset + 1) (by simpa using inside)
    obtain ⟨written, writeRest⟩ := induction (update memory cell value) tail
    exact ⟨written, by simpa [writeThrough, isCell] using writeRest⟩

section

variable (write : writeThrough memory translate start values = some after)

include write

theorem writeThrough_outside {cell : κ}
    (outside : ∀ offset, offset < values.length → translate (start + offset) ≠ some cell) :
    after cell = memory cell := by
  induction values generalizing memory start with
  | nil =>
    cases write
    rfl
  | cons value rest induction =>
    simp only [writeThrough, bind_eq_some_iff] at write
    obtain ⟨head, translated, writeRest⟩ := write
    have different : cell ≠ head := by
      rintro rfl
      exact outside 0 (by simp) translated
    rw [induction writeRest, update_of_ne different]
    intro offset inside
    have shifted := outside (offset + 1) (by simpa using inside)
    rwa [add_comm offset, ← add_assoc] at shifted

theorem writeThrough_inside
    (injective : ∀ left right, left < values.length → right < values.length →
      ∀ cell, translate (start + left) = some cell →
        translate (start + right) = some cell → left = right)
    (inside : offset < values.length) :
    valueThrough after translate (start + offset) = values[offset]? := by
  induction values generalizing memory start offset with
  | nil => exact absurd inside (not_lt_zero offset)
  | cons value rest induction =>
    simp only [writeThrough, bind_eq_some_iff] at write
    obtain ⟨head, translated, writeRest⟩ := write
    have shift : ∀ index, start + 1 + index = start + (index + 1) := by
      intro index
      rw [add_assoc, add_comm 1]
    cases offset with
    | zero =>
      have kept : after head = value := by
        rw [writeThrough_outside writeRest, update_self]
        intro index below same
        rw [shift] at same
        have := injective 0 (index + 1) (by simp) (by simpa using below)
          head translated same
        exact absurd this (succ_ne_zero index).symm
      simp [valueThrough, translated, kept]
    | succ offset =>
      have restInjective : ∀ left right, left < rest.length → right < rest.length → ∀ cell,
          translate (start + 1 + left) = some cell →
          translate (start + 1 + right) = some cell → left = right := by
        intro left right leftIn rightIn cell atLeft atRight
        rw [shift] at atLeft atRight
        have same := injective (left + 1) (right + 1)
          (by simpa using leftIn) (by simpa using rightIn) cell atLeft
          atRight
        exact succ.inj same
      have tail := induction writeRest restInjective (lt_of_succ_lt_succ inside)
      rw [shift] at tail
      simpa using tail

/-- A write through one translation is invisible through another one that
reaches none of its cells. -/
theorem readThrough_separate {origin count : Nat}
    (separate : ∀ offset, offset < values.length → ∀ index, index < count →
      ∀ cell, translate (start + offset) = some cell → view (origin + index) ≠ some cell) :
    readThrough after view origin count = readThrough memory view origin count := by
  apply readThrough_congr
  intro index inside cell seen
  apply writeThrough_outside write
  intro offset below translated
  exact separate offset below index inside cell translated seen

end

end Write

end SeekOs.Lib
