import Mathlib.Data.BitVec

/-!
# Fields of machine words

A field is a range of the bits of a word.  Storing a value in a field changes no
field apart from it.
-/

namespace SeekOs.Lib

structure BitField (size width : Nat) where
  start : Nat
  fits : start + width ≤ size

namespace BitField

variable {size width otherWidth : Nat} (bits : BitField size width)

variable (word : BitVec size)

def get : BitVec width :=
  word.extractLsb' bits.start width

def set (value : BitVec width) : BitVec size :=
  (word &&& ~~~((BitVec.allOnes width).setWidth size <<< bits.start)) |||
    (value.setWidth size <<< bits.start)

def Apart (other : BitField size otherWidth) : Prop :=
  bits.start + width ≤ other.start ∨ other.start + otherWidth ≤ bits.start

instance (other : BitField size otherWidth) : Decidable (bits.Apart other) :=
  inferInstanceAs (Decidable (_ ∨ _))

theorem getLsbD_set (value : BitVec width) {index : Nat} (inside : index < size) :
    (bits.set word value).getLsbD index =
      if bits.start ≤ index ∧ index < bits.start + width then
        value.getLsbD (index - bits.start)
      else
        word.getLsbD index := by
  unfold set
  by_cases before : index < bits.start
  · have outside : ¬(bits.start ≤ index ∧ index < bits.start + width) := by omega
    simp [inside, before, outside]
  · by_cases within : index < bits.start + width
    · have covered : bits.start ≤ index ∧ index < bits.start + width := by omega
      have place : index - bits.start < width := by omega
      simp [inside, before, covered, place]
    · have outside : ¬(bits.start ≤ index ∧ index < bits.start + width) := by omega
      have behind : width ≤ index - bits.start := by omega
      have place : ¬index - bits.start < width := by omega
      simp [inside, before, outside, place, BitVec.getLsbD_of_ge value _ behind]

@[simp] theorem get_set (value : BitVec width) :
    bits.get (bits.set word value) = value := by
  apply BitVec.eq_of_getLsbD_eq
  intro index inside
  have fits := bits.fits
  have covered : bits.start ≤ bits.start + index ∧
      bits.start + index < bits.start + width := by omega
  rw [get, BitVec.getLsbD_extractLsb', getLsbD_set bits word value (by omega),
    if_pos covered, Nat.add_sub_cancel_left]
  simp [inside]

theorem get_set_of_apart {other : BitField size otherWidth} (apart : bits.Apart other)
    (word : BitVec size) (value : BitVec width) :
    other.get (bits.set word value) = other.get word := by
  apply BitVec.eq_of_getLsbD_eq
  intro index inside
  have fits := other.fits
  have outside : ¬(bits.start ≤ other.start + index ∧
      other.start + index < bits.start + width) := by
    unfold Apart at apart
    omega
  rw [get, get, BitVec.getLsbD_extractLsb', BitVec.getLsbD_extractLsb',
    getLsbD_set bits word value (by omega), if_neg outside]

end BitField

theorem append_halves {low high : Nat} (word : BitVec (high + low)) :
    word.extractLsb' low high ++ word.extractLsb' 0 low = word := by
  apply BitVec.eq_of_getLsbD_eq
  intro index inside
  rw [BitVec.getLsbD_append]
  split
  · rename_i lower
    simp [lower]
  · rename_i upper
    have place : index - low < high := by omega
    have index_eq : low + (index - low) = index := by omega
    simp [place, index_eq]

end SeekOs.Lib
