import Mathlib.Data.List.Basic
import Mathlib.Tactic

/-!
# Blocks of bytes

A block has a fixed number of bytes.  Words in it are little-endian.
-/

namespace SeekOs.Lib

def ByteBlock (size : Nat) : Type :=
  Fin size → UInt8

namespace ByteBlock

variable {size : Nat}
variable {bytes : List UInt8} {start index : Nat}

instance : DecidableEq (ByteBlock size) :=
  inferInstanceAs (DecidableEq (Fin size → UInt8))

def zero : ByteBlock size :=
  fun _ => 0

section

variable (block : ByteBlock size)

def byte (index : Nat) : UInt8 :=
  if inside : index < size then block ⟨index, inside⟩ else 0

/-- Overwrite the bytes from an index on. -/
def write (start : Nat) (bytes : List UInt8) : ByteBlock size := fun index =>
  if start ≤ index then bytes.getD (index - start) (block index)
  else block index

/-- The given number of bytes from an index on. -/
def slice (start count : Nat) : List UInt8 :=
  (List.range count).map fun index => block.byte (start + index)

def word16 (index : Nat) : Nat :=
  (block.byte index).toNat + (block.byte (index + 1)).toNat * 2 ^ 8

def word32 (index : Nat) : Nat :=
  block.word16 index + block.word16 (index + 2) * 2 ^ 16

def bytes16 (value : Nat) : List UInt8 :=
  [.ofNat value, .ofNat (value / 2 ^ 8)]

def bytes32 (value : Nat) : List UInt8 :=
  bytes16 value ++ bytes16 (value / 2 ^ 16)

def putWord16 (index value : Nat) : ByteBlock size :=
  block.write index (bytes16 value)

def putWord32 (index value : Nat) : ByteBlock size :=
  block.write index (bytes32 value)

theorem write_of_outside {index : Fin size}
    (outside : start ≤ index.val → start + bytes.length ≤ index.val) :
    block.write start bytes index = block index := by
  unfold write
  split
  · rename_i inside
    rw [List.getD_eq_getElem?_getD, List.getElem?_eq_none (by omega)]
    rfl
  · rfl

end

/-! ## Reading what was written -/

theorem byte_zero (index : Nat) : (zero : ByteBlock size).byte index = 0 := by
  unfold byte
  split
  · rfl
  · rfl

theorem word32_zero (index : Nat) : (zero : ByteBlock size).word32 index = 0 := by
  unfold word32 word16
  simp only [byte_zero]
  rfl

section

variable (block : ByteBlock size)
include block

theorem byte_write_outside (outside : index < start ∨ start + bytes.length ≤ index) :
    (block.write start bytes).byte index = block.byte index := by
  unfold byte
  split
  · apply write_of_outside
    intro inside
    change start ≤ index at inside
    change start + bytes.length ≤ index
    omega
  · rfl

theorem byte_write_inside {offset : Nat} {value : UInt8} (stored : bytes[offset]? = some value)
    (fits : start + offset < size) :
    (block.write start bytes).byte (start + offset) = value := by
  unfold byte write
  rw [dif_pos fits, if_pos (Nat.le_add_right _ _), Nat.add_sub_cancel_left,
    List.getD_eq_getElem?_getD, stored]
  rfl

theorem word32_lt (index : Nat) : block.word32 index < 2 ^ 32 := by
  have first := (block.byte index).toNat_lt
  have second := (block.byte (index + 1)).toNat_lt
  have third := (block.byte (index + 2)).toNat_lt
  have fourth := (block.byte (index + 2 + 1)).toNat_lt
  unfold word32 word16
  omega

theorem word32_putWord32 (value : Nat) (fits : index + 4 ≤ size) :
    (block.putWord32 index value).word32 index = value % 2 ^ 32 := by
  have bytes : bytes32 value = [.ofNat value, .ofNat (value / 2 ^ 8),
      .ofNat (value / 2 ^ 16), .ofNat (value / 2 ^ 16 / 2 ^ 8)] := rfl
  have first : (block.putWord32 index value).byte (index + 0) =
      .ofNat value := byte_write_inside block (by rw [bytes]; rfl) (by omega)
  have second : (block.putWord32 index value).byte (index + 1) = .ofNat (value / 2 ^ 8) :=
    byte_write_inside block (by rw [bytes]; rfl) (by omega)
  have third : (block.putWord32 index value).byte (index + 2) = .ofNat (value / 2 ^ 16) :=
    byte_write_inside block (by rw [bytes]; rfl) (by omega)
  have fourth : (block.putWord32 index value).byte (index + 3) = .ofNat (value / 2 ^ 16 / 2 ^ 8) :=
    byte_write_inside block (by rw [bytes]; rfl) (by omega)
  rw [Nat.add_zero] at first
  unfold word32 word16
  rw [first, second, third, fourth]
  simp only [UInt8.toNat_ofNat']
  omega

theorem word32_putWord32_apart {other : Nat}
    (value : Nat) (apart : other + 4 ≤ index ∨ index + 4 ≤ other) :
    (block.putWord32 index value).word32 other = block.word32 other := by
  have length : (bytes32 value).length = 4 := rfl
  have same : ∀ offset < 4,
      (block.putWord32 index value).byte (other + offset) = block.byte (other + offset) := by
    intro offset small
    apply byte_write_outside
    omega
  have first := same 0 (by omega)
  have second := same 1 (by omega)
  have third := same 2 (by omega)
  have fourth := same 3 (by omega)
  rw [Nat.add_zero] at first
  unfold word32 word16
  rw [first, second, third, fourth]

end

end ByteBlock

end SeekOs.Lib
