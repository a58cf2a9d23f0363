import Mathlib.Tactic

/-!
# Address arithmetic and the address-space layout

The constants of `mm.h`.  Addresses and sizes are natural numbers below
`2 ^ 64`; the operations that can leave that range wrap explicitly.
-/

namespace SeekOs.Mm

def pageShift : Nat := 12

def pageSize : Nat := 4096

def uptrAdd (left right : Nat) : Nat :=
  (left + right) % 2 ^ 64

def uptrSub (left right : Nat) : Nat :=
  (left + (2 ^ 64 - right)) % 2 ^ 64

def pageAlign (size : Nat) : Nat :=
  size - size % pageSize

def pageAlignUp (size : Nat) : Nat :=
  uptrAdd (pageAlign size) pageSize

def pageAlignUpIf (size : Nat) : Nat :=
  if size % pageSize ≠ 0 then pageAlignUp size else size

def sizeToPage (size : Nat) : Nat :=
  size / pageSize

def pageToSize (pages : Nat) : Nat :=
  pages * pageSize % 2 ^ 64

def miUserVmareaSpaceStart : Nat := 0x10000

def miUserVmareaSpaceEnd : Nat := 0x7fffffffffff

def miKernelVmareaSpaceStart : Nat := 0xfffffe0000000000

def miKernelVmareaSpaceEnd : Nat := 0xfffffeffffffffff

def miDirectMappingRangeStart : Nat := 0xfffff70000000000

def miDirectMappingRangeEnd : Nat := 0xfffff77fffffffff

def miDirectMappingRangeSize : Nat :=
  miDirectMappingRangeEnd + 1 - miDirectMappingRangeStart

def vmmFlagsDefault : Nat := 0x3

def vmmFlagsUser : Nat := 0x7

def vmmFlagsMmio : Nat := 0x1b

def mmGetVmareaStart (flags : Nat) : Nat :=
  if flags &&& vmmFlagsUser = vmmFlagsUser then
    miUserVmareaSpaceStart
  else
    miKernelVmareaSpaceStart

def mmGetVmareaEnd (flags : Nat) : Nat :=
  if flags &&& vmmFlagsUser = vmmFlagsUser then
    miUserVmareaSpaceEnd
  else
    miKernelVmareaSpaceEnd

theorem pageAlignUpIf_aligned (size : Nat) : pageSize ∣ pageAlignUpIf size := by
  unfold pageAlignUpIf
  split
  · have lower : pageSize ∣ pageAlign size := Nat.dvd_sub_mod size
    have sum : pageSize ∣ pageAlign size + pageSize :=
      (Nat.dvd_add_right lower).mpr (Nat.dvd_refl pageSize)
    have modulus : pageSize ∣ 2 ^ 64 := by decide
    exact (Nat.dvd_mod_iff modulus).mpr sum
  · next aligned =>
      exact Nat.dvd_of_mod_eq_zero (not_not.mp aligned)

variable {left right : Nat}

theorem uptrAdd_eq (small : left + right < 2 ^ 64) : uptrAdd left right = left + right :=
  Nat.mod_eq_of_lt small

theorem uptrSub_eq (ordered : right ≤ left) (small : left < 2 ^ 64) :
    uptrSub left right = left - right := by
  unfold uptrSub
  omega

end SeekOs.Mm
