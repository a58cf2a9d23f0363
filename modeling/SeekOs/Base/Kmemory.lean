import Mathlib.Tactic

/-!
# Copying memory

`memcpy` of `kmemory.c` and of the C library.  It copies bytes, or words and a
tail of bytes, and always upwards.  So what is still to be read has not been
written yet, unless the destination starts inside the source.
-/

namespace SeekOs.Base

open List

abbrev ByteMemory := Nat → UInt8

/-- The bytes of an `uptr`. -/
abbrev Word := Fin 8 → UInt8

variable (memory : ByteMemory) (dst src size : Nat)

def loadWord : Word :=
  fun byte => memory (src + byte)

def storeWord (word : Word) : ByteMemory := fun place =>
  if inside : dst ≤ place ∧ place < dst + 8 then word ⟨place - dst, by omega⟩ else memory place

def copyBytes : ByteMemory :=
  (range size).foldl
    (fun memory i => Function.update memory (dst + i) (memory (src + i))) memory

def copyWords (tempSize : Nat) : ByteMemory :=
  (range tempSize).foldl
    (fun memory i => storeWord memory (dst + i * 8) (loadWord memory (src + i * 8))) memory

/-- The difference of the pointers is a `size_t`. -/
def memcpy : ByteMemory :=
  if ((dst : Int) - src) % 2 ^ 64 ≤ 8 then
    copyBytes memory dst src size
  else if 32 ≤ size then
    let tempSize := size / 8
    let remainSize := size % 8
    let copied := copyWords memory dst src tempSize
    if 0 < remainSize then
      copyBytes copied (dst + tempSize * 8) (src + tempSize * 8) remainSize
    else
      copied
  else
    copyBytes memory dst src size

/-- `memcpy` of the C library. -/
def libcMemcpy : ByteMemory :=
  if size = 0 then memory else memcpy memory dst src size

/-- The copy that `memcpy` is for: the range has the bytes that the source had
before the call, and nothing else changes. -/
def copyRange : ByteMemory := fun place =>
  if dst ≤ place ∧ place < dst + size then memory (src + (place - dst)) else memory place

theorem copyRange_zero : copyRange memory dst src 0 = memory := by
  funext place
  apply if_neg
  omega

theorem copyRange_byte :
    Function.update memory dst (memory src) = copyRange memory dst src 1 := by
  funext place
  unfold copyRange
  by_cases same : place = dst
  · subst same
    simp
  · rw [Function.update_of_ne same, if_neg (by omega)]

theorem copyRange_word :
    storeWord memory dst (loadWord memory src) = copyRange memory dst src 8 := by
  funext place
  unfold storeWord copyRange loadWord
  split
  · rfl
  · rfl

variable {memory dst src size}

/-- A copied range goes on with what follows the source: that has not been
written yet. -/
theorem copyRange_add {more : Nat} (upwards : dst ≤ src ∨ src + (size + more) ≤ dst) :
    copyRange (copyRange memory dst src size) (dst + size) (src + size) more =
      copyRange memory dst src (size + more) := by
  funext place
  unfold copyRange
  by_cases done : dst ≤ place ∧ place < dst + size
  · rw [if_neg (by omega), if_pos done, if_pos (by omega)]
  · by_cases now : dst + size ≤ place ∧ place < dst + size + more
    · rw [if_pos now, if_neg (by omega), if_pos (by omega)]
      congr 1
      omega
    · rw [if_neg now, if_neg done, if_neg (by omega)]

/-- A loop whose rounds copy one unit each. -/
theorem foldl_copyRange {round : ByteMemory → Nat → ByteMemory} {unit : Nat}
    (copies : ∀ memory i, round memory i = copyRange memory (dst + i * unit) (src + i * unit) unit)
    (count : Nat) (upwards : dst ≤ src ∨ src + count * unit ≤ dst) :
    (range count).foldl round memory = copyRange memory dst src (count * unit) := by
  induction count with
  | zero =>
    rw [Nat.zero_mul, copyRange_zero]
    rfl
  | succ count induction =>
    rw [Nat.succ_mul] at upwards ⊢
    rw [range_succ, foldl_append, induction (by omega)]
    exact (copies _ count).trans (copyRange_add upwards)

section

variable (upwards : dst ≤ src ∨ src + size ≤ dst)
include upwards

theorem copyBytes_eq : copyBytes memory dst src size = copyRange memory dst src size := by
  have copies : ∀ (memory : ByteMemory) (i : Nat),
      Function.update memory (dst + i) (memory (src + i)) =
        copyRange memory (dst + i * 1) (src + i * 1) 1 := by
    intro memory i
    rw [Nat.mul_one]
    exact copyRange_byte memory (dst + i) (src + i)
  have loop : copyBytes memory dst src size = copyRange memory dst src (size * 1) :=
    foldl_copyRange copies size (by rwa [Nat.mul_one])
  rw [Nat.mul_one] at loop
  exact loop

theorem memcpy_eq : memcpy memory dst src size = copyRange memory dst src size := by
  unfold memcpy
  split
  · exact copyBytes_eq upwards
  · split
    · have words : copyWords memory dst src (size / 8) =
          copyRange memory dst src (size / 8 * 8) :=
        foldl_copyRange (fun memory i => copyRange_word memory _ _) _ (by omega)
      have whole : size / 8 * 8 + size % 8 = size := Nat.div_add_mod' size 8
      simp only [words]
      split
      · rw [copyBytes_eq (by omega), copyRange_add (by omega), whole]
      · rw [show size / 8 * 8 = size by omega]
    · exact copyBytes_eq upwards

end

/-- Between ranges that are disjoint, or of which the destination does not start
behind the source, both functions copy the source as it was. -/
theorem memcpy_copies (memory : ByteMemory) (dst src size : Nat)
    (ranges : (dst + size ≤ src ∨ src + size ≤ dst) ∨ dst ≤ src) :
    memcpy memory dst src size = copyRange memory dst src size ∧
      libcMemcpy memory dst src size = copyRange memory dst src size := by
  have copied : memcpy memory dst src size = copyRange memory dst src size :=
    memcpy_eq (by omega)
  refine ⟨copied, ?_⟩
  unfold libcMemcpy
  split
  · rename_i nothing
    rw [nothing, copyRange_zero]
  · exact copied

/-- A path of 40 bytes moves to the front by 3 bytes. -/
theorem memcpy_copies_left :
    memcpy UInt8.ofNat 0 3 40 = copyRange UInt8.ofNat 0 3 40 ∧
      libcMemcpy UInt8.ofNat 0 3 40 = copyRange UInt8.ofNat 0 3 40 :=
  memcpy_copies UInt8.ofNat 0 3 40 (.inr (by decide))

end SeekOs.Base
