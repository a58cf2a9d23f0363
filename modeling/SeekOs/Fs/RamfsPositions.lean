import SeekOs.Fs.FileTable
import SeekOs.Lib.Runs

/-!
# Positions in the files of the initial archive

`ramfs_lseek` tests the sum for underflow when it counts from the current
position, but not when it counts back from the end: there a sum below zero wraps,
and the clamp that follows turns it into the end of the file.
-/

namespace SeekOs.Fs

open SeekOs.Base SeekOs.Lib List Option

namespace RamfsData

/-- A file of the archive; its size is an `int`. -/
structure Archived (udata : RamfsData) (rdBuff : List UInt8) : Prop where
  notNegative : 0 ≤ udata.size
  small : udata.size < 2 ^ 31
  inside : udata.dataOffset + udata.size.toNat ≤ rdBuff.length

def content (udata : RamfsData) (rdBuff : List UInt8) : List UInt8 :=
  (rdBuff.drop udata.dataOffset).take udata.size.toNat

/-- What a seek counts from. -/
def seekBase (udata : RamfsData) (filep : FsFile Unit) : Wence → Option Int
  | .set => some 0
  | .cur => some filep.fPos
  | .fromEnd => some udata.size
  | .other => none

end RamfsData

inductive RamfsCall where
  | lseek (offset : Int) (wence : Wence)
  | read (len : Int)

namespace RamfsCall

/-- The arguments are `i32`, and a length is not negative. -/
def Fits : RamfsCall → Prop
  | .lseek offset _ => -2 ^ 31 ≤ offset ∧ offset < 2 ^ 31
  | .read len => 0 ≤ len ∧ len < 2 ^ 31

section

variable (rdBuff : List UInt8)

variable (udata : RamfsData)

variable (filep : FsFile Unit)

/-- What the call writes to the record, its result and the bytes it copies. -/
def run : RamfsCall → Option (FilePrivate Unit × Int × List UInt8)
  | .lseek offset wence =>
    (ramfsLseek rdBuff udata filep offset wence).map fun (_, after, result) => (after, result, [])
  | .read len => (ramfsRead rdBuff udata filep len).map Prod.snd

variable (call : RamfsCall)

def step : Option (FsFile Unit) :=
  (call.run rdBuff udata filep).map fun (after, _) => { filep with toFilePrivate := after }

/-- A seek to before the start fails and any other that succeeds moves to its
target or to the end; a read copies from the position on. -/
def Meets : FilePrivate Unit × Int × List UInt8 → Prop
  | (after, result, bytes) => match call with
    | .lseek offset wence => ∀ base ∈ udata.seekBase filep wence,
      (base + offset < 0 → result = -1 ∧ after = filep.toFilePrivate) ∧
        (0 ≤ base + offset → result ≠ -1 → (after.fPos : Int) = min (base + offset) udata.size)
    | .read len =>
      bytes = ((udata.content rdBuff).drop filep.fPos).take len.toNat ∧
        after.fPos = filep.fPos + bytes.length

/-- The call returns, the position stays in the file, and the answer is right. -/
def AsSpecified : Prop :=
  ∃ answer ∈ call.run rdBuff udata filep, answer.1.fPos ≤ udata.size ∧
    call.Meets rdBuff udata filep answer

/-- The call does not seek to before the start by counting from the end. -/
def EndsInside : RamfsCall → Prop
  | .lseek offset .fromEnd => 0 ≤ udata.size + offset
  | _ => True

/-- The call stays in the file whether its answer is right or not. -/
def Answers : Prop :=
  ∃ answer ∈ call.run rdBuff udata filep, answer.1.fPos ≤ udata.size ∧
    (call.Meets rdBuff udata filep answer ↔ call.EndsInside udata)

end

variable {rdBuff : List UInt8} {udata : RamfsData} {filep : FsFile Unit}
variable {offset : Int} {wence : Wence}

theorem read_answers (archived : udata.Archived rdBuff) (inside : filep.fPos ≤ udata.size)
    {len : Int} (fits : (read len).Fits) : (read len).Answers rdBuff udata filep := by
  obtain ⟨notNegative, small, whole⟩ := archived
  obtain ⟨lenNotNegative, lenSmall⟩ := fits
  have copied : ((udata.content rdBuff).drop filep.fPos).take len.toNat =
      (rdBuff.drop (udata.dataOffset + filep.fPos)).take
        (min len.toNat (udata.size.toNat - filep.fPos)) := by
    rw [RamfsData.content, drop_take, take_take, drop_drop]
  simp only [Answers, run, ramfsRead, Meets, EndsInside, iff_true, copied,
    toSizeT_of_range notNegative (by omega : udata.size < 2 ^ 64)]
  by_cases isZero : len = 0
  · subst isZero
    exact ⟨_, rfl, inside, by simp⟩
  · rw [if_neg isZero]
    by_cases atEnd : udata.size.toNat ≤ filep.fPos
    · rw [if_pos atEnd]
      exact ⟨_, rfl, inside, by simp [Nat.sub_eq_zero_of_le atEnd]⟩
    · -- the size that is copied, computed in either branch
      obtain ⟨size, isSize, count⟩ : ∃ size : Int,
          (if udata.size.toNat < toSizeT (filep.fPos + len) then
            toInt32 (udata.size - filep.fPos) else len) = size ∧
            size = min len (udata.size - filep.fPos) := by
        rw [toSizeT_of_range (by omega) (by omega), toInt32_of_range (by omega) (by omega)]
        refine ⟨_, rfl, ?_⟩
        split <;> omega
      have same : size.toNat = min len.toNat (udata.size.toNat - filep.fPos) := by omega
      rw [if_neg atEnd, isSize, if_neg (by omega), toSizeT_of_range (by omega) (by omega), same]
      refine ⟨_, rfl, ?_, rfl, ?_⟩
      · simp only
        omega
      · rw [length_take, length_drop]
        simp only
        omega

theorem lseek_answers_of_rejected (inside : filep.fPos ≤ udata.size)
    (rejected : ramfsLseek rdBuff udata filep offset wence = some (rdBuff, filep.toFilePrivate, -1))
    (ends : (lseek offset wence).EndsInside udata) :
    (lseek offset wence).Answers rdBuff udata filep := by
  refine ⟨(filep.toFilePrivate, -1, []), by simp [run, rejected], inside, iff_of_true ?_ ends⟩
  intro base _
  exact ⟨fun _ => ⟨rfl, rfl⟩, fun _ accepted => absurd rfl accepted⟩

theorem lseek_answers_of_moved (archived : udata.Archived rdBuff) {base : Int}
    (isBase : udata.seekBase filep wence = some base) (below : base + offset < 2 ^ 32)
    (moved : ramfsLseek rdBuff udata filep offset wence =
      let bounded := min (toSizeT (base + offset)) (toSizeT udata.size)
      some (rdBuff, ⟨filep.fPdata, bounded⟩, toInt32 bounded))
    (ends : 0 ≤ base + offset ↔ (lseek offset wence).EndsInside udata) :
    (lseek offset wence).Answers rdBuff udata filep := by
  obtain ⟨notNegative, small, _⟩ := archived
  have size := toSizeT_of_range notNegative (by omega : udata.size < 2 ^ 64)
  refine ⟨_, by rw [run, moved]; rfl, by simp; omega, ?_⟩
  simp only [Meets, isBase, mem_def, some.injEq, forall_eq', ← ends]
  constructor
  · rintro ⟨fails, _⟩
    by_contra before
    have failed := (fails (by omega)).1
    unfold toInt32 at failed
    omega
  · intro notBefore
    have target := toSizeT_of_range notBefore (by omega)
    exact ⟨fun before => by omega, fun _ _ => by omega⟩

/-- One call. -/
theorem answers (archived : udata.Archived rdBuff) (inside : filep.fPos ≤ udata.size)
    {call : RamfsCall} (fits : call.Fits) : call.Answers rdBuff udata filep := by
  have small := archived.small
  cases call with
  | read len => exact read_answers archived inside fits
  | lseek offset wence =>
    obtain ⟨lower, upper⟩ := fits
    cases wence with
    | set =>
      by_cases negative : offset < 0
      · exact lseek_answers_of_rejected inside (by simp [ramfsLseek, negative]) trivial
      · exact lseek_answers_of_moved archived rfl (by omega) (by simp [ramfsLseek, negative])
          (iff_of_true (by omega) trivial)
    | cur =>
      by_cases negative : offset < 0 ∧ (filep.fPos : Int) < -offset
      · exact lseek_answers_of_rejected inside (by simp [ramfsLseek, negative]) trivial
      · exact lseek_answers_of_moved archived rfl (by omega) (by simp [ramfsLseek, negative])
          (iff_of_true (by omega) trivial)
    | fromEnd =>
      by_cases positive : 0 < offset
      · exact lseek_answers_of_rejected inside (by simp [ramfsLseek, positive])
          (show 0 ≤ udata.size + offset by omega)
      · exact lseek_answers_of_moved archived rfl (by omega) (by simp [ramfsLseek, positive]) .rfl
    | other => exact lseek_answers_of_rejected inside rfl trivial

/-- Along every sequence of calls all of them are as specified exactly if no
seek goes to before the start by counting from the end. -/
theorem calls_asSpecified_iff (archived : udata.Archived rdBuff) (inside : filep.fPos ≤ udata.size)
    (calls : List RamfsCall) (fit : ∀ call ∈ calls, call.Fits) :
    AlongOps (step rdBuff udata) (AsSpecified rdBuff udata) filep calls ↔
      ∀ call ∈ calls, call.EndsInside udata := by
  induction calls generalizing filep with
  | nil => exact iff_of_true trivial (by simp)
  | cons call calls induction =>
    obtain ⟨answer, ran, bound, right⟩ := answers archived inside (fit call mem_cons_self)
    have stepped : call.step rdBuff udata filep =
        some { filep with toFilePrivate := answer.1 } := by
      simp [step, mem_def.mp ran]
    have here : call.AsSpecified rdBuff udata filep ↔ call.EndsInside udata := by
      simp [AsSpecified, mem_def.mp ran, bound, right]
    have rest := @induction { filep with toFilePrivate := answer.1 } bound
      fun other member => fit other (mem_cons_of_mem call member)
    simp only [AlongOps, forall_mem_cons, here, stepped, some.injEq, forall_eq', rest]

/-- A file of three bytes is read up to its end and sought from there. -/
theorem calls_asSpecified_abc :
    AlongOps (step [0, 97, 98, 99] ⟨3, 1⟩) (AsSpecified [0, 97, 98, 99] ⟨3, 1⟩)
      ⟨⟨none, 0⟩, 100, .read, false⟩ [read 5, lseek (-2) .fromEnd] :=
  (calls_asSpecified_iff ⟨by decide, by decide, by decide⟩ (by decide) _ (by simp [Fits])).mpr
    (by simp [EndsInside])

/-- A seek to four bytes before the end of three goes to the end. -/
theorem lseek_before_start :
    (lseek (-4) .fromEnd).run [0, 97, 98, 99] ⟨3, 1⟩ ⟨⟨none, 0⟩, 100, .read, false⟩ =
      some (⟨none, 3⟩, 3, []) := by
  decide

end RamfsCall

end SeekOs.Fs
