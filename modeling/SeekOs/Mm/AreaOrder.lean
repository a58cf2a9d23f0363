import SeekOs.Mm.KernelFrames

/-!
# The order of the kernel's areas

All requests of `kmalloc` let the search choose the address, and so the area
list stays in the order of addresses.  In an ordered list the search finds
free ranges only.
-/

namespace SeekOs.Mm

open SeekOs.Base SeekOs.Lib List

/-- The areas follow each other in memory. -/
def Ascending (areas : List VmArea) : Prop :=
  areas.Pairwise fun left right => left.vmEnd ≤ right.vmStart

variable {flags size : Nat} {areas next : List VmArea} {area : VmArea}

theorem pageAlignUpIf_bounds (small : size ≤ miKernelVmareaSpaceSize) :
    size ≤ pageAlignUpIf size ∧ pageAlignUpIf size ≤ miKernelVmareaSpaceSize := by
  have isSize : miKernelVmareaSpaceSize = 2 ^ 40 := by decide
  unfold pageAlignUpIf pageAlignUp pageAlign uptrAdd pageSize
  split
  · omega
  · omega

theorem Ascending.last {first : VmArea} {rest : List VmArea} (ascending : Ascending (first :: rest))
    (nonempty : ∀ area ∈ first :: rest, area.vmStart < area.vmEnd) :
    ∀ area ∈ first :: rest, area.vmEnd ≤ (rest.getLastD first).vmEnd := by
  induction rest generalizing first with
  | nil =>
    intro area member
    rw [mem_singleton.mp member]
    rfl
  | cons second rest induction =>
    obtain ⟨before, tail⟩ := pairwise_cons.mp ascending
    have later := induction tail fun area member =>
      nonempty area (mem_cons_of_mem first member)
    intro area member
    rw [getLastD_cons]
    rcases mem_cons.mp member with rfl | inTail
    · have secondIn : second ∈ second :: rest := mem_cons_self
      calc
        area.vmEnd ≤ second.vmStart := before second secondIn
        _ ≤ second.vmEnd := (nonempty second (mem_cons_of_mem area secondIn)).le
        _ ≤ _ := later second secondIn
    · exact later area inTail

section

variable (ascending : Ascending areas)
include ascending

theorem findCave_ascending
    (nonempty : ∀ area ∈ areas, area.vmStart < area.vmEnd)
    (result : findCave size flags areas = some (some (area, next))) :
    Ascending next := by
  induction areas generalizing next with
  | nil => cases result
  | cons lower rest induction =>
    cases rest with
    | nil => cases result
    | cons upper rest =>
      obtain ⟨before, tail⟩ := pairwise_cons.mp ascending
      rw [findCave] at result
      split at result
      · simp only at result
        split at result
        · cases result
        · rename_i fits
          cases result
          have upperFirst : ∀ other ∈ upper :: rest, upper.vmStart ≤ other.vmStart := by
            intro other member
            rcases mem_cons.mp member with rfl | inRest
            · exact le_refl _
            · have upperIn : upper ∈ lower :: upper :: rest := mem_cons_of_mem _ mem_cons_self
              exact (nonempty upper upperIn).le.trans ((pairwise_cons.mp tail).1 other inRest)
          refine pairwise_cons.mpr ⟨?_, pairwise_cons.mpr ⟨?_, tail⟩⟩
          · intro other member
            rcases mem_cons.mp member with rfl | inTail
            · exact le_refl _
            · exact before other inTail
          · intro other member
            exact (Nat.not_lt.mp fits).trans (upperFirst other member)
      · simp only [Option.map_eq_some_iff, Prod.exists, Prod.mk.injEq] at result
        obtain ⟨found, isFound, _, _, rfl, rfl, rfl⟩ := result
        have restNonempty : ∀ area ∈ upper :: rest, area.vmStart < area.vmEnd := fun area member =>
          nonempty area (mem_cons_of_mem lower member)
        have linked := findCave_linked isFound
        refine pairwise_cons.mpr ⟨?_, induction tail restNonempty isFound⟩
        intro other member
        rcases mem_cons.mp (linked.permutation.mem_iff.mp member) with
          rfl | old
        · rw [linked.area_eq]
          obtain ⟨place, inRest, isEnd⟩ := searchStart_cons flags size upper rest
          rw [isEnd]
          exact (before place inRest).trans (restNonempty place inRest).le
        · exact before other old

theorem vmAreaAppend_ascending {start : Nat}
    (after : ∀ other ∈ areas, other.vmEnd ≤ start)
    (result : vmAreaAppend areas start size flags = some (area, next)) :
    Ascending next := by
  unfold vmAreaAppend at result
  simp only at result
  split at result
  · cases result
  · cases result
    refine pairwise_append.mpr ⟨ascending, pairwise_singleton _ _, ?_⟩
    intro other member last isLast
    rw [mem_singleton.mp isLast]
    exact after other member

/-- The search of `mm_find_vm_area` keeps the order. -/
theorem mmFindVmArea_ascending
    (nonempty : ∀ area ∈ areas, area.vmStart < area.vmEnd)
    (result : mmFindVmArea areas 0 size flags = some (area, next)) :
    Ascending next := by
  unfold mmFindVmArea at result
  match areas with
  | [] =>
    refine vmAreaAppend_ascending ascending ?_ result
    intro other member
    cases member
  | [only] =>
    refine vmAreaAppend_ascending ascending ?_ result
    intro other member
    rw [mem_singleton.mp member]
  | first :: second :: rest =>
    cases cave : findCave size flags (first :: second :: rest) with
    | some found =>
      simp only [cave] at result
      subst result
      exact findCave_ascending ascending nonempty cave
    | none =>
      simp only [cave] at result
      exact vmAreaAppend_ascending ascending (ascending.last nonempty) result

/-- What the search finds for a request of the kernel. -/
structure AreaFound (size : Nat) (areas : List VmArea) (area : VmArea)
    (next : List VmArea) : Prop where
  placed : KernelArea area
  size_eq : area.vmEnd - area.vmStart = size
  flags_eq : area.vmFlags = vmmFlagsDefault
  permutation : next.Perm (area :: areas)
  ascending : Ascending next
  apart : ∀ other ∈ areas, area.Apart other

theorem Ascending.apart : areas.Pairwise VmArea.Apart :=
  List.Pairwise.imp (fun before => Or.inl before) ascending

theorem Ascending.apart_of_ne {other : VmArea}
    (member : area ∈ areas) (otherMember : other ∈ areas)
    (different : area ≠ other) : area.Apart other := by
  have symmetric : Std.Symm VmArea.Apart := ⟨fun _ _ => VmArea.Apart.symm⟩
  exact ascending.apart.forall member otherMember different

end

/-- In an ordered list of areas of the kernel's region the search finds a free
range of the region. -/
theorem mmFindVmArea_found (placed : ∀ other ∈ areas, KernelArea other)
    (ascending : Ascending areas) (aligned : pageSize ∣ size)
    (positive : 0 < size) (small : size ≤ miKernelVmareaSpaceSize)
    (result : mmFindVmArea areas 0 size vmmFlagsDefault = some (area, next)) :
    AreaFound size areas area next := by
  have linked := mmFindVmArea_linked result
  have nonempty : ∀ other ∈ areas, other.vmStart < other.vmEnd :=
    fun other member => (placed other member).nonempty
  have isStart : chosenStart vmmFlagsDefault areas 0 size =
      searchStart vmmFlagsDefault size areas := if_neg (by decide)
  rw [isStart] at linked
  have start : miKernelVmareaSpaceStart ≤ searchStart vmmFlagsDefault size areas ∧
      searchStart vmmFlagsDefault size areas ≤ miKernelVmareaSpaceEnd ∧
      pageSize ∣ searchStart vmmFlagsDefault size areas := by
    rcases searchStart_cases vmmFlagsDefault size areas with
      isFirst | ⟨other, member, isEnd⟩
    · rw [isFirst]
      decide
    · have isPlaced := placed other member
      rw [isEnd]
      exact ⟨isPlaced.above.trans isPlaced.nonempty.le, isPlaced.below, isPlaced.alignedEnd⟩
  generalize searchStart vmmFlagsDefault size areas = first at linked start
  obtain ⟨above, below, alignedStart⟩ := start
  have noWrap : uptrAdd first size = first + size := by
    apply uptrAdd_eq
    unfold miKernelVmareaSpaceSize miKernelVmareaSpaceStart miKernelVmareaSpaceEnd at *
    omega
  have isArea : area = ⟨first, first + size, vmmFlagsDefault⟩ := by
    rw [linked.area_eq, noWrap]
  have bounded : first + size ≤ miKernelVmareaSpaceEnd := by
    rcases linked.bounded with low | ⟨other, member, low⟩
    · rw [isArea] at low
      exact low.le
    · rw [isArea] at low
      have isPlaced := placed other member
      exact low.trans (isPlaced.nonempty.le.trans isPlaced.below)
  have isAscending := mmFindVmArea_ascending ascending nonempty result
  have pairwise := (linked.permutation.pairwise_iff VmArea.Apart.symm).mp isAscending.apart
  refine
    { placed := ?_, size_eq := ?_, flags_eq := ?_
      permutation := linked.permutation, ascending := isAscending
      apart := (pairwise_cons.mp pairwise).1 }
  · rw [isArea]
    exact ⟨Nat.lt_add_of_pos_right positive, alignedStart,
      Nat.dvd_add alignedStart aligned, above, bounded⟩
  · rw [isArea]
    exact Nat.add_sub_cancel_left _ _
  · rw [isArea]

end SeekOs.Mm
