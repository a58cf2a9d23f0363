import SeekOs.Lib.Runs
import SeekOs.System.Isr

/-!
# Handing out request numbers

The bitmap should record the ISA requests and every number that was reserved or
allocated.  `_irq_bitmap_set` combines the byte with the bit by a conjunction, so
a bitmap that starts out clear stays clear, and no number is ever recorded.
-/

namespace SeekOs.System

open SeekOs.Lib Option

/-- A number that was given away. -/
inductive IrqGrant where
  | reserved (irqno : Int)
  | allocated (irqno : Int)
  deriving DecidableEq

def IrqGrant.irqno : IrqGrant → Int
  | .reserved irqno => irqno
  | .allocated irqno => irqno

inductive IrqOp where
  | reserve (irqno : Int)
  | allocHardirq
  | allocSoftirq

/-- The tables, and the numbers given away so far, the latest one first. -/
structure IrqUse where
  isr : Isr
  grants : List IrqGrant

def IrqUse.step (use : IrqUse) : IrqOp → Option IrqUse
  | .reserve irqno =>
    (use.isr.isrReserveIrq irqno).toOption.map fun isr =>
      ⟨isr, .reserved irqno :: use.grants⟩
  | .allocHardirq =>
    use.isr.isrAllocHardirq.toOption.map fun irqno =>
      { use with grants := .allocated irqno :: use.grants }
  | .allocSoftirq =>
    use.isr.isrAllocSoftirq.toOption.map fun irqno =>
      { use with grants := .allocated irqno :: use.grants }

/-- The ISA requests and the numbers given away. -/
def Taken (grants : List IrqGrant) (irqno : Int) : Prop :=
  (0 ≤ irqno ∧ irqno < numIsaIrqs) ∨ irqno ∈ grants.map IrqGrant.irqno

/-- No number was allocated that was taken before. -/
def AllocatedOnce : List IrqGrant → Prop
  | [] => True
  | .reserved _ :: grants => AllocatedOnce grants
  | .allocated irqno :: grants => ¬Taken grants irqno ∧ AllocatedOnce grants

structure HandedOutOnce (use : IrqUse) : Prop where
  recorded : ∀ irqno : Int, 0 ≤ irqno → irqno < numVectors →
    (use.isr.irqBitmapIsSet irqno = .ok true ↔ Taken use.grants irqno)
  once : AllocatedOnce use.grants

/-! ## The bitmap stays clear -/

def Isr.Clear (isr : Isr) : Prop :=
  ∀ idx, isr.bitmap idx = 0

namespace Isr

variable {isr after : Isr} {irqno : Int}

theorem bitOf_inside (lower : 0 ≤ irqno) (upper : irqno < numVectors) :
    ∃ place, bitOf irqno = .ok place := by
  unfold bitOf slotOf
  rw [dif_pos ⟨lower, upper⟩]
  exact ⟨_, rfl⟩

theorem Clear.irqBitmapIsSet (clear : isr.Clear) (lower : 0 ≤ irqno) (upper : irqno < numVectors) :
    isr.irqBitmapIsSet irqno = .ok false := by
  obtain ⟨⟨idx, bit⟩, found⟩ := bitOf_inside lower upper
  have zero := clear idx
  simp [Isr.irqBitmapIsSet, found, zero, bind, Except.bind]

theorem Clear.irqBitmapSet (clear : isr.Clear)
    (stored : isr.irqBitmapSet irqno = .ok after) : after.Clear := by
  obtain ⟨place, _, stored⟩ := exists_of_bind_ok stored
  cases stored
  intro idx
  by_cases same : idx = place.1
  · subst same
    simp [clear place.1]
  · simp [Function.update_of_ne same, clear idx]

theorem Clear.isrReserveIrq (clear : isr.Clear)
    (reserved : isr.isrReserveIrq irqno = .ok after) : after.Clear := by
  obtain ⟨isSet, _, reserved⟩ := exists_of_bind_ok reserved
  cases isSet with
  | true => cases reserved
  | false => exact clear.irqBitmapSet reserved

theorem setOverride_bitmap {iso : MadtRecordIso} (stored : isr.setOverride iso = .ok after) :
    after.bitmap = isr.bitmap := by
  obtain ⟨slot, _, stored⟩ := exists_of_bind_ok stored
  cases stored
  rfl

theorem isrInit_clear {isos : List MadtRecordIso}
    (initialised : isr.isrInit isos = .ok after) : after.Clear := by
  rw [isrInit] at initialised
  obtain ⟨middle, reserved, initialised⟩ := exists_of_bind_ok initialised
  have clear : middle.Clear := by
    apply runExcept_invariant _ _ reserved
    · intro state irqno next clear stored
      exact clear.irqBitmapSet stored
    · exact fun _ => rfl
  apply runExcept_invariant _ clear initialised
  intro state iso next clear stored idx
  rw [setOverride_bitmap stored]
  exact clear idx

end Isr

theorem step_clear {use next : IrqUse} {op : IrqOp} (clear : use.isr.Clear)
    (stepped : use.step op = some next) : next.isr.Clear := by
  cases op with
  | reserve irqno =>
    obtain ⟨isr, reserved, rfl⟩ := map_eq_some_iff.mp stepped
    cases result : use.isr.isrReserveIrq irqno with
    | error fault =>
      rw [result] at reserved
      cases reserved
    | ok after =>
      rw [result] at reserved
      cases reserved
      exact clear.isrReserveIrq result
  | allocHardirq =>
    obtain ⟨irqno, _, rfl⟩ := map_eq_some_iff.mp stepped
    exact clear
  | allocSoftirq =>
    obtain ⟨irqno, _, rfl⟩ := map_eq_some_iff.mp stepped
    exact clear

/-- After every sequence of calls no number is recorded, not even those of the
ISA requests. -/
theorem irq_never_recorded {before isr : Isr} {isos : List MadtRecordIso}
    {ops : List IrqOp} {use : IrqUse}
    (initialised : before.isrInit isos = .ok isr)
    (run : runOps IrqUse.step ⟨isr, []⟩ ops = some use) :
    (∀ irqno : Int, 0 ≤ irqno → irqno < numVectors →
      use.isr.irqBitmapIsSet irqno = .ok false) ∧ ¬HandedOutOnce use := by
  have clear : use.isr.Clear :=
    @runOps_invariant _ _ IrqUse.step (fun use => use.isr.Clear)
      (fun _ _ _ clear stepped => step_clear clear stepped) _ _ _
      (Isr.isrInit_clear initialised) run
  refine ⟨fun irqno => clear.irqBitmapIsSet, ?_⟩
  intro once
  have isa : Taken use.grants 0 := .inl ⟨le_refl 0, by decide⟩
  have isSet := (once.recorded 0 (le_refl 0) (by decide)).mpr isa
  rw [clear.irqBitmapIsSet (le_refl 0) (by decide)] at isSet
  cases isSet

/-! ## One I/O APIC -/

/-- An I/O APIC with 24 entries, all of them masked. -/
def oneIoapic : Ioapics where
  data := fun slot =>
    if slot = 0 then ⟨0x1000, 24, 0⟩ else ⟨0, 0, 0⟩
  regs := fun _ offset => if offset % 2 = 0 then 0x10000 else 0

def bootIsr : Isr :=
  ({ registers := fun _ => ⟨.unhandledInterrupt, false⟩
     bitmap := fun _ => 0
     externalMax := 0
     overrides := fun _ => ⟨false, 0, 0⟩
     ioapics := oneIoapic } : Isr).isrInit0

theorem irq_never_recorded_after_reserve :
    ∃ isr use, bootIsr.isrInit [] = .ok isr ∧
      runOps IrqUse.step ⟨isr, []⟩ [.reserve 20, .allocSoftirq] = some use ∧
      ¬HandedOutOnce use := by
  obtain ⟨isr, initialised, use, run, _⟩ : ∃ isr, bootIsr.isrInit [] = .ok isr ∧
      ∃ use ∈ runOps IrqUse.step ⟨isr, []⟩ [.reserve 20, .allocSoftirq],
        use.grants = [.allocated 24, .reserved 20] := by
    apply Outcome.exists_ok
    decide +kernel
  exact ⟨isr, use, initialised, run, (irq_never_recorded initialised run).2⟩

/-- Two allocations return the number of the first ISA request. -/
theorem irq_allocated_twice :
    ∃ isr use, bootIsr.isrInit [] = .ok isr ∧
      runOps IrqUse.step ⟨isr, []⟩ [.allocHardirq, .allocHardirq] = some use ∧
      use.grants = [.allocated 0, .allocated 0] ∧ ¬HandedOutOnce use := by
  obtain ⟨isr, initialised, use, run, twice⟩ :
      ∃ isr, bootIsr.isrInit [] = .ok isr ∧
        ∃ use ∈ runOps IrqUse.step ⟨isr, []⟩ [.allocHardirq, .allocHardirq],
          use.grants = [.allocated 0, .allocated 0] := by
    apply Outcome.exists_ok
    decide +kernel
  refine ⟨isr, use, initialised, run, twice, ?_⟩
  intro handed
  have once := handed.once
  rw [twice] at once
  exact once.1 (.inl ⟨le_refl 0, by decide⟩)

end SeekOs.System
