import SeekOs.System.Ioapic

/-!
# Interrupt requests

The tables of `isr.c`: the handlers of the vectors, the bitmap of the requests
that are in use, and the overrides of the ISA requests that the MADT reports.
-/

namespace SeekOs.System

open SeekOs.Lib Function

def numIsaIrqs : Nat := 16

def numExceptions : Nat := 32

def numInterrupts : Nat := 224

def numVectors : Nat := 256

inductive IsrHandler where
  | defaultException
  | unhandledInterrupt
  | handler (code : Nat)
  deriving DecidableEq

structure IsrRegister where
  isrHandler : IsrHandler
  used : Bool
  deriving DecidableEq

structure IsaOverride where
  used : Bool
  dest : Int
  flags : UInt16
  deriving DecidableEq

structure MadtRecordIso where
  source : UInt8
  gsi : UInt32
  flags : UInt16
  deriving DecidableEq

structure Isr where
  registers : Fin 256 → IsrRegister
  bitmap : Fin 32 → UInt8
  externalMax : Int
  overrides : Fin 16 → IsaOverride
  ioapics : Ioapics

/-- An index of an array with the given number of elements. -/
def slotOf (count : Nat) (index : Int) : Except IrqFault (Fin count) :=
  if inside : 0 ≤ index ∧ index < count then .ok ⟨index.toNat, by omega⟩
  else .error .outOfBounds

def irqToVector (irq : Int) : Int :=
  irq + numExceptions

namespace Isr

variable (isr : Isr)

/-! ## The bitmap -/

/-- The byte and the bit of a request. -/
def bitOf (irqno : Int) : Except IrqFault (Fin 32 × UInt8) := do
  let irq ← slotOf 256 irqno
  .ok (⟨irq.val / 8, by omega⟩, 1 <<< UInt8.ofNat (irq.val % 8))

/-- The byte is combined with the bit by `&=`. -/
def irqBitmapSet (irqno : Int) : Except IrqFault Isr := do
  let (idx, bit) ← bitOf irqno
  .ok { isr with
    bitmap := update isr.bitmap idx (isr.bitmap idx &&& bit) }

def irqBitmapIsSet (irqno : Int) : Except IrqFault Bool := do
  let (idx, bit) ← bitOf irqno
  .ok (decide (isr.bitmap idx &&& bit ≠ 0))

def findClearLoop : Nat → Int → Except IrqFault Int
  | 0, _ => .ok (-1)
  | fuel + 1, i => do
      let isSet ← isr.irqBitmapIsSet i
      if isSet then findClearLoop fuel (i + 1) else .ok i

def irqBitmapFindFirstClear (start last : Int) : Except IrqFault Int :=
  isr.findClearLoop (last - start).toNat start

/-! ## Initialisation -/

def isrInit0 : Isr :=
  { isr with
    registers := fun vector =>
      if vector.val < numExceptions then ⟨.defaultException, false⟩
      else ⟨.unhandledInterrupt, false⟩ }

def isrReserveIsaIrq : Except IrqFault Isr :=
  (List.range numIsaIrqs).foldlM (fun isr i => isr.irqBitmapSet i) isr

def setOverride (iso : MadtRecordIso) : Except IrqFault Isr := do
  let source ← slotOf 16 iso.source.toNat
  .ok { isr with
    overrides := update isr.overrides source
      ⟨true, toInt32 iso.gsi.toNat, iso.flags⟩ }

def isrInitOverride (isos : List MadtRecordIso) : Except IrqFault Isr :=
  isos.foldlM setOverride isr

/-- The first lines of `isr_init`, where `kzalloc` returns a clear bitmap. -/
def cleared : Isr :=
  { isr with
    bitmap := fun _ => 0
    externalMax := isr.ioapics.ioapicGetMaxIrq }

def isrInit (isos : List MadtRecordIso) : Except IrqFault Isr := do
  let reserved ← isr.cleared.isrReserveIsaIrq
  reserved.isrInitOverride isos

/-! ## Requests -/

/-- The function is declared `void` and returns the number all the same. -/
def isrAllocSoftirq : Except IrqFault Int := do
  let irqno ← isr.irqBitmapFindFirstClear isr.externalMax (numInterrupts - 1)
  if irqno = -1 then .error .noSoftirq else .ok irqno

/-- As `isr_alloc_softirq`, below the largest external request. -/
def isrAllocHardirq : Except IrqFault Int := do
  let irqno ← isr.irqBitmapFindFirstClear 0 isr.externalMax
  if irqno = -1 then .error .noHardirq else .ok irqno

variable (irqno : Int)

def isrReserveIrq : Except IrqFault Isr := do
  let isSet ← isr.irqBitmapIsSet irqno
  if isSet then .error .irqUsed else isr.irqBitmapSet irqno

def isrIsSoftirq : Bool :=
  decide (isr.externalMax < irqno ∧ irqno < numInterrupts)

/-- The override of a request that is in use. -/
def isaOverrideOf : Except IrqFault (Option IsaOverride) :=
  if irqno < numIsaIrqs then do
    let slot ← slotOf 16 irqno
    .ok (if (isr.overrides slot).used then some (isr.overrides slot) else none)
  else
    .ok none

/-- The flags are taken after the number of the request was replaced. -/
def isrSetupIrq : Except IrqFault (Int × Isr) := do
  let vector := irqToVector irqno
  if irqno ≤ isr.externalMax then
    match ← isr.isaOverrideOf irqno with
    | some isaOverride => do
        let irqno := isaOverride.dest
        let vector := irqToVector irqno
        let slot ← slotOf 16 irqno
        let ioapics ← isr.ioapics.ioapicSetIsaIrqFlags irqno vector (isr.overrides slot).flags
        .ok (vector, { isr with ioapics := ioapics })
    | none => do
        let ioapics ← isr.ioapics.ioapicSetIrqVector irqno vector
        .ok (vector, { isr with ioapics := ioapics })
  else
    .ok (vector, isr)

/-- The type of the handler is not stored. -/
def isrRegisterHandler (vector : Int) (isrHandler : IsrHandler) : Except IrqFault Isr := do
  let slot ← slotOf 256 vector
  if (isr.registers slot).used then .error (.handlerUsed vector)
  else
    .ok { isr with
      registers := update isr.registers slot ⟨isrHandler, true⟩ }

def isrEnableIrq : Except IrqFault Isr := do
  let ioapics ← isr.ioapics.ioapicSetIrqMask irqno 0
  .ok { isr with ioapics := ioapics }

def isrRegisterIrqH (isrHandler : IsrHandler) : Except IrqFault Isr := do
  if irqno ≥ numInterrupts then .error .notInterrupt
  else
    let (vector, isr) ← isr.isrSetupIrq irqno
    let isr ← isr.isrRegisterHandler vector isrHandler
    if isr.isrIsSoftirq irqno then .ok isr else isr.isrEnableIrq irqno

end Isr

end SeekOs.System
