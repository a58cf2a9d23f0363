import Mathlib.Logic.Function.Basic
import SeekOs.Lib.BitField
import SeekOs.Lib.MachineInt

/-!
# Redirection entries

The part of `apic.c` that edits the redirection tables of the I/O APICs.  An
interrupt is looked up in `ioapic_data`, its entry is read from two registers,
changed and written back.
-/

namespace SeekOs.System

open SeekOs.Lib

/-- What ends a call: a panic, the use of a null pointer, or an index that is not
in its array. -/
inductive IrqFault where
  | nullIoapic
  | invalidPolarity (polarity : UInt16)
  | invalidTriggerMode (triggerMode : UInt16)
  | notInterrupt
  | handlerUsed (vector : Int)
  | irqUsed
  | noSoftirq
  | noHardirq
  | outOfBounds
  deriving DecidableEq

abbrev Rte : Type :=
  BitVec 64

namespace Rte

def vector : BitField 64 8 := ⟨0, by decide⟩

def destMode : BitField 64 1 := ⟨11, by decide⟩

def pinPolarity : BitField 64 1 := ⟨13, by decide⟩

def triggerMode : BitField 64 1 := ⟨15, by decide⟩

def mask : BitField 64 1 := ⟨16, by decide⟩

def destination : BitField 64 8 := ⟨56, by decide⟩

end Rte

def ioapicDestPhysical : BitVec 1 := 0

def ioapicActiveHigh : BitVec 1 := 0

def ioapicActiveLow : BitVec 1 := 1

def ioapicEdge : BitVec 1 := 0

def ioapicLevel : BitVec 1 := 1

instance neZeroIoapics : NeZero 4 := ⟨by decide⟩

structure IoapicData where
  virtAddr : Nat
  redirTblEntry : UInt8
  gsiBase : UInt32

/-- `ioapic_data`, and the registers of the I/O APICs behind `IOREGSEL` and
`IOWIN`. -/
structure Ioapics where
  data : Fin 4 → IoapicData
  regs : Nat → UInt8 → BitVec 32

/-- `IOAPIC_REDTBL`, as it is converted to the offset of a register. -/
def ioapicRedtbl (irqNo : Int) : UInt8 :=
  UInt8.ofInt (0x10 + irqNo * 2)

namespace Ioapics

variable (ioapics : Ioapics)

variable (ioapicBase : Nat)

def ioapicRegRead (offset : UInt8) : BitVec 32 :=
  ioapics.regs ioapicBase offset

def ioapicRegWrite (offset : UInt8) (val : BitVec 32) : Ioapics :=
  { ioapics with
    regs := Function.update ioapics.regs ioapicBase
      (Function.update (ioapics.regs ioapicBase) offset val) }

def ioapicReadRte (irqNo : Int) : Rte :=
  ioapics.ioapicRegRead ioapicBase (ioapicRedtbl irqNo + 1) ++
    ioapics.ioapicRegRead ioapicBase (ioapicRedtbl irqNo)

def ioapicWriteRte (irqNo : Int) (val : Rte) : Ioapics :=
  (ioapics.ioapicRegWrite ioapicBase (ioapicRedtbl irqNo)
    (val.extractLsb' 0 32)).ioapicRegWrite ioapicBase (ioapicRedtbl irqNo + 1)
      (val.extractLsb' 32 32)

/-- The base is unsigned, and so the number is compared with it as an unsigned
number.  The number of entries is promoted to `int`. -/
def ioapicGetByIrq (irqno : Int) : Option IoapicData :=
  ([0, 1, 2, 3].map ioapics.data).find? fun data =>
    decide (data.gsiBase ≤ UInt32.ofInt irqno ∧ irqno < data.redirTblEntry.toNat)

def ioapicGetRtentry (irqno : Int) : Except IrqFault Rte :=
  match ioapics.ioapicGetByIrq irqno with
  | none => .error .nullIoapic
  | some data => .ok (ioapics.ioapicReadRte data.virtAddr irqno)

def ioapicSetRtentry (irqno : Int) (val : Rte) : Except IrqFault Ioapics :=
  match ioapics.ioapicGetByIrq irqno with
  | none => .error .nullIoapic
  | some data => .ok (ioapics.ioapicWriteRte data.virtAddr irqno val)

def ioapicGetMaxIrq : Int :=
  ([0, 1, 2, 3].map fun slot => ((ioapics.data slot).redirTblEntry.toNat : Int)).sum

def ioapicSetIrqVector (irqno vector : Int) : Except IrqFault Ioapics := do
  let rte ← ioapics.ioapicGetRtentry irqno
  let edge := Rte.triggerMode.set rte ioapicEdge
  ioapics.ioapicSetRtentry irqno (Rte.vector.set edge (BitVec.ofInt 8 vector))

end Ioapics

/-- The pin polarity for the flags of an override. -/
def isaPolarity (flags : UInt16) : Except IrqFault (BitVec 1) :=
  let polarity := flags &&& 0x3
  if polarity = 0 ∨ polarity = 3 then .ok ioapicActiveLow
  else if polarity = 1 then .ok ioapicActiveHigh
  else .error (.invalidPolarity polarity)

/-- The trigger mode for the flags of an override. -/
def isaTriggerMode (flags : UInt16) : Except IrqFault (BitVec 1) :=
  let triggerMode := (flags >>> 2) &&& 0x3
  if triggerMode = 0 ∨ triggerMode = 1 then .ok ioapicEdge
  else if triggerMode = 3 then .ok ioapicLevel
  else .error (.invalidTriggerMode triggerMode)

/-- What `ioapic_set_isa_irq_flags` makes of an entry. -/
def isaEntry (rte : Rte) (vector : Int) (polarity triggerMode : BitVec 1) : Rte :=
  let named := Rte.vector.set rte (BitVec.ofInt 8 vector)
  let physical := Rte.destMode.set named ioapicDestPhysical
  let directed := Rte.destination.set physical 0
  let masked := Rte.mask.set directed 1
  Rte.triggerMode.set (Rte.pinPolarity.set masked polarity) triggerMode

namespace Ioapics

variable (ioapics : Ioapics)

def ioapicSetIsaIrqFlags (irqno vector : Int) (flags : UInt16) : Except IrqFault Ioapics := do
  let rte ← ioapics.ioapicGetRtentry irqno
  let polarity ← isaPolarity flags
  let triggerMode ← isaTriggerMode flags
  ioapics.ioapicSetRtentry irqno (isaEntry rte vector polarity triggerMode)

def ioapicSetIrqMask (irqno : Int) (mask : BitVec 1) : Except IrqFault Ioapics := do
  let rte ← ioapics.ioapicGetRtentry irqno
  ioapics.ioapicSetRtentry irqno (Rte.mask.set rte mask)

end Ioapics

end SeekOs.System
