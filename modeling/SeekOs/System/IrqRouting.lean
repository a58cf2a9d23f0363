import SeekOs.System.IrqNumbers

/-!
# Routing of ISA requests

`isr_register_irq_h` should program the redirection entry of the interrupt that
an ISA request maps to.  `isr_setup_irq` replaces the number of an overridden
request by its interrupt, but takes the flags of the override under the new
number, and the caller unmasks the entry of the old one.  So a request is routed
as the MADT says if and only if it maps to the interrupt of its own number.
-/

namespace SeekOs.System

open SeekOs.Lib Function List BitField Ioapics Rte

section

variable (isos : List MadtRecordIso)

/-- The override of a request: the last one that the MADT has for it. -/
def overrideFor (irqno : Int) : Option MadtRecordIso :=
  isos.reverse.find? fun iso => decide ((iso.source.toNat : Int) = irqno)

/-- The interrupt that a request maps to. -/
def gsiFor (irqno : Int) : Int :=
  match overrideFor isos irqno with
  | some iso => toInt32 iso.gsi.toNat
  | none => irqno

/-- The I/O APIC and the entry of an interrupt. -/
def Ioapics.pinOf (ioapics : Ioapics) (gsi : Int) : Option (Nat × Int) :=
  (([0, 1, 2, 3].map ioapics.data).find? fun data =>
    decide ((data.gsiBase.toNat : Int) ≤ gsi ∧
      gsi < data.gsiBase.toNat + data.redirTblEntry.toNat)).map
    fun data => (data.virtAddr, gsi - data.gsiBase.toNat)

/-- A handler is registered, the entry of the interrupt leads to it and has the
mode of the override, and no other entry has changed. -/
structure RoutedTo (irqno : Int)
    (isrHandler : IsrHandler) (before after : Isr) (base : Nat) (pin : Int)
    (vector : Fin 256) : Prop where
  registers : after.registers = update before.registers vector ⟨isrHandler, true⟩
  vector : Rte.vector.get (after.ioapics.ioapicReadRte base pin) = BitVec.ofNat 8 vector.val
  unmasked : Rte.mask.get (after.ioapics.ioapicReadRte base pin) = 0
  mode : ∀ iso ∈ overrideFor isos irqno,
    isaPolarity iso.flags = .ok (Rte.pinPolarity.get (after.ioapics.ioapicReadRte base pin)) ∧
    isaTriggerMode iso.flags = .ok (Rte.triggerMode.get (after.ioapics.ioapicReadRte base pin))
  others : ∀ other offset, ¬(other = base ∧
      (offset = ioapicRedtbl pin ∨ offset = ioapicRedtbl pin + 1)) →
    after.ioapics.regs other offset = before.ioapics.regs other offset

def Routed (irqno : Int) (isrHandler : IsrHandler) (before after : Isr) : Prop :=
  ∃ base pin vector,
    before.ioapics.pinOf (gsiFor isos irqno) = some (base, pin) ∧
      RoutedTo isos irqno isrHandler before after base pin vector

end

/-- The first I/O APIC has entries for a request and for its interrupt, and no
more entries than there are registers. -/
structure Wired (ioapics : Ioapics) (irqno gsi : Int) : Prop where
  first : (ioapics.data 0).gsiBase = 0
  few : (ioapics.data 0).redirTblEntry.toNat ≤ 120
  irqno_nonneg : 0 ≤ irqno
  irqno_lt : irqno < (ioapics.data 0).redirTblEntry.toNat
  gsi_nonneg : 0 ≤ gsi
  gsi_lt : gsi < (ioapics.data 0).redirTblEntry.toNat

/-! ## Reading and writing entries -/

theorem ioapicRedtbl_toNat (irqNo : Int) :
    ((ioapicRedtbl irqNo).toNat : Int) = (16 + irqNo * 2) % 256 := by
  unfold ioapicRedtbl UInt8.ofInt
  rw [UInt8.toNat_ofNat']
  omega

theorem next_toNat (offset : UInt8) : (offset + 1).toNat = (offset.toNat + 1) % 256 :=
  UInt8.toNat_add offset 1

theorem offset_ne_next (offset : UInt8) : offset ≠ offset + 1 := by
  intro same
  have same := congrArg UInt8.toNat same
  rw [next_toNat] at same
  omega

variable {offset : UInt8}

/-- The registers of different entries; the register select has eight bits. -/
theorem ioapicRedtbl_apart {irqNo other : Int} (apart : (other - irqNo) % 128 ≠ 0)
    (isOther : offset = ioapicRedtbl other ∨ offset = ioapicRedtbl other + 1) :
    ¬(offset = ioapicRedtbl irqNo ∨ offset = ioapicRedtbl irqNo + 1) := by
  have place := ioapicRedtbl_toNat irqNo
  have otherPlace := ioapicRedtbl_toNat other
  have next := next_toNat (ioapicRedtbl irqNo)
  have otherNext := next_toNat (ioapicRedtbl other)
  rcases isOther with rfl | rfl
  all_goals
    rintro (hit | hit)
    all_goals
      have hit := congrArg UInt8.toNat hit
      omega

section Entry

variable (rte : Rte) (vector : Int) (polarity triggerMode : BitVec 1)

theorem isaEntry_vector :
    Rte.vector.get (isaEntry rte vector polarity triggerMode) = BitVec.ofInt 8 vector := by
  unfold isaEntry
  rw [get_set_of_apart _ (by decide), get_set_of_apart _ (by decide),
    get_set_of_apart _ (by decide),
    get_set_of_apart _ (by decide),
    get_set_of_apart _ (by decide), get_set]

theorem isaEntry_mask : mask.get (isaEntry rte vector polarity triggerMode) = 1 := by
  unfold isaEntry
  rw [get_set_of_apart _ (by decide), get_set_of_apart _ (by decide), get_set]

theorem isaEntry_pinPolarity : pinPolarity.get (isaEntry rte vector polarity triggerMode) =
      polarity := by
  unfold isaEntry
  rw [get_set_of_apart _ (by decide), get_set]

theorem isaEntry_triggerMode :
    Rte.triggerMode.get (isaEntry rte vector polarity triggerMode) = triggerMode :=
  get_set _ _ _

end Entry

namespace Ioapics

variable {ioapics : Ioapics} {base : Nat} {irqNo other : Int}

theorem ioapicReadRte_write (val : Rte) :
    (ioapics.ioapicWriteRte base irqNo val).ioapicReadRte base irqNo = val := by
  have apart := offset_ne_next (ioapicRedtbl irqNo)
  unfold ioapicWriteRte ioapicReadRte ioapicRegWrite ioapicRegRead
  simp only [update_self, update_of_ne apart]
  exact @append_halves 32 32 val

theorem ioapicWriteRte_regs (val : Rte) {place : Nat}
    (apart : ¬(place = base ∧ (offset = ioapicRedtbl irqNo ∨ offset = ioapicRedtbl irqNo + 1))) :
    (ioapics.ioapicWriteRte base irqNo val).regs place offset = ioapics.regs place offset := by
  unfold ioapicWriteRte ioapicRegWrite
  by_cases same : place = base
  · subst same
    have low : offset ≠ ioapicRedtbl irqNo := fun hit => apart ⟨rfl, .inl hit⟩
    have high : offset ≠ ioapicRedtbl irqNo + 1 := fun hit => apart ⟨rfl, .inr hit⟩
    simp [update_of_ne low, update_of_ne high]
  · simp [update_of_ne same]

theorem ioapicReadRte_write_of_ne (val : Rte) (apart : (other - irqNo) % 128 ≠ 0) :
    (ioapics.ioapicWriteRte base irqNo val).ioapicReadRte base other =
      ioapics.ioapicReadRte base other := by
  unfold ioapicReadRte ioapicRegRead
  rw [ioapicWriteRte_regs _ fun hit => ioapicRedtbl_apart apart (.inr rfl) hit.2,
    ioapicWriteRte_regs _ fun hit => ioapicRedtbl_apart apart (.inl rfl) hit.2]

theorem ioapicWriteRte_data (val : Rte) :
    (ioapics.ioapicWriteRte base irqNo val).data = ioapics.data := rfl

theorem ioapicGetByIrq_first {irqno : Int} (first : (ioapics.data 0).gsiBase = 0)
    (inside : irqno < (ioapics.data 0).redirTblEntry.toNat) :
    ioapics.ioapicGetByIrq irqno = some (ioapics.data 0) := by
  have least : (ioapics.data 0).gsiBase ≤ UInt32.ofInt irqno := by
    rw [first, UInt32.le_iff_toNat_le]
    exact Nat.zero_le _
  unfold ioapicGetByIrq
  rw [map_cons, List.find?_cons_of_pos]
  exact decide_eq_true ⟨least, inside⟩

section First

variable {irqno : Int} (first : (ioapics.data 0).gsiBase = 0)
  (inside : irqno < (ioapics.data 0).redirTblEntry.toNat)
include first inside

theorem ioapicGetRtentry_first : ioapics.ioapicGetRtentry irqno =
    .ok (ioapics.ioapicReadRte (ioapics.data 0).virtAddr irqno) := by
  rw [ioapicGetRtentry, ioapicGetByIrq_first first inside]

theorem ioapicSetRtentry_first (val : Rte) : ioapics.ioapicSetRtentry irqno val =
      .ok (ioapics.ioapicWriteRte (ioapics.data 0).virtAddr irqno val) := by
  rw [ioapicSetRtentry, ioapicGetByIrq_first first inside]

theorem ioapicSetIrqVector_first (vector : Int) : ioapics.ioapicSetIrqVector irqno vector =
      .ok (ioapics.ioapicWriteRte (ioapics.data 0).virtAddr irqno
        (Rte.vector.set (Rte.triggerMode.set
          (ioapics.ioapicReadRte (ioapics.data 0).virtAddr irqno) ioapicEdge)
          (BitVec.ofInt 8 vector))) := by
  rw [ioapicSetIrqVector, ioapicGetRtentry_first first inside]
  exact ioapicSetRtentry_first first inside _

variable {flags : UInt16}

theorem ioapicSetIsaIrqFlags_first (vector : Int) {polarity triggerMode : BitVec 1}
    (hasPolarity : isaPolarity flags = .ok polarity)
    (hasTrigger : isaTriggerMode flags = .ok triggerMode) :
    ioapics.ioapicSetIsaIrqFlags irqno vector flags =
      .ok (ioapics.ioapicWriteRte (ioapics.data 0).virtAddr irqno
        (isaEntry (ioapics.ioapicReadRte (ioapics.data 0).virtAddr irqno) vector
          polarity triggerMode)) := by
  rw [ioapicSetIsaIrqFlags, ioapicGetRtentry_first first inside, hasPolarity, hasTrigger]
  exact ioapicSetRtentry_first first inside _

theorem ioapicSetIsaIrqFlags_ok {vector : Int} {after : Ioapics}
    (stored : ioapics.ioapicSetIsaIrqFlags irqno vector flags = .ok after) :
    ∃ polarity triggerMode, after =
      ioapics.ioapicWriteRte (ioapics.data 0).virtAddr irqno
        (isaEntry (ioapics.ioapicReadRte (ioapics.data 0).virtAddr irqno) vector
          polarity triggerMode) := by
  obtain ⟨rte, read, stored⟩ := exists_of_bind_ok stored
  obtain ⟨polarity, _, stored⟩ := exists_of_bind_ok stored
  obtain ⟨triggerMode, _, stored⟩ := exists_of_bind_ok stored
  rw [ioapicGetRtentry_first first inside] at read
  rw [ioapicSetRtentry_first first inside] at stored
  cases read
  cases stored
  exact ⟨polarity, triggerMode, rfl⟩

theorem ioapicSetIrqMask_first (mask : BitVec 1) : ioapics.ioapicSetIrqMask irqno mask =
      .ok (ioapics.ioapicWriteRte (ioapics.data 0).virtAddr irqno
        (Rte.mask.set (ioapics.ioapicReadRte (ioapics.data 0).virtAddr irqno) mask)) := by
  rw [ioapicSetIrqMask, ioapicGetRtentry_first first inside]
  exact ioapicSetRtentry_first first inside _

omit first in
theorem le_ioapicGetMaxIrq : irqno ≤ ioapics.ioapicGetMaxIrq := by
  unfold ioapicGetMaxIrq
  simp only [map_cons, map_nil, sum_cons, sum_nil]
  omega

end First

theorem pinOf_first {gsi : Int} (first : (ioapics.data 0).gsiBase = 0)
    (lower : 0 ≤ gsi) (upper : gsi < (ioapics.data 0).redirTblEntry.toNat) :
    ioapics.pinOf gsi = some ((ioapics.data 0).virtAddr, gsi) := by
  have zero : (ioapics.data 0).gsiBase.toNat = 0 := by
    rw [first]
    rfl
  unfold pinOf
  rw [map_cons, List.find?_cons_of_pos]
  · simp [zero]
  · simp [zero, lower, upper]

end Ioapics

/-! ## The overrides -/

/-- What `_isr_init_override` stores. -/
def storedOverride (iso : MadtRecordIso) : IsaOverride :=
  ⟨true, toInt32 iso.gsi.toNat, iso.flags⟩

theorem slotOf_ok {count : Nat} {index : Int} {slot : Fin count}
    (found : slotOf count index = .ok slot) : (slot.val : Int) = index := by
  unfold slotOf at found
  split at found
  · cases found
    change ((index.toNat : Nat) : Int) = index
    omega
  · cases found

theorem slotOf_inside {count : Nat} (slot : Fin count) : slotOf count slot.val = .ok slot := by
  unfold slotOf
  rw [dif_pos (by omega)]
  rfl

theorem overrideFor_cons (iso : MadtRecordIso) (isos : List MadtRecordIso) (irqno : Int) :
    overrideFor (iso :: isos) irqno = (overrideFor isos irqno).or
      (if (iso.source.toNat : Int) = irqno then some iso else none) := by
  unfold overrideFor
  by_cases same : (iso.source.toNat : Int) = irqno
  · simp [same]
  · simp [same]

namespace Isr

variable {isr before after : Isr} {isos : List MadtRecordIso}

theorem setOverride_ok {iso : MadtRecordIso} (stored : isr.setOverride iso = .ok after) :
    ∃ slot : Fin 16, (slot.val : Int) = iso.source.toNat ∧
      after = { isr with
        overrides := update isr.overrides slot
          (storedOverride iso) } := by
  obtain ⟨slot, found, stored⟩ := exists_of_bind_ok stored
  cases stored
  exact ⟨slot, slotOf_ok found, rfl⟩

/-- The tables besides the overrides and the bitmap. -/
structure SameTables (isr after : Isr) : Prop where
  registers : after.registers = isr.registers
  externalMax : after.externalMax = isr.externalMax
  ioapics : after.ioapics = isr.ioapics

theorem SameTables.trans {middle : Isr} (first : SameTables isr middle)
    (second : SameTables middle after) : SameTables isr after where
  registers := second.registers.trans first.registers
  externalMax := second.externalMax.trans first.externalMax
  ioapics := second.ioapics.trans first.ioapics

theorem isrInitOverride_ok (stored : isr.isrInitOverride isos = .ok after) :
    SameTables isr after ∧ ∀ slot : Fin 16, after.overrides slot =
      match overrideFor isos slot.val with
      | some iso => storedOverride iso
      | none => isr.overrides slot := by
  induction isos generalizing isr with
  | nil =>
    cases stored
    exact ⟨⟨rfl, rfl, rfl⟩, fun _ => rfl⟩
  | cons iso isos induction =>
    obtain ⟨middle, first, stored⟩ := exists_of_bind_ok stored
    obtain ⟨same, overrides⟩ := induction stored
    obtain ⟨source, isSource, rfl⟩ := setOverride_ok first
    refine ⟨⟨same.registers, same.externalMax, same.ioapics⟩, ?_⟩
    intro slot
    rw [overrides slot, overrideFor_cons]
    cases overrideFor isos slot.val with
    | some later => rfl
    | none =>
      change update isr.overrides source _ slot = _
      by_cases hit : slot = source
      · subst hit
        rw [update_self, Option.none_or, if_pos isSource.symm]
      · have apart : ¬(iso.source.toNat : Int) = slot.val := by
          omega
        rw [update_of_ne hit, Option.none_or, if_neg apart]

theorem irqBitmapSet_same {irqno : Int} (stored : isr.irqBitmapSet irqno = .ok after) :
    SameTables isr after ∧ after.overrides = isr.overrides := by
  obtain ⟨place, _, stored⟩ := exists_of_bind_ok stored
  cases stored
  exact ⟨⟨rfl, rfl, rfl⟩, rfl⟩

theorem isrReserveIsaIrq_same (stored : isr.isrReserveIsaIrq = .ok after) :
    SameTables isr after ∧ after.overrides = isr.overrides := by
  have preserved : ∀ (state : Isr) (i : Nat) (next : Isr),
      SameTables isr state ∧ state.overrides = isr.overrides →
      state.irqBitmapSet i = .ok next →
      SameTables isr next ∧ next.overrides = isr.overrides := by
    intro state i next same stored
    have step := irqBitmapSet_same stored
    exact ⟨same.1.trans step.1, step.2.trans same.2⟩
  change runExcept (fun isr (i : Nat) => isr.irqBitmapSet i) isr
    (List.range numIsaIrqs) = .ok after at stored
  exact runExcept_invariant preserved ⟨⟨rfl, rfl, rfl⟩, rfl⟩ stored

theorem isrInit_ok (initialised : before.isrInit isos = .ok isr) :
    isr.externalMax = before.ioapics.ioapicGetMaxIrq ∧ isr.ioapics = before.ioapics ∧
      ∀ slot : Fin 16, isr.overrides slot =
        match overrideFor isos slot.val with
        | some iso => storedOverride iso
        | none => before.overrides slot := by
  rw [isrInit] at initialised
  obtain ⟨middle, reserved, initialised⟩ := exists_of_bind_ok initialised
  obtain ⟨first, kept⟩ := isrReserveIsaIrq_same reserved
  obtain ⟨second, overrides⟩ := isrInitOverride_ok initialised
  have same := first.trans second
  rw [kept] at overrides
  exact ⟨same.externalMax, same.ioapics, overrides⟩

/-! ## Registering a handler -/

variable {irqno : Int} {slot : Fin 16} {isrHandler : IsrHandler}

theorem isaOverrideOf_slot (isSlot : (slot.val : Int) = irqno) :
    isr.isaOverrideOf irqno = .ok (if (isr.overrides slot).used then
      some (isr.overrides slot) else none) := by
  have isa : irqno < numIsaIrqs := by
    unfold numIsaIrqs
    omega
  have found : slotOf 16 irqno = .ok slot := isSlot ▸ slotOf_inside slot
  rw [isaOverrideOf, if_pos isa, found]
  rfl

theorem isrSetupIrq_plain (isSlot : (slot.val : Int) = irqno) (external : irqno ≤ isr.externalMax)
    (plain : (isr.overrides slot).used = false) :
    isr.isrSetupIrq irqno =
      (isr.ioapics.ioapicSetIrqVector irqno (irqToVector irqno)).map
        fun ioapics => (irqToVector irqno, { isr with ioapics := ioapics }) := by
  rw [isrSetupIrq, if_pos external, isaOverrideOf_slot isSlot, plain]
  rfl

theorem isrSetupIrq_override
    (isSlot : (slot.val : Int) = irqno) (external : irqno ≤ isr.externalMax)
    (used : (isr.overrides slot).used = true) {gsi : Int}
    (dest : (isr.overrides slot).dest = gsi) :
    isr.isrSetupIrq irqno = (slotOf 16 gsi).bind fun place =>
      (isr.ioapics.ioapicSetIsaIrqFlags gsi (irqToVector gsi)
        (isr.overrides place).flags).map
          fun ioapics => (irqToVector gsi, { isr with ioapics := ioapics }) := by
  rw [isrSetupIrq, if_pos external, isaOverrideOf_slot isSlot, used, ← dest]
  rfl

theorem isrRegisterIrqH_ok {vector : Int}
    {slot : Fin 256} {ioapics enabled : Ioapics} (isa : irqno < numIsaIrqs)
    (external : irqno ≤ isr.externalMax)
    (setup : isr.isrSetupIrq irqno = .ok (vector, { isr with ioapics := ioapics }))
    (isSlot : (slot.val : Int) = vector)
    (free : (isr.registers slot).used = false)
    (unmasked : ioapics.ioapicSetIrqMask irqno 0#1 = .ok enabled) :
    isr.isrRegisterIrqH irqno isrHandler =
      .ok { isr with
        registers := update isr.registers slot ⟨isrHandler, true⟩
        ioapics := enabled } := by
  have interrupt : ¬irqno ≥ numInterrupts := by
    unfold numIsaIrqs at isa
    unfold numInterrupts
    omega
  have hard : ¬(isr.externalMax < irqno ∧ irqno < numInterrupts) := by
    omega
  have found : slotOf 256 vector = .ok slot := isSlot ▸ slotOf_inside slot
  rw [isrRegisterIrqH, if_neg interrupt, setup]
  simp [bind, Except.bind, isrRegisterHandler, found, free, isrIsSoftirq, hard,
    isrEnableIrq, unmasked]

theorem isrSetupIrq_externalMax {vector : Int} {next : Isr}
    (setup : isr.isrSetupIrq irqno = .ok (vector, next)) :
    next.externalMax = isr.externalMax := by
  unfold isrSetupIrq at setup
  split at setup
  · obtain ⟨isaOverride, _, setup⟩ := exists_of_bind_ok setup
    cases isaOverride with
    | none =>
      obtain ⟨ioapics, _, setup⟩ := exists_of_bind_ok setup
      cases setup
      rfl
    | some isaOverride =>
      obtain ⟨slot, _, setup⟩ := exists_of_bind_ok setup
      obtain ⟨ioapics, _, setup⟩ := exists_of_bind_ok setup
      cases setup
      rfl
  · cases setup
    rfl

/-- The entries of the I/O APICs are changed by setting the request up and by
unmasking it. -/
theorem isrRegisterIrqH_ioapics (external : irqno ≤ isr.externalMax)
    (registered : isr.isrRegisterIrqH irqno isrHandler = .ok after) :
    ∃ vector next, isr.isrSetupIrq irqno = .ok (vector, next) ∧
      next.ioapics.ioapicSetIrqMask irqno 0#1 = .ok after.ioapics := by
  unfold isrRegisterIrqH at registered
  split at registered
  · cases registered
  · obtain ⟨⟨vector, next⟩, setup, registered⟩ := exists_of_bind_ok registered
    refine ⟨vector, next, setup, ?_⟩
    obtain ⟨named, stored, enabled⟩ := exists_of_bind_ok registered
    obtain ⟨slot, _, stored⟩ := exists_of_bind_ok stored
    split at stored
    · cases stored
    · cases stored
      have hard : ¬(isr.externalMax < irqno ∧ irqno < numInterrupts) := by
        omega
      rw [← isrSetupIrq_externalMax setup] at hard
      rw [if_neg (by simpa [isrIsSoftirq] using hard)] at enabled
      obtain ⟨ioapics, masked, enabled⟩ := exists_of_bind_ok enabled
      cases enabled
      exact masked

end Isr

/-! ## Where requests are routed -/

section Routing

variable {isr : Isr} {isos : List MadtRecordIso} {irqno : Int} {isrHandler : IsrHandler}

theorem exists_vector {gsi : Int} (lower : 0 ≤ gsi) (upper : gsi < 120) :
    ∃ slot : Fin 256, (slot.val : Int) = irqToVector gsi := by
  have inside : gsi.toNat + 32 < 256 := by omega
  refine ⟨⟨gsi.toNat + 32, inside⟩, ?_⟩
  unfold irqToVector numExceptions
  push_cast
  omega

theorem vector_bits {slot : Fin 256} {vector : Int} (isSlot : (slot.val : Int) = vector) :
    BitVec.ofInt 8 vector = BitVec.ofNat 8 slot.val := by
  rw [← isSlot, BitVec.ofInt_natCast]

/-- A request that maps to its own number is routed, once its entry has the
vector and the mode of the override. -/
theorem routed_of_setup {slot : Fin 256} {entry : Rte}
    (isa : irqno < numIsaIrqs) (external : irqno ≤ isr.externalMax)
    (own : gsiFor isos irqno = irqno)
    (wired : Wired isr.ioapics irqno (gsiFor isos irqno))
    (setup : isr.isrSetupIrq irqno = .ok (irqToVector irqno,
      { isr with
        ioapics := isr.ioapics.ioapicWriteRte (isr.ioapics.data 0).virtAddr
          irqno entry }))
    (isSlot : (slot.val : Int) = irqToVector irqno)
    (free : (isr.registers slot).used = false)
    (vector : vector.get entry = BitVec.ofInt 8 (irqToVector irqno))
    (mode : ∀ iso ∈ overrideFor isos irqno,
      isaPolarity iso.flags = .ok (pinPolarity.get entry) ∧
        isaTriggerMode iso.flags = .ok (triggerMode.get entry)) :
    ∃ after, isr.isrRegisterIrqH irqno isrHandler = .ok after ∧
      Routed isos irqno isrHandler isr after := by
  generalize isBase : (isr.ioapics.data 0).virtAddr = base at setup
  generalize isWritten : isr.ioapics.ioapicWriteRte base irqno entry = written at setup
  have data : written.data = isr.ioapics.data := by
    rw [← isWritten, ioapicWriteRte_data]
  have entered : written.ioapicReadRte base irqno = entry := by
    rw [← isWritten, ioapicReadRte_write]
  have unmasked := ioapicSetIrqMask_first (data ▸ wired.first) (data ▸ wired.irqno_lt) 0#1
  rw [data, isBase, entered] at unmasked
  refine ⟨_, Isr.isrRegisterIrqH_ok isa external setup isSlot free unmasked,
    base, irqno, slot, ?_, ?_⟩
  · rw [own, ← isBase]
    exact pinOf_first wired.first wired.irqno_nonneg wired.irqno_lt
  · have final := @ioapicReadRte_write written base irqno (mask.set entry 0#1)
    refine ⟨rfl, ?_, ?_, ?_, ?_⟩
    · rw [final, get_set_of_apart _ (by decide), vector, vector_bits isSlot]
    · rw [final]
      exact get_set _ _ _
    · intro iso found
      rw [final, get_set_of_apart _ (by decide), get_set_of_apart _ (by decide)]
      exact mode iso found
    · intro other offset apart
      rw [ioapicWriteRte_regs _ apart, ← isWritten, ioapicWriteRte_regs _ apart]

/-- A request that maps to another number leaves the entry of its interrupt
masked. -/
theorem masked_of_moved {after : Isr} {slot : Fin 16} {gsi : Int}
    (isSlot : (slot.val : Int) = irqno) (external : irqno ≤ isr.externalMax)
    (wired : Wired isr.ioapics irqno gsi)
    (used : (isr.overrides slot).used = true)
    (dest : (isr.overrides slot).dest = gsi) (moved : gsi ≠ irqno)
    (registered : isr.isrRegisterIrqH irqno isrHandler = .ok after) :
    mask.get (after.ioapics.ioapicReadRte (isr.ioapics.data 0).virtAddr gsi) = 1 := by
  obtain ⟨vector, next, setup, enabled⟩ := Isr.isrRegisterIrqH_ioapics external registered
  rw [Isr.isrSetupIrq_override isSlot external used dest] at setup
  obtain ⟨place, _, setup⟩ := exists_of_bind_ok setup
  obtain ⟨written, stored, isNext⟩ := exists_of_map_ok setup
  cases isNext
  obtain ⟨polarity, triggerMode, isWritten⟩ :=
    ioapicSetIsaIrqFlags_ok wired.first wired.gsi_lt stored
  have data : written.data = isr.ioapics.data := by
    rw [isWritten, ioapicWriteRte_data]
  rw [ioapicSetIrqMask_first (data ▸ wired.first) (data ▸ wired.irqno_lt), data] at enabled
  have isAfter := Except.ok.inj enabled
  have apart : (gsi - irqno) % 128 ≠ 0 := by
    obtain ⟨_, few, lower, upper, gsiLower, gsiUpper⟩ := wired
    omega
  rw [← isAfter, ioapicReadRte_write_of_ne _ apart, isWritten, ioapicReadRte_write]
  exact isaEntry_mask _ _ _ _

end Routing

/-- The flags of an override are not reserved ones. -/
def ValidFlags (flags : UInt16) : Prop :=
  ∃ polarity triggerMode, isaPolarity flags = .ok polarity ∧ isaTriggerMode flags = .ok triggerMode

/-- The request of the ACPI controller maps to itself, level triggered. -/
def acpiIso : MadtRecordIso :=
  ⟨9, 9, 0xd⟩

/-- The timer of a PC maps to interrupt 2. -/
def timerIso : MadtRecordIso :=
  ⟨0, 2, 0⟩

end SeekOs.System
