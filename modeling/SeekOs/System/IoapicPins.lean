import SeekOs.System.IrqRouting

/-!
# Interrupts and the pins of the I/O APICs

An I/O APIC serves the interrupts from its base on.  `ioapic_get_by_irq` compares
with the number of its entries alone, and the entry is taken under the number of
the interrupt: both are right for the first I/O APIC only.
-/

namespace SeekOs.System.Ioapics

open SeekOs.Lib Function List

variable {ioapics : Ioapics} {slot : Fin 4} {g : Int}

variable (ioapics)

/-- The interrupt is in the range of the I/O APIC. -/
def Serves (slot : Fin 4) (g : Int) : Prop :=
  ((ioapics.data slot).gsiBase.toNat : Int) ≤ g ∧
    g < (ioapics.data slot).gsiBase.toNat + (ioapics.data slot).redirTblEntry.toNat

def pin (slot : Fin 4) (g : Int) : Int :=
  g - (ioapics.data slot).gsiBase.toNat

/-- A redirection entry; the register select has eight bits. -/
def entry (slot : Fin 4) (pin : Int) : Option Rte :=
  if pin < 120 then some (ioapics.ioapicReadRte (ioapics.data slot).virtAddr pin) else none

/-- The ranges are disjoint, and different I/O APICs with entries are different
devices. -/
structure Configured : Prop where
  disjoint : ∀ {first second : Fin 4} {g : Int},
    ioapics.Serves first g → ioapics.Serves second g → first = second
  devices : ∀ {first second : Fin 4} {g other : Int},
    ioapics.Serves first g → ioapics.Serves second other →
      (ioapics.data first).virtAddr = (ioapics.data second).virtAddr → first = second

/-- The calls for an interrupt use the I/O APIC that serves it, and its entry. -/
structure ResolvesTo (slot : Fin 4) (g : Int) : Prop where
  found : ioapics.ioapicGetByIrq g = some (ioapics.data slot)
  read : ∃ rte, ioapics.entry slot (ioapics.pin slot g) = some rte ∧
    ioapics.ioapicGetRtentry g = .ok rte
  write : ∀ val, ∃ after, ioapics.ioapicSetRtentry g val = .ok after ∧
    after.entry slot (ioapics.pin slot g) = some val ∧ after.ioapicGetRtentry g = .ok val ∧
    ∀ otherSlot other, ioapics.Serves otherSlot other → other ≠ g →
      after.entry otherSlot (ioapics.pin otherSlot other) =
        ioapics.entry otherSlot (ioapics.pin otherSlot other)

def Resolves (g : Int) : Prop :=
  (∀ slot, ioapics.Serves slot g → ioapics.ResolvesTo slot g) ∧
    ((∀ slot, ¬ioapics.Serves slot g) → ioapics.ioapicGetByIrq g = none)

variable {ioapics}

/-- The number of an interrupt names the registers of its pin if the base is a
multiple of 128. -/
theorem ioapicRedtbl_pin (aligned : (ioapics.data slot).gsiBase.toNat % 128 = 0) :
    ioapicRedtbl g = ioapicRedtbl (ioapics.pin slot g) := by
  apply UInt8.toNat_inj.mp
  have number := ioapicRedtbl_toNat g
  have onPin := ioapicRedtbl_toNat (ioapics.pin slot g)
  unfold pin at onPin ⊢
  omega

theorem ofInt_toNat (nonneg : 0 ≤ g) (small : g < 2 ^ 32) : (UInt32.ofInt g).toNat = g.toNat := by
  unfold UInt32.ofInt
  rw [UInt32.toNat_ofNat']
  omega

/-- An I/O APIC that is found for a number that is not negative serves it. -/
theorem serves_of_found {data : IoapicData} (nonneg : 0 ≤ g)
    (found : ioapics.ioapicGetByIrq g = some data) :
    ∃ slot, data = ioapics.data slot ∧ ioapics.Serves slot g ∧ g < data.redirTblEntry.toNat := by
  have holds := find?_some found
  obtain ⟨slot, _, rfl⟩ := mem_map.mp (mem_of_find?_eq_some found)
  obtain ⟨least, inside⟩ := decide_eq_true_iff.mp holds
  have few := (ioapics.data slot).redirTblEntry.toNat_lt
  rw [UInt32.le_iff_toNat_le, ofInt_toNat nonneg (by omega)] at least
  refine ⟨slot, rfl, ⟨?_, ?_⟩, inside⟩
  · omega
  · omega

theorem Configured.found_iff (configured : ioapics.Configured) (serves : ioapics.Serves slot g) :
    ioapics.ioapicGetByIrq g = some (ioapics.data slot) ↔
      g < (ioapics.data slot).redirTblEntry.toNat := by
  have nonneg : 0 ≤ g := (Int.natCast_nonneg _).trans serves.1
  constructor
  · intro found
    obtain ⟨_, _, _, inside⟩ := serves_of_found nonneg found
    exact inside
  · intro inside
    cases found : ioapics.ioapicGetByIrq g with
    | none =>
      have all : ∀ slot : Fin 4, slot ∈ [0, 1, 2, 3] := by decide
      have few := (ioapics.data slot).redirTblEntry.toNat_lt
      have lower := serves.1
      refine absurd (decide_eq_true ⟨?_, inside⟩)
        (find?_eq_none.mp found _ (mem_map_of_mem (all slot)))
      rw [UInt32.le_iff_toNat_le, ofInt_toNat nonneg (by omega)]
      omega
    | some data =>
      obtain ⟨other, rfl, otherServes, _⟩ := serves_of_found nonneg found
      rw [configured.disjoint otherServes serves]

/-- An interrupt below the number of entries, whose number and pin name the same
registers. -/
def AtPin (ioapics : Ioapics) (slot : Fin 4) (g : Int) : Prop :=
  g < (ioapics.data slot).redirTblEntry.toNat ∧ (ioapics.data slot).gsiBase.toNat % 128 = 0 ∧
    ioapics.pin slot g < 120

theorem Configured.resolvesTo_iff (configured : ioapics.Configured)
    (serves : ioapics.Serves slot g) : ioapics.ResolvesTo slot g ↔ ioapics.AtPin slot g := by
  constructor
  · rintro ⟨found, ⟨rte, isRte, _⟩, write⟩
    have few : ioapics.pin slot g < 120 := by
      by_contra many
      rw [entry, if_neg many] at isRte
      cases isRte
    refine ⟨(configured.found_iff serves).mp found, ?_, few⟩
    by_contra unaligned
    -- a write under the number of the interrupt does not reach the entry
    obtain ⟨after, written, isVal, _⟩ := write (rte + 1)
    rw [ioapicSetRtentry, found] at written
    cases written
    have apart : (ioapics.pin slot g - g) % 128 ≠ 0 := by
      unfold pin
      omega
    rw [entry, if_pos few] at isRte isVal
    rw [ioapicWriteRte_data, ioapicReadRte_write_of_ne _ apart, isRte] at isVal
    have same := Option.some.inj isVal
    bv_omega
  · rintro ⟨inside, aligned, few⟩
    have found := (configured.found_iff serves).mpr inside
    have same : ∀ state : Ioapics, state.ioapicReadRte (ioapics.data slot).virtAddr g =
        state.ioapicReadRte (ioapics.data slot).virtAddr (ioapics.pin slot g) := by
      intro state
      rw [ioapicReadRte, ioapicReadRte, ioapicRedtbl_pin aligned]
    refine ⟨found, ⟨_, if_pos few, ?_⟩, ?_⟩
    · rw [ioapicGetRtentry, found, ← same]
    intro val
    refine ⟨ioapics.ioapicWriteRte (ioapics.data slot).virtAddr g val, ?_, ?_, ?_, ?_⟩
    · rw [ioapicSetRtentry, found]
    · rw [entry, if_pos few, ioapicWriteRte_data, ← same, ioapicReadRte_write]
    · have again : (ioapics.ioapicWriteRte (ioapics.data slot).virtAddr g val).ioapicGetByIrq g =
          some (ioapics.data slot) := found
      rw [ioapicGetRtentry, again]
      exact congrArg _ (ioapicReadRte_write val)
    · intro otherSlot other otherServes different
      unfold entry
      split
      · rename_i otherFew
        by_cases device : (ioapics.data otherSlot).virtAddr = (ioapics.data slot).virtAddr
        · obtain rfl := configured.devices otherServes serves device
          have apart : (ioapics.pin otherSlot other - g) % 128 ≠ 0 := by
            have lower := serves.1
            have otherLower := otherServes.1
            unfold pin at few otherFew ⊢
            omega
          exact congrArg some (ioapicReadRte_write_of_ne val apart)
        · unfold ioapicReadRte ioapicRegRead
          rw [ioapicWriteRte_data, ioapicWriteRte_regs _ (fun hit => device hit.1),
            ioapicWriteRte_regs _ (fun hit => device hit.1)]
      · rfl

/-- An interrupt is resolved exactly if its I/O APIC has more entries than its
number says and starts at 0 or at 128; a negative number, if every base is
above it as an unsigned number. -/
theorem irq_resolves_iff (configured : ioapics.Configured) (g : Int) : ioapics.Resolves g ↔
      0 ≤ g ∧ (∀ slot, ioapics.Serves slot g → ioapics.AtPin slot g) ∨
        g < 0 ∧ ∀ slot, UInt32.ofInt g < (ioapics.data slot).gsiBase := by
  have byPin : (∀ slot, ioapics.Serves slot g → ioapics.ResolvesTo slot g) ↔
      ∀ slot, ioapics.Serves slot g → ioapics.AtPin slot g :=
    forall₂_congr fun slot serves => configured.resolvesTo_iff serves
  rw [Resolves, byPin]
  by_cases negative : g < 0
  · have nowhere : ∀ slot, ¬ioapics.Serves slot g := by
      intro slot serves
      exact absurd negative (Int.not_lt.mpr ((Int.natCast_nonneg _).trans serves.1))
    have missed : ioapics.ioapicGetByIrq g = none ↔
        ∀ slot, UInt32.ofInt g < (ioapics.data slot).gsiBase := by
      have below : ∀ data : IoapicData, g < data.redirTblEntry.toNat :=
        fun data => negative.trans_le (Int.natCast_nonneg _)
      rw [ioapicGetByIrq, find?_eq_none, forall_mem_map]
      simp [below, Fin.forall_fin_succ]
    simp [negative, Int.not_le.mpr negative, nowhere, missed]
  · have nonneg := Int.not_lt.mp negative
    have missed : (∀ slot, ¬ioapics.Serves slot g) → ioapics.ioapicGetByIrq g = none := by
      intro nowhere
      cases found : ioapics.ioapicGetByIrq g with
      | none => rfl
      | some data =>
        obtain ⟨slot, _, serves, _⟩ := serves_of_found nonneg found
        exact absurd serves (nowhere slot)
    constructor
    · exact fun resolved => .inl ⟨nonneg, resolved.1⟩
    · rintro (⟨_, atPin⟩ | ⟨isNegative, _⟩)
      · exact ⟨atPin, missed⟩
      · exact absurd isNegative negative

/-- A second I/O APIC behind one with 24 entries. -/
def twoIoapics : Ioapics where
  data := ![⟨0x1000, 24, 0⟩, ⟨0x2000, 24, 24⟩, ⟨0, 0, 0⟩, ⟨0, 0, 0⟩]
  regs := fun _ _ => 0

theorem twoIoapics_configured : twoIoapics.Configured := by
  constructor
  · intro first second g
    fin_cases first <;> fin_cases second <;> simp [Serves, twoIoapics] <;> omega
  · intro first second g other
    fin_cases first <;> fin_cases second <;> simp [Serves, twoIoapics]

theorem irq_resolves_iff_first : twoIoapics.Resolves 3 := by
  refine (irq_resolves_iff twoIoapics_configured 3).mpr (.inl ⟨by decide, ?_⟩)
  intro slot
  fin_cases slot <;> simp [Serves, AtPin, pin, twoIoapics]

/-- The first interrupt of the second I/O APIC is found nowhere. -/
theorem irq_of_second_unresolved :
    twoIoapics.Configured ∧ twoIoapics.Serves 1 24 ∧ (twoIoapics.ioapicGetByIrq 24).isNone :=
  ⟨twoIoapics_configured, by simp [Serves, twoIoapics], by decide +kernel⟩

end SeekOs.System.Ioapics
