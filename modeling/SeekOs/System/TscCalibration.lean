import Mathlib.Data.Rat.Floor
import Mathlib.Tactic

/-!
# Calibration of the time stamp counter

`__hpet_calibrate_tsc` counts both counters over one interval.  The period of
the HPET is kept in whole nanoseconds, and `hpet_period` scales it back to
femtoseconds.
-/

namespace SeekOs.System

/-- `hpet_period_ns_`, which `hpet_init` computes from the clock period. -/
def hpetPeriodNs (counterClkPeriod : UInt64) : UInt64 :=
  counterClkPeriod / 1000000

def hpetPeriod (counterClkPeriod : UInt64) : UInt64 :=
  hpetPeriodNs counterClkPeriod * 1000000

def calibrateTickCount : UInt64 := 100000000

/-- The loop over the readings of the HPET and the TSC: the cycles of the TSC
and of the HPET when it ends. -/
def calibrateLoop (tscStart hpetStart : UInt64) :
    List (UInt64 × UInt64) → Option (UInt64 × UInt64)
  | [] => none
  | (hpetNow, tscNow) :: rest =>
    if tscNow - tscStart < calibrateTickCount ∨ hpetNow - hpetStart < calibrateTickCount then
      calibrateLoop tscStart hpetStart rest
    else
      some (tscNow - tscStart, hpetNow - hpetStart)

inductive Calibration where
  | running
  | divideError
  | khz (value : UInt64)
  deriving DecidableEq

/-- `__hpet_calibrate_tsc`; an HPET that is not there gives no frequency. -/
def hpetCalibrateTsc (hpetEnable : Bool) (counterClkPeriod tscStart hpetStart : UInt64)
    (readings : List (UInt64 × UInt64)) : Calibration :=
  if !hpetEnable then .khz 0
  else
    match calibrateLoop tscStart hpetStart readings with
    | none => .running
    | some (tscCycles, hpetCycles) =>
      let hpetTimesNs := hpetCycles * hpetPeriod counterClkPeriod / 1000000
      if hpetTimesNs = 0 then .divideError else .khz (tscCycles * 1000000 / hpetTimesNs)

/-- The frequency in kHz for a period in femtoseconds. -/
def trueKhz (tsc hpet period : UInt64) : ℚ :=
  (tsc.toNat * 10 ^ 12 : ℕ) / (hpet.toNat * period.toNat : ℕ)

/-- A frequency within a tenth of a percent is returned. -/
def Calibration.Accurate (result : Calibration) (tsc hpet period : UInt64) : Prop :=
  ∃ khz, result = .khz khz ∧
    |(khz.toNat : ℚ) - trueKhz tsc hpet period| ≤ trueKhz tsc hpet period / 1000

/-- Both differences have reached the count when the loop ends. -/
theorem calibrateLoop_exits {tscStart hpetStart tsc hpet : UInt64}
    {readings : List (UInt64 × UInt64)}
    (exits : calibrateLoop tscStart hpetStart readings = some (tsc, hpet)) :
    calibrateTickCount ≤ tsc ∧ calibrateTickCount ≤ hpet := by
  induction readings with
  | nil => cases exits
  | cons reading rest induction =>
    rw [calibrateLoop] at exits
    split at exits
    · exact induction exits
    · rename_i enough
      cases exits
      rw [not_or, UInt64.not_lt, UInt64.not_lt] at enough
      exact enough

section

variable {tsc hpet period : UInt64} (tscFits : tsc.toNat * 10 ^ 6 < 2 ^ 64)
  (hpetFits : hpet.toNat * period.toNat < 2 ^ 64)

include hpetFits in
/-- The detour over nanoseconds only drops the fraction of the period. -/
theorem hpetTimesNs_toNat :
    (hpet * hpetPeriod period / 1000000).toNat = hpet.toNat * (period.toNat / 10 ^ 6) := by
  have whole := Nat.div_mul_le_self period.toNat (10 ^ 6)
  have product := Nat.mul_le_mul_left hpet.toNat whole
  have small := period.toNat_lt
  have scaled : (hpetPeriod period).toNat = period.toNat / 10 ^ 6 * 10 ^ 6 := by
    rw [hpetPeriod, hpetPeriodNs, UInt64.toNat_mul, UInt64.toNat_div]
    exact Nat.mod_eq_of_lt (whole.trans_lt small)
  rw [UInt64.toNat_div, UInt64.toNat_mul, scaled, Nat.mod_eq_of_lt (product.trans_lt hpetFits),
    ← Nat.mul_assoc]
  exact Nat.mul_div_cancel _ (by decide)

/-- A quotient is within a tenth of a percent of a number exactly if the
dividend lies between the outermost whole quotients that are. -/
theorem quotient_near_iff (dividend : ℕ) {divisor : ℕ} (positive : 0 < divisor) {exact : ℚ}
    (nonneg : 0 ≤ exact) :
    |((dividend / divisor : ℕ) : ℚ) - exact| ≤ exact / 1000 ↔
      ⌈exact * (999 / 1000)⌉₊ * divisor ≤ dividend ∧
        dividend < (⌊exact * (1001 / 1000)⌋₊ + 1) * divisor := by
  have upperNonneg : 0 ≤ exact * (1001 / 1000) := by positivity
  rw [← Nat.le_div_iff_mul_le positive, ← Nat.div_lt_iff_lt_mul positive, Nat.lt_succ_iff,
    Nat.ceil_le, Nat.le_floor_iff upperNonneg, abs_le]
  constructor
  · rintro ⟨lower, upper⟩
    constructor
    · linarith
    · linarith
  · rintro ⟨lower, upper⟩
    constructor
    · linarith
    · linarith

end

end SeekOs.System
