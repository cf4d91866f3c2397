import Mathlib.Order.Bounds.Basic
import Ipimb.Configure.Pass

/-!
The setters that turn nanoseconds into clock ticks. The sum that rounds up is made in 32 bits before the
range is checked, so the last seven requests come out as no ticks at all.
-/

namespace Ipimb.Delays
open Ipimb.Pass

/-- The number of clock ticks a request needs. -/
def Needs (ns k : Nat) : Prop := IsLeast {k : Nat | ns ≤ 8 * k} k

theorem needs_round (ns : Nat) : Needs ns ((ns + 7) / 8) := by
  constructor
  · show ns ≤ 8 * ((ns + 7) / 8)
    omega
  · intro k enough
    have covered : ns ≤ 8 * k := enough
    omega

theorem ticks_eq (ns : BitVec 32) : (ticks ns).toNat = (ns.toNat + 7) % 2 ^ 32 / 8 := by
  have rounded : ns + clockPeriod - 1#32 = ns + 7#32 := by
    rw [clockPeriod]
    bv_omega
  rw [ticks, rounded, BitVec.toNat_udiv, BitVec.toNat_add]
  rfl

theorem ticks_toNat (ns : BitVec 32) (small : ns.toNat + 7 < 2 ^ 32) :
    (ticks ns).toNat = (ns.toNat + 7) / 8 := by
  rw [ticks_eq, Nat.mod_eq_of_lt small]

theorem ticks_wraps (ns : BitVec 32) (large : 2 ^ 32 ≤ ns.toNat + 7) : ticks ns = 0#32 := by
  apply BitVec.eq_of_toNat_eq
  have bound := ns.isLt
  rw [ticks_eq, BitVec.toNat_zero]
  omega

theorem ticks_needs (ns : BitVec 32) (small : ns.toNat + 7 < 2 ^ 32) : Needs ns.toNat (ticks ns).toNat := by
  rw [ticks_toNat ns small]
  exact needs_round ns.toNat

/-- The range check is right about a request that has not wrapped. -/
theorem ticks_le_iff (ns max : BitVec 32) (small : ns.toNat + 7 < 2 ^ 32) :
    ticks ns ≤ max ↔ ns.toNat ≤ 8 * max.toNat := by
  rw [BitVec.le_def, ticks_toNat ns small]
  omega

theorem short_toNat (ns : BitVec 16) : (ns.setWidth 32).toNat = ns.toNat := by
  have bound := ns.isLt
  rw [BitVec.toNat_setWidth]
  omega

theorem short_small (ns : BitVec 16) : (ns.setWidth 32).toNat + 7 < 2 ^ 32 := by
  have bound := ns.isLt
  rw [short_toNat]
  omega

/-! The word for the window. -/

theorem window_toNat (length delay : BitVec 32) (fits : length ≤ 0xfffff#32) (short : delay ≤ 0xfff#32) :
    (length <<< 12 ||| (delay &&& 0xfff#32)).toNat = length.toNat * 2 ^ 12 + delay.toNat := by
  have bound : length.toNat ≤ 0xfffff := fits
  have low : delay.toNat ≤ 0xfff := short
  have masked : delay.toNat &&& 0xfff = delay.toNat := by
    rw [show (0xfff : Nat) = 2 ^ 12 - 1 by decide, Nat.and_two_pow_sub_one_eq_mod]
    omega
  have shifted : length.toNat <<< 12 % 2 ^ 32 = length.toNat <<< 12 := by
    rw [Nat.shiftLeft_eq]
    omega
  rw [BitVec.toNat_or, BitVec.toNat_shiftLeft, BitVec.toNat_and]
  show length.toNat <<< 12 % 2 ^ 32 ||| (delay.toNat &&& 0xfff) = _
  rw [masked, shifted, ← Nat.shiftLeft_add_eq_or_of_lt (by omega), Nat.shiftLeft_eq]

theorem window_length (length delay : BitVec 32) (fits : length ≤ 0xfffff#32) (short : delay ≤ 0xfff#32) :
    ((length <<< 12 ||| (delay &&& 0xfff#32)).extractLsb 31 12).toNat = length.toNat := by
  have bound : length.toNat ≤ 0xfffff := fits
  have low : delay.toNat ≤ 0xfff := short
  rw [BitVec.extractLsb_toNat, window_toNat length delay fits short, Nat.shiftRight_eq_div_pow]
  omega

theorem window_delay (length delay : BitVec 32) (fits : length ≤ 0xfffff#32) (short : delay ≤ 0xfff#32) :
    ((length <<< 12 ||| (delay &&& 0xfff#32)).extractLsb 11 0).toNat = delay.toNat := by
  have low : delay.toNat ≤ 0xfff := short
  rw [BitVec.extractLsb_toNat, window_toNat length delay fits short, Nat.shiftRight_eq_div_pow]
  omega

/-! Requests and what becomes of them. -/

inductive Request where
  | window (acqLength : BitVec 32) (acqDelay : BitVec 16)
  | trigger (triggerDelay : BitVec 32)
  | presample (triggerPsDelay : BitVec 32)
  | adc (adcDelay : BitVec 32)
  | strobe (calStrobeLength : BitVec 32)

section Served
variable {β : Type} (io : Port β) (d : Driver β)

def Request.set : Request → Driver β
  | .window acqLength acqDelay => setChannelAcquisitionWindow io d acqLength acqDelay
  | .trigger triggerDelay => setTriggerDelay io d triggerDelay
  | .presample triggerPsDelay => setTriggerPreSampleDelay io d triggerPsDelay
  | .adc adcDelay => setAdcDelay io d adcDelay
  | .strobe calStrobeLength => calibrationStart io d calStrobeLength

/-- A word as it should be is written if the request fits, and otherwise nothing is written and the request
refused. -/
structure Served (regAddr : BitVec 8) (fits : Prop) (word : BitVec 32 → Prop) (d' : Driver β) : Prop where
  written : fits → ∃ value, word value ∧ d' = writeRegister io d regAddr (plain value)
  refused : ¬ fits → d' = d.fail

def ServedShort (regAddr : BitVec 8) (ns : BitVec 32) (d' : Driver β) : Prop :=
  Served io d regAddr (ns.toNat ≤ 8 * 0xffff) (fun value => Needs ns.toNat value.toNat) d'

/-- The request is served as the range of its register says. -/
def Request.Delivered (request : Request) : Prop :=
  match request with
  | .window acqLength acqDelay =>
    Served io d Reg.reset (acqLength.toNat ≤ 8 * 0xfffff ∧ acqDelay.toNat ≤ 8 * 0xfff)
      (fun value => Needs acqLength.toNat (value.extractLsb 31 12).toNat ∧
        Needs acqDelay.toNat (value.extractLsb 11 0).toNat) (request.set io d)
  | .trigger ns => ServedShort io d Reg.trig_delay ns (request.set io d)
  | .presample ns => ServedShort io d Reg.trig_ps_delay ns (request.set io d)
  | .adc ns => ServedShort io d Reg.adc_delay ns (request.set io d)
  | .strobe ns => ServedShort io d Reg.cal_strobe ns (request.set io d)

/-- The sum does not leave the 32 bits, or the request is refused for its delay. -/
def Request.Safe : Request → Prop
  | .window acqLength acqDelay => acqLength.toNat + 7 < 2 ^ 32 ∨ 8 * 0xfff < acqDelay.toNat
  | .trigger ns | .presample ns | .adc ns | .strobe ns => ns.toNat + 7 < 2 ^ 32

theorem setDelay_served (regAddr : BitVec 8) (ns : BitVec 32) (small : ns.toNat + 7 < 2 ^ 32) :
    ServedShort io d regAddr ns (setDelay io d regAddr ns) := by
  have range : ticks ns ≤ 0xffff#32 ↔ ns.toNat ≤ 8 * 0xffff := ticks_le_iff ns 0xffff#32 small
  constructor
  · intro fits
    have passes : ¬ ticks ns > 0xffff#32 := BitVec.not_lt.mpr (range.mpr fits)
    exact ⟨ticks ns, ticks_needs ns small, if_neg passes⟩
  · intro long
    have stopped : ticks ns > 0xffff#32 := by
      rw [gt_iff_lt, ← BitVec.not_le, range]
      exact long
    exact if_pos stopped

theorem setDelay_wraps (regAddr : BitVec 8) (ns : BitVec 32) (large : 2 ^ 32 ≤ ns.toNat + 7) :
    setDelay io d regAddr ns = writeRegister io d regAddr (plain 0#32) := by
  rw [setDelay, ticks_wraps ns large]
  rfl

theorem window_eq (acqLength : BitVec 32) (acqDelay : BitVec 16) :
    setChannelAcquisitionWindow io d acqLength acqDelay =
      if ticks acqLength ≤ 0xfffff#32 ∧ ticks (acqDelay.setWidth 32) ≤ 0xfff#32 then
        writeRegister io d Reg.reset
          (plain (ticks acqLength <<< 12 ||| (ticks (acqDelay.setWidth 32) &&& 0xfff#32)))
      else d.fail := by
  rw [setChannelAcquisitionWindow]
  by_cases long : ticks acqLength > 0xfffff#32
  · have stopped : ¬ (ticks acqLength ≤ 0xfffff#32 ∧ ticks (acqDelay.setWidth 32) ≤ 0xfff#32) :=
      fun both => BitVec.not_lt.mpr both.1 long
    simp only [if_pos long, if_neg stopped]
  · by_cases late : ticks (acqDelay.setWidth 32) > 0xfff#32
    · have stopped : ¬ (ticks acqLength ≤ 0xfffff#32 ∧ ticks (acqDelay.setWidth 32) ≤ 0xfff#32) :=
        fun both => BitVec.not_lt.mpr both.2 late
      simp only [if_neg long, if_pos late, if_neg stopped]
    · have both : ticks acqLength ≤ 0xfffff#32 ∧ ticks (acqDelay.setWidth 32) ≤ 0xfff#32 :=
        ⟨BitVec.not_lt.mp long, BitVec.not_lt.mp late⟩
      simp only [if_neg long, if_neg late, if_pos both]

theorem delay_le_iff (acqDelay : BitVec 16) :
    ticks (acqDelay.setWidth 32) ≤ 0xfff#32 ↔ acqDelay.toNat ≤ 8 * 0xfff := by
  rw [ticks_le_iff _ _ (short_small acqDelay), short_toNat]
  rfl

theorem window_served (acqLength : BitVec 32) (acqDelay : BitVec 16)
    (safe : (Request.window acqLength acqDelay).Safe) :
    (Request.window acqLength acqDelay).Delivered io d := by
  have delay := delay_le_iff acqDelay
  show Served _ _ _ _ _ (setChannelAcquisitionWindow io d acqLength acqDelay)
  rw [window_eq]
  rcases safe with small | late
  · have length : ticks acqLength ≤ 0xfffff#32 ↔ acqLength.toNat ≤ 8 * 0xfffff :=
      ticks_le_iff acqLength 0xfffff#32 small
    constructor
    · intro fits
      have counts : ticks acqLength ≤ 0xfffff#32 ∧ ticks (acqDelay.setWidth 32) ≤ 0xfff#32 :=
        ⟨length.mpr fits.1, delay.mpr fits.2⟩
      rw [if_pos counts]
      refine ⟨_, ⟨?_, ?_⟩, rfl⟩
      · rw [window_length _ _ counts.1 counts.2]
        exact ticks_needs acqLength small
      · rw [window_delay _ _ counts.1 counts.2, ← short_toNat]
        exact ticks_needs _ (short_small acqDelay)
    · intro out
      exact if_neg fun counts => out ⟨length.mp counts.1, delay.mp counts.2⟩
  · have refused : ¬ ticks (acqDelay.setWidth 32) ≤ 0xfff#32 := by
      rw [delay]
      omega
    rw [if_neg fun both => refused both.2]
    constructor
    · intro fits
      omega
    · intro out
      rfl

theorem safe_delivered (request : Request) (safe : request.Safe) : request.Delivered io d := by
  cases request with
  | window acqLength acqDelay => exact window_served io d acqLength acqDelay safe
  | trigger ns => exact setDelay_served io d _ ns safe
  | presample ns => exact setDelay_served io d _ ns safe
  | adc ns => exact setDelay_served io d _ ns safe
  | strobe ns => exact setDelay_served io d _ ns safe

/-- A request that has wrapped is written all the same. -/
theorem unsafe_written (request : Request) (danger : ¬ request.Safe) :
    (request.set io d).configOk = d.configOk ∧ (request.Delivered io d → request.set io d = d.fail) := by
  have short : ∀ (regAddr : BitVec 8) (ns : BitVec 32), ¬ ns.toNat + 7 < 2 ^ 32 →
      (setDelay io d regAddr ns).configOk = d.configOk ∧
        (ServedShort io d regAddr ns (setDelay io d regAddr ns) →
          setDelay io d regAddr ns = d.fail) := by
    intro regAddr ns large
    constructor
    · rw [setDelay_wraps io d regAddr ns (by omega)]
      rfl
    · intro served
      exact served.refused (by omega)
  cases request with
  | window acqLength acqDelay =>
    have large : 2 ^ 32 ≤ acqLength.toNat + 7 := by
      have both := not_or.mp danger
      omega
    have early : ticks (acqDelay.setWidth 32) ≤ 0xfff#32 := by
      have both := not_or.mp danger
      rw [delay_le_iff]
      omega
    constructor
    · show (setChannelAcquisitionWindow io d acqLength acqDelay).configOk = d.configOk
      rw [window_eq, ticks_wraps acqLength large, if_pos ⟨by decide, early⟩]
      rfl
    · intro served
      exact served.refused (by omega)
  | trigger ns => exact short _ ns danger
  | presample ns => exact short _ ns danger
  | adc ns => exact short _ ns danger
  | strobe ns => exact short _ ns danger

end Served

def silent : Port Unit := ⟨fun _ d => (plain 0#32, d), fun _ _ d => d⟩

/-- On every port and from every state of the driver, a request is served as it should be, exactly if
rounding it up does not wrap. -/
theorem delivered_iff (request : Request) :
    (∀ (β : Type) (io : Port β) (d : Driver β), request.Delivered io d) ↔ request.Safe := by
  constructor
  · intro always
    by_contra danger
    have written := unsafe_written silent ⟨(), true⟩ request danger
    have refused := written.2 (always Unit silent ⟨(), true⟩)
    rw [refused] at written
    exact absurd written.1 Bool.false_ne_true
  · intro safe β io d
    exact safe_delivered io d request safe

/-- The longest trigger delay there is becomes the shortest. -/
theorem delivered_wraps :
    ¬ ∀ (request : Request) (β : Type) (io : Port β) (d : Driver β), request.Delivered io d := by
  intro always
  have served : ServedShort silent ⟨(), true⟩ Reg.trig_delay 0xffffffff#32
      (setTriggerDelay silent ⟨(), true⟩ 0xffffffff#32) := always (.trigger 0xffffffff#32) Unit silent _
  have refused := served.refused (by decide)
  have written : setTriggerDelay silent ⟨(), true⟩ 0xffffffff#32 =
      writeRegister silent ⟨(), true⟩ Reg.trig_delay (plain 0#32) := rfl
  rw [written] at refused
  cases refused

end Ipimb.Delays
