import Mathlib.Algebra.Order.Floor.Semiring
import Mathlib.Data.Rat.Floor
import Ipimb.Configure.Applied
import Ipimb.Configure.Delays
import Ipimb.Library.Fields

/-!
The pass on a board that answers everything and keeps what it is given: which requests it accepts, and what
is in the registers then.
-/

namespace Ipimb.Accepted
open Ipimb.Pass Ipimb.Delays
open Ipimb.Applied (Legal)

/-! The board. -/

/-- The registers a request is meant for. -/
def settings : List (BitVec 8) := [Reg.rg_config, Reg.reset, Reg.trig_delay]

/-- All reads are answered, the version is the one expected, and a setting stays as it was last written. -/
structure Healthy {β : Type} (io : Port β) (register : BitVec 8 → β → BitVec 32) : Prop where
  answers : ∀ regAddr b, (io.read regAddr b).1.failed = false
  version : ∀ b, (io.read Reg.vhdl_version b).1.value = newVhdlVersion
  read_keeps : ∀ setting ∈ settings, ∀ regAddr b,
    register setting (io.read regAddr b).2 = register setting b
  write_keeps : ∀ setting ∈ settings, ∀ regAddr value b, setting ≠ regAddr →
    register setting (io.write regAddr value b) = register setting b
  write_sets : ∀ setting ∈ settings, ∀ value b, register setting (io.write setting value b) = value.value

section Change
variable {β V : Type} (register : BitVec 8 → β → BitVec 32)

/-- From d to d' `configOk` survives if ok, and if ok the settings change as given. -/
structure Change (d d' : Driver β) (ok : Prop) (change : (BitVec 8 → BitVec 32) → BitVec 8 → BitVec 32) :
    Prop where
  configOk : d'.configOk = true ↔ d.configOk = true ∧ ok
  registers : ok → ∀ file : BitVec 8 → BitVec 32,
    (∀ setting ∈ settings, register setting d.port = file setting) →
      ∀ setting ∈ settings, register setting d'.port = change file setting

variable {register} {d d' d'' : Driver β}

theorem Change.trans {ok ok' : Prop} {change change' : (BitVec 8 → BitVec 32) → BitVec 8 → BitVec 32}
    (first : Change register d d' ok change) (second : Change register d' d'' ok' change') :
    Change register d d'' (ok ∧ ok') (change' ∘ change) where
  configOk := by rw [second.configOk, first.configOk, and_assoc]
  registers both file before := second.registers both.2 (change file) (first.registers both.1 file before)

theorem Change.congr {ok ok' : Prop} {change : (BitVec 8 → BitVec 32) → BitVec 8 → BitVec 32}
    (changed : Change register d d' ok change) (same : ok' ↔ ok) : Change register d d' ok' change := by
  rwa [propext same]

variable {io : Port β} (healthy : Healthy io register) (d)

theorem fail_change {ok : Prop} (refused : ¬ ok)
    (change : (BitVec 8 → BitVec 32) → BitVec 8 → BitVec 32) : Change register d d.fail ok change where
  configOk := by simp only [Driver.fail, Bool.false_eq_true, refused, and_false]
  registers accepted := absurd accepted refused

theorem check_change (ok : Bool) : Change register d (check d ok) (ok = true) id := by
  cases ok with
  | false => exact fail_change d Bool.false_ne_true id
  | true => exact ⟨(and_iff_left rfl).symm, fun _ _ before => before⟩

theorem guarded_change {refused : Prop} [Decidable refused]
    {change : (BitVec 8 → BitVec 32) → BitVec 8 → BitVec 32} (changed : Change register d d' True change) :
    Change register d (if refused then d.fail else d') (¬ refused) change := by
  split
  next bad => exact fail_change d (not_not_intro bad) change
  next good => exact changed.congr (iff_true_intro good)

include healthy

theorem readRegister_change (regAddr : BitVec 8) :
    Change register d (readRegister io d regAddr).2 True id where
  configOk := (and_iff_left trivial).symm
  registers _ file before setting member := by
    rw [id, ← before setting member]
    exact healthy.read_keeps setting member regAddr d.port

theorem writeRegister_change (setting : BitVec 8) (member : setting ∈ settings) (value : BitVec 32) :
    Change register d (writeRegister io d setting (plain value)) True
      (fun file => Function.update file setting value) where
  configOk := (and_iff_left trivial).symm
  registers _ file before other among := by
    by_cases here : other = setting
    · subst here
      rw [Function.update_self]
      exact healthy.write_sets other among (plain value) d.port
    · rw [Function.update_of_ne here, ← before other among]
      exact healthy.write_keeps other among setting (plain value) d.port here

theorem writeOther_change (regAddr : BitVec 8) (other : regAddr ∉ settings) (value : Tracked) :
    Change register d (writeRegister io d regAddr value) True id where
  configOk := (and_iff_left trivial).symm
  registers _ file before setting member := by
    have apart : setting ≠ regAddr := ne_of_mem_of_not_mem member other
    rw [id, ← before setting member]
    exact healthy.write_keeps setting member regAddr value d.port apart

theorem setCalibrationMode_change (channels : Fin 4 → Bool) :
    Change register d (setCalibrationMode io d channels) True id :=
  ((readRegister_change d healthy Reg.cal_rg_config).trans
    (writeOther_change _ healthy Reg.cal_rg_config (by decide) _)).congr (and_self_iff).symm

theorem setTriggerCounter_change (start0 start1 : BitVec 32) :
    Change register d (setTriggerCounter io d start0 start1) True id :=
  ((writeOther_change d healthy Reg.timestamp0 (by decide) _).trans
    (writeOther_change _ healthy Reg.timestamp1 (by decide) _)).congr (and_self_iff).symm

theorem setChargeAmplifierRef_change (steps : Steps V) (refVoltage : V) :
    Change register d (setChargeAmplifierRef steps io d refVoltage)
      (¬ steps.chargeAmpRef refVoltage ≥ chargeAmpRefSteps) id :=
  guarded_change d (writeOther_change d healthy Reg.bias_data (by decide) _)

theorem setInputBias_change (steps : Steps V) (biasVoltage : V) :
    Change register d (setInputBias steps io d biasVoltage)
      (¬ steps.inputBias biasVoltage ≥ inputBiasSteps) id :=
  guarded_change d (((readRegister_change d healthy Reg.biasdac_data_config).trans
    (writeOther_change _ healthy Reg.biasdac_data_config (by decide) _)).congr (and_self_iff).symm)

def windowWord (acqLength : BitVec 32) (acqDelay : BitVec 16) : BitVec 32 :=
  ticks acqLength <<< 12 ||| (ticks (acqDelay.setWidth 32) &&& 0xfff#32)

theorem setChannelAcquisitionWindow_change (acqLength : BitVec 32) (acqDelay : BitVec 16) :
    Change register d (setChannelAcquisitionWindow io d acqLength acqDelay)
      (ticks acqLength ≤ 0xfffff#32 ∧ ticks (acqDelay.setWidth 32) ≤ 0xfff#32)
      (fun file => Function.update file Reg.reset (windowWord acqLength acqDelay)) := by
  rw [window_eq]
  split
  next fits =>
    exact (writeRegister_change d healthy Reg.reset (by decide) _).congr (iff_true_intro fits)
  next out => exact fail_change d out _

theorem setTriggerDelay_change (ns : BitVec 32) :
    Change register d (setTriggerDelay io d ns) (¬ ticks ns > 0xffff#32)
      (fun file => Function.update file Reg.trig_delay (ticks ns)) :=
  guarded_change d (writeRegister_change d healthy Reg.trig_delay (by decide) _)

theorem setOtherDelay_change (regAddr : BitVec 8) (other : regAddr ∉ settings) (ns : BitVec 32) :
    Change register d (setDelay io d regAddr ns) (¬ ticks ns > 0xffff#32) id :=
  guarded_change d (writeOther_change d healthy regAddr other _)

def programmed (config : ConfigV2 V) (file : BitVec 8 → BitVec 32) : BitVec 8 → BitVec 32 :=
  Function.update (Function.update (Function.update file
    Reg.rg_config (chargeAmplifierMultiplier fun i => multChan (config.chargeAmpRange.setWidth 32) i))
    Reg.reset (windowWord config.resetLength config.resetDelay))
    Reg.trig_delay (ticks config.trigDelay)

theorem applyConfig_change (steps : Steps V) (config : ConfigV2 V) :
    Change register d (applyConfig steps io d config newVhdlVersion) (Legal steps config)
      (programmed config) := by
  have mode := setCalibrationMode_change d healthy fun _ => false
  have counter := mode.trans (setTriggerCounter_change _ healthy
    (((0xFFFFFFFF00000000#64 &&& config.triggerCounter) >>> 32).setWidth 32)
    ((0xFFFFFFFF#64 &&& config.triggerCounter).setWidth 32))
  have ref := counter.trans (setChargeAmplifierRef_change _ healthy steps config.chargeAmpRefVoltage)
  have version := ref.trans (check_change _ (newVhdlVersion == newVhdlVersion))
  have gain := version.trans (check_change _ (gainOk (config.chargeAmpRange.setWidth 32)))
  have multiplier := gain.trans (writeRegister_change _ healthy Reg.rg_config (by decide)
    (chargeAmplifierMultiplier fun i => multChan (config.chargeAmpRange.setWidth 32) i))
  have bias := multiplier.trans (setInputBias_change _ healthy steps config.diodeBias)
  have window := bias.trans
    (setChannelAcquisitionWindow_change _ healthy config.resetLength config.resetDelay)
  have delay := window.trans (setTriggerDelay_change _ healthy config.trigDelay)
  have presample := delay.trans
    (setOtherDelay_change _ healthy Reg.trig_ps_delay (by decide) hardCodedPresampleDelay)
  have presamples := presample.trans (check_change _
    !(hardCodedPresampleDelay + hardCodedTotalPresampleTime > config.trigDelay))
  have adc := presamples.trans (setOtherDelay_change _ healthy Reg.adc_delay (by decide) hardCodedAdcDelay)
  apply Change.congr adc
  have counted : ¬ ticks hardCodedPresampleDelay > 0xffff#32 ∧ ¬ ticks hardCodedAdcDelay > 0xffff#32 := by
    decide
  constructor
  · intro legal
    simp [legal.gain, counted, BitVec.not_lt, BitVec.not_le, legal.chargeAmpRef, legal.inputBias,
      legal.resetLength, legal.resetDelay, legal.trigDelay, legal.presamples]
  · intro all
    obtain ⟨⟨⟨⟨⟨⟨⟨⟨⟨⟨-, ref⟩, -⟩, gain⟩, -⟩, bias⟩, length, delay⟩, trigger⟩, -⟩, presamples⟩, -⟩ := all
    refine ⟨BitVec.not_le.mp ref, gain, BitVec.not_le.mp bias, length, delay, BitVec.not_lt.mp trigger, ?_⟩
    simpa [BitVec.not_lt] using presamples

theorem readBack_change (config : ConfigV2 V) :
    Change register d (readBack io d config).1 True id := by
  have serial := (readRegister_change d healthy Reg.serid0).trans
    (readRegister_change _ healthy Reg.serid1)
  have errors := serial.trans (readRegister_change _ healthy Reg.errors)
  exact (errors.trans (readRegister_change _ healthy Reg.status)).congr (by simp only [and_self])

/-- The whole pass: exactly the legal requests are accepted. -/
theorem doConfigure_change (steps : Steps V) (config : ConfigV2 V) :
    Change register { d with configOk := true } (doConfigure steps io d config).1 (Legal steps config)
      (programmed config) := by
  have cleared := writeOther_change { d with configOk := true } healthy Reg.errors (by decide)
    (plain 0xffff#32)
  have opened := cleared.trans (readRegister_change _ healthy Reg.vhdl_version)
  have applied := opened.trans (applyConfig_change _ healthy steps config)
  have whole := applied.trans (readBack_change _ healthy config)
  have answered := healthy.version
    (writeRegister io { d with configOk := true } Reg.errors (plain 0xffff#32)).port
  have expected : newVhdlVersion ≠ Register.badValue := by decide
  have same : (doConfigure steps io d config).1 =
      (readBack io (applyConfig steps io (readRegister io
        (writeRegister io { d with configOk := true } Reg.errors (plain 0xffff#32)) Reg.vhdl_version).2
          config newVhdlVersion) config).1 := by
    simp only [doConfigure, readRegister, answered, if_neg expected]
  rw [same]
  exact whole.congr (by simp only [true_and, and_true])

theorem doConfigure_accepted (steps : Steps V) (config : ConfigV2 V) :
    (doConfigure steps io d config).1.configOk = true ↔ Legal steps config := by
  rw [(doConfigure_change d healthy steps config).configOk]
  exact and_iff_right rfl

end Change

/-! The settings of the gain menu and what becomes of them. -/

def gain (chargeAmpRange : BitVec 16) (i : Fin 4) : Nat := chargeAmpRange.toNat / 16 ^ i.val % 16

theorem gain_lt (chargeAmpRange : BitVec 16) (i : Fin 4) : gain chargeAmpRange i < 16 :=
  Nat.mod_lt _ (by decide)

/-- One more than the setting, but for the two that are folded back. -/
theorem multChan_toNat (chargeAmpRange : BitVec 16) (i : Fin 4) :
    (multChan (chargeAmpRange.setWidth 32) i).toNat = (gain chargeAmpRange i + 1) % 15 := by
  have place : (2 : Nat) ^ (4 * i.val) = 16 ^ i.val := pow_mul 2 4 i.val
  have wide : (chargeAmpRange.setWidth 32).toNat = chargeAmpRange.toNat := short_toNat chargeAmpRange
  have nibble : (chargeAmpRange.setWidth 32 >>> (4 * i.val) &&& 0xf#32).toNat = gain chargeAmpRange i := by
    rw [BitVec.toNat_and, BitVec.toNat_ushiftRight, wide, Nat.shiftRight_eq_div_pow, place]
    exact Nat.and_two_pow_sub_one_eq_mod _ 4
  have bound := gain_lt chargeAmpRange i
  rw [multChan, BitVec.toNat_umod, BitVec.toNat_add, nibble]
  show (gain chargeAmpRange i + 1) % 2 ^ 32 % 15 = _
  omega

theorem multiplier_field (chargeAmpRange : BitVec 16) (i : Fin 4) :
    (Fields.field 4 i.val (chargeAmplifierMultiplier fun i =>
      multChan (chargeAmpRange.setWidth 32) i)).toNat = (gain chargeAmpRange i + 1) % 15 := by
  have fits : ∀ j : Fin 4, (multChan (chargeAmpRange.setWidth 32) j).toNat < 2 ^ 4 := by
    intro j
    rw [multChan_toNat]
    omega
  have packed : (chargeAmplifierMultiplier fun i => multChan (chargeAmpRange.setWidth 32) i) =
      (List.finRange 4).foldl (fun val (j : Fin 4) =>
        val ||| multChan (chargeAmpRange.setWidth 32) j <<< (4 * j.val)) 0#32 := by
    simp only [chargeAmplifierMultiplier, Nat.mul_comm]
  have empty : Fields.field 4 i.val 0#32 = 0#4 := BitVec.extractLsb'_zero
  have kept := fits i
  rw [packed, Fields.field_foldl 4 i _ _ fits (by decide), empty, BitVec.zero_or, BitVec.toNat_setWidth,
    Nat.mod_eq_of_lt kept, multChan_toNat]

theorem product_zero (a b c d : BitVec 32) (smallA : a.toNat ≤ 14) (smallB : b.toNat ≤ 14)
    (smallC : c.toNat ≤ 14) (smallD : d.toNat ≤ 14) :
    a * b * c * d = 0#32 ↔ a.toNat = 0 ∨ b.toNat = 0 ∨ c.toNat = 0 ∨ d.toNat = 0 := by
  have two := Nat.mul_le_mul smallA smallB
  have three := Nat.mul_le_mul two smallC
  have four := Nat.mul_le_mul three smallD
  have exact : (a * b * c * d).toNat = a.toNat * b.toNat * c.toNat * d.toNat := by
    rw [BitVec.toNat_mul, BitVec.toNat_mul, BitVec.toNat_mul,
      Nat.mod_eq_of_lt (lt_of_le_of_lt two (by decide)),
      Nat.mod_eq_of_lt (lt_of_le_of_lt three (by decide)),
      Nat.mod_eq_of_lt (lt_of_le_of_lt four (by decide))]
  rw [← BitVec.toNat_inj, exact, BitVec.toNat_ofNat, Nat.zero_mod]
  simp only [Nat.mul_eq_zero, or_assoc]

theorem gainOk_iff (chargeAmpRange : BitVec 16) :
    gainOk (chargeAmpRange.setWidth 32) = true ↔ ∀ i, gain chargeAmpRange i ≠ 14 := by
  have small (i : Fin 4) : (multChan (chargeAmpRange.setWidth 32) i).toNat ≤ 14 := by
    rw [multChan_toNat]
    omega
  have zero (i : Fin 4) :
      (multChan (chargeAmpRange.setWidth 32) i).toNat = 0 ↔ gain chargeAmpRange i = 14 := by
    have bound := gain_lt chargeAmpRange i
    rw [multChan_toNat]
    omega
  have product := product_zero _ _ _ _ (small 0) (small 1) (small 2) (small 3)
  rw [zero 0, zero 1, zero 2, zero 3] at product
  rw [gainOk, bne_iff_ne, ne_eq]
  refine (not_congr product).trans ?_
  simp only [not_or, Fin.forall_fin_succ, ne_eq]
  exact ⟨fun each => ⟨each.1, each.2.1, each.2.2.1, each.2.2.2, fun i => i.elim0⟩,
    fun each => ⟨each.1, each.2.1, each.2.2.1, each.2.2.2.1⟩⟩

/-! The conversions from volts, with exact arithmetic. -/

/-- Volts to steps, rounded down. -/
def exact : Steps ℚ where
  chargeAmpRef refVoltage := BitVec.ofNat 32 ⌊refVoltage / 10 * 65535⌋₊
  inputBias biasVoltage := BitVec.ofNat 32 ⌊biasVoltage / 200 * 65535⌋₊

theorem steps_lt (volts scale : ℚ) (positive : 0 < scale) (inside : volts ≤ scale) :
    BitVec.ofNat 32 ⌊volts / scale * 65535⌋₊ < 65536#32 := by
  have part : volts / scale ≤ 1 := (div_le_one positive).mpr inside
  have whole : ⌊volts / scale * 65535⌋₊ ≤ 65535 := by
    apply Nat.floor_le_of_le
    push_cast
    linarith
  rw [BitVec.lt_def, BitVec.toNat_ofNat, BitVec.toNat_ofNat]
  omega

/-- The limits of the records that feed the request. -/
structure Driven (config : ConfigV2 ℚ) : Prop where
  resetLength : config.resetLength.toNat ≤ 2000000
  trigDelay_ge : 40000 ≤ config.trigDelay.toNat
  trigDelay_le : config.trigDelay.toNat ≤ 500000
  chargeAmpRefVoltage : 0 ≤ config.chargeAmpRefVoltage ∧ config.chargeAmpRefVoltage ≤ 10
  diodeBias : 0 ≤ config.diodeBias ∧ config.diodeBias ≤ 200

/-- What is to be accepted: settings of the gain menu, a delay of the window that fits, time enough for the
presamples. -/
structure Permitted (config : ConfigV2 ℚ) : Prop where
  gain : ∀ i, gain config.chargeAmpRange i ≤ 14
  resetDelay : config.resetDelay.toNat ≤ 8 * 0xfff
  trigDelay : 190000 ≤ config.trigDelay.toNat

structure Programmed (config : ConfigV2 ℚ) (file : BitVec 8 → BitVec 32) : Prop where
  gain : ∀ i : Fin 4,
    (Fields.field 4 i.val (file Reg.rg_config)).toNat = gain config.chargeAmpRange i + 1
  resetLength : Needs config.resetLength.toNat ((file Reg.reset).extractLsb 31 12).toNat
  resetDelay : Needs config.resetDelay.toNat ((file Reg.reset).extractLsb 11 0).toNat
  trigDelay : Needs config.trigDelay.toNat (file Reg.trig_delay).toNat

/-- The setters refuse the setting 14, and accept 15. -/
theorem legal_iff (config : ConfigV2 ℚ) (driven : Driven config) :
      Legal exact config ↔ (∀ i, gain config.chargeAmpRange i ≠ 14) ∧
      config.resetDelay.toNat ≤ 8 * 0xfff ∧ 190000 ≤ config.trigDelay.toNat := by
  have length := driven.resetLength
  have delay := driven.trigDelay_le
  have presamples : hardCodedPresampleDelay + hardCodedTotalPresampleTime ≤ config.trigDelay ↔
      190000 ≤ config.trigDelay.toNat := by
    rw [BitVec.le_def]
    have sum : (hardCodedPresampleDelay + hardCodedTotalPresampleTime).toNat = 190000 := by decide
    rw [sum]
  constructor
  · intro legal
    exact ⟨(gainOk_iff _).mp legal.gain, (delay_le_iff _).mp legal.resetDelay,
      presamples.mp legal.presamples⟩
  · intro conditions
    obtain ⟨gains, late, early⟩ := conditions
    exact {
      chargeAmpRef := steps_lt _ 10 (by norm_num) driven.chargeAmpRefVoltage.2
      gain := (gainOk_iff _).mpr gains
      inputBias := steps_lt _ 200 (by norm_num) driven.diodeBias.2
      resetLength := by
        rw [ticks_le_iff _ _ (by omega)]
        show config.resetLength.toNat ≤ 8 * 0xfffff
        omega
      resetDelay := (delay_le_iff _).mpr late
      trigDelay := by
        rw [ticks_le_iff _ _ (by omega)]
        show config.trigDelay.toNat ≤ 8 * 0xffff
        omega
      presamples := presamples.mpr early }

/-- The limits of the request but for the gain. -/
def InTime (config : ConfigV2 ℚ) : Prop :=
  config.resetDelay.toNat ≤ 8 * 0xfff ∧ 190000 ≤ config.trigDelay.toNat

theorem permitted_iff (config : ConfigV2 ℚ) :
    Permitted config ↔ (∀ i, gain config.chargeAmpRange i ≠ 15) ∧ InTime config := by
  constructor
  · intro permitted
    refine ⟨?_, permitted.resetDelay, permitted.trigDelay⟩
    intro i folded
    have menu := permitted.gain i
    omega
  · intro conditions
    refine ⟨?_, conditions.2.1, conditions.2.2⟩
    intro i
    have bound := gain_lt config.chargeAmpRange i
    have unfolded := conditions.1 i
    omega

theorem Programmed.congr {config : ConfigV2 ℚ} {file file' : BitVec 8 → BitVec 32}
    (programmed : Programmed config file) (same : ∀ setting ∈ settings, file' setting = file setting) :
    Programmed config file' := by
  have gain := same Reg.rg_config (by decide)
  have window := same Reg.reset (by decide)
  have delay := same Reg.trig_delay (by decide)
  constructor
  · rw [gain]
    exact programmed.gain
  · rw [window]
    exact programmed.resetLength
  · rw [window]
    exact programmed.resetDelay
  · rw [delay]
    exact programmed.trigDelay

/-- Without the two settings that are folded back, the registers hold what was asked for. -/
theorem programmed_programmed (config : ConfigV2 ℚ) (file : BitVec 8 → BitVec 32) (driven : Driven config)
    (legal : Legal exact config) (permitted : Permitted config) :
    Programmed config (programmed config file) := by
  have length := driven.resetLength
  have delay := driven.trigDelay_le
  have window : programmed config file Reg.reset = windowWord config.resetLength config.resetDelay := rfl
  constructor
  · intro i
    have fourteen := ((legal_iff config driven).mp legal).1 i
    have menu := permitted.gain i
    have kept : (gain config.chargeAmpRange i + 1) % 15 = gain config.chargeAmpRange i + 1 := by omega
    rw [← kept]
    exact multiplier_field config.chargeAmpRange i
  · rw [window, windowWord, window_length _ _ legal.resetLength legal.resetDelay]
    exact ticks_needs config.resetLength (by omega)
  · rw [window, windowWord, window_delay _ _ legal.resetLength legal.resetDelay, ← short_toNat]
    exact ticks_needs _ (short_small config.resetDelay)
  · exact ticks_needs config.trigDelay (by omega)

/-- The pass accepts what is permitted and nothing else, and then the board is programmed. -/
def Faithful {β : Type} (register : BitVec 8 → β → BitVec 32) (config : ConfigV2 ℚ) (d : Driver β) : Prop :=
  (d.configOk = true ↔ Permitted config) ∧
    (d.configOk = true → Programmed config fun regAddr => register regAddr d.port)

/-- Unless the delays refuse the request anyway, the pass is right exactly if the settings 14 and 15 are
both given or neither of them. -/
theorem faithful_iff {β : Type} (io : Port β) (register : BitVec 8 → β → BitVec 32)
    (healthy : Healthy io register) (d : Driver β) (config : ConfigV2 ℚ) (driven : Driven config) :
    Faithful register config (doConfigure exact io d config).1 ↔
      8 * 0xfff < config.resetDelay.toNat ∨ config.trigDelay.toNat < 190000 ∨
        ((∃ i, gain config.chargeAmpRange i = 14) ↔ ∃ i, gain config.chargeAmpRange i = 15) := by
  have change := doConfigure_change d healthy exact config
  have accepted := doConfigure_accepted d healthy exact config
  have legal : Legal exact config ↔ (∀ i, gain config.chargeAmpRange i ≠ 14) ∧ InTime config :=
    legal_iff config driven
  have permitted := permitted_iff config
  rw [Faithful, accepted]
  by_cases inTime : InTime config
  · have notLate : ¬ 8 * 0xfff < config.resetDelay.toNat := not_lt.mpr inTime.1
    have notEarly : ¬ config.trigDelay.toNat < 190000 := not_lt.mpr inTime.2
    have both : (Legal exact config ↔ Permitted config) ↔
        ((∃ i, gain config.chargeAmpRange i = 14) ↔ ∃ i, gain config.chargeAmpRange i = 15) := by
      rw [legal, permitted, and_iff_left inTime, and_iff_left inTime, ← not_exists, ← not_exists,
        not_iff_not]
    rw [or_iff_right notLate, or_iff_right notEarly, ← both, and_iff_left_iff_imp]
    intro right good
    have held := change.registers good (fun regAddr => register regAddr d.port) (fun _ _ => rfl)
    exact (programmed_programmed config _ driven good (right.mp good)).congr held
  · have refused : ¬ Legal exact config := fun good => inTime (legal.mp good).2
    have forbidden : ¬ Permitted config := fun good => inTime (permitted.mp good).2
    refine iff_of_true ⟨iff_of_false refused forbidden, fun good => absurd good refused⟩ ?_
    rw [← or_assoc]
    refine Or.inl ?_
    by_contra neither
    rw [not_or, not_lt, not_lt] at neither
    exact inTime neither

/-! A board that is nothing but its registers. -/

def registers : Port (BitVec 8 → BitVec 32) where
  read regAddr file := (plain (if regAddr = Reg.vhdl_version then newVhdlVersion else file regAddr), file)
  write regAddr value file := Function.update file regAddr value.value

theorem registers_healthy : Healthy registers fun regAddr file => file regAddr where
  answers _ _ := rfl
  version _ := rfl
  read_keeps _ _ _ _ := rfl
  write_keeps _ _ _ _ _ apart := Function.update_of_ne apart _ _
  write_sets _ _ _ _ := Function.update_self _ _ _

def cleared : Driver (BitVec 8 → BitVec 32) := ⟨fun _ => 0#32, false⟩

def request (chargeAmpRange : BitVec 16) : ConfigV2 ℚ where
  triggerCounter := 0
  serialID := 0
  chargeAmpRange := chargeAmpRange
  resetLength := 1000000
  resetDelay := 4095
  chargeAmpRefVoltage := 1
  diodeBias := 30
  status := 0
  errors := 0
  trigDelay := 250000
  trigPsDelay := 0
  adcDelay := 0

theorem request_driven (chargeAmpRange : BitVec 16) : Driven (request chargeAmpRange) where
  resetLength := by
    show (1000000#32).toNat ≤ 2000000
    decide
  trigDelay_ge := by
    show 40000 ≤ (250000#32).toNat
    decide
  trigDelay_le := by
    show (250000#32).toNat ≤ 500000
    decide
  chargeAmpRefVoltage := ⟨by norm_num [request], by norm_num [request]⟩
  diodeBias := ⟨by norm_num [request], by norm_num [request]⟩

theorem faithful_request :
    Faithful (fun regAddr file => file regAddr) (request 0x1212)
      (doConfigure exact registers cleared (request 0x1212)).1 :=
  (faithful_iff registers _ registers_healthy cleared (request 0x1212) (request_driven _)).mpr
    (Or.inr (Or.inr (by decide)))

/-- The setting 14 for channel 0 is refused; 15 is accepted and programs what 0 would. -/
theorem request_folded :
    (Driven (request 0x000e) ∧ ¬ Faithful (fun regAddr file => file regAddr) (request 0x000e)
        (doConfigure exact registers cleared (request 0x000e)).1) ∧
      Driven (request 0x000f) ∧ ¬ Faithful (fun regAddr file => file regAddr) (request 0x000f)
        (doConfigure exact registers cleared (request 0x000f)).1 := by
  have accepted (chargeAmpRange : BitVec 16) :=
    (doConfigure_accepted cleared registers_healthy exact (request chargeAmpRange)).trans
      (legal_iff (request chargeAmpRange) (request_driven chargeAmpRange))
  refine ⟨⟨request_driven _, ?_⟩, request_driven _, ?_⟩
  · intro faithful
    have permitted : Permitted (request 0x000e) := (permitted_iff _).mpr ⟨by decide, by decide, by decide⟩
    exact ((accepted 0x000e).mp (faithful.1.mpr permitted)).1 0 rfl
  · intro faithful
    have unfolded : ∀ i, gain 0x000f#16 i ≠ 14 := by decide
    have good := (accepted 0x000f).mpr ⟨unfolded, Nat.le_of_ble_eq_true rfl, Nat.le_of_ble_eq_true rfl⟩
    exact ((permitted_iff _).mp (faithful.1.mp good)).1 0 rfl

end Ipimb.Accepted
