import Ipimb.Configure.Pass

/-!
What a pass can say for itself when the serial line fails: a port that answers and sends by pattern, what
each setter adds to the accesses, and when a pass that ends well has really reached the board.
-/

namespace Ipimb.Applied
open Ipimb.Pass
open Ipimb.Register (badValue)

/-- A read, and its answer unless it failed. -/
structure Read where
  addr : BitVec 8
  answer : Option (BitVec 32)

/-- A write, and whether it was sent whole. -/
structure Write where
  addr : BitVec 8
  value : Tracked
  sent : Bool

structure Log where
  reads : List Read
  writes : List Write

/-- Nth read gets the nth reply, if there is one; nth write is sent whole or not. -/
def failing (reply : Nat → Option (BitVec 32)) (sent : Nat → Bool) : Port Log where
  read addr log :=
    let answer := reply log.reads.length
    (⟨answer.getD badValue, answer.isNone⟩, { log with reads := log.reads ++ [⟨addr, answer⟩] })
  write addr value log :=
    { log with writes := log.writes ++ [⟨addr, value, sent log.writes.length⟩] }

namespace Log

def Answered (log : Log) : Prop := ∀ read ∈ log.reads, read.answer.isSome

def Sent (log : Log) : Prop := ∀ write ∈ log.writes, write.sent

/-- Nothing that came of a failed read was written. -/
def Clean (log : Log) : Prop := ∀ write ∈ log.writes, write.value.failed = false

instance (log : Log) : Decidable log.Answered :=
  inferInstanceAs (Decidable (∀ read ∈ log.reads, read.answer.isSome))

instance (log : Log) : Decidable log.Sent :=
  inferInstanceAs (Decidable (∀ write ∈ log.writes, write.sent))

instance (log : Log) : Decidable log.Clean :=
  inferInstanceAs (Decidable (∀ write ∈ log.writes, write.value.failed = false))

structure Patterned (reply : Nat → Option (BitVec 32)) (sent : Nat → Bool) (log : Log) : Prop where
  reads : log.reads.map (·.answer) = (List.range log.reads.length).map reply
  writes : log.writes.map (·.sent) = (List.range log.writes.length).map sent

end Log

section Pattern
variable {reply : Nat → Option (BitVec 32)} {sent : Nat → Bool} {log : Log}

theorem patterned_empty : Log.Patterned reply sent ⟨[], []⟩ := ⟨rfl, rfl⟩

theorem patterned_read (patterned : log.Patterned reply sent) (addr : BitVec 8) :
    ((failing reply sent).read addr log).2.Patterned reply sent := by
  refine ⟨?_, patterned.writes⟩
  simp only [failing, List.map_append, patterned.reads, List.length_append, List.length_singleton,
    List.range_succ, List.map_cons, List.map_nil]

theorem patterned_write (patterned : log.Patterned reply sent) (addr : BitVec 8) (value : Tracked) :
    ((failing reply sent).write addr value log).Patterned reply sent := by
  refine ⟨patterned.reads, ?_⟩
  simp only [failing, List.map_append, patterned.writes, List.length_append, List.length_singleton,
    List.range_succ, List.map_cons, List.map_nil]

theorem answered_iff (patterned : log.Patterned reply sent) :
    log.Answered ↔ ∀ i < log.reads.length, (reply i).isSome := by
  have mapped : log.Answered ↔ ∀ answer ∈ log.reads.map (·.answer), answer.isSome := by
    simp only [Log.Answered, List.forall_mem_map]
  rw [mapped, patterned.reads]
  simp only [List.forall_mem_map, List.mem_range]

theorem sent_iff (patterned : log.Patterned reply sent) :
    log.Sent ↔ ∀ i < log.writes.length, sent i := by
  have mapped : log.Sent ↔ ∀ whole ∈ log.writes.map (·.sent), whole = true := by
    simp only [Log.Sent, List.forall_mem_map]
  rw [mapped, patterned.writes]
  simp only [List.forall_mem_map, List.mem_range]

variable (reply sent) in
theorem clean_write (addr : BitVec 8) (value : Tracked) :
    ((failing reply sent).write addr value log).Clean ↔ log.Clean ∧ value.failed = false := by
  simp only [Log.Clean, failing, List.forall_mem_append, List.forall_mem_singleton]

end Pattern

/-- Between d and d': `configOk` survives if ok, and if ok there are r reads and w writes more; nothing
that came of a failed read is written. -/
structure Effect (reply : Nat → Option (BitVec 32)) (sent : Nat → Bool) (d d' : Driver Log) (r w : Nat)
    (ok : Prop) : Prop where
  configOk : d'.configOk = true ↔ d.configOk = true ∧ ok
  reads : ok → d'.port.reads.length = d.port.reads.length + r
  writes : ok → d'.port.writes.length = d.port.writes.length + w
  patterned : d.port.Patterned reply sent → d'.port.Patterned reply sent
  clean : d'.port.Clean ↔ d.port.Clean

section Setters
variable {reply : Nat → Option (BitVec 32)} {sent : Nat → Bool} {V : Type}

theorem Effect.trans {d d' d'' : Driver Log} {r w r' w' : Nat} {ok ok' : Prop}
    (first : Effect reply sent d d' r w ok) (second : Effect reply sent d' d'' r' w' ok') :
    Effect reply sent d d'' (r + r') (w + w') (ok ∧ ok') where
  configOk := by rw [second.configOk, first.configOk, and_assoc]
  reads both := by rw [second.reads both.2, first.reads both.1, Nat.add_assoc]
  writes both := by rw [second.writes both.2, first.writes both.1, Nat.add_assoc]
  patterned before := second.patterned (first.patterned before)
  clean := second.clean.trans first.clean

theorem Effect.congr {d d' : Driver Log} {r w : Nat} {ok ok' : Prop}
    (effect : Effect reply sent d d' r w ok) (same : ok' ↔ ok) : Effect reply sent d d' r w ok' := by
  rwa [propext same]

variable (d : Driver Log)

theorem readRegister_effect (regAddr : BitVec 8) :
    Effect reply sent d (readRegister (failing reply sent) d regAddr).2 1 0 True where
  configOk := (and_iff_left trivial).symm
  reads _ := List.length_append
  writes _ := rfl
  patterned before := patterned_read before regAddr
  clean := Iff.rfl

theorem writeRegister_effect (regAddr : BitVec 8) (value : BitVec 32) :
    Effect reply sent d (writeRegister (failing reply sent) d regAddr (plain value)) 0 1 True where
  configOk := (and_iff_left trivial).symm
  reads _ := rfl
  writes _ := List.length_append
  patterned before := patterned_write before regAddr (plain value)
  clean := by
    rw [writeRegister, clean_write]
    exact and_iff_left rfl

/-- A refused setting; how many accesses there would be does not matter. -/
theorem fail_effect (r w : Nat) {ok : Prop} (refused : ¬ ok) : Effect reply sent d d.fail r w ok where
  configOk := by simp only [Driver.fail, Bool.false_eq_true, refused, and_false]
  reads accepted := absurd accepted refused
  writes accepted := absurd accepted refused
  patterned before := before
  clean := Iff.rfl

theorem check_effect (ok : Bool) : Effect reply sent d (check d ok) 0 0 (ok = true) := by
  cases ok with
  | false => exact fail_effect d 0 0 Bool.false_ne_true
  | true => exact ⟨(and_iff_left rfl).symm, fun _ => rfl, fun _ => rfl, id, Iff.rfl⟩

theorem guarded_effect {d d' : Driver Log} {r w : Nat} {refused : Prop} [Decidable refused]
    (effect : Effect reply sent d d' r w True) :
    Effect reply sent d (if refused then d.fail else d') r w (¬ refused) := by
  split
  next bad => exact fail_effect d r w (not_not_intro bad)
  next good => exact effect.congr (iff_true_intro good)

theorem setTriggerCounter_effect (start0 start1 : BitVec 32) :
    Effect reply sent d (setTriggerCounter (failing reply sent) d start0 start1) 0 2 True :=
  ((writeRegister_effect d _ _).trans (writeRegister_effect _ _ _)).congr (and_self_iff).symm

theorem setChargeAmplifierRef_effect (steps : Steps V) (refVoltage : V) :
    Effect reply sent d (setChargeAmplifierRef steps (failing reply sent) d refVoltage) 0 1
      (¬ steps.chargeAmpRef refVoltage ≥ chargeAmpRefSteps) :=
  guarded_effect (writeRegister_effect d _ _)

theorem setInputBias_effect (steps : Steps V) (biasVoltage : V) :
    Effect reply sent d (setInputBias steps (failing reply sent) d biasVoltage) 1 1
      (¬ steps.inputBias biasVoltage ≥ inputBiasSteps) :=
  guarded_effect (((readRegister_effect d _).trans (writeRegister_effect _ _ _)).congr
    (and_self_iff).symm)

theorem setChannelAcquisitionWindow_effect (acqLength : BitVec 32) (acqDelay : BitVec 16) :
    Effect reply sent d (setChannelAcquisitionWindow (failing reply sent) d acqLength acqDelay) 0 1
      (¬ ticks acqLength > 0xfffff#32 ∧ ¬ ticks (acqDelay.setWidth 32) > 0xfff#32) := by
  unfold setChannelAcquisitionWindow
  simp only
  split
  next long => exact fail_effect d 0 1 fun accepted => accepted.1 long
  next short =>
    exact (guarded_effect (writeRegister_effect d _ _)).congr (and_iff_right short)

theorem setDelay_effect (regAddr : BitVec 8) (ns : BitVec 32) :
    Effect reply sent d (setDelay (failing reply sent) d regAddr ns) 0 1 (¬ ticks ns > 0xffff#32) :=
  guarded_effect (writeRegister_effect d _ _)

theorem getSerialID_effect :
    Effect reply sent d (getSerialID (failing reply sent) d).2 2 0 True :=
  ((readRegister_effect d _).trans (readRegister_effect _ _)).congr (and_self_iff).symm

theorem getErrors_effect : Effect reply sent d (getErrors (failing reply sent) d).2 1 0 True :=
  readRegister_effect d _

/-- The answer is written back even if there was none. -/
theorem setCalibrationMode_clean (channels : Fin 4 → Bool) :
    (setCalibrationMode (failing reply sent) d channels).port.Clean ↔
      d.port.Clean ∧ (reply d.port.reads.length).isSome := by
  have read : (readRegister (failing reply sent) d Reg.cal_rg_config).2.port.Clean ↔ d.port.Clean :=
    (readRegister_effect d _).clean
  have written : (setCalibrationMode (failing reply sent) d channels).port.Clean ↔
      (readRegister (failing reply sent) d Reg.cal_rg_config).2.port.Clean ∧
        (reply d.port.reads.length).isNone = false :=
    clean_write reply sent Reg.cal_rg_config
      ((readRegister (failing reply sent) d Reg.cal_rg_config).1.map (calibrationMode channels))
  rw [written, read, Option.isNone_eq_false_iff]

theorem setCalibrationMode_effect (channels : Fin 4 → Bool)
    (answered : (reply d.port.reads.length).isSome) :
    Effect reply sent d (setCalibrationMode (failing reply sent) d channels) 1 1 True where
  configOk := (and_iff_left trivial).symm
  reads _ := List.length_append
  writes _ := List.length_append
  patterned before := patterned_write (patterned_read before _) _ _
  clean := (setCalibrationMode_clean d channels).trans (and_iff_left answered)

end Setters

section Pass
variable {reply : Nat → Option (BitVec 32)} {sent : Nat → Bool} {V : Type}

structure Legal (steps : Steps V) (config : ConfigV2 V) : Prop where
  chargeAmpRef : steps.chargeAmpRef config.chargeAmpRefVoltage < chargeAmpRefSteps
  gain : gainOk (config.chargeAmpRange.setWidth 32) = true
  inputBias : steps.inputBias config.diodeBias < inputBiasSteps
  resetLength : ticks config.resetLength ≤ 0xfffff#32
  resetDelay : ticks (config.resetDelay.setWidth 32) ≤ 0xfff#32
  trigDelay : ticks config.trigDelay ≤ 0xffff#32
  presamples : hardCodedPresampleDelay + hardCodedTotalPresampleTime ≤ config.trigDelay

/-- What follows the calibration mode is one more read and nine writes, if nothing is refused. -/
theorem applyConfig_effect (steps : Steps V) (d : Driver Log) (config : ConfigV2 V)
    (vhdlVersion : BitVec 32) :
    Effect reply sent (setCalibrationMode (failing reply sent) d fun _ => false)
      (applyConfig steps (failing reply sent) d config vhdlVersion) 1 9
      (vhdlVersion = newVhdlVersion ∧ Legal steps config) := by
  have counter : Effect reply sent
      (setCalibrationMode (failing reply sent) d fun _ => false) _ 0 2 True :=
    setTriggerCounter_effect _
      (((0xFFFFFFFF00000000#64 &&& config.triggerCounter) >>> 32).setWidth 32)
      ((0xFFFFFFFF#64 &&& config.triggerCounter).setWidth 32)
  have ref := counter.trans (setChargeAmplifierRef_effect _ steps config.chargeAmpRefVoltage)
  have version := ref.trans (check_effect _ (vhdlVersion == newVhdlVersion))
  have gain := version.trans (check_effect _ (gainOk (config.chargeAmpRange.setWidth 32)))
  have multiplier := gain.trans (writeRegister_effect _ Reg.rg_config
    (chargeAmplifierMultiplier fun i => multChan (config.chargeAmpRange.setWidth 32) i))
  have bias := multiplier.trans (setInputBias_effect _ steps config.diodeBias)
  have window := bias.trans
    (setChannelAcquisitionWindow_effect _ config.resetLength config.resetDelay)
  have delay := window.trans (setDelay_effect _ Reg.trig_delay config.trigDelay)
  have presample := delay.trans (setDelay_effect _ Reg.trig_ps_delay hardCodedPresampleDelay)
  have presamples := presample.trans (check_effect _
    !(hardCodedPresampleDelay + hardCodedTotalPresampleTime > config.trigDelay))
  have adc := presamples.trans (setDelay_effect _ Reg.adc_delay hardCodedAdcDelay)
  apply Effect.congr adc
  constructor
  · intro both
    obtain ⟨new, legal⟩ := both
    have counted : ¬ ticks hardCodedPresampleDelay > 0xffff#32 ∧
        ¬ ticks hardCodedAdcDelay > 0xffff#32 := by decide
    simp [new, legal.gain, counted, BitVec.not_lt, BitVec.not_le, legal.chargeAmpRef,
      legal.inputBias, legal.resetLength, legal.resetDelay, legal.trigDelay, legal.presamples]
  · intro all
    obtain ⟨⟨⟨⟨⟨⟨⟨⟨⟨⟨-, ref⟩, version⟩, gain⟩, -⟩, bias⟩, length, delay⟩, trigger⟩, -⟩, presamples⟩, -⟩ :=
      all
    refine ⟨eq_of_beq version, BitVec.not_le.mp ref, gain, BitVec.not_le.mp bias,
      BitVec.not_lt.mp length, BitVec.not_lt.mp delay, BitVec.not_lt.mp trigger, ?_⟩
    simpa [BitVec.not_lt] using presamples

theorem readBack_effect (d : Driver Log) (config : ConfigV2 V) :
    Effect reply sent d (readBack (failing reply sent) d config).1 4 0 True := by
  have serial : Effect reply sent d (getSerialID (failing reply sent) d).2 2 0 True :=
    getSerialID_effect d
  have errors := serial.trans (getErrors_effect _)
  exact (errors.trans (readRegister_effect _ Reg.status)).congr (by simp only [and_self])

def start (ok : Bool) : Driver Log := ⟨⟨[], []⟩, ok⟩

theorem start_clean : (start true).port.Clean := by
  intro write written
  exact absurd written List.not_mem_nil

def pass (steps : Steps V) (reply : Nat → Option (BitVec 32)) (sent : Nat → Bool) (ok : Bool)
    (config : ConfigV2 V) : Driver Log :=
  (doConfigure steps (failing reply sent) (start ok) config).1

def opened (reply : Nat → Option (BitVec 32)) (sent : Nat → Bool) : Driver Log :=
  (readRegister (failing reply sent)
    (writeRegister (failing reply sent) (start true) Reg.errors (plain 0xffff#32)) Reg.vhdl_version).2

theorem opened_effect : Effect reply sent (start true) (opened reply sent) 1 1 True :=
  ((writeRegister_effect (start true) _ _).trans (readRegister_effect _ _)).congr (and_self_iff).symm

theorem pass_silent (steps : Steps V) (ok : Bool) (config : ConfigV2 V)
    (silent : (reply 0).getD badValue = badValue) :
    pass steps reply sent ok config = (opened reply sent).fail :=
  congrArg Prod.fst (if_pos silent)

theorem pass_answered (steps : Steps V) (ok : Bool) (config : ConfigV2 V)
    (answered : (reply 0).getD badValue ≠ badValue) :
    pass steps reply sent ok config =
      (readBack (failing reply sent) (applyConfig steps (failing reply sent) (opened reply sent) config
        ((reply 0).getD badValue)) config).1 :=
  congrArg Prod.fst (if_neg answered)

/-- What follows the read of the calibration register makes nothing clean or unclean. -/
theorem pass_clean (steps : Steps V) (ok : Bool) (config : ConfigV2 V)
    (answered : (reply 0).getD badValue ≠ badValue) :
    (pass steps reply sent ok config).port.Clean ↔ (reply 1).isSome := by
  have before : (opened reply sent).port.Clean := opened_effect.clean.mpr start_clean
  calc (pass steps reply sent ok config).port.Clean
      ↔ (applyConfig steps (failing reply sent) (opened reply sent) config
          ((reply 0).getD badValue)).port.Clean := by
        rw [pass_answered steps ok config answered]
        exact (readBack_effect _ config).clean
    _ ↔ (setCalibrationMode (failing reply sent) (opened reply sent) fun _ => false).port.Clean :=
        (applyConfig_effect steps _ config _).clean
    _ ↔ (opened reply sent).port.Clean ∧ (reply 1).isSome := setCalibrationMode_clean _ _
    _ ↔ (reply 1).isSome := and_iff_right before

theorem pass_effect (steps : Steps V) (ok : Bool) (config : ConfigV2 V)
    (answered : (reply 0).getD badValue ≠ badValue) (calibration : (reply 1).isSome) :
    Effect reply sent (start true) (pass steps reply sent ok config) 7 11
      ((reply 0).getD badValue = newVhdlVersion ∧ Legal steps config) := by
  have mode := opened_effect.trans
    (setCalibrationMode_effect (opened reply sent) (fun _ => false) calibration)
  have applied := mode.trans
    (applyConfig_effect steps (opened reply sent) config ((reply 0).getD badValue))
  have whole := applied.trans (readBack_effect _ config)
  rw [pass_answered steps ok config answered]
  exact whole.congr (by simp only [and_true, true_and])

/-- A pass that ends well has reached the board, and nothing that came of a failed read was written. -/
def Truthful (steps : Steps V) (reply : Nat → Option (BitVec 32)) (sent : Nat → Bool) (ok : Bool)
    (config : ConfigV2 V) : Prop :=
  ((pass steps reply sent ok config).configOk = true →
    (pass steps reply sent ok config).port.Answered ∧ (pass steps reply sent ok config).port.Sent) ∧
  (pass steps reply sent ok config).port.Clean

/-- The board does not answer for its version; or it answers for the calibration register too, and then
either something else refuses the configuration or none of the accesses fails. -/
theorem truthful_iff (steps : Steps V) (reply : Nat → Option (BitVec 32)) (sent : Nat → Bool) (ok : Bool)
    (config : ConfigV2 V) :
    Truthful steps reply sent ok config ↔
      (reply 0).getD badValue = badValue ∨
        (reply 1).isSome ∧
          (reply 0 ≠ some newVhdlVersion ∨ ¬ Legal steps config ∨
            (∀ i < 7, (reply i).isSome) ∧ ∀ i < 11, sent i = true) := by
  by_cases silent : (reply 0).getD badValue = badValue
  · have refused : (pass steps reply sent ok config).configOk = false := by
      rw [pass_silent steps ok config silent, Driver.fail]
    refine iff_of_true ⟨fun good => ?_, ?_⟩ (Or.inl silent)
    · exact absurd good (by rw [refused]; exact Bool.false_ne_true)
    · rw [pass_silent steps ok config silent]
      exact opened_effect.clean.mpr start_clean
  · rw [Truthful, pass_clean steps ok config silent, or_iff_right silent, and_comm]
    refine and_congr_right fun calibration => ?_
    have effect : Effect reply sent (start true) (pass steps reply sent ok config) 7 11
        ((reply 0).getD badValue = newVhdlVersion ∧ Legal steps config) :=
      pass_effect steps ok config silent calibration
    have version : (reply 0).getD badValue = newVhdlVersion ↔ reply 0 = some newVhdlVersion := by
      cases answer : reply 0 with
      | none => simp [answer] at silent
      | some value => simp only [Option.getD_some, Option.some.injEq]
    rw [version] at effect
    by_cases legal : reply 0 = some newVhdlVersion ∧ Legal steps config
    · have good : (pass steps reply sent ok config).configOk = true :=
        effect.configOk.mpr ⟨rfl, legal⟩
      have patterned := effect.patterned patterned_empty
      have reads : (pass steps reply sent ok config).port.reads.length = 7 := effect.reads legal
      have writes : (pass steps reply sent ok config).port.writes.length = 11 := effect.writes legal
      rw [answered_iff patterned, sent_iff patterned, reads, writes]
      simp only [good, legal.1, legal.2, true_imp_iff, ne_eq, not_true_eq_false, false_or]
    · have refused : (pass steps reply sent ok config).configOk ≠ true :=
        fun good => legal (effect.configOk.mp good).2
      refine iff_of_true (fun good => absurd good refused) ?_
      rw [← or_assoc, ← not_and_or]
      exact Or.inl legal

end Pass

def wholeVolts : Steps Nat where
  chargeAmpRef volts := BitVec.ofNat 32 (volts * 65535 / 10)
  inputBias volts := BitVec.ofNat 32 (volts * 65535 / 200)

def quiet : ConfigV2 Nat where
  triggerCounter := 0
  serialID := 0
  chargeAmpRange := 0x1212
  resetLength := 1000000
  resetDelay := 4095
  chargeAmpRefVoltage := 5
  diodeBias := 100
  status := 0
  errors := 0
  trigDelay := 190000
  trigPsDelay := 0
  adcDelay := 0

def calibrationUnread (i : Nat) : Option (BitVec 32) := if i = 1 then none else some newVhdlVersion

def lastShort (i : Nat) : Bool := i != 10

/-- The pass ends well all the same, and 0xfadefade, less the mode bits, is written to the calibration
register. -/
theorem failures_unnoticed :
    ¬ Truthful wholeVolts calibrationUnread lastShort false quiet ∧
      ∃ write ∈ (pass wholeVolts calibrationUnread lastShort false quiet).port.writes,
        write.addr = Reg.cal_rg_config ∧ write.value = ⟨0x7256#32, true⟩ := by
  have good : (pass wholeVolts calibrationUnread lastShort false quiet).configOk = true := by
    decide +kernel
  have unanswered : ¬ (pass wholeVolts calibrationUnread lastShort false quiet).port.Answered := by
    decide +kernel
  constructor
  · intro truthful
    exact unanswered (truthful.1 good).1
  · decide +kernel

end Ipimb.Applied
