import Ipimb.Queue.Register

/-!
One pass of `do_configure` and the setters it is made of, over a serial port that is a parameter: what a
read gives and what becomes of a write is up to the port. Values carry along whether a failed read went
into them. The conversions from volts to steps are done in floating point and are a parameter too.
-/

namespace Ipimb.Pass
open Ipimb.Register (badValue)

/-! Register addresses. -/

namespace Reg

def timestamp0 : BitVec 8 := 0x00#8
def timestamp1 : BitVec 8 := 0x01#8
def serid0 : BitVec 8 := 0x02#8
def serid1 : BitVec 8 := 0x03#8
def rg_config : BitVec 8 := 0x06#8
def cal_rg_config : BitVec 8 := 0x07#8
def reset : BitVec 8 := 0x08#8
def bias_data : BitVec 8 := 0x09#8
def biasdac_data_config : BitVec 8 := 0x0b#8
def status : BitVec 8 := 0x0c#8
def errors : BitVec 8 := 0x0d#8
def cal_strobe : BitVec 8 := 0x0e#8
def trig_delay : BitVec 8 := 0x0f#8
def trig_ps_delay : BitVec 8 := 0x10#8
def adc_delay : BitVec 8 := 0x11#8
def vhdl_version : BitVec 8 := 0x17#8

end Reg

/-- A value, and whether a failed read went into it. -/
structure Tracked where
  value : BitVec 32
  failed : Bool
  deriving DecidableEq

def plain (value : BitVec 32) : Tracked := ⟨value, false⟩

def Tracked.map (f : BitVec 32 → BitVec 32) (v : Tracked) : Tracked := ⟨f v.value, v.failed⟩

/-- What register accesses do to a serial port with states β. -/
structure Port (β : Type) where
  read : BitVec 8 → β → Tracked × β
  write : BitVec 8 → Tracked → β → β

structure Driver (β : Type) where
  port : β
  configOk : Bool

def Driver.fail {β : Type} (d : Driver β) : Driver β := { d with configOk := false }

structure Steps (V : Type) where
  chargeAmpRef : V → BitVec 32
  inputBias : V → BitVec 32

/-- The fields of `ConfigV2` that a pass reads or sets. -/
structure ConfigV2 (V : Type) where
  triggerCounter : BitVec 64
  serialID : BitVec 64
  chargeAmpRange : BitVec 16
  resetLength : BitVec 32
  resetDelay : BitVec 16
  chargeAmpRefVoltage : V
  diodeBias : V
  status : BitVec 16
  errors : BitVec 16
  trigDelay : BitVec 32
  trigPsDelay : BitVec 32
  adcDelay : BitVec 32

def clockPeriod : BitVec 32 := 8#32
def chargeAmpRefSteps : BitVec 32 := 65536#32
def inputBiasSteps : BitVec 32 := 65536#32
def hardCodedPresampleDelay : BitVec 32 := 150000#32
def hardCodedAdcDelay : BitVec 32 := 4000#32
def hardCodedTotalPresampleTime : BitVec 32 := (8#32 + 2#32) * hardCodedAdcDelay
def newVhdlVersion : BitVec 32 := 0x00010000#32

/-- Nanoseconds to clock ticks, rounded up. -/
def ticks (ns : BitVec 32) : BitVec 32 := (ns + clockPeriod - 1#32) / clockPeriod

section Setters
variable {β V : Type} (steps : Steps V) (io : Port β) (d : Driver β)

def readRegister (regAddr : BitVec 8) : Tracked × Driver β :=
  let answer := io.read regAddr d.port
  (answer.1, { d with port := answer.2 })

def writeRegister (regAddr : BitVec 8) (regValue : Tracked) : Driver β :=
  { d with port := io.write regAddr regValue d.port }

def setTriggerCounter (start0 start1 : BitVec 32) : Driver β :=
  let d := writeRegister io d Reg.timestamp0 (plain start0)
  writeRegister io d Reg.timestamp1 (plain start1)

def getSerialID : BitVec 64 × Driver β :=
  let (id0, d) := readRegister io d Reg.serid0
  let (id1, d) := readRegister io d Reg.serid1
  (id0.value.setWidth 64 <<< 32 + id1.value.setWidth 64, d)

def getErrors : BitVec 16 × Driver β :=
  let (value, d) := readRegister io d Reg.errors
  (value.value.setWidth 16, d)

def calibrationMode (channels : Fin 4 → Bool) (val : BitVec 32) : BitVec 32 :=
  (List.finRange 4).foldl (fun val i => if channels i then val ||| 1#32 <<< (3 + 4 * i.val) else val)
    (val &&& 0x7777#32)

def setCalibrationMode (channels : Fin 4 → Bool) : Driver β :=
  let (val, d) := readRegister io d Reg.cal_rg_config
  writeRegister io d Reg.cal_rg_config (val.map (calibrationMode channels))

/-- The divider fields of the channels with a legal setting; the others are left empty. -/
def calibrationDivider (channels : Fin 4 → BitVec 32) (val : BitVec 32) : BitVec 32 :=
  (List.finRange 4).foldl
    (fun val i => if channels i > 2#32 then val else val ||| (channels i + 1#32) <<< (4 * i.val))
    (val &&& 0xcccc#32)

/-- An illegal setting does not keep the others from being written. -/
def setCalibrationDivider (channels : Fin 4 → BitVec 32) : Driver β :=
  let (val, d) := readRegister io d Reg.cal_rg_config
  let d := if (List.finRange 4).any fun i => channels i > 2#32 then d.fail else d
  writeRegister io d Reg.cal_rg_config (val.map (calibrationDivider channels))

def calibrationPolarity (channels : Fin 4 → Bool) (val : BitVec 32) : BitVec 32 :=
  (List.finRange 4).foldl (fun val i => if channels i then val ||| 1#32 <<< (2 + 4 * i.val) else val)
    (val &&& 0xbbbb#32)

def setCalibrationPolarity (channels : Fin 4 → Bool) : Driver β :=
  let (val, d) := readRegister io d Reg.cal_rg_config
  writeRegister io d Reg.cal_rg_config (val.map (calibrationPolarity channels))

def setChargeAmplifierRef (refVoltage : V) : Driver β :=
  let i := steps.chargeAmpRef refVoltage
  if i ≥ chargeAmpRefSteps then d.fail else writeRegister io d Reg.bias_data (plain i)

def chargeAmplifierMultiplier (channels : Fin 4 → BitVec 32) : BitVec 32 :=
  (List.finRange 4).foldl (fun val i => val ||| channels i <<< (i.val * 4)) 0#32

def setChargeAmplifierMultiplier (channels : Fin 4 → BitVec 32) : Driver β :=
  writeRegister io d Reg.rg_config (plain (chargeAmplifierMultiplier channels))

/-- The old setting is read only to tell whether the bias has to settle. -/
def setInputBias (biasVoltage : V) : Driver β :=
  let i := steps.inputBias biasVoltage
  if i ≥ inputBiasSteps then d.fail
  else
    let (_, d) := readRegister io d Reg.biasdac_data_config
    writeRegister io d Reg.biasdac_data_config (plain i)

def setChannelAcquisitionWindow (acqLength : BitVec 32) (acqDelay : BitVec 16) : Driver β :=
  let length := ticks acqLength
  if length > 0xfffff#32 then d.fail
  else
    let delay := ticks (acqDelay.setWidth 32)
    if delay > 0xfff#32 then d.fail
    else writeRegister io d Reg.reset (plain (length <<< 12 ||| (delay &&& 0xfff#32)))

def setDelay (regAddr : BitVec 8) (ns : BitVec 32) : Driver β :=
  let delay := ticks ns
  if delay > 0xffff#32 then d.fail else writeRegister io d regAddr (plain delay)

def setTriggerDelay (triggerDelay : BitVec 32) : Driver β := setDelay io d Reg.trig_delay triggerDelay

def setAdcDelay (adcDelay : BitVec 32) : Driver β := setDelay io d Reg.adc_delay adcDelay

def setTriggerPreSampleDelay (triggerPsDelay : BitVec 32) : Driver β :=
  setDelay io d Reg.trig_ps_delay triggerPsDelay

def calibrationStart (calStrobeLength : BitVec 32) : Driver β :=
  setDelay io d Reg.cal_strobe calStrobeLength

/-- The multiplier of a channel; the board takes 0 for no capacitor. -/
def multChan (multiplier : BitVec 32) (i : Nat) : BitVec 32 :=
  (((multiplier >>> (4 * i)) &&& 0xf#32) + 1#32) % 0xf#32

def gainOk (multiplier : BitVec 32) : Bool :=
  multChan multiplier 0 * multChan multiplier 1 * multChan multiplier 2 * multChan multiplier 3 != 0#32

def check (ok : Bool) : Driver β := if ok then d else d.fail

/-- The middle of a pass: what is set once the board has answered. -/
def applyConfig (config : ConfigV2 V) (vhdlVersion : BitVec 32) : Driver β :=
  let d := setCalibrationMode io d fun _ => false
  let tcnt := config.triggerCounter
  let start0 := ((0xFFFFFFFF00000000#64 &&& tcnt) >>> 32).setWidth 32
  let start1 := (0xFFFFFFFF#64 &&& tcnt).setWidth 32
  let d := setTriggerCounter io d start0 start1
  let d := setChargeAmplifierRef steps io d config.chargeAmpRefVoltage
  let d := check d (vhdlVersion == newVhdlVersion)
  let multiplier := config.chargeAmpRange.setWidth 32
  let d := check d (gainOk multiplier)
  let d := setChargeAmplifierMultiplier io d fun i => multChan multiplier i
  let d := setInputBias steps io d config.diodeBias
  let d := setChannelAcquisitionWindow io d config.resetLength config.resetDelay
  let d := setTriggerDelay io d config.trigDelay
  let d := setTriggerPreSampleDelay io d hardCodedPresampleDelay
  let d := check d !(hardCodedPresampleDelay + hardCodedTotalPresampleTime > config.trigDelay)
  setAdcDelay io d hardCodedAdcDelay

/-- The end of a pass: what the board reports goes into the configuration. -/
def readBack (config : ConfigV2 V) : Driver β × ConfigV2 V :=
  let (serialID, d) := getSerialID io d
  let (errors, d) := getErrors io d
  let (status, d) := readRegister io d Reg.status
  (d, { config with
    trigPsDelay := hardCodedPresampleDelay
    adcDelay := hardCodedAdcDelay
    serialID := serialID
    errors := errors
    status := ((status.value &&& 0xffff0000#32) >>> 16).setWidth 16 })

def doConfigure (config : ConfigV2 V) : Driver β × ConfigV2 V :=
  let d := { d with configOk := true }
  let d := writeRegister io d Reg.errors (plain 0xffff#32)
  let (vhdlVersion, d) := readRegister io d Reg.vhdl_version
  if vhdlVersion.value = badValue then (d.fail, config)
  else readBack io (applyConfig steps io d config vhdlVersion.value) config

end Setters

end Ipimb.Pass
