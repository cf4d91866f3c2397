import Ipimb.Device.Binding
import Ipimb.Library.Members
import Ipimb.Library.Transition

/-!
The packet of a box in the beam line data. It is filled value by value, in any order: the box first by its name, the
seven results by their place. Nothing but pointer arithmetic keeps the parts from each other.
-/

namespace Ipimb.BeamLine

open Members
open Ipimb.Binding (pvDevice)
open Ipimb.BoardData (Slot words)
open Ipimb.Shell (Device)

/-- The floats are kept as their bits. -/
structure ConfigV2 where
  triggerCounter : BitVec 64
  serialID : BitVec 64
  chargeAmpRange : BitVec 16
  calibrationRange : BitVec 16
  resetLength : BitVec 32
  resetDelay : BitVec 32
  chargeAmpRefVoltage : BitVec 32
  calibrationVoltage : BitVec 32
  diodeBias : BitVec 32
  status : BitVec 16
  errors : BitVec 16
  calStrobeLength : BitVec 16
  trigDelay : BitVec 32
  trigPsDelay : BitVec 32
  adcDelay : BitVec 32

/-- What `ipimbConfigureByName` is called with. -/
structure Requested where
  chargeAmpRange : BitVec 16
  calibrationRange : BitVec 16
  resetLength : BitVec 32
  resetDelay : BitVec 16
  chargeAmpRefVoltage : BitVec 32
  calibrationVoltage : BitVec 32
  diodeBias : BitVec 32
  calStrobeLength : BitVec 16
  trigDelay : BitVec 32
  trigPsDelay : BitVec 32
  adcDelay : BitVec 32

def Requested.config (requested : Requested) : ConfigV2 where
  triggerCounter := 0#64
  serialID := 0#64
  chargeAmpRange := requested.chargeAmpRange
  calibrationRange := requested.calibrationRange
  resetLength := requested.resetLength
  resetDelay := requested.resetDelay.setWidth 32
  chargeAmpRefVoltage := requested.chargeAmpRefVoltage
  calibrationVoltage := requested.calibrationVoltage
  diodeBias := requested.diodeBias
  status := 0#16
  errors := 0#16
  calStrobeLength := requested.calStrobeLength
  trigDelay := requested.trigDelay
  trigPsDelay := requested.trigPsDelay
  adcDelay := requested.adcDelay

def ConfigV2.members (config : ConfigV2) : List (Nat × Nat) :=
  [(8, config.triggerCounter.toNat), (8, config.serialID.toNat), (2, config.chargeAmpRange.toNat),
    (2, config.calibrationRange.toNat), (4, config.resetLength.toNat), (4, config.resetDelay.toNat),
    (4, config.chargeAmpRefVoltage.toNat), (4, config.calibrationVoltage.toNat), (4, config.diodeBias.toNat),
    (2, config.status.toNat), (2, config.errors.toNat), (2, config.calStrobeLength.toNat),
    (4, config.trigDelay.toNat), (4, config.trigPsDelay.toNat), (4, config.adcDelay.toNat)]

def configSizes : List Nat := [8, 8, 2, 2, 4, 4, 4, 4, 4, 2, 2, 2, 4, 4, 4]

/-- `IpimBoardData`: the trigger counter, three configuration words, samples, presamples, the checksum. -/
def dataMembers (data : Slot) : List (Nat × Nat) := (words data 16).map fun word => (2, word.toNat)

def sizeofBoardData : Nat := sizeof 8 (List.replicate 16 2)
def sizeofConfig : Nat := sizeof 4 configSizes
def sizeofFex : Nat := sizeof 4 (List.replicate 7 4)

def pktsize : Nat := sizeofBoardData + sizeofConfig + sizeofFex

def memcpy (memory : Nat → Byte) (dest : Nat) (src : Nat → Byte) (size : Nat) : Nat → Byte := fun a =>
  if dest ≤ a ∧ a < dest + size then src (a - dest) else memory a

inductive PvValue (D : Type) where
  | text (value : String)
  | double (value : D)

/-- What the boxes hold under their names, and the packet. -/
structure State where
  ipmData : String → Slot
  ipmConfig : String → ConfigV2
  payload : Nat → Byte

section Code
variable {Addr D : Type} (toFloat : D → BitVec 32) (bare : Bool) (shell : Shell.State Addr)

/-- For an index from 0 on. Nothing is known when a value is not of the type its place asks for, or a text has no
name to scan. -/
def ipimbSetPv (s : State) (iPvIndex : Nat) (pPvValue : PvValue D) : Option (Nat → Byte) :=
  match iPvIndex, pPvValue with
  | 0, .text pv =>
      match pvDevice bare shell pv with
      | none => none
      | some none => some s.payload
      | some (some pdevice) =>
          some (memcpy (memcpy s.payload 0 (image 8 0 (dataMembers (s.ipmData pdevice.name))) sizeofBoardData)
            sizeofBoardData (image 4 0 (s.ipmConfig pdevice.name).members) sizeofConfig)
  | k + 1, .double value =>
      some (memcpy s.payload (sizeofBoardData + sizeofConfig + 4 * k) (byte (toFloat value).toNat) 4)
  | _, _ => none

inductive Action (D : Type) where
  /-- `read_ai` remembers the packet it reads. -/
  | readAi (name : String) (data : Slot)
  /-- `ipimbConfigureByName` saves the requested configuration. -/
  | configure (name : String) (requested : Requested)
  | setPv (iPvIndex : Nat) (pPvValue : PvValue D)

def step (s : State) : Action D → Option State
  | .readAi name data => some { s with ipmData := Function.update s.ipmData name data }
  | .configure name requested => some { s with ipmConfig := Function.update s.ipmConfig name requested.config }
  | .setPv iPvIndex pPvValue =>
      (ipimbSetPv toFloat bare shell s iPvIndex pPvValue).map fun payload => { s with payload }

/-! The parts of the packet. -/

inductive Part where
  | box
  | value (k : Nat)
  deriving DecidableEq

def Part.offset : Part → Nat
  | .box => 0
  | .value k => sizeofBoardData + sizeofConfig + 4 * k

def Part.size : Part → Nat
  | .box => sizeofBoardData + sizeofConfig
  | .value _ => 4

def Part.Has (part : Part) (a : Nat) : Prop := part.offset ≤ a ∧ a < part.offset + part.size

def fills : Action D → Option Part
  | .setPv 0 (.text pv) => ((pvDevice bare shell pv).bind id).map fun _ => .box
  | .setPv (k + 1) (.double _) => some (.value k)
  | _ => none

/-- What an action brings to an address of its part. -/
def brings (s : State) (a : Nat) : Action D → Byte
  | .setPv 0 (.text pv) =>
      match pvDevice bare shell pv with
      | some (some pdevice) =>
          if a < sizeofBoardData then image 8 0 (dataMembers (s.ipmData pdevice.name)) a
          else image 4 0 (s.ipmConfig pdevice.name).members (a - sizeofBoardData)
      | _ => s.payload a
  | .setPv (k + 1) (.double value) => byte (toFloat value).toNat (a - (Part.value k).offset)
  | _ => s.payload a

/-! How the packet is read. -/

def ConfigV2.ofValues : List Nat → Option ConfigV2
  | [triggerCounter, serialID, chargeAmpRange, calibrationRange, resetLength, resetDelay, chargeAmpRefVoltage,
      calibrationVoltage, diodeBias, status, errors, calStrobeLength, trigDelay, trigPsDelay, adcDelay] =>
    some ⟨.ofNat 64 triggerCounter, .ofNat 64 serialID, .ofNat 16 chargeAmpRange, .ofNat 16 calibrationRange,
      .ofNat 32 resetLength, .ofNat 32 resetDelay, .ofNat 32 chargeAmpRefVoltage, .ofNat 32 calibrationVoltage,
      .ofNat 32 diodeBias, .ofNat 16 status, .ofNat 16 errors, .ofNat 16 calStrobeLength, .ofNat 32 trigDelay,
      .ofNat 32 trigPsDelay, .ofNat 32 adcDelay⟩
  | _ => none

def readData (payload : Nat → Byte) : List Nat := read 8 payload 0 0 (List.replicate 16 2)

def readConfig (payload : Nat → Byte) : Option ConfigV2 :=
  ConfigV2.ofValues (read 4 payload sizeofBoardData 0 configSizes)

def readResult (payload : Nat → Byte) (k : Nat) : Nat := load payload (sizeofBoardData + sizeofConfig + 4 * k) 4

end Code

theorem sizes : sizeofBoardData = 32 ∧ sizeofConfig = 60 ∧ sizeofFex = 28 ∧ pktsize = 120 := by decide

theorem finishes : finish 8 0 (List.replicate 16 2) = 32 ∧ finish 4 0 configSizes = 60 := by decide

theorem Part.has_box (a : Nat) : Part.box.Has a ↔ a < sizeofBoardData + sizeofConfig := by
  simp [Part.Has, Part.offset, Part.size]

theorem Part.apart {part other : Part} (differ : part ≠ other) {a : Nat} (here : part.Has a) : ¬ other.Has a := by
  obtain ⟨data, config, -, -⟩ := sizes
  unfold Part.Has at *
  cases part with
  | box =>
    cases other with
    | box => exact absurd rfl differ
    | value k =>
      simp only [Part.offset, Part.size, data, config] at *
      omega
  | value k =>
    cases other with
    | box =>
      simp only [Part.offset, Part.size, data, config] at *
      omega
    | value l =>
      have apart : k ≠ l := fun same => differ (by rw [same])
      simp only [Part.offset, Part.size, data, config] at *
      omega

/-- The parts up to the seventh result make up the packet. -/
theorem Part.inside_iff (a : Nat) : a < pktsize ↔ Part.box.Has a ∨ ∃ k < 7, (Part.value k).Has a := by
  obtain ⟨data, config, -, packet⟩ := sizes
  simp only [Part.Has, Part.offset, Part.size, data, config, packet]
  constructor
  · intro inside
    by_cases low : a < 92
    · exact .inl (by omega)
    · exact .inr ⟨(a - 92) / 4, by omega, by omega⟩
  · rintro (low | ⟨k, small, there⟩) <;> omega

theorem memcpy_inside {memory src : Nat → Byte} {dest size a : Nat} (inside : dest ≤ a ∧ a < dest + size) :
    memcpy memory dest src size a = src (a - dest) := if_pos inside

theorem memcpy_outside {memory src : Nat → Byte} {dest size a : Nat} (outside : ¬ (dest ≤ a ∧ a < dest + size)) :
    memcpy memory dest src size a = memory a := if_neg outside

/-- One copy behind the other. -/
theorem memcpy_memcpy (memory first second : Nat → Byte) (m n a : Nat) :
    memcpy (memcpy memory 0 first m) m second n a =
      if a < m then first a else if a < m + n then second (a - m) else memory a := by
  by_cases low : a < m
  · rw [memcpy_outside (by omega), memcpy_inside ⟨Nat.zero_le a, by omega⟩, if_pos low]
    rfl
  · rw [if_neg low]
    by_cases high : a < m + n
    · rw [memcpy_inside ⟨by omega, high⟩, if_pos high]
    · rw [memcpy_outside (by omega), memcpy_outside (by omega), if_neg high]

theorem readData_of_copied {payload : Nat → Byte} {data : Slot}
    (copied : ∀ a < 32, payload a = image 8 0 (dataMembers data) a) :
    readData payload = (words data 16).map BitVec.toNat := by
  have same : (dataMembers data).map Prod.fst = List.replicate 16 2 := rfl
  have back := read_image (show 0 < 8 by decide) payload 0 (dataMembers data)
    (by simp [dataMembers]) 0 (fun a _ inside => by
      rw [same, finishes.1] at inside
      rw [Nat.zero_add]
      exact copied a inside)
  rw [readData, ← same, back, dataMembers, List.map_map]
  apply List.map_congr_left
  intro word _
  exact Nat.mod_eq_of_lt word.isLt

theorem ofNat_mod {w n : Nat} (wide : 256 ^ n = 2 ^ w) (v : BitVec w) : BitVec.ofNat w (v.toNat % 256 ^ n) = v := by
  rw [wide, Nat.mod_eq_of_lt v.isLt, BitVec.ofNat_toNat, BitVec.setWidth_eq]

theorem ofValues_members (config : ConfigV2) :
    ConfigV2.ofValues (config.members.map fun field => field.2 % 256 ^ field.1) = some config := by
  have short : 256 ^ 2 = 2 ^ 16 := by decide
  have long : 256 ^ 4 = 2 ^ 32 := by decide
  have double : 256 ^ 8 = 2 ^ 64 := by decide
  simp only [ConfigV2.members, List.map_cons, List.map_nil, ConfigV2.ofValues, ofNat_mod short, ofNat_mod long,
    ofNat_mod double]

theorem readConfig_of_copied {payload : Nat → Byte} {config : ConfigV2}
    (copied : ∀ j < 60, payload (sizeofBoardData + j) = image 4 0 config.members j) :
    readConfig payload = some config := by
  have same : config.members.map Prod.fst = configSizes := rfl
  have back := read_image (show 0 < 4 by decide) payload sizeofBoardData config.members
    (by simp [ConfigV2.members]) 0 (fun j _ inside => copied j (by rwa [same, finishes.2] at inside))
  rw [readConfig, ← same, back, ofValues_members]

theorem readResult_of_copied {payload : Nat → Byte} {k : Nat} {float : BitVec 32}
    (copied : ∀ j < 4, payload (sizeofBoardData + sizeofConfig + 4 * k + j) = byte float.toNat j) :
    readResult payload k = float.toNat := by
  rw [readResult, load_byte copied]
  exact Nat.mod_eq_of_lt float.isLt

section Runs
variable {Addr D : Type} {toFloat : D → BitVec 32} {bare : Bool} {shell : Shell.State Addr}

theorem step_payload {s s' : State} {act : Action D} (taken : step toFloat bare shell s act = some s') (a : Nat) :
    (∀ part, fills bare shell act = some part → part.Has a → s'.payload a = brings toFloat bare shell s a act) ∧
      ((∀ part, fills bare shell act = some part → ¬ part.Has a) → s'.payload a = s.payload a) := by
  cases act with
  | readAi name data =>
    cases taken
    exact ⟨fun part filled => (by cases filled), fun _ => rfl⟩
  | configure name requested =>
    cases taken
    exact ⟨fun part filled => (by cases filled), fun _ => rfl⟩
  | setPv iPvIndex pPvValue =>
    obtain ⟨payload, written, rfl⟩ := Option.map_eq_some_iff.mp taken
    cases iPvIndex with
    | zero =>
      cases pPvValue with
      | double value => cases written
      | text pv =>
        rw [ipimbSetPv] at written
        simp only [fills, brings]
        cases named : pvDevice bare shell pv with
        | none =>
          rw [named] at written
          cases written
        | some found =>
          rw [named] at written
          cases found with
          | none =>
            cases written
            exact ⟨fun part filled => (by cases filled), fun _ => rfl⟩
          | some pdevice =>
            cases written
            refine ⟨fun part filled inside => ?_, fun outside => ?_⟩
            · cases filled
              have bound := (Part.has_box a).mp inside
              dsimp only
              rw [memcpy_memcpy, if_pos bound]
            · have beyond : ¬ a < sizeofBoardData + sizeofConfig := fun inside =>
                outside .box rfl ((Part.has_box a).mpr inside)
              rw [memcpy_memcpy, if_neg (by omega), if_neg beyond]
    | succ k =>
      cases pPvValue with
      | text pv => cases written
      | double value =>
        cases written
        refine ⟨fun part filled inside => ?_, fun outside => memcpy_outside (outside (.value k) rfl)⟩
        cases filled
        exact memcpy_inside inside

/-- An address keeps its byte as long as its part is not filled. -/
theorem run_kept {s s' : State} {actions : List (Action D)} {a : Nat}
    (reached : Transition.run (step toFloat bare shell) s actions = some s')
    (others : ∀ act ∈ actions, ∀ part, fills bare shell act = some part → ¬ part.Has a) :
    s'.payload a = s.payload a := by
  refine Transition.run_invariant_of _ _ (fun t : State => t.payload a = s.payload a) ?_ rfl others reached
  intro t act t' same aside taken
  exact ((step_payload taken a).2 aside).trans same

theorem run_filled {s s' mid : State} {before after : List (Action D)} {act : Action D} {part : Part}
    (reached : Transition.run (step toFloat bare shell) s (before ++ act :: after) = some s')
    (first : Transition.run (step toFloat bare shell) s before = some mid)
    (filled : fills bare shell act = some part) (last : ∀ later ∈ after, fills bare shell later ≠ some part)
    {a : Nat} (inside : part.Has a) : s'.payload a = brings toFloat bare shell mid a act := by
  rw [Transition.run_append, first] at reached
  obtain ⟨next, taken, later⟩ := Transition.run_cons_eq_some _ reached
  have brought := (step_payload taken a).1 part filled inside
  refine (run_kept later fun act member other there => ?_).trans brought
  have differ : part ≠ other := by
    rintro rfl
    exact last act member there
  exact Part.apart differ inside

theorem step_held {s s' : State} {act : Action D} (taken : step toFloat bare shell s act = some s') (name : String) :
    ((∀ data, act ≠ .readAi name data) → s'.ipmData name = s.ipmData name) ∧
      ((∀ requested, act ≠ .configure name requested) → s'.ipmConfig name = s.ipmConfig name) := by
  cases act with
  | readAi other data =>
    cases taken
    refine ⟨fun others => Function.update_of_ne ?_ _ _, fun _ => rfl⟩
    rintro rfl
    exact others data rfl
  | configure other requested =>
    cases taken
    refine ⟨fun _ => rfl, fun others => Function.update_of_ne ?_ _ _⟩
    rintro rfl
    exact others requested rfl
  | setPv iPvIndex pPvValue =>
    obtain ⟨payload, -, rfl⟩ := Option.map_eq_some_iff.mp taken
    exact ⟨fun _ => rfl, fun _ => rfl⟩

theorem run_data {s s' : State} {actions : List (Action D)} {name : String}
    (reached : Transition.run (step toFloat bare shell) s actions = some s')
    (others : ∀ act ∈ actions, ∀ data, act ≠ .readAi name data) : s'.ipmData name = s.ipmData name := by
  refine Transition.run_invariant_of _ _ (fun t : State => t.ipmData name = s.ipmData name) ?_ rfl others reached
  intro t act t' same aside taken
  exact ((step_held taken name).1 aside).trans same

theorem run_config {s s' : State} {actions : List (Action D)} {name : String}
    (reached : Transition.run (step toFloat bare shell) s actions = some s')
    (others : ∀ act ∈ actions, ∀ requested, act ≠ .configure name requested) :
    s'.ipmConfig name = s.ipmConfig name := by
  refine Transition.run_invariant_of _ _ (fun t : State => t.ipmConfig name = s.ipmConfig name) ?_ rfl others reached
  intro t act t' same aside taken
  exact ((step_held taken name).2 aside).trans same

/-- The packet holds what the box held when it was last named. -/
theorem run_box {s s' mid : State} {before after : List (Action D)} {pv : String} {pdevice : Device Addr}
    (reached : Transition.run (step toFloat bare shell) s (before ++ .setPv 0 (.text pv) :: after) = some s')
    (first : Transition.run (step toFloat bare shell) s before = some mid)
    (named : pvDevice bare shell pv = some (some pdevice))
    (last : ∀ later ∈ after, fills bare shell later ≠ some .box) :
    readData s'.payload = (words (mid.ipmData pdevice.name) 16).map BitVec.toNat ∧
      readConfig s'.payload = some (mid.ipmConfig pdevice.name) := by
  obtain ⟨data, config, -, -⟩ := sizes
  have filled : fills (D := D) bare shell (.setPv 0 (.text pv)) = some .box := by
    rw [fills, named]
    rfl
  have there {a : Nat} (inside : a < 92) : s'.payload a =
      if a < sizeofBoardData then image 8 0 (dataMembers (mid.ipmData pdevice.name)) a
      else image 4 0 (mid.ipmConfig pdevice.name).members (a - sizeofBoardData) := by
    have inBox : Part.box.Has a := (Part.has_box a).mpr (by omega)
    rw [run_filled reached first filled last inBox]
    simp only [brings, named]
  constructor
  · apply readData_of_copied
    intro a low
    rw [there (by omega), if_pos (by omega)]
  · apply readConfig_of_copied
    intro j small
    rw [there (by omega), if_neg (by omega), Nat.add_sub_cancel_left]

end Runs

section Packet
variable {Addr D : Type} (toFloat : D → BitVec 32) (bare : Bool) (shell : Shell.State Addr)

/-- What is in the packet of s after the actions, s₀ having been there before. -/
structure Packet (s₀ : State) (actions : List (Action D)) (s : State) : Prop where
  /-- The words the box had read last when it was last named. -/
  data : ∀ earlier between after pv data pdevice,
    actions = earlier ++ .readAi pdevice.name data :: between ++ .setPv 0 (.text pv) :: after →
    pvDevice bare shell pv = some (some pdevice) → (∀ act ∈ between, ∀ other, act ≠ .readAi pdevice.name other) →
    (∀ act ∈ after, fills bare shell act ≠ some .box) →
      readData s.payload = (words data 16).map BitVec.toNat
  /-- The configuration it had been asked for last: what the board answered is not in it. -/
  config : ∀ earlier between after pv requested pdevice,
    actions = earlier ++ .configure pdevice.name requested :: between ++ .setPv 0 (.text pv) :: after →
    pvDevice bare shell pv = some (some pdevice) →
    (∀ act ∈ between, ∀ other, act ≠ .configure pdevice.name other) →
    (∀ act ∈ after, fills bare shell act ≠ some .box) →
      readConfig s.payload = some requested.config
  /-- The last of each result. -/
  value : ∀ before k value after, actions = before ++ .setPv (k + 1) (.double value) :: after →
    (∀ act ∈ after, fills bare shell act ≠ some (.value k)) → readResult s.payload k = (toFloat value).toNat
  untouched : ∀ part, (∀ act ∈ actions, fills bare shell act ≠ some part) →
    ∀ a, part.Has a → s.payload a = s₀.payload a
  /-- Seven results do not go beyond the packet. -/
  outside : (∀ act ∈ actions, ∀ k, fills bare shell act = some (.value k) → k < 7) →
    ∀ a, pktsize ≤ a → s.payload a = s₀.payload a

theorem packet (s₀ : State) (actions : List (Action D)) (s : State)
    (reached : Transition.run (step toFloat bare shell) s₀ actions = some s) :
    Packet toFloat bare shell s₀ actions s := by
  refine ⟨?_, ?_, ?_, ?_, ?_⟩
  · rintro earlier between after pv data pdevice rfl named same last
    obtain ⟨mid, -, first, -, -⟩ := Transition.run_middle _ reached
    obtain ⟨old, read, -, taken, later⟩ := Transition.run_middle _ first
    cases taken
    rw [(run_box reached first named last).1, run_data later same]
    dsimp only
    rw [Function.update_self]
  · rintro earlier between after pv requested pdevice rfl named same last
    obtain ⟨mid, -, first, -, -⟩ := Transition.run_middle _ reached
    obtain ⟨old, saved, -, taken, later⟩ := Transition.run_middle _ first
    cases taken
    rw [(run_box reached first named last).2, run_config later same]
    dsimp only
    rw [Function.update_self]
  · rintro before k value after rfl last
    obtain ⟨mid, -, first, -, -⟩ := Transition.run_middle _ reached
    apply readResult_of_copied
    intro j small
    have inside : (Part.value k).Has (sizeofBoardData + sizeofConfig + 4 * k + j) := by
      simp only [Part.Has, Part.offset, Part.size]
      omega
    rw [run_filled reached first rfl last inside]
    simp only [brings, Part.offset]
    rw [Nat.add_sub_cancel_left]
  · intro part others a inside
    refine run_kept reached fun act member other filled => ?_
    have differ : part ≠ other := by
      rintro rfl
      exact others act member filled
    exact Part.apart differ inside
  · intro seven a beyond
    refine run_kept reached fun act member part filled inside => ?_
    refine not_lt.mpr beyond ((Part.inside_iff a).mpr ?_)
    cases part with
    | box => exact .inl inside
    | value k => exact .inr ⟨k, seven act member k filled, inside⟩

end Packet

/-! A box that has been scanned twice. -/

def box : Device Nat where
  name := "IPM1"
  ttyName := "/dev/ttyPS0"
  mdestIP := "239.255.24.1"
  physID := 1
  trigger := .event140
  gen := .gen0
  polarity := -1
  delay := "DELAY"
  sync := "SYNC"
  triggerName := "TRIG"

def boxes : Shell.State Nat := ⟨true, [box], [(1#32, 7#32)]⟩

theorem named : pvDevice false boxes "@IPM1:0:DATA" = some (some box) := rfl

def requested : Requested where
  chargeAmpRange := 0x1111#16
  calibrationRange := 0#16
  resetLength := 100000#32
  resetDelay := 0xfff#16
  chargeAmpRefVoltage := 0x3f800000#32
  calibrationVoltage := 0#32
  diodeBias := 0#32
  calStrobeLength := 0#16
  trigDelay := 89000#32
  trigPsDelay := 80000#32
  adcDelay := 4000#32

def empty : State := ⟨fun _ _ => 0#16, fun _ => requested.config, fun _ => 0#8⟩

/-- The packet keeps the first scan, the configuration and the third result. -/
theorem packet_box :
    ∃ s, Transition.run (step (fun n : Nat => BitVec.ofNat 32 n) false boxes) empty
        [.configure "IPM1" requested, .readAi "IPM1" fun _ => 7#16, .setPv 0 (.text "@IPM1:0:DATA"),
          .setPv 3 (.double 258), .readAi "IPM1" fun _ => 9#16] = some s ∧
      readData s.payload = List.replicate 16 7 ∧ readConfig s.payload = some requested.config ∧
        readResult s.payload 2 = 258 := by
  refine ⟨_, rfl, ?_⟩
  have filled := packet (fun n : Nat => BitVec.ofNat 32 n) false boxes empty
    [.configure "IPM1" requested, .readAi "IPM1" fun _ => 7#16, .setPv 0 (.text "@IPM1:0:DATA"),
      .setPv 3 (.double 258), .readAi "IPM1" fun _ => 9#16] _ rfl
  have data := filled.data [.configure "IPM1" requested] [] [.setPv 3 (.double 258), .readAi "IPM1" fun _ => 9#16]
    "@IPM1:0:DATA" (fun _ => 7#16) box rfl named (by simp) (by simp [fills])
  have config := filled.config [] [.readAi "IPM1" fun _ => 7#16] [.setPv 3 (.double 258), .readAi "IPM1" fun _ => 9#16]
    "@IPM1:0:DATA" requested box rfl named (by simp) (by simp [fills])
  have third := filled.value
    [.configure "IPM1" requested, .readAi "IPM1" fun _ => 7#16, .setPv 0 (.text "@IPM1:0:DATA")] 2 258
    [.readAi "IPM1" fun _ => 9#16] rfl (by simp [fills])
  exact ⟨data, config, third⟩

end Ipimb.BeamLine
