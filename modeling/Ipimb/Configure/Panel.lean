import Ipimb.Configure.Latest

/-!
From the records an operator sets to the registers of the board. Each record has its own limits, all of them
lead to the record that configures, and that hands their values on in the types of its inputs. How voltages are
kept and converted is left open; what comes of it when they are exact is said at the end.
-/

namespace Ipimb.Panel
open Ipimb.Pass Ipimb.Delays
open Ipimb.Accepted (exact gain)
open Ipimb.Applied (Legal)
open Ipimb.Latest (Keeps kept written)

/-! The records. -/

/-- The limits of an output record; they count only if they leave room. -/
def limited {α : Type} [LinearOrder α] (drvl drvh value : α) : α :=
  if drvl < drvh then if drvh < value then drvh else if value < drvl then drvl else value else value

/-- The raw values of the gain menu, the last one not set. -/
def rawValues : List (BitVec 32) := [0, 1, 2, 3, 4, 5, 6, 7, 8, 9, 10, 11, 12, 13, 14, 0]

/-- What the menu record makes of its value; beyond the sixteen states the raw value stays. -/
def convert (val : BitVec 16) (rval : BitVec 32) : BitVec 32 := (rawValues[val.toNat]?).getD rval

/-- The driver's conversions of voltages, and the limits of their two records. -/
structure Volts (V : Type) where
  steps : Steps V
  limit : V → V

structure Settings (V : Type) where
  chargeAmpRangeCH : Fin 4 → BitVec 16
  rval : Fin 4 → BitVec 32
  chargeAmpRange : BitVec 32
  refVoltage : V
  diodeBias : V
  acqWindow : Int
  resetDelay : Int
  trigDelay : Int

section Records
variable {V : Type} (volts : Volts V)

/-- As the database loads it, with a reference voltage of 1 and a bias of 30. -/
def Settings.loaded (one thirty : V) : Settings V where
  chargeAmpRangeCH _ := 0#16
  rval _ := 0#32
  chargeAmpRange := 0#32
  refVoltage := one
  diodeBias := thirty
  acqWindow := 600000
  resetDelay := 4095
  trigDelay := 250000

/-- (D<<12)|(C<<8)|(B<<4)|A -/
def calcRange (rval : Fin 4 → BitVec 32) : BitVec 32 :=
  (List.finRange 4).foldr (fun i word => word ||| rval i <<< (4 * i.val)) 0#32

/-- What an operator can set; `DoConfig` configures with everything as it is. -/
inductive Put (V : Type) where
  | chargeAmpRangeCH (channel : Fin 4) (val : BitVec 16)
  | refVoltage (value : V)
  | diodeBias (value : V)
  | acqWindow (ns : Int)
  | resetDelay (ns : Int)
  | trigDelay (ns : Int)
  | doConfig

def Settings.put (panel : Settings V) : Put V → Settings V
  | .chargeAmpRangeCH channel val =>
    let rval := Function.update panel.rval channel (convert val (panel.rval channel))
    { panel with
      chargeAmpRangeCH := Function.update panel.chargeAmpRangeCH channel val
      rval := rval
      chargeAmpRange := calcRange rval }
  | .refVoltage value => { panel with refVoltage := volts.limit value }
  | .diodeBias value => { panel with diodeBias := volts.limit value }
  | .acqWindow ns => { panel with acqWindow := limited 0 2000000 ns }
  | .resetDelay ns => { panel with resetDelay := limited 0 500000 ns }
  | .trigDelay ns => { panel with trigDelay := limited 40000 500000 ns }
  | .doConfig => panel

/-- `ipimbConfigProc` with `ipimbConfigureByName`: the values as its inputs take them. -/
def ipimbConfigProc (panel : Settings V) : ConfigV2 V where
  triggerCounter := 0
  serialID := 0
  chargeAmpRange := panel.chargeAmpRange.setWidth 16
  resetLength := BitVec.ofInt 32 panel.acqWindow
  resetDelay := BitVec.ofInt 16 panel.resetDelay
  chargeAmpRefVoltage := panel.refVoltage
  diodeBias := panel.diodeBias
  status := 0
  errors := 0
  trigDelay := BitVec.ofInt 32 panel.trigDelay
  trigPsDelay := 150000
  adcDelay := 4000

/-! The limits. -/

structure Within (panel : Settings V) : Prop where
  packed : panel.chargeAmpRange = calcRange panel.rval
  raw : ∀ i, (panel.rval i).toNat ≤ 14
  menu : ∀ i, (panel.chargeAmpRangeCH i).toNat ≤ 14 →
    (panel.rval i).toNat = (panel.chargeAmpRangeCH i).toNat
  refVoltage : ∃ value, panel.refVoltage = volts.limit value
  diodeBias : ∃ value, panel.diodeBias = volts.limit value
  acqWindow : 0 ≤ panel.acqWindow ∧ panel.acqWindow ≤ 2000000
  resetDelay : 0 ≤ panel.resetDelay ∧ panel.resetDelay ≤ 500000
  trigDelay : 40000 ≤ panel.trigDelay ∧ panel.trigDelay ≤ 500000

theorem limited_within {α : Type} [LinearOrder α] (drvl drvh value : α) (room : drvl < drvh) :
    drvl ≤ limited drvl drvh value ∧ limited drvl drvh value ≤ drvh := by
  rw [limited, if_pos room]
  split
  next above => exact ⟨room.le, le_refl _⟩
  next notAbove =>
    split
    next below => exact ⟨le_refl _, room.le⟩
    next notBelow => exact ⟨not_lt.mp notBelow, not_lt.mp notAbove⟩

theorem rawValues_menu (val : BitVec 16) (menu : val.toNat ≤ 14) :
    rawValues[val.toNat]? = some (BitVec.ofNat 32 val.toNat) := by
  generalize val.toNat = n at menu
  interval_cases n <;> rfl

theorem convert_menu (val : BitVec 16) (rval : BitVec 32) (menu : val.toNat ≤ 14) :
    (convert val rval).toNat = val.toNat := by
  rw [convert, rawValues_menu val menu, Option.getD_some, BitVec.toNat_ofNat]
  omega

theorem convert_le (val : BitVec 16) (rval : BitVec 32) (raw : rval.toNat ≤ 14) :
    (convert val rval).toNat ≤ 14 := by
  rw [convert]
  cases found : rawValues[val.toNat]? with
  | none => exact raw
  | some value =>
    have all : ∀ value ∈ rawValues, value.toNat ≤ 14 := by simp [rawValues]
    exact all value (List.mem_of_getElem? found)

variable {volts}

theorem loaded_within {one thirty : V} (ref : volts.limit one = one) (bias : volts.limit thirty = thirty) :
    Within volts (.loaded one thirty) where
  packed := by
    show 0#32 = calcRange fun _ => 0#32
    decide
  raw _ := Nat.zero_le _
  menu _ _ := rfl
  refVoltage := ⟨one, ref.symm⟩
  diodeBias := ⟨thirty, bias.symm⟩
  acqWindow := by
    show (0 : Int) ≤ 600000 ∧ (600000 : Int) ≤ 2000000
    decide
  resetDelay := by
    show (0 : Int) ≤ 4095 ∧ (4095 : Int) ≤ 500000
    decide
  trigDelay := by
    show (40000 : Int) ≤ 250000 ∧ (250000 : Int) ≤ 500000
    decide

theorem put_within {panel : Settings V} (within : Within volts panel) (put : Put V) :
    Within volts (panel.put volts put) := by
  cases put with
  | chargeAmpRangeCH channel val =>
    refine { within with packed := rfl, raw := ?_, menu := ?_ }
    · intro i
      by_cases here : i = channel
      · subst here
        simp only [Settings.put, Function.update_self]
        exact convert_le val _ (within.raw i)
      · simp only [Settings.put, Function.update_of_ne here]
        exact within.raw i
    · intro i
      by_cases here : i = channel
      · subst here
        simp only [Settings.put, Function.update_self]
        exact convert_menu val _
      · simp only [Settings.put, Function.update_of_ne here]
        exact within.menu i
  | refVoltage value => exact { within with refVoltage := ⟨value, rfl⟩ }
  | diodeBias value => exact { within with diodeBias := ⟨value, rfl⟩ }
  | acqWindow ns =>
    have inside := limited_within 0 2000000 ns (by decide)
    exact { within with acqWindow := inside }
  | resetDelay ns =>
    have inside := limited_within 0 500000 ns (by decide)
    exact { within with resetDelay := inside }
  | trigDelay ns =>
    have inside := limited_within 40000 500000 ns (by decide)
    exact { within with trigDelay := inside }
  | doConfig => exact within

/-! What the board accepts, and what it is set to. -/

/-- What the records let through and the driver accepts. -/
structure Accepts (steps : Steps V) (panel : Settings V) : Prop where
  gain : ∀ i, (panel.rval i).toNat ≠ 14
  refVoltage : steps.chargeAmpRef panel.refVoltage < chargeAmpRefSteps
  diodeBias : steps.inputBias panel.diodeBias < inputBiasSteps
  resetDelay : panel.resetDelay % 65536 ≤ 8 * 0xfff
  trigDelay : 190000 ≤ panel.trigDelay

/-- The settings in the registers; of the delay of the window only what is left of it in sixteen bits. -/
structure OnBoard (steps : Steps V) (panel : Settings V) (file : BitVec 8 → BitVec 32) : Prop where
  gain : ∀ i : Fin 4, (Fields.field 4 i.val (file Reg.rg_config)).toNat = (panel.rval i).toNat + 1
  refVoltage : file Reg.bias_data = steps.chargeAmpRef panel.refVoltage
  diodeBias : file Reg.biasdac_data_config = steps.inputBias panel.diodeBias
  acqWindow : Needs panel.acqWindow.toNat ((file Reg.reset).extractLsb 31 12).toNat
  resetDelay : Needs (panel.resetDelay % 65536).toNat ((file Reg.reset).extractLsb 11 0).toNat
  trigDelay : Needs panel.trigDelay.toNat (file Reg.trig_delay).toNat
  presampleDelay : (file Reg.trig_ps_delay).toNat = 18750
  adcDelay : (file Reg.adc_delay).toNat = 500

theorem ofInt_toNat (ns : Int) (positive : 0 ≤ ns) (small : ns ≤ 2000000) :
    (BitVec.ofInt 32 ns).toNat = ns.toNat := by
  rw [BitVec.toNat_ofInt]
  omega

theorem ofInt_short (ns : Int) : (BitVec.ofInt 16 ns).toNat = (ns % 65536).toNat := by
  rw [BitVec.toNat_ofInt]
  rfl

theorem gain_field (word : BitVec 32) (i : Fin 4) :
    gain (word.setWidth 16) i = (Fields.field 4 i.val word).toNat := by
  have cut : (word.setWidth 16).toNat = word.toNat % 65536 := BitVec.toNat_setWidth 16 word
  have place : (Fields.field 4 i.val word).toNat = word.toNat / 2 ^ (4 * i.val) % 16 := by
    rw [Fields.field, BitVec.extractLsb'_toNat, Nat.shiftRight_eq_div_pow]
  rw [gain, cut, place]
  obtain ⟨i, bound⟩ := i
  interval_cases i <;> norm_num <;> omega

theorem calcRange_eq (rval : Fin 4 → BitVec 32) :
    calcRange rval = (List.finRange 4).foldl (fun word j => word ||| rval j <<< (4 * j.val)) 0#32 := by
  show (((0#32 ||| rval 3 <<< 12) ||| rval 2 <<< 8) ||| rval 1 <<< 4) ||| rval 0 <<< 0 =
    (((0#32 ||| rval 0 <<< 0) ||| rval 1 <<< 4) ||| rval 2 <<< 8) ||| rval 3 <<< 12
  ac_rfl

section Request
variable {panel : Settings V} (within : Within volts panel)
include within

theorem request_gain (i : Fin 4) : gain (ipimbConfigProc panel).chargeAmpRange i = (panel.rval i).toNat := by
  have fits : ∀ j, (panel.rval j).toNat < 2 ^ 4 := fun j => Nat.lt_of_le_of_lt (within.raw j) (by decide)
  have field := Fields.field_foldl 4 i panel.rval 0#32 fits (by decide)
  have empty : Fields.field 4 i.val 0#32 = 0#4 := BitVec.extractLsb'_zero
  have small := fits i
  show gain (panel.chargeAmpRange.setWidth 16) i = _
  rw [gain_field, within.packed, calcRange_eq, field, empty, BitVec.zero_or, BitVec.toNat_setWidth,
    Nat.mod_eq_of_lt small]

theorem request_resetLength : (ipimbConfigProc panel).resetLength.toNat = panel.acqWindow.toNat :=
  ofInt_toNat _ within.acqWindow.1 within.acqWindow.2

theorem request_trigDelay : (ipimbConfigProc panel).trigDelay.toNat = panel.trigDelay.toNat := by
  have limits := within.trigDelay
  exact ofInt_toNat _ (by omega) (by omega)

theorem legal_iff : Legal volts.steps (ipimbConfigProc panel) ↔ Accepts volts.steps panel := by
  have length := request_resetLength within
  have delay := request_trigDelay within
  have window := within.acqWindow
  have late := within.trigDelay
  have short : (ipimbConfigProc panel).resetDelay.toNat = (panel.resetDelay % 65536).toNat :=
    ofInt_short panel.resetDelay
  have sum : (hardCodedPresampleDelay + hardCodedTotalPresampleTime).toNat = 190000 := by decide
  have gains : gainOk ((ipimbConfigProc panel).chargeAmpRange.setWidth 32) = true ↔
      ∀ i, (panel.rval i).toNat ≠ 14 := by
    rw [Accepted.gainOk_iff]
    exact forall_congr' fun i => by rw [request_gain within i]
  constructor
  · intro legal
    have inside := (delay_le_iff _).mp legal.resetDelay
    have early : 190000 ≤ (ipimbConfigProc panel).trigDelay.toNat := by
      rw [← sum]
      exact legal.presamples
    exact ⟨gains.mp legal.gain, legal.chargeAmpRef, legal.inputBias, by omega, by omega⟩
  · intro accepts
    have inside := accepts.resetDelay
    have early := accepts.trigDelay
    exact {
      chargeAmpRef := accepts.refVoltage
      gain := gains.mpr accepts.gain
      inputBias := accepts.diodeBias
      resetLength := by
        rw [ticks_le_iff _ _ (by omega)]
        show (ipimbConfigProc panel).resetLength.toNat ≤ 8 * 0xfffff
        omega
      resetDelay := (delay_le_iff _).mpr (by omega)
      trigDelay := by
        rw [ticks_le_iff _ _ (by omega)]
        show (ipimbConfigProc panel).trigDelay.toNat ≤ 8 * 0xffff
        omega
      presamples := by
        rw [BitVec.le_def, sum]
        omega }

theorem onBoard_of_written (accepts : Accepts volts.steps panel) (file : BitVec 8 → BitVec 32)
    (all : ∀ setting ∈ kept, written volts.steps (ipimbConfigProc panel) setting = some (file setting)) :
    OnBoard volts.steps panel file := by
  have legal := (legal_iff within).mpr accepts
  have found (setting : BitVec 8) (word : BitVec 32) (inside : setting ∈ kept)
      (member : (setting, word) ∈ Latest.accepted volts.steps (ipimbConfigProc panel)) :
      file setting = word := by
    have wrote := all setting inside
    rw [Latest.written_of_legal volts.steps _ legal setting word member] at wrote
    exact (Option.some.inj wrote).symm
  have bias := found Reg.bias_data _ (by decide) (.head _)
  have gains := found Reg.rg_config _ (by decide) (.tail _ (.head _))
  have diode := found Reg.biasdac_data_config _ (by decide) (.tail _ (.tail _ (.head _)))
  have window := found Reg.reset _ (by decide) (.tail _ (.tail _ (.tail _ (.head _))))
  have trigger := found Reg.trig_delay _ (by decide) (.tail _ (.tail _ (.tail _ (.tail _ (.head _)))))
  have presample := found Reg.trig_ps_delay _ (by decide)
    (.tail _ (.tail _ (.tail _ (.tail _ (.tail _ (.head _))))))
  have adc := found Reg.adc_delay _ (by decide)
    (.tail _ (.tail _ (.tail _ (.tail _ (.tail _ (.tail _ (.head _)))))))
  have length := request_resetLength within
  have delay := request_trigDelay within
  have range := within.acqWindow
  have late := within.trigDelay
  constructor
  · intro i
    have menu := within.raw i
    have closed := accepts.gain i
    rw [gains, Latest.gainWord, Accepted.multiplier_field, request_gain within i]
    omega
  · exact bias
  · exact diode
  · rw [window, Accepted.windowWord, window_length _ _ legal.resetLength legal.resetDelay, ← length]
    exact ticks_needs _ (by omega)
  · rw [window, Accepted.windowWord, window_delay _ _ legal.resetLength legal.resetDelay, ← ofInt_short,
      ← short_toNat]
    exact ticks_needs _ (short_small _)
  · rw [trigger, ← delay]
    exact ticks_needs _ (by omega)
  · rw [presample]
    decide
  · rw [adc]
    decide

end Request

end Records

/-! Operators, the record that configures and the configurer thread. -/

section Machine
variable {V β : Type} (volts : Volts V) (io : Port β)

structure State (V β : Type) where
  panel : Settings V
  board : Latest.State β V

/-- Requests come from the panel only. -/
inductive Action (V : Type) where
  | put (put : Put V)
  | thread (move : Generation.Action (ConfigV2 V))

/-- A record that has been set leads to `Configure`, which asks for the settings as they are then. -/
def step (s : State V β) : Action V → Option (State V β)
  | .put put =>
    let panel := s.panel.put volts put
    (Latest.step volts.steps io s.board (.configure (ipimbConfigProc panel))).map fun board => ⟨panel, board⟩
  | .thread (.configure _) => none
  | .thread move => (Latest.step volts.steps io s.board move).map fun board => { s with board := board }

/-- The last request is what the records say. -/
structure Inv (register : BitVec 8 → β → BitVec 32) (first : β) (s : State V β) : Prop where
  within : Within volts s.panel
  board : Latest.Inv volts.steps register first s.board
  gen : s.board.gen.requests.length < 2 ^ 31 → Generation.Inv s.board.gen
  last : ∀ config ∈ s.board.gen.requests.getLast?, config = ipimbConfigProc s.panel

def State.init (panel : Settings V) (newconfig : ConfigV2 V) (port : β) : State V β :=
  ⟨panel, .init newconfig port⟩

variable {volts io} {register : BitVec 8 → β → BitVec 32} {first : β}

theorem Inv.init {panel : Settings V} (within : Within volts panel) (newconfig : ConfigV2 V) (port : β) :
    Inv volts register port (State.init panel newconfig port) where
  within := within
  board := .init newconfig port
  gen _ := .init newconfig
  last _ none := by cases none

theorem configure_requests {gen gen' : Generation.State (ConfigV2 V)} (config : ConfigV2 V)
    (done : Generation.step gen (.configure config) = some gen') : gen'.requests = gen.requests ++ [config] := by
  simp only [Generation.step, Generation.configure] at done
  split_ifs at done
  cases done
  rfl

theorem thread_requests {gen gen' : Generation.State (ConfigV2 V)} (move : Generation.Action (ConfigV2 V))
    (inner : ∀ config, move ≠ .configure config) (done : Generation.step gen move = some gen') :
    gen'.requests = gen.requests := by
  cases move with
  | configure config => exact absurd rfl (inner config)
  | test =>
    simp only [Generation.step, Generation.test] at done
    split at done
    · split_ifs at done <;> cases done <;> rfl
    · cases done
  | _ =>
    simp only [Generation.step, Generation.lock, Generation.wait, Generation.spurious, Generation.regain,
      Generation.copy, Generation.start, Generation.check, Generation.finish] at done
    split at done <;> cases done
    rfl

section Steps
variable {s s' : State V β} (inv : Inv volts register first s) (keeps : Keeps io register)
include inv keeps

theorem board_inv (panel : Settings V) (within : Within volts panel) (move : Generation.Action (ConfigV2 V))
    (board : Latest.State β V) (done : Latest.step volts.steps io s.board move = some board)
    (last : ∀ config ∈ board.gen.requests.getLast?, config = ipimbConfigProc panel) :
    Inv volts register first ⟨panel, board⟩ where
  within := within
  board := Latest.step_inv inv.board keeps move done
  gen few := by
    have moved := Latest.step_gen volts.steps io s.board move board done
    have before := Nat.lt_of_le_of_lt (Generation.step_requests _ _ _ moved) few
    exact Generation.step_inv s.board.gen move board.gen before (inv.gen before) moved
  last := last

theorem step_inv (a : Action V) (done : step volts io s a = some s') : Inv volts register first s' := by
  cases a with
  | put put =>
    obtain ⟨board, moved, rfl⟩ := Option.map_eq_some_iff.mp done
    apply board_inv inv keeps _ (put_within inv.within put) _ board moved
    intro config last
    rw [configure_requests _ (Latest.step_gen volts.steps io s.board _ board moved), List.getLast?_concat] at last
    exact (Option.some.inj last).symm
  | thread move =>
    have inner : ∀ config, move ≠ .configure config := by
      intro config same
      subst same
      cases done
    have moves : step volts io s (.thread move) =
        (Latest.step volts.steps io s.board move).map fun board => { s with board := board } := by
      cases move with
      | configure config => exact absurd rfl (inner config)
      | _ => rfl
    rw [moves] at done
    obtain ⟨board, moved, rfl⟩ := Option.map_eq_some_iff.mp done
    apply board_inv inv keeps _ inv.within move board moved
    rw [thread_requests move inner (Latest.step_gen volts.steps io s.board move board moved)]
    exact inv.last

end Steps

/-- When all requests have been served, the last of them was for the records as they are. -/
theorem idle_on_board {s : State V β} (inv : Inv volts register first s) (few : s.board.gen.requests.length < 2 ^ 31)
    (off : s.board.gen.confInProgress = false) (asked : s.board.gen.requests ≠ []) :
    (s.board.gen.configOk = true ↔ Accepts volts.steps s.panel) ∧
      (Accepts volts.steps s.panel → OnBoard volts.steps s.panel fun regAddr => register regAddr s.board.port) := by
  have last := List.getLast?_eq_some_getLast asked
  obtain ⟨-, outcome, held⟩ := Latest.idle_latest inv.board (inv.gen few) off _ last
  rw [inv.last _ last, legal_iff inv.within] at outcome
  rw [inv.last _ last, legal_iff inv.within] at held
  exact ⟨outcome, fun accepts => onBoard_of_written inv.within accepts _ (held accepts)⟩

/-- Operators set records in any order and at any time, on a board that keeps its settings. When all requests
have been served, `config_ok` says whether the records as they are now are acceptable, and if they are, the
board is set as they say; but for the delay of the window, which is theirs only below 65536. -/
theorem panel_on_board (keeps : Keeps io register) {panel : Settings V} (within : Within volts panel)
    (newconfig : ConfigV2 V) (port : β) (actions : List (Action V)) (s : State V β)
    (reached : Transition.run (step volts io) (State.init panel newconfig port) actions = some s)
    (few : s.board.gen.requests.length < 2 ^ 31) (off : s.board.gen.confInProgress = false)
    (asked : s.board.gen.requests ≠ []) :
    (s.board.gen.configOk = true ↔ Accepts volts.steps s.panel) ∧
      (Accepts volts.steps s.panel → OnBoard volts.steps s.panel (fun regAddr => register regAddr s.board.port) ∧
        (Needs s.panel.resetDelay.toNat ((register Reg.reset s.board.port).extractLsb 11 0).toNat ↔
          s.panel.resetDelay < 65536)) := by
  have inv := Transition.run_invariant (step volts io) (Inv volts register port)
    (fun s a s' before done => step_inv before keeps a done) (Inv.init within newconfig port) reached
  obtain ⟨outcome, held⟩ := idle_on_board inv few off asked
  refine ⟨outcome, fun accepts => ?_⟩
  have onBoard := held accepts
  refine ⟨onBoard, ?_⟩
  have limits := inv.within.resetDelay
  constructor
  · intro shown
    have field : ((register Reg.reset s.board.port).extractLsb 11 0).toNat < 2 ^ 12 := BitVec.isLt _
    have covered : s.panel.resetDelay.toNat ≤ 8 * ((register Reg.reset s.board.port).extractLsb 11 0).toNat :=
      shown.1
    omega
  · intro small
    have same : s.panel.resetDelay % 65536 = s.panel.resetDelay := Int.emod_eq_of_lt limits.1 small
    have needs := onBoard.resetDelay
    rw [same] at needs
    exact needs

end Machine

/-! Exact voltages. -/

def exactVolts : Volts ℚ := ⟨exact, limited 0 200⟩

section Exact
variable {panel : Settings ℚ} (within : Within exactVolts panel)
include within

theorem volts_within :
    (0 ≤ panel.refVoltage ∧ panel.refVoltage ≤ 200) ∧ 0 ≤ panel.diodeBias ∧ panel.diodeBias ≤ 200 := by
  obtain ⟨ref, refVoltage⟩ := within.refVoltage
  obtain ⟨bias, diodeBias⟩ := within.diodeBias
  rw [refVoltage, diodeBias]
  exact ⟨limited_within 0 200 ref (by norm_num), limited_within 0 200 bias (by norm_num)⟩

omit within in
theorem steps_toNat (value scale : ℚ) (most : value ≤ 200) (least : 1 ≤ scale) :
    (BitVec.ofNat 32 ⌊value / scale * 65535⌋₊).toNat = ⌊value / scale * 65535⌋₊ := by
  have part : value / scale ≤ 200 := by
    rw [div_le_iff₀ (by linarith)]
    linarith
  have whole : ⌊value / scale * 65535⌋₊ ≤ 200 * 65535 := by
    apply Nat.floor_le_of_le
    push_cast
    linarith
  rw [BitVec.toNat_ofNat]
  omega

theorem refVoltage_iff :
    exact.chargeAmpRef panel.refVoltage < chargeAmpRefSteps ↔ panel.refVoltage * 65535 < 655360 := by
  obtain ⟨⟨low, high⟩, -⟩ := volts_within within
  have steps : (exact.chargeAmpRef panel.refVoltage).toNat = ⌊panel.refVoltage / 10 * 65535⌋₊ :=
    steps_toNat panel.refVoltage 10 high (by norm_num)
  rw [BitVec.lt_def, steps]
  show ⌊panel.refVoltage / 10 * 65535⌋₊ < 65536 ↔ _
  rw [Nat.floor_lt (by linarith)]
  push_cast
  constructor <;> intro less <;> linarith

/-- The reference voltage can be too high by what the record leaves room for, the bias cannot. -/
theorem accepts_exact_iff :
    Accepts exact panel ↔ (∀ i, (panel.rval i).toNat ≠ 14) ∧ panel.refVoltage * 65535 < 655360 ∧
      panel.resetDelay % 65536 ≤ 8 * 0xfff ∧ 190000 ≤ panel.trigDelay := by
  have bias : exact.inputBias panel.diodeBias < inputBiasSteps :=
    Accepted.steps_lt _ 200 (by norm_num) (volts_within within).2.2
  constructor
  · intro accepts
    exact ⟨accepts.gain, (refVoltage_iff within).mp accepts.refVoltage, accepts.resetDelay, accepts.trigDelay⟩
  · intro each
    obtain ⟨gain, refVoltage, resetDelay, trigDelay⟩ := each
    exact ⟨gain, (refVoltage_iff within).mpr refVoltage, bias, resetDelay, trigDelay⟩

theorem onBoard_exact {file : BitVec 8 → BitVec 32} (onBoard : OnBoard exact panel file) :
    (file Reg.bias_data).toNat = ⌊panel.refVoltage / 10 * 65535⌋₊ ∧
      (file Reg.biasdac_data_config).toNat = ⌊panel.diodeBias / 200 * 65535⌋₊ := by
  obtain ⟨⟨-, ref⟩, -, bias⟩ := volts_within within
  rw [onBoard.refVoltage, onBoard.diodeBias]
  exact ⟨steps_toNat _ 10 ref (by norm_num), steps_toNat _ 200 bias (by norm_num)⟩

end Exact

/-- With exact voltages, the records as they are now are accepted for their gains, reference voltage and delays
alone, and the registers hold the voltages rounded down. -/
theorem exact_on_board {β : Type} {io : Port β} {register : BitVec 8 → β → BitVec 32} (keeps : Keeps io register)
    {panel : Settings ℚ} (within : Within exactVolts panel) (newconfig : ConfigV2 ℚ) (port : β)
    (actions : List (Action ℚ)) (s : State ℚ β)
    (reached : Transition.run (step exactVolts io) (State.init panel newconfig port) actions = some s)
    (few : s.board.gen.requests.length < 2 ^ 31) (off : s.board.gen.confInProgress = false)
    (asked : s.board.gen.requests ≠ []) :
    (s.board.gen.configOk = true ↔ (∀ i, (s.panel.rval i).toNat ≠ 14) ∧ s.panel.refVoltage * 65535 < 655360 ∧
      s.panel.resetDelay % 65536 ≤ 8 * 0xfff ∧ 190000 ≤ s.panel.trigDelay) ∧
      (s.board.gen.configOk = true →
        (register Reg.bias_data s.board.port).toNat = ⌊s.panel.refVoltage / 10 * 65535⌋₊ ∧
          (register Reg.biasdac_data_config s.board.port).toNat = ⌊s.panel.diodeBias / 200 * 65535⌋₊) := by
  have inv := Transition.run_invariant (step exactVolts io) (Inv exactVolts register port)
    (fun s a s' before done => step_inv before keeps a done) (Inv.init within newconfig port) reached
  obtain ⟨outcome, held⟩ := idle_on_board inv few off asked
  refine ⟨outcome.trans (accepts_exact_iff inv.within), fun good => ?_⟩
  exact onBoard_exact inv.within (held (outcome.mp good))

/-- A gain, and a delay of 70000 ns. -/
def cut (channel : Fin 4) : List (Action ℚ) :=
  [.put (.chargeAmpRangeCH channel 3#16), .put (.resetDelay 70000), .thread .lock, .thread .test, .thread .copy,
    .thread .start, .thread (.check true), .thread .finish, .thread .lock, .thread .test, .thread .wait]

/-- The delay is accepted, and the board waits for 4464 ns. -/
theorem panel_on_board_cut :
    ∃ s : State ℚ (BitVec 8 → BitVec 32),
      Transition.run (step exactVolts Accepted.registers)
        (State.init (.loaded 1 30) (ipimbConfigProc (.loaded 1 30)) fun _ => 0#32) (cut 1) = some s ∧
      s.board.gen.configOk = true ∧ s.panel.resetDelay = 70000 ∧
      Needs 4464 ((s.board.port Reg.reset).extractLsb 11 0).toNat ∧
      ¬Needs 70000 ((s.board.port Reg.reset).extractLsb 11 0).toNat := by
  have computed : (Transition.run (step exactVolts Accepted.registers)
      (State.init (.loaded 1 30) (ipimbConfigProc (.loaded 1 30)) fun _ => 0#32) (cut 1)).map
      (fun s => (s.board.gen.requests.length, s.board.gen.confInProgress, s.panel.resetDelay,
        s.board.gen.configOk)) = some (2, false, 70000, true) := by
    decide +kernel
  obtain ⟨s, reached, seen⟩ := Option.map_eq_some_iff.mp computed
  injection seen with requests rest
  injection rest with flag rest
  injection rest with delay good
  have few : s.board.gen.requests.length < 2 ^ 31 := by
    rw [requests]
    decide
  have asked : s.board.gen.requests ≠ [] := by
    intro none
    rw [none] at requests
    cases requests
  have loaded : Within exactVolts (.loaded 1 30) :=
    loaded_within (by norm_num [exactVolts, limited]) (by norm_num [exactVolts, limited])
  obtain ⟨outcome, held⟩ := panel_on_board Latest.registers_keeps loaded (ipimbConfigProc (.loaded 1 30))
    (fun _ => 0#32) _ s reached few flag asked
  obtain ⟨onBoard, shown⟩ := held (outcome.mp good)
  have needs := onBoard.resetDelay
  rw [delay] at needs shown
  exact ⟨s, reached, good, delay, needs, fun wrong => absurd (shown.mp wrong) (by decide)⟩

end Ipimb.Panel
