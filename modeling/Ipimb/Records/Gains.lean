import Ipimb.Configure.Panel
import Ipimb.Records.Bigsel

/-!
The gain of a channel on the board, and the base and the scale its values are corrected with. The menu of a
channel leads to two bigsel records, which keep an entry for each gain, and to the request; the board takes
fourteen gains and the records follow twelve.
-/

namespace Ipimb.Gains
open Ipimb.Bigsel Ipimb.Pass
open Ipimb.Latest (Keeps)

/-! A table with an entry for each gain, which holds the last entry it has followed. -/

structure Table (V : Type) where
  gain : BitVec 16
  entries : Nat → V
  held : V

section Abstract
variable {V : Type}

/-- A gain without an entry leaves what is held. -/
def Table.settle (table : Table V) : Table V :=
  if table.gain.toNat < selMax then { table with held := table.entries table.gain.toNat } else table

def Table.choose (table : Table V) (gain : BitVec 16) : Table V := { table with gain := gain }.settle

def Table.enter (table : Table V) (i : Nat) (value : V) : Table V :=
  { table with entries := Function.update table.entries i value }.settle

/-- What is held is the entry for the gain, if there is one. -/
def Table.Settled (table : Table V) : Prop :=
  table.gain.toNat < selMax → table.held = table.entries table.gain.toNat

theorem settle_gain (table : Table V) : table.settle.gain = table.gain := by
  unfold Table.settle
  split <;> rfl

end Abstract

/-! One of the records. -/

section Record
variable {V : Type} (fp : Double V)

/-- The index is the value of the menu, and no input is a link. -/
def menu (gain : BitVec 16) : Env V := ⟨fun _ => some gain, fun _ => none⟩

def enterValue (prec : BigselRecord V) (i : Nat) (value : V) : BigselRecord V :=
  { prec with value := Function.update prec.value i value }

/-- CHn_BASE or CHn_SCALE as it is loaded: fifteen inputs and the value are the same constant. -/
def loaded (prec : BigselRecord V) (constant : V) : BigselRecord V :=
  load fp { prec with val := constant, udf := false, stat := .noAlarm, sevr := .noAlarm } (.db "ChargeAmpRangeCH")
    fun n => .constant (if n.val < 15 then some constant else none)

def loadedTable (prec : BigselRecord V) (constant : V) : Table V :=
  ⟨0#16, (loaded fp prec constant).value, constant⟩

/-- The record has the entries of the table and the value it holds. -/
structure Holds (prec : BigselRecord V) (table : Table V) : Prop where
  selm : prec.selm = .specified
  nvl : ∃ pv, prec.nvl = .db pv
  inp : ∀ i < selMax, ∃ value, prec.inp i = .constant value
  value : prec.value = table.entries
  val : prec.val = table.held

/-- And no alarm is pending. -/
structure Ready (prec : BigselRecord V) (table : Table V) : Prop extends Holds prec table where
  quiet : prec.nsta = .noAlarm ∧ prec.nsev = .noAlarm

/-- And there is an alarm exactly if the gain has no entry. -/
structure Shows (prec : BigselRecord V) (table : Table V) : Prop extends Ready prec table where
  settled : table.Settled
  followed : table.gain.toNat < selMax → prec.stat ≠ .soft
  refused : selMax ≤ table.gain.toNat → prec.stat = .soft ∧ prec.sevr = .invalid

theorem loadedTable_settled (prec : BigselRecord V) (constant : V) :
    (loadedTable fp prec constant).Settled := by
  intro low
  have link : (loaded fp prec constant).inp 0 = .constant (some constant) :=
    loadLinks_early (fun n => .constant (if n.val < 15 then some constant else none)) 0 low
  have first : (loaded fp prec constant).value 0 = constant := by
    show (if 0 < selMax then ((loaded fp prec constant).inp 0).init fp.nan else prec.value 0) = constant
    rw [if_pos (show 0 < selMax from low), link]
    rfl
  exact first.symm

theorem loaded_shows (prec : BigselRecord V) (constant : V) :
    Shows (loaded fp prec constant) (loadedTable fp prec constant) where
  selm := rfl
  nvl := ⟨_, rfl⟩
  inp i low := ⟨_, loadLinks_early (fun n => .constant (if n.val < 15 then some constant else none)) i low⟩
  quiet := ⟨rfl, rfl⟩
  value := rfl
  val := rfl
  settled := loadedTable_settled fp prec constant
  followed _ := by
    intro soft
    cases soft
  refused high := absurd (show selMax ≤ 0 from high) (by decide)

variable {fp} {prec : BigselRecord V} {table : Table V}

theorem Holds.finish (holds : Holds prec table) (fp : Double V) :
    Ready (monitor fp (checkAlarms fp prec)) table := by
  have finished := finish_spec fp prec
  refine ⟨⟨finished.selm.trans holds.selm, ?_, ?_, finished.value.trans holds.value,
    finished.val.trans holds.val⟩, finished.quiet⟩
  · rw [finished.nvl]
    exact holds.nvl
  · rw [finished.inp]
    exact holds.inp

variable (ready : Ready prec table)
include ready

theorem fetched (gain : BitVec 16) :
    fetchValues (menu gain) prec = ({ prec with seln := gain }, true) := by
  obtain ⟨pv, link⟩ := ready.nvl
  have read : prec.nvl.get (menu (V := V) gain).ushort prec.seln = (true, gain) := by
    rw [link]
    rfl
  rw [fetchValues, if_pos ready.selm, read]
  by_cases high : gain.toNat ≥ selMax
  · simp [linkAlarm, high]
  · obtain ⟨value, constant⟩ := ready.inp gain.toNat (Nat.not_le.mp high)
    simp [linkAlarm, high, fetchValue, constant, Link.get, Function.update_eq_self]

theorem process_followed (fp : Double V) (low : table.gain.toNat < selMax) :
    Shows (process fp prec (menu table.gain)) { table with held := table.entries table.gain.toNat } := by
  let picked : BigselRecord V := { prec with
    seln := table.gain
    val := prec.value table.gain.toNat
    udf := fp.isnan (prec.value table.gain.toNat) }
  have selected : doSel fp { prec with seln := table.gain } = picked := by
    rw [doSel, if_neg fun beyond => Nat.not_le.mpr low beyond.2]
    simp [selection, ready.selm, picked]
  have done : process fp prec (menu table.gain) = monitor fp (checkAlarms fp picked) := by
    rw [process, fetched ready table.gain, ← selected]
    rfl
  have holds : Holds picked { table with held := table.entries table.gain.toNat } :=
    { ready with val := congrFun ready.value table.gain.toNat }
  rw [done]
  refine { holds.finish fp with
    settled := fun _ => rfl, followed := ?_, refused := fun high => absurd low (Nat.not_lt.mpr high) }
  intro _ soft
  have pending : prec.nsta = .soft := (finish_spec fp picked).soft soft
  rw [ready.quiet.1] at pending
  cases pending

theorem process_refused (fp : Double V) (high : selMax ≤ table.gain.toNat) :
    Shows (process fp prec (menu table.gain)) table := by
  let raised : BigselRecord V := { prec with seln := table.gain, nsta := .soft, nsev := .invalid }
  have selected : doSel fp { prec with seln := table.gain } = raised := by
    have worse : prec.nsev.rank < Severity.invalid.rank := by
      rw [ready.quiet.2]
      decide
    rw [doSel, if_pos ⟨ready.selm, high⟩, setSevr, if_pos worse]
  have done : process fp prec (menu table.gain) = monitor fp (checkAlarms fp raised) := by
    rw [process, fetched ready table.gain, ← selected]
    rfl
  have holds : Holds raised table := { ready with }
  rw [done]
  exact { holds.finish fp with
    settled := fun low => absurd low (Nat.not_lt.mpr high)
    followed := fun low => absurd low (Nat.not_lt.mpr high)
    refused := fun _ => (finish_spec fp raised).worst rfl }

/-- Every processing of the record settles the table. -/
theorem process_shows (fp : Double V) : Shows (process fp prec (menu table.gain)) table.settle := by
  rw [Table.settle]
  split
  next low => exact process_followed ready fp low
  next high => exact process_refused ready fp (Nat.not_lt.mp high)

theorem choose_shows (fp : Double V) (gain : BitVec 16) :
    Shows (process fp prec (menu gain)) (table.choose gain) := by
  have chosen : Ready prec { table with gain := gain } := { ready with }
  exact process_shows chosen fp

theorem enter_shows (fp : Double V) (i : Nat) (value : V) :
    Shows (process fp (enterValue prec i value) (menu table.gain)) (table.enter i value) := by
  have entered : Ready (enterValue prec i value)
      { table with entries := Function.update table.entries i value } :=
    { ready with value := by rw [enterValue, ready.value] }
  exact process_shows entered fp

end Record

/-! The channels with the panel and the board. -/

section Machine
variable {V W β : Type} (fp : Double V) (volts : Panel.Volts W) (io : Port β)

structure Channel (V : Type) where
  base : BigselRecord V
  scale : BigselRecord V

structure State (V W β : Type) where
  panel : Panel.State W β
  channels : Fin 4 → Channel V

/-- An operator also enters bases and scales for the gains. -/
inductive Action (V W : Type) where
  | panel (a : Panel.Action W)
  | base (channel : Fin 4) (i : Nat) (value : V)
  | scale (channel : Fin 4) (i : Nat) (value : V)

/-- The menu of a channel leads to its base, and that to its scale. -/
def State.chosen (s : State V W β) : Panel.Action W → Fin 4 → Channel V
  | .put (.chargeAmpRangeCH channel val) =>
    Function.update s.channels channel
      ⟨process fp (s.channels channel).base (menu val), process fp (s.channels channel).scale (menu val)⟩
  | _ => s.channels

def State.gain (s : State V W β) (channel : Fin 4) : BitVec 16 := s.panel.panel.chargeAmpRangeCH channel

def State.set (s : State V W β) (channel : Fin 4) (c : Channel V) : State V W β :=
  { s with channels := Function.update s.channels channel c }

def step (s : State V W β) : Action V W → Option (State V W β)
  | .panel a => (Panel.step volts io s.panel a).map fun panel => ⟨panel, s.chosen fp a⟩
  | .base channel i value =>
    let c := s.channels channel
    let base := process fp (enterValue c.base i value) (menu (s.gain channel))
    some (s.set channel ⟨base, process fp c.scale (menu (s.gain channel))⟩)
  | .scale channel i value =>
    let c := s.channels channel
    some (s.set channel ⟨c.base, process fp (enterValue c.scale i value) (menu (s.gain channel))⟩)

structure Tables (V : Type) where
  base : Table V
  scale : Table V

/-- What an action means for the tables of a channel; scales are looked at again after each base. -/
def Tables.follow (channel : Fin 4) (tables : Tables V) : Action V W → Tables V
  | .panel (.put (.chargeAmpRangeCH other val)) =>
    if other = channel then ⟨tables.base.choose val, tables.scale.choose val⟩ else tables
  | .base other i value =>
    if other = channel then ⟨tables.base.enter i value, tables.scale.settle⟩ else tables
  | .scale other i value => if other = channel then { tables with scale := tables.scale.enter i value } else tables
  | _ => tables

/-- The records of a channel show its tables, and these have the gain of its menu. -/
structure Follows (s : State V W β) (channel : Fin 4) (tables : Tables V) : Prop where
  base : Shows (s.channels channel).base tables.base
  scale : Shows (s.channels channel).scale tables.scale
  base_gain : tables.base.gain = s.gain channel
  scale_gain : tables.scale.gain = s.gain channel

variable {fp volts io} {s s' : State V W β} {channel : Fin 4} {tables : Tables V}

theorem Follows.aside (follows : Follows s channel tables) (same : s'.channels channel = s.channels channel)
    (menu : s'.gain channel = s.gain channel) : Follows s' channel tables where
  base := by
    rw [same]
    exact follows.base
  scale := by
    rw [same]
    exact follows.scale
  base_gain := follows.base_gain.trans menu.symm
  scale_gain := follows.scale_gain.trans menu.symm

theorem panel_follows (follows : Follows s channel tables) (a : Panel.Action W) (panel : Panel.State W β)
    (done : Panel.step volts io s.panel a = some panel) :
    Follows ⟨panel, s.chosen fp a⟩ channel (tables.follow channel (.panel a)) := by
  cases a with
  | put put =>
    obtain ⟨board, moved, rfl⟩ := Option.map_eq_some_iff.mp done
    cases put with
    | chargeAmpRangeCH other val =>
      by_cases here : other = channel
      · subst here
        have based := choose_shows follows.base.toReady fp val
        have scaled := choose_shows follows.scale.toReady fp val
        have menu : Function.update s.panel.panel.chargeAmpRangeCH other val other = val := Function.update_self _ _ _
        rw [Tables.follow, if_pos rfl]
        refine ⟨?_, ?_, ?_, ?_⟩
        · simpa [State.chosen] using based
        · simpa [State.chosen] using scaled
        · exact (settle_gain _).trans menu.symm
        · exact (settle_gain _).trans menu.symm
      · rw [Tables.follow, if_neg here]
        exact follows.aside (Function.update_of_ne (Ne.symm here) _ _)
          (Function.update_of_ne (Ne.symm here) _ _)
    | _ => exact follows.aside rfl rfl
  | thread move =>
    have same : panel.panel = s.panel.panel := by
      cases move with
      | configure config => cases done
      | _ =>
        obtain ⟨board, moved, rfl⟩ := Option.map_eq_some_iff.mp done
        rfl
    exact follows.aside rfl (by rw [State.gain, same]; rfl)

theorem step_follows (follows : Follows s channel tables) (a : Action V W) (done : step fp volts io s a = some s') :
    Follows s' channel (tables.follow channel a) := by
  cases a with
  | panel a =>
    obtain ⟨panel, moved, rfl⟩ := Option.map_eq_some_iff.mp done
    exact panel_follows follows a panel moved
  | base other i value =>
    cases done
    by_cases here : other = channel
    · subst here
      have based := enter_shows follows.base.toReady fp i value
      have scaled := process_shows follows.scale.toReady fp
      rw [follows.base_gain] at based
      rw [follows.scale_gain] at scaled
      rw [Tables.follow, if_pos rfl]
      refine ⟨?_, ?_, ?_, ?_⟩
      · simpa [State.set] using based
      · simpa [State.set] using scaled
      · exact (settle_gain _).trans follows.base_gain
      · exact (settle_gain _).trans follows.scale_gain
    · rw [Tables.follow, if_neg here]
      exact follows.aside (Function.update_of_ne (Ne.symm here) _ _) rfl
  | scale other i value =>
    cases done
    by_cases here : other = channel
    · subst here
      have scaled := enter_shows follows.scale.toReady fp i value
      rw [follows.scale_gain] at scaled
      rw [Tables.follow, if_pos rfl]
      refine ⟨?_, ?_, follows.base_gain, ?_⟩
      · simpa [State.set] using follows.base
      · simpa [State.set] using scaled
      · exact (settle_gain _).trans follows.scale_gain
    · rw [Tables.follow, if_neg here]
      exact follows.aside (Function.update_of_ne (Ne.symm here) _ _) rfl

/-! Whole runs. -/

/-- The database as it is loaded, with the bases of 5 and the scales of 1 of its template. -/
def State.init (fp : Double V) (records : Fin 4 → Channel V) (five one : V) (ref bias : W)
    (newconfig : ConfigV2 W) (port : β) : State V W β where
  panel := .init (.loaded ref bias) newconfig port
  channels channel := ⟨loaded fp (records channel).base five, loaded fp (records channel).scale one⟩

def Tables.init (fp : Double V) (c : Channel V) (five one : V) : Tables V :=
  ⟨loadedTable fp c.base five, loadedTable fp c.scale one⟩

theorem init_follows (records : Fin 4 → Channel V) (five one : V) (ref bias : W)
    (newconfig : ConfigV2 W) (port : β) (channel : Fin 4) :
    Follows (State.init fp records five one ref bias newconfig port) channel
      (Tables.init fp (records channel) five one) where
  base := loaded_shows fp _ five
  scale := loaded_shows fp _ one
  base_gain := rfl
  scale_gain := rfl

theorem run_follows {start : State V W β} (follows : Follows start channel tables) (actions : List (Action V W))
    (reached : Transition.run (step fp volts io) start actions = some s) :
    Follows s channel (actions.foldl (Tables.follow channel) tables) := by
  obtain ⟨tables', followed, related⟩ := Transition.run_simulates
    (fun s tables => Follows s channel tables)
    (fun s tables a s' follows done => ⟨_, rfl, step_follows follows a done⟩) follows reached
  rw [Transition.run_foldl] at followed
  cases followed
  exact related

variable {register : BitVec 8 → β → BitVec 32}

theorem step_panel (keeps : Keeps io register) {first : β} (inv : Panel.Inv volts register first s.panel)
    (a : Action V W) (done : step fp volts io s a = some s') : Panel.Inv volts register first s'.panel := by
  cases a with
  | panel a =>
    obtain ⟨panel, moved, rfl⟩ := Option.map_eq_some_iff.mp done
    exact Panel.step_inv inv keeps a moved
  | base channel i value =>
    cases done
    exact inv
  | scale channel i value =>
    cases done
    exact inv

/-- The values of the channel are corrected with the entries for the gain, and there is no alarm. -/
def Corrected (c : Channel V) (gain : BitVec 16) : Prop :=
  c.base.val = c.base.value gain.toNat ∧ c.scale.val = c.scale.value gain.toNat ∧
    c.base.stat ≠ .soft ∧ c.scale.stat ≠ .soft

theorem corrected_iff (follows : Follows s channel tables) :
    Corrected (s.channels channel) (s.gain channel) ↔ (s.gain channel).toNat < selMax := by
  have base := follows.base
  have scale := follows.scale
  constructor
  · intro corrected
    by_contra high
    have refused := base.refused (by rw [follows.base_gain]; exact Nat.not_lt.mp high)
    exact corrected.2.2.1 refused.1
  · intro low
    have base_low : tables.base.gain.toNat < selMax := by rwa [follows.base_gain]
    have scale_low : tables.scale.gain.toNat < selMax := by rwa [follows.scale_gain]
    refine ⟨?_, ?_, base.followed base_low, scale.followed scale_low⟩
    · rw [base.val, base.value, ← follows.base_gain]
      exact base.settled base_low
    · rw [scale.val, scale.value, ← follows.scale_gain]
      exact scale.settled scale_low

/-- Operators choose gains, enter bases and scales and set the rest of the panel, in any order. The records of a
channel hold the last entries its menu has led to, with an alarm when the gain has none. When the board has
accepted the panel, each channel has the gain its menu shows, and is corrected with the entries for that gain
except for the last two gains. -/
theorem gains_followed (keeps : Keeps io register) (records : Fin 4 → Channel V) (five one : V)
    {ref bias : W} (refVoltage : volts.limit ref = ref) (diodeBias : volts.limit bias = bias)
    (newconfig : ConfigV2 W) (port : β) (actions : List (Action V W)) (s : State V W β)
    (reached : Transition.run (step fp volts io) (State.init fp records five one ref bias newconfig port) actions =
      some s) :
    (∀ channel, Follows s channel
      (actions.foldl (Tables.follow channel) (Tables.init fp (records channel) five one))) ∧
      (s.panel.board.gen.requests.length < 2 ^ 31 → s.panel.board.gen.confInProgress = false →
        s.panel.board.gen.requests ≠ [] → s.panel.board.gen.configOk = true →
          ∀ channel, (s.gain channel).toNat ≤ 14 →
            (Fields.field 4 channel.val (register Reg.rg_config s.panel.board.port)).toNat =
              (s.gain channel).toNat + 1 ∧
            (Corrected (s.channels channel) (s.gain channel) ↔
              (Fields.field 4 channel.val (register Reg.rg_config s.panel.board.port)).toNat ≤ 12)) := by
  have follows (channel : Fin 4) :=
    run_follows (init_follows records five one ref bias newconfig port channel) actions reached
  refine ⟨follows, ?_⟩
  intro few off asked good channel menu
  have inv := Transition.run_invariant (step fp volts io) (fun s => Panel.Inv volts register port s.panel)
    (fun s a s' before done => step_panel keeps before a done)
    (Panel.Inv.init (Panel.loaded_within refVoltage diodeBias) newconfig port) reached
  obtain ⟨outcome, held⟩ := Panel.idle_on_board inv few off asked
  have gain : (Fields.field 4 channel.val (register Reg.rg_config s.panel.board.port)).toNat =
      (s.gain channel).toNat + 1 := by
    rw [(held (outcome.mp good)).gain channel, inv.within.menu channel menu]
    rfl
  refine ⟨gain, ?_⟩
  rw [gain, corrected_iff (follows channel), selMax]
  omega

end Machine

def wholeChannel : Channel (Option Int) := ⟨blank, blank⟩

/-- A base of 7 for the gain 0, and the gain 12. -/
def last (channel : Fin 4) : List (Action (Option Int) ℚ) :=
  [.base channel 0 (some 7), .panel (.put (.chargeAmpRangeCH channel 12#16)), .panel (.thread .lock),
    .panel (.thread .test), .panel (.thread .copy), .panel (.thread .start), .panel (.thread (.check true)),
    .panel (.thread .finish), .panel (.thread .lock), .panel (.thread .test), .panel (.thread .wait)]

/-- The board takes the gain, and the base stays. -/
theorem gains_followed_last :
    ∃ s : State (Option Int) ℚ (BitVec 8 → BitVec 32),
      Transition.run (step wholes Panel.exactVolts Accepted.registers)
        (State.init wholes (fun _ => wholeChannel) (some 5) (some 1) 1 30
          (Panel.ipimbConfigProc (.loaded 1 30)) fun _ => 0#32) (last 0) = some s ∧
      (Fields.field 4 0 (s.panel.board.port Reg.rg_config)).toNat = 13 ∧
      ¬Corrected (s.channels 0) (s.gain 0) ∧ (s.channels 0).base.val = some 7 := by
  have computed : (Transition.run (step wholes Panel.exactVolts Accepted.registers)
      (State.init wholes (fun _ => wholeChannel) (some 5) (some 1) 1 30
        (Panel.ipimbConfigProc (.loaded 1 30)) fun _ => 0#32) (last 0)).map
      (fun s => (s.panel.board.gen.requests.length, s.panel.board.gen.confInProgress,
        s.panel.board.gen.configOk, s.gain 0)) = some (1, false, true, 12#16) := by
    decide +kernel
  obtain ⟨s, reached, seen⟩ := Option.map_eq_some_iff.mp computed
  injection seen with requests rest
  injection rest with flag rest
  injection rest with good gain
  have few : s.panel.board.gen.requests.length < 2 ^ 31 := by
    rw [requests]
    decide
  have asked : s.panel.board.gen.requests ≠ [] := by
    intro none
    rw [none] at requests
    cases requests
  obtain ⟨follows, board⟩ := gains_followed Latest.registers_keeps (fun _ => wholeChannel) (some 5) (some 1)
    (by norm_num [Panel.exactVolts, Panel.limited]) (by norm_num [Panel.exactVolts, Panel.limited])
    (Panel.ipimbConfigProc (.loaded 1 30)) (fun _ => 0#32) _ s reached
  obtain ⟨field, corrected⟩ := board few flag asked good 0 (by rw [gain]; decide)
  rw [gain] at field
  refine ⟨s, reached, field, ?_, ?_⟩
  · rw [corrected, field]
    decide
  · rw [(follows 0).base.val]
    decide +kernel

end Ipimb.Gains
