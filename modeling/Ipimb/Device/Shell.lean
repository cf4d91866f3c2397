import Mathlib.Data.List.Forall2
import Mathlib.Data.List.Induction
import Mathlib.Data.List.Nodup

/-!
The shell commands that add a device. A command declares its arguments in a table; the shell converts a
command line after this table into an array of unions, and the command takes them out by position. Nothing
keeps the positions, or the members of the union, in step with the table.
-/

namespace Ipimb.Shell

inductive ArgName where
  | name
  | ttyName
  | mdestIP
  | physID
  | datatype
  | gen
  | trigger
  | polarity
  | delay
  | sync
  deriving DecidableEq

inductive IocshArgType where
  | int
  | string
  deriving DecidableEq

structure IocshArg where
  name : ArgName
  type : IocshArgType

def ipimbAddArg0 : IocshArg := ⟨.name, .string⟩
def ipimbAddArg1 : IocshArg := ⟨.ttyName, .string⟩
def ipimbAddArg2 : IocshArg := ⟨.mdestIP, .string⟩
def ipimbAddArg3 : IocshArg := ⟨.physID, .int⟩
def ipimbAddArg4 : IocshArg := ⟨.datatype, .int⟩
def ipimbAddArg5 : IocshArg := ⟨.gen, .string⟩
def ipimbAddArg6 : IocshArg := ⟨.trigger, .string⟩
def ipimbAddArg7 : IocshArg := ⟨.polarity, .int⟩
def ipimbAddArg8 : IocshArg := ⟨.delay, .string⟩
def ipimbAddArg9 : IocshArg := ⟨.sync, .string⟩

def ipimbAddArgs : List IocshArg :=
  [ipimbAddArg0, ipimbAddArg1, ipimbAddArg2, ipimbAddArg3, ipimbAddArg4, ipimbAddArg6, ipimbAddArg7,
    ipimbAddArg8, ipimbAddArg9]

def ipimbTprAddArgs : List IocshArg :=
  [ipimbAddArg0, ipimbAddArg1, ipimbAddArg2, ipimbAddArg3, ipimbAddArg4, ipimbAddArg5, ipimbAddArg6,
    ipimbAddArg7, ipimbAddArg8, ipimbAddArg9]

/-- A converted argument; a missing string is a null pointer. -/
inductive IocshArgBuf where
  | ival (value : Int)
  | sval (value : Option String)

def IocshArgBuf.type : IocshArgBuf → IocshArgType
  | .ival _ => .int
  | .sval _ => .string

/-- What keeps a command from returning. -/
inductive Fault where
  /-- The position holds no argument, or one of the other type. -/
  | misread (idx : Nat)
  /-- A null pointer is used as a string. -/
  | null (idx : Nat)
  /-- The name or the serial port is taken. -/
  | suspended
  /-- The lock of the device list has not been made. -/
  | noLock
  deriving DecidableEq

def sval (args : List IocshArgBuf) (idx : Nat) : Except Fault String :=
  match args[idx]? with
  | some (.sval (some value)) => .ok value
  | some (.sval none) => .error (.null idx)
  | _ => .error (.misread idx)

def ival (args : List IocshArgBuf) (idx : Nat) : Except Fault Int :=
  match args[idx]? with
  | some (.ival value) => .ok value
  | _ => .error (.misread idx)

/-- Where a device looks for its event code or its generation. -/
inductive Source (Addr : Type) where
  | event140
  | gen0
  | field (addr : Addr)
  /-- `MAX_EV_TRIGGERS` places behind the trigger. -/
  | behind (addr : Addr)

/-- `IPIMB_DEVICE` with what it hands to its board. The name its trigger was looked up by is kept for the
record only. -/
structure Device (Addr : Type) where
  name : String
  ttyName : String
  mdestIP : String
  physID : Int
  trigger : Source Addr
  gen : Source Addr
  polarity : Int
  delay : String
  sync : String
  triggerName : String

/-- The device list and whether it is inited, and what has been registered for the beam line data. -/
structure State (Addr : Type) where
  inited : Bool
  devices : List (Device Addr)
  registered : List (BitVec 32 × BitVec 32)

section Add
variable {Addr : Type}

def ipimbFindDeviceByName (s : State Addr) (name : String) : Except Fault (Option (Device Addr)) :=
  if s.inited then .ok (s.devices.find? fun device => name == device.name) else .error .noLock

def ipimbFindDeviceByTtyName (s : State Addr) (ttyName : String) : Except Fault (Option (Device Addr)) :=
  if s.inited then .ok (s.devices.find? fun device => ttyName == device.ttyName) else .error .noLock

/-- 0 has to mean negative-going. -/
def remapPolarity : Int → Int
  | 0 => -1
  | 1 => 1
  | 2 => 0
  | _ => -1

variable (dbNameToAddr : String → Option Addr)

/-- Without a name for the generation it lies behind the trigger. -/
def genSource (gen : Option String) (trig : Addr) : Source Addr :=
  match gen with
  | none => .behind trig
  | some gen => (dbNameToAddr gen).elim .gen0 .field

def sources (gen : Option String) (trigger : String) : Source Addr × Source Addr :=
  match dbNameToAddr trigger with
  | none => (.event140, .event140)
  | some trig => (.field trig, genSource dbNameToAddr gen trig)

/-- Its callers never pass a null pointer but for gen. -/
def ipimbAdd (s : State Addr) (name ttyName mdestIP : String) (physID dtype : BitVec 32)
    (gen : Option String) (trigger : String) (polarity : Int) (delay sync : String) :
    Except Fault (State Addr) := do
  let polarity := remapPolarity polarity
  let s := { s with inited := true }
  if (← ipimbFindDeviceByName s name).isSome then .error .suspended
  else if (← ipimbFindDeviceByTtyName s ttyName).isSome then .error .suspended
  else
    let source := sources dbNameToAddr gen trigger
    .ok { s with
      devices := s.devices ++
        [⟨name, ttyName, mdestIP, physID.toInt, source.1, source.2, polarity, delay, sync, trigger⟩]
      registered := s.registered ++ [(physID, dtype)] }

def nullString (declared : List IocshArg) (args : List IocshArgBuf) : Bool :=
  (declared.zip args).any fun arg =>
    match arg with
    | (⟨_, .string⟩, .sval none) => true
    | _ => false

def ipimbAddCall (s : State Addr) (args : List IocshArgBuf) : Except Fault (State Addr) :=
  if nullString ipimbAddArgs args then .ok s
  else do
    let name ← sval args 0
    let ttyName ← sval args 1
    let mdestIP ← sval args 2
    let physID ← ival args 3
    let dtype ← ival args 4
    let trigger ← sval args 6
    let polarity ← ival args 7
    let delay ← sval args 8
    let sync ← sval args 9
    ipimbAdd dbNameToAddr s name ttyName mdestIP (.ofInt 32 physID) (.ofInt 32 dtype) none trigger polarity
      delay sync

def ipimbTprAddCall (s : State Addr) (args : List IocshArgBuf) : Except Fault (State Addr) :=
  if nullString ipimbTprAddArgs args then .ok s
  else do
    let name ← sval args 0
    let ttyName ← sval args 1
    let mdestIP ← sval args 2
    let physID ← ival args 3
    let dtype ← ival args 4
    let gen ← sval args 5
    let trigger ← sval args 6
    let polarity ← ival args 7
    let delay ← sval args 8
    let sync ← sval args 9
    ipimbAdd dbNameToAddr s name ttyName mdestIP (.ofInt 32 physID) (.ofInt 32 dtype) (some gen) trigger
      polarity delay sync

end Add

/-! Command lines. -/

inductive Kind where
  | ipimbAdd
  | ipimbTprAdd
  deriving DecidableEq

def Kind.args : Kind → List IocshArg
  | .ipimbAdd => ipimbAddArgs
  | .ipimbTprAdd => ipimbTprAddArgs

/-- A command line as the shell converts it. -/
structure Command where
  kind : Kind
  args : List IocshArgBuf
  typed : args.map IocshArgBuf.type = kind.args.map IocshArg.type

def Command.Complete (command : Command) : Prop := ∀ arg ∈ command.args, arg ≠ .sval none

/-- The argument that was declared under a name. -/
def Command.declared (command : Command) (argName : ArgName) : Option IocshArgBuf :=
  ((command.kind.args.zip command.args).find? fun arg => arg.1.name = argName).map (·.2)

def Command.gen (command : Command) : Option String :=
  match command.declared .gen with
  | some (.sval gen) => gen
  | _ => none

section Script
variable {Addr : Type} (dbNameToAddr : String → Option Addr)

def Command.call (s : State Addr) (command : Command) : Except Fault (State Addr) :=
  match command.kind with
  | .ipimbAdd => ipimbAddCall dbNameToAddr s command.args
  | .ipimbTprAdd => ipimbTprAddCall dbNameToAddr s command.args

def script (s : State Addr) (commands : List Command) : Except Fault (State Addr) :=
  commands.foldlM (fun s command => command.call dbNameToAddr s) s

/-! What the user asked for. -/

/-- 0, 1 and 2 stand for negative-going, positive-going and no subtraction, all else for negative-going. -/
structure Mapped (argument polarity : Int) : Prop where
  negative : argument = 0 → polarity = -1
  positive : argument = 1 → polarity = 1
  off : argument = 2 → polarity = 0
  other : argument ≠ 0 → argument ≠ 1 → argument ≠ 2 → polarity = -1

structure Built (command : Command) (device : Device Addr) : Prop where
  name : command.declared .name = some (.sval (some device.name))
  ttyName : command.declared .ttyName = some (.sval (some device.ttyName))
  mdestIP : command.declared .mdestIP = some (.sval (some device.mdestIP))
  physID : ∃ value, command.declared .physID = some (.ival value) ∧
    device.physID = (BitVec.ofInt 32 value).toInt
  triggerName : command.declared .trigger = some (.sval (some device.triggerName))
  trigger : device.trigger = (dbNameToAddr device.triggerName).elim .event140 .field
  gen : device.gen = (dbNameToAddr device.triggerName).elim .event140 (genSource dbNameToAddr command.gen)
  polarity : ∃ value, command.declared .polarity = some (.ival value) ∧ Mapped value device.polarity
  delay : command.declared .delay = some (.sval (some device.delay))
  sync : command.declared .sync = some (.sval (some device.sync))

structure Registered (command : Command) (entry : BitVec 32 × BitVec 32) : Prop where
  physID : ∃ value, command.declared .physID = some (.ival value) ∧ entry.1 = .ofInt 32 value
  datatype : ∃ value, command.declared .datatype = some (.ival value) ∧ entry.2 = .ofInt 32 value

/-- One device a command, in order, and each found by its own name and serial port, once there is one. -/
structure Asked (commands : List Command) (s : State Addr) : Prop where
  built : List.Forall₂ (Built dbNameToAddr) commands s.devices
  registered : List.Forall₂ Registered commands s.registered
  names : (s.devices.map Device.name).Nodup
  ttyNames : (s.devices.map Device.ttyName).Nodup
  byName : ∀ name device,
    ipimbFindDeviceByName s name = .ok (some device) ↔ device ∈ s.devices ∧ name = device.name
  byTtyName : ∀ ttyName device,
    ipimbFindDeviceByTtyName s ttyName = .ok (some device) ↔ device ∈ s.devices ∧ ttyName = device.ttyName
  inited : s.inited = true ↔ commands ≠ []

end Script

theorem remapPolarity_mapped (argument : Int) : Mapped argument (remapPolarity argument) := by
  constructor
  · intro negative
    rw [negative]
    rfl
  · intro positive
    rw [positive]
    rfl
  · intro off
    rw [off]
    rfl
  · intro notZero notOne notTwo
    unfold remapPolarity
    split
    · exact absurd rfl notZero
    · exact absurd rfl notOne
    · exact absurd rfl notTwo
    · rfl

/-! Searches in the device list. -/

section Find
variable {α : Type} (key : α → String)

theorem find_key (entries : List α) (distinct : (entries.map key).Nodup) (wanted : String) (entry : α) :
    (entries.find? fun entry => wanted == key entry) = some entry ↔ entry ∈ entries ∧ wanted = key entry := by
  induction entries with
  | nil => simp
  | cons first rest ih =>
    rw [List.map_cons, List.nodup_cons] at distinct
    rw [List.find?_cons, List.mem_cons]
    by_cases here : wanted = key first
    · rw [beq_iff_eq.mpr here]
      constructor
      · intro found
        cases found
        exact ⟨Or.inl rfl, here⟩
      · intro match_
        rcases match_.1 with same | member
        · rw [same]
        · have again : key first ∈ rest.map key := by
            rw [← here, match_.2]
            exact List.mem_map_of_mem member
          exact absurd again distinct.1
    · rw [beq_false_of_ne here]
      refine (ih distinct.2).trans (and_congr_left fun same => ?_)
      have other : entry ≠ first := by
        intro equal
        exact here (equal ▸ same)
      exact (or_iff_right other).symm

theorem find_key_isSome (entries : List α) (wanted : String) :
    (entries.find? fun entry => wanted == key entry).isSome = true ↔ wanted ∈ entries.map key := by
  rw [List.find?_isSome, List.mem_map]
  refine exists_congr fun entry => and_congr_right fun _ => ?_
  rw [beq_iff_eq, eq_comm]

end Find

theorem findDeviceByName_iff {Addr : Type} {s : State Addr} (inited : s.inited = true)
    (distinct : (s.devices.map Device.name).Nodup) (name : String) (device : Device Addr) :
    ipimbFindDeviceByName s name = .ok (some device) ↔ device ∈ s.devices ∧ name = device.name := by
  rw [ipimbFindDeviceByName, if_pos inited, Except.ok.injEq]
  exact find_key Device.name s.devices distinct name device

theorem findDeviceByTtyName_iff {Addr : Type} {s : State Addr} (inited : s.inited = true)
    (distinct : (s.devices.map Device.ttyName).Nodup) (ttyName : String) (device : Device Addr) :
    ipimbFindDeviceByTtyName s ttyName = .ok (some device) ↔ device ∈ s.devices ∧ ttyName = device.ttyName := by
  rw [ipimbFindDeviceByTtyName, if_pos inited, Except.ok.injEq]
  exact find_key Device.ttyName s.devices distinct ttyName device

/-! The arguments of a command line, one by one. -/

theorem next_string {args : List IocshArgBuf} {types : List IocshArgType}
    (typed : args.map IocshArgBuf.type = .string :: types) (complete : ∀ arg ∈ args, arg ≠ .sval none) :
    ∃ value rest, args = .sval (some value) :: rest ∧ rest.map IocshArgBuf.type = types ∧
      ∀ arg ∈ rest, arg ≠ .sval none := by
  cases args with
  | nil => cases typed
  | cons arg rest =>
    obtain ⟨type, types_eq⟩ := List.cons.inj typed
    have present := complete arg List.mem_cons_self
    cases arg with
    | ival value => cases type
    | sval value =>
      cases value with
      | none => exact absurd rfl present
      | some value => exact ⟨value, rest, rfl, types_eq, fun arg member => complete arg (List.mem_cons_of_mem _ member)⟩

theorem next_int {args : List IocshArgBuf} {types : List IocshArgType}
    (typed : args.map IocshArgBuf.type = .int :: types) (complete : ∀ arg ∈ args, arg ≠ .sval none) :
    ∃ value rest, args = .ival value :: rest ∧ rest.map IocshArgBuf.type = types ∧
      ∀ arg ∈ rest, arg ≠ .sval none := by
  cases args with
  | nil => cases typed
  | cons arg rest =>
    obtain ⟨type, types_eq⟩ := List.cons.inj typed
    cases arg with
    | ival value => exact ⟨value, rest, rfl, types_eq, fun arg member => complete arg (List.mem_cons_of_mem _ member)⟩
    | sval value => cases type

section Calls
variable {Addr : Type} (dbNameToAddr : String → Option Addr)

theorem sources_eq (gen : Option String) (trigger : String) :
    sources dbNameToAddr gen trigger = ((dbNameToAddr trigger).elim .event140 .field,
      (dbNameToAddr trigger).elim .event140 (genSource dbNameToAddr gen)) := by
  unfold sources
  cases dbNameToAddr trigger <;> rfl

/-- A complete `ipimbAdd` takes its polarity for the name of the trigger. -/
theorem ipimbAdd_misread (s : State Addr) (command : Command) (kind : command.kind = .ipimbAdd)
    (complete : command.Complete) : command.call dbNameToAddr s = .error (.misread 6) := by
  obtain ⟨_, args, typed⟩ := command
  cases kind
  obtain ⟨name, rest, rfl, typed, complete⟩ := next_string typed complete
  obtain ⟨ttyName, rest, rfl, typed, complete⟩ := next_string typed complete
  obtain ⟨mdestIP, rest, rfl, typed, complete⟩ := next_string typed complete
  obtain ⟨physID, rest, rfl, typed, complete⟩ := next_int typed complete
  obtain ⟨datatype, rest, rfl, typed, complete⟩ := next_int typed complete
  obtain ⟨trigger, rest, rfl, typed, complete⟩ := next_string typed complete
  obtain ⟨polarity, rest, rfl, typed, complete⟩ := next_int typed complete
  obtain ⟨delay, rest, rfl, typed, complete⟩ := next_string typed complete
  obtain ⟨sync, rest, rfl, typed, -⟩ := next_string typed complete
  cases rest with
  | nil => rfl
  | cons arg rest => cases typed

/-- A complete `ipimbTprAdd` adds the device asked for, unless the name or the port is taken. -/
theorem ipimbTprAdd_built (s : State Addr) (command : Command) (kind : command.kind = .ipimbTprAdd)
    (complete : command.Complete) :
    command.call dbNameToAddr s = .error .suspended ∨
      ∃ device entry,
        command.call dbNameToAddr s = .ok ⟨true, s.devices ++ [device], s.registered ++ [entry]⟩ ∧
        Built dbNameToAddr command device ∧ Registered command entry ∧
          device.name ∉ s.devices.map Device.name ∧ device.ttyName ∉ s.devices.map Device.ttyName := by
  obtain ⟨_, args, typed⟩ := command
  cases kind
  obtain ⟨name, rest, rfl, typed, complete⟩ := next_string typed complete
  obtain ⟨ttyName, rest, rfl, typed, complete⟩ := next_string typed complete
  obtain ⟨mdestIP, rest, rfl, typed, complete⟩ := next_string typed complete
  obtain ⟨physID, rest, rfl, typed, complete⟩ := next_int typed complete
  obtain ⟨datatype, rest, rfl, typed, complete⟩ := next_int typed complete
  obtain ⟨gen, rest, rfl, typed, complete⟩ := next_string typed complete
  obtain ⟨trigger, rest, rfl, typed, complete⟩ := next_string typed complete
  obtain ⟨polarity, rest, rfl, typed, complete⟩ := next_int typed complete
  obtain ⟨delay, rest, rfl, typed, complete⟩ := next_string typed complete
  obtain ⟨sync, rest, rfl, typed, -⟩ := next_string typed complete
  cases rest with
  | nil =>
    show ipimbAdd dbNameToAddr s name ttyName mdestIP (.ofInt 32 physID) (.ofInt 32 datatype) (some gen)
      trigger polarity delay sync = _ ∨ _
    by_cases installed : (s.devices.find? fun device => name == device.name).isSome = true
    · exact Or.inl (if_pos installed)
    · by_cases inUse : (s.devices.find? fun device => ttyName == device.ttyName).isSome = true
      · exact Or.inl ((if_neg installed).trans (if_pos inUse))
      · refine Or.inr ⟨_, _, (if_neg installed).trans (if_neg inUse), ?_, ?_, ?_, ?_⟩
        · exact {
            name := rfl
            ttyName := rfl
            mdestIP := rfl
            physID := ⟨physID, rfl, rfl⟩
            triggerName := rfl
            trigger := congrArg Prod.fst (sources_eq dbNameToAddr (some gen) trigger)
            gen := congrArg Prod.snd (sources_eq dbNameToAddr (some gen) trigger)
            polarity := ⟨polarity, rfl, remapPolarity_mapped polarity⟩
            delay := rfl
            sync := rfl }
        · exact ⟨⟨physID, rfl, rfl⟩, ⟨datatype, rfl, rfl⟩⟩
        · exact fun taken => installed ((find_key_isSome Device.name _ _).mpr taken)
        · exact fun taken => inUse ((find_key_isSome Device.ttyName _ _).mpr taken)
  | cons arg rest => cases typed

def State.empty : State Addr := ⟨false, [], []⟩

theorem Asked.nil : Asked dbNameToAddr [] State.empty where
  built := .nil
  registered := .nil
  names := List.nodup_nil
  ttyNames := List.nodup_nil
  byName _ _ := ⟨nofun, nofun⟩
  byTtyName _ _ := ⟨nofun, nofun⟩
  inited := ⟨nofun, fun some_command => absurd rfl some_command⟩

theorem Asked.concat {commands : List Command} {s : State Addr} {command : Command} {device : Device Addr}
    {entry : BitVec 32 × BitVec 32} (asked : Asked dbNameToAddr commands s)
    (built : Built dbNameToAddr command device) (registered : Registered command entry)
    (name : device.name ∉ s.devices.map Device.name)
    (ttyName : device.ttyName ∉ s.devices.map Device.ttyName) :
    Asked dbNameToAddr (commands ++ [command]) ⟨true, s.devices ++ [device], s.registered ++ [entry]⟩ := by
  have names : ((s.devices ++ [device]).map Device.name).Nodup := by
    rw [List.map_append, List.map_singleton, ← List.concat_eq_append]
    exact asked.names.concat name
  have ttyNames : ((s.devices ++ [device]).map Device.ttyName).Nodup := by
    rw [List.map_append, List.map_singleton, ← List.concat_eq_append]
    exact asked.ttyNames.concat ttyName
  exact {
    built := List.rel_append asked.built (.cons built .nil)
    registered := List.rel_append asked.registered (.cons registered .nil)
    names := names
    ttyNames := ttyNames
    byName := findDeviceByName_iff rfl names
    byTtyName := findDeviceByTtyName_iff rfl ttyNames
    inited := ⟨fun _ => by simp, fun _ => rfl⟩ }

theorem script_concat (commands : List Command) (command : Command) :
    script dbNameToAddr State.empty (commands ++ [command]) =
      (script dbNameToAddr State.empty commands).bind fun s => command.call dbNameToAddr s := by
  rw [script, List.foldlM_append]
  simp only [List.foldlM_cons, List.foldlM_nil, bind_pure]
  rfl

theorem script_asked (commands : List Command) (complete : ∀ command ∈ commands, command.Complete)
    (tpr : ∀ command ∈ commands, command.kind = .ipimbTprAdd) :
    script dbNameToAddr State.empty commands = .error .suspended ∨
      ∃ s, script dbNameToAddr State.empty commands = .ok s ∧ Asked dbNameToAddr commands s := by
  induction commands using List.reverseRecOn with
  | nil => exact Or.inr ⟨State.empty, rfl, Asked.nil dbNameToAddr⟩
  | append_singleton commands command ih =>
    rw [List.forall_mem_append, List.forall_mem_singleton] at complete tpr
    rw [script_concat]
    rcases ih complete.1 tpr.1 with suspended | ⟨s, reached, asked⟩
    · exact Or.inl (by rw [suspended]; rfl)
    · rw [reached]
      rcases ipimbTprAdd_built dbNameToAddr s command tpr.2 complete.2 with suspended | added
      · exact Or.inl suspended
      · obtain ⟨device, entry, called, built, registered, name, ttyName⟩ := added
        exact Or.inr ⟨_, called, asked.concat dbNameToAddr built registered name ttyName⟩

/-- A script with an `ipimbAdd` does not come to its end. -/
theorem script_tpr (commands : List Command) (complete : ∀ command ∈ commands, command.Complete)
    (s : State Addr) (reached : script dbNameToAddr State.empty commands = .ok s) :
    ∀ command ∈ commands, command.kind = .ipimbTprAdd := by
  induction commands using List.reverseRecOn generalizing s with
  | nil => exact fun command member => absurd member List.not_mem_nil
  | append_singleton commands command ih =>
    rw [List.forall_mem_append, List.forall_mem_singleton] at complete ⊢
    rw [script_concat] at reached
    cases before : script dbNameToAddr State.empty commands with
    | error fault =>
      rw [before] at reached
      cases reached
    | ok t =>
      refine ⟨ih complete.1 t before, ?_⟩
      cases kind : command.kind with
      | ipimbTprAdd => rfl
      | ipimbAdd =>
        rw [before] at reached
        have misread := ipimbAdd_misread dbNameToAddr t command kind complete.2
        have called : command.call dbNameToAddr t = .ok s := reached
        rw [misread] at called
        cases called

end Calls

/-! Scripts for two boxes; no trigger is known. -/

def unknown : String → Option Nat := fun _ => none

def tprCommand (name ttyName : String) (polarity : Int) : Command where
  kind := .ipimbTprAdd
  args := [.sval (some name), .sval (some ttyName), .sval (some "239.255.24.1"), .ival 1, .ival 7,
    .sval (some "GEN"), .sval (some "TRIG"), .ival polarity, .sval (some "DELAY"), .sval (some "SYNC")]
  typed := rfl

theorem tprCommand_complete (name ttyName : String) (polarity : Int) :
    (tprCommand name ttyName polarity).Complete := by
  intro arg member null
  subst null
  simp [tprCommand] at member

end Ipimb.Shell
