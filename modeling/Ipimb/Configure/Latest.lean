import Ipimb.Configure.Accepted
import Ipimb.Configure.Generation
import Ipimb.Library.Writes

/-!
Request after request, on a board that answers everything and keeps what it is given: each setting is the one
of the last pass that has not refused it, and when all requests have been served and the last one has been
accepted, all settings are those of the last request, whatever there has been before.
-/

namespace Ipimb.Latest
open Ipimb.Pass
open Ipimb.Applied (Legal)
open Ipimb.Accepted (windowWord)

/-- The registers that hold settings, in the order of the pass. -/
def kept : List (BitVec 8) :=
  [Reg.bias_data, Reg.rg_config, Reg.biasdac_data_config, Reg.reset, Reg.trig_delay, Reg.trig_ps_delay,
    Reg.adc_delay]

/-- All reads are answered, the version is the one expected, and a setting stays as it was last written. -/
structure Keeps {β : Type} (io : Port β) (register : BitVec 8 → β → BitVec 32) : Prop where
  answers : ∀ regAddr b, (io.read regAddr b).1.failed = false
  version : ∀ b, (io.read Reg.vhdl_version b).1.value = newVhdlVersion
  read_keeps : ∀ setting ∈ kept, ∀ regAddr b, register setting (io.read regAddr b).2 = register setting b
  write_keeps : ∀ setting ∈ kept, ∀ regAddr value b, setting ≠ regAddr →
    register setting (io.write regAddr value b) = register setting b
  write_sets : ∀ setting ∈ kept, ∀ value b, register setting (io.write setting value b) = value.value

theorem settings_kept : ∀ setting ∈ Accepted.settings, setting ∈ kept := by decide

theorem Keeps.healthy {β : Type} {io : Port β} {register : BitVec 8 → β → BitVec 32} (keeps : Keeps io register) :
    Accepted.Healthy io register where
  answers := keeps.answers
  version := keeps.version
  read_keeps setting member := keeps.read_keeps setting (settings_kept setting member)
  write_keeps setting member := keeps.write_keeps setting (settings_kept setting member)
  write_sets setting member := keeps.write_sets setting (settings_kept setting member)

/-! What a pass writes. -/

section Words
variable {V : Type} (steps : Steps V) (config : ConfigV2 V)

def unrefused (refused : Prop) [Decidable refused] (word : BitVec 32) : Option (BitVec 32) :=
  if refused then none else some word

def delayWord (ns : BitVec 32) : Option (BitVec 32) := unrefused (ticks ns > 0xffff#32) (ticks ns)

def gainWord : BitVec 32 :=
  chargeAmplifierMultiplier fun i => multChan (config.chargeAmpRange.setWidth 32) i

def windowRefused : Prop :=
  ¬(ticks config.resetLength ≤ 0xfffff#32 ∧ ticks (config.resetDelay.setWidth 32) ≤ 0xfff#32)

instance : Decidable (windowRefused config) := inferInstanceAs (Decidable (¬_))

def words : List (BitVec 8 × Option (BitVec 32)) :=
  [(Reg.bias_data, unrefused (steps.chargeAmpRef config.chargeAmpRefVoltage ≥ chargeAmpRefSteps)
      (steps.chargeAmpRef config.chargeAmpRefVoltage)),
    (Reg.rg_config, some (gainWord config)),
    (Reg.biasdac_data_config, unrefused (steps.inputBias config.diodeBias ≥ inputBiasSteps)
      (steps.inputBias config.diodeBias)),
    (Reg.reset, unrefused (windowRefused config) (windowWord config.resetLength config.resetDelay)),
    (Reg.trig_delay, delayWord config.trigDelay),
    (Reg.trig_ps_delay, delayWord hardCodedPresampleDelay),
    (Reg.adc_delay, delayWord hardCodedAdcDelay)]

def written : BitVec 8 → Option (BitVec 32) := Writes.together (words steps config)

theorem written_of_mem (setting : BitVec 8) (word : Option (BitVec 32))
    (member : (setting, word) ∈ words steps config) : written steps config setting = word := by
  have once : ((words steps config).map Prod.fst).Nodup := by
    show kept.Nodup
    decide
  exact Writes.together_of_mem _ setting word once member

def accepted : List (BitVec 8 × BitVec 32) :=
  [(Reg.bias_data, steps.chargeAmpRef config.chargeAmpRefVoltage), (Reg.rg_config, gainWord config),
    (Reg.biasdac_data_config, steps.inputBias config.diodeBias),
    (Reg.reset, windowWord config.resetLength config.resetDelay), (Reg.trig_delay, ticks config.trigDelay),
    (Reg.trig_ps_delay, ticks hardCodedPresampleDelay), (Reg.adc_delay, ticks hardCodedAdcDelay)]

theorem words_of_legal (legal : Legal steps config) :
    words steps config = (accepted steps config).map fun word => (word.1, some word.2) := by
  have counted : ticks hardCodedPresampleDelay ≤ 0xffff#32 ∧ ticks hardCodedAdcDelay ≤ 0xffff#32 := by decide
  simp [words, accepted, delayWord, unrefused, windowRefused, counted, legal.resetLength, legal.resetDelay,
    legal.chargeAmpRef, legal.inputBias, legal.trigDelay]

theorem written_of_legal (legal : Legal steps config) (setting : BitVec 8) (word : BitVec 32)
    (member : (setting, word) ∈ accepted steps config) : written steps config setting = some word := by
  apply written_of_mem
  rw [words_of_legal steps config legal]
  exact List.mem_map_of_mem member

theorem kept_accepted (setting : BitVec 8) (member : setting ∈ kept) :
    ∃ word, (setting, word) ∈ accepted steps config := by
  have names : (accepted steps config).map Prod.fst = kept := rfl
  rw [← names] at member
  obtain ⟨⟨setting, word⟩, found, rfl⟩ := List.mem_map.mp member
  exact ⟨word, found⟩

end Words

section Pass
variable {β V : Type} (register : BitVec 8 → β → BitVec 32)

/-- From d to d' the settings change by these writes. -/
def Written (d d' : Driver β) (writes : BitVec 8 → Option (BitVec 32)) : Prop :=
  ∀ setting ∈ kept, register setting d'.port = Writes.apply writes (fun r => register r d.port) setting

variable {register} {d d' d'' : Driver β} {io : Port β}

theorem Written.trans {first later : BitVec 8 → Option (BitVec 32)} (before : Written register d d' first)
    (after : Written register d' d'' later) : Written register d d'' (Writes.andThen first later) := by
  intro setting member
  rw [after setting member, Writes.apply_andThen, Writes.apply, Writes.apply, before setting member]

theorem check_written (d : Driver β) (ok : Bool) : Written register d (check d ok) Writes.none := by
  cases ok <;> exact fun _ _ => rfl

theorem unrefused_written {refused : Prop} [Decidable refused] {setting : BitVec 8} {word : BitVec 32}
    (set : Written register d d' (Writes.single setting (some word))) :
    Written register d (if refused then d.fail else d') (Writes.single setting (unrefused refused word)) := by
  unfold unrefused
  split
  · intro other _
    by_cases same : other = setting
    · rw [Writes.apply, Writes.single, same, Function.update_self]
      rfl
    · rw [Writes.apply, Writes.single, Function.update_of_ne same]
      rfl
  · exact set

variable (keeps : Keeps io register) (d)
include keeps

theorem readRegister_written (regAddr : BitVec 8) :
    Written register d (readRegister io d regAddr).2 Writes.none :=
  fun setting member => keeps.read_keeps setting member regAddr d.port

theorem writeRegister_written (setting : BitVec 8) (member : setting ∈ kept) (value : BitVec 32) :
    Written register d (writeRegister io d setting (plain value)) (Writes.single setting (some value)) := by
  intro other among
  by_cases same : other = setting
  · rw [same, Writes.apply, Writes.single, Function.update_self]
    exact keeps.write_sets setting member (plain value) d.port
  · rw [Writes.apply, Writes.single, Function.update_of_ne same]
    exact keeps.write_keeps other among setting (plain value) d.port same

theorem writeOther_written (regAddr : BitVec 8) (other : regAddr ∉ kept) (value : Tracked) :
    Written register d (writeRegister io d regAddr value) Writes.none :=
  fun setting member =>
    keeps.write_keeps setting member regAddr value d.port (ne_of_mem_of_not_mem member other)

theorem setCalibrationMode_written (channels : Fin 4 → Bool) :
    Written register d (setCalibrationMode io d channels) Writes.none :=
  (readRegister_written d keeps Reg.cal_rg_config).trans
    (writeOther_written _ keeps Reg.cal_rg_config (by decide) _)

theorem setTriggerCounter_written (start0 start1 : BitVec 32) :
    Written register d (setTriggerCounter io d start0 start1) Writes.none :=
  (writeOther_written d keeps Reg.timestamp0 (by decide) _).trans
    (writeOther_written _ keeps Reg.timestamp1 (by decide) _)

theorem setInputBias_written (steps : Steps V) (biasVoltage : V) :
    Written register d (setInputBias steps io d biasVoltage) (Writes.single Reg.biasdac_data_config
      (unrefused (steps.inputBias biasVoltage ≥ inputBiasSteps) (steps.inputBias biasVoltage))) := by
  refine unrefused_written ?_
  have read := readRegister_written d keeps Reg.biasdac_data_config
  have set := read.trans (writeRegister_written _ keeps Reg.biasdac_data_config (by decide)
    (steps.inputBias biasVoltage))
  rwa [Writes.none_andThen] at set

theorem setChannelAcquisitionWindow_written (config : ConfigV2 V) :
    Written register d (setChannelAcquisitionWindow io d config.resetLength config.resetDelay)
      (Writes.single Reg.reset
        (unrefused (windowRefused config) (windowWord config.resetLength config.resetDelay))) := by
  have eq := Delays.window_eq io d config.resetLength config.resetDelay
  rw [← ite_not] at eq
  rw [eq]
  exact unrefused_written (writeRegister_written d keeps Reg.reset (by decide) _)

theorem setDelay_written (regAddr : BitVec 8) (member : regAddr ∈ kept) (ns : BitVec 32) :
    Written register d (setDelay io d regAddr ns) (Writes.single regAddr (delayWord ns)) :=
  unrefused_written (writeRegister_written d keeps regAddr member (ticks ns))

theorem setChargeAmplifierRef_written (steps : Steps V) (refVoltage : V) :
    Written register d (setChargeAmplifierRef steps io d refVoltage) (Writes.single Reg.bias_data
      (unrefused (steps.chargeAmpRef refVoltage ≥ chargeAmpRefSteps) (steps.chargeAmpRef refVoltage))) :=
  unrefused_written (writeRegister_written d keeps Reg.bias_data (by decide) _)

/-- All settings are made or refused one by one, whatever has been refused before. -/
theorem applyConfig_written (steps : Steps V) (config : ConfigV2 V) (vhdlVersion : BitVec 32) :
    Written register d (applyConfig steps io d config vhdlVersion) (written steps config) := by
  have mode := setCalibrationMode_written d keeps fun _ => false
  have counter := mode.trans (setTriggerCounter_written _ keeps
    (((0xFFFFFFFF00000000#64 &&& config.triggerCounter) >>> 32).setWidth 32)
    ((0xFFFFFFFF#64 &&& config.triggerCounter).setWidth 32))
  have ref := counter.trans (setChargeAmplifierRef_written _ keeps steps config.chargeAmpRefVoltage)
  have version := ref.trans (check_written _ (vhdlVersion == newVhdlVersion))
  have gain := version.trans (check_written _ (gainOk (config.chargeAmpRange.setWidth 32)))
  have multiplier := gain.trans (writeRegister_written _ keeps Reg.rg_config (by decide) (gainWord config))
  have bias := multiplier.trans (setInputBias_written _ keeps steps config.diodeBias)
  have window := bias.trans (setChannelAcquisitionWindow_written _ keeps config)
  have delay := window.trans (setDelay_written _ keeps Reg.trig_delay (by decide) config.trigDelay)
  have presample := delay.trans
    (setDelay_written _ keeps Reg.trig_ps_delay (by decide) hardCodedPresampleDelay)
  have presamples := presample.trans (check_written _
    !(hardCodedPresampleDelay + hardCodedTotalPresampleTime > config.trigDelay))
  have adc := presamples.trans (setDelay_written _ keeps Reg.adc_delay (by decide) hardCodedAdcDelay)
  rw [Writes.andThen_none, Writes.andThen_none, Writes.andThen_none, Writes.andThen_none] at adc
  exact adc

theorem readBack_written (config : ConfigV2 V) :
    Written register d (readBack io d config).1 Writes.none := by
  have serial := (readRegister_written d keeps Reg.serid0).trans
    (readRegister_written _ keeps Reg.serid1)
  have errors := serial.trans (readRegister_written _ keeps Reg.errors)
  exact errors.trans (readRegister_written _ keeps Reg.status)

theorem doConfigure_written (steps : Steps V) (config : ConfigV2 V) :
    Written register d (doConfigure steps io d config).1 (written steps config) := by
  have cleared := writeOther_written { d with configOk := true } keeps Reg.errors (by decide)
    (plain 0xffff#32)
  have opened := cleared.trans (readRegister_written _ keeps Reg.vhdl_version)
  have applied := opened.trans (applyConfig_written _ keeps steps config newVhdlVersion)
  have whole := applied.trans (readBack_written _ keeps config)
  have answered := keeps.version
    (writeRegister io { d with configOk := true } Reg.errors (plain 0xffff#32)).port
  have expected : newVhdlVersion ≠ Register.badValue := by decide
  have same : (doConfigure steps io d config).1 =
      (readBack io (applyConfig steps io (readRegister io
        (writeRegister io { d with configOk := true } Reg.errors (plain 0xffff#32)) Reg.vhdl_version).2
          config newVhdlVersion) config).1 := by
    simp only [doConfigure, readRegister, answered, if_neg expected]
  rw [same]
  rw [Writes.andThen_none, Writes.andThen_none, Writes.none_andThen] at whole
  exact whole

end Pass

/-! The configurer thread with its port. Nothing else uses these registers, so that a pass can be taken in one
step; requests come before and after that. -/

section Machine
variable {β V : Type} (steps : Steps V) (io : Port β)

structure State (β V : Type) where
  gen : Generation.State (ConfigV2 V)
  port : β

def State.init (newconfig : ConfigV2 V) (port : β) : State β V := ⟨.init newconfig, port⟩

def State.driven (s : State β V) (config : ConfigV2 V) : Driver β :=
  (doConfigure steps io ⟨s.port, s.gen.configOk⟩ config).1

/-- The checks of a pass are taken together, and it does not end without them. -/
def step (s : State β V) : Generation.Action (ConfigV2 V) → Option (State β V)
  | .check ok =>
    match s.gen.pc with
    | .running p =>
      if p.checks = [] ∧ ok = (s.driven steps io p.config).configOk then
        (Generation.check s.gen ok).map fun gen => ⟨gen, (s.driven steps io p.config).port⟩
      else none
    | _ => none
  | .finish =>
    match s.gen.pc with
    | .running p => if p.checks = [] then none else (Generation.finish s.gen).map fun gen => { s with gen := gen }
    | _ => none
  | a => (Generation.step s.gen a).map fun gen => { s with gen := gen }

/-- The configurations of the passes that have been taken, in order. -/
def State.taken (s : State β V) : List (ConfigV2 V) :=
  (s.gen.started.filter fun p => !p.checks.isEmpty).map (·.config)

theorem step_gen (s : State β V) (a : Generation.Action (ConfigV2 V)) (s' : State β V)
    (done : step steps io s a = some s') : Generation.step s.gen a = some s'.gen := by
  cases a with
  | check ok =>
    simp only [step] at done
    split at done
    · split_ifs at done
      obtain ⟨gen, checked, rfl⟩ := Option.map_eq_some_iff.mp done
      exact checked
    · cases done
  | finish =>
    simp only [step] at done
    split at done
    · split_ifs at done
      obtain ⟨gen, finished, rfl⟩ := Option.map_eq_some_iff.mp done
      exact finished
    · cases done
  | _ =>
    obtain ⟨gen, moved, rfl⟩ := Option.map_eq_some_iff.mp done
    exact moved

/-- What the passes taken have left in the registers, and what they have found. -/
structure Inv (register : BitVec 8 → β → BitVec 32) (first : β) (s : State β V) : Prop where
  registers : ∀ setting ∈ kept, register setting s.port =
    Writes.apply (Writes.last (s.taken.map (written steps))) (fun regAddr => register regAddr first) setting
  outcomes : ∀ p ∈ s.gen.started, p.checks ≠ [] → (p.outcome = true ↔ Legal steps p.config)
  whole : ∀ p ∈ s.gen.passes, p.checks ≠ []

variable {steps io} {register : BitVec 8 → β → BitVec 32} {first : β}

theorem Inv.init (newconfig : ConfigV2 V) (port : β) : Inv steps register port (State.init newconfig port) where
  registers _ _ := rfl
  outcomes _ none := absurd none List.not_mem_nil
  whole _ none := absurd none List.not_mem_nil

section Steps
variable {s s' : State β V} (inv : Inv steps register first s)
include inv

theorem unmoved_inv {gen : Generation.State (ConfigV2 V)} (started : gen.started = s.gen.started)
    (whole : ∀ p ∈ gen.passes, p.checks ≠ []) : Inv steps register first ⟨gen, s.port⟩ := by
  refine ⟨?_, ?_, whole⟩
  · rw [State.taken, started]
    exact inv.registers
  · rw [started]
    exact inv.outcomes

theorem copy_inv (done : step steps io s .copy = some s') : Inv steps register first s' := by
  obtain ⟨gen, moved, rfl⟩ := Option.map_eq_some_iff.mp done
  simp only [Generation.step, Generation.copy] at moved
  split at moved
  next at_pc =>
    cases moved
    have started : s.gen.started = s.gen.passes := by
      rw [Generation.State.started, at_pc]
      exact List.append_nil _
    refine ⟨?_, ?_, inv.whole⟩
    · have registers := inv.registers
      rw [State.taken, started] at registers
      rw [State.taken]
      simpa [Generation.State.started, Generation.Pc.current] using registers
    · intro p member checked
      rcases List.mem_append.mp member with old | new
      · exact inv.outcomes p (started ▸ old) checked
      · cases List.mem_singleton.mp new
        exact absurd rfl checked
  next => cases moved

theorem check_inv (keeps : Keeps io register) (ok : Bool) (done : step steps io s (.check ok) = some s') :
    Inv steps register first s' := by
  simp only [step] at done
  split at done
  next p at_pc =>
    split_ifs at done with pass
    obtain ⟨gen, moved, rfl⟩ := Option.map_eq_some_iff.mp done
    rw [Generation.check, at_pc] at moved
    cases moved
    have started : s.gen.started = s.gen.passes ++ [p] := by
      rw [Generation.State.started, at_pc]
      rfl
    have accepted : ok = true ↔ Legal steps p.config := by
      rw [pass.2]
      exact Accepted.doConfigure_accepted ⟨s.port, s.gen.configOk⟩ keeps.healthy steps p.config
    have outcomes := inv.outcomes
    rw [started] at outcomes
    refine ⟨?_, ?_, inv.whole⟩
    · have before : s.taken = (s.gen.passes.filter fun p => !p.checks.isEmpty).map (·.config) := by
        simp [State.taken, started, pass.1]
      have registers := inv.registers
      rw [before] at registers
      have after : (s.gen.passes ++ [{ p with checks := p.checks ++ [ok] }]).filter (fun p => !p.checks.isEmpty) =
          (s.gen.passes.filter fun p => !p.checks.isEmpty) ++ [{ p with checks := p.checks ++ [ok] }] := by
        simp
      intro setting member
      rw [State.taken]
      simp only [Generation.State.started, Generation.Pc.current, Option.toList_some]
      rw [after, List.map_append, List.map_append, List.map_singleton, List.map_singleton,
        Writes.apply_last_concat]
      calc register setting (s.driven steps io p.config).port
          = Writes.apply (written steps p.config) (fun regAddr => register regAddr s.port) setting :=
            doConfigure_written ⟨s.port, s.gen.configOk⟩ keeps steps p.config setting member
        _ = _ := Writes.apply_congr _ (registers setting member)
    · intro q member checked
      rcases List.mem_append.mp member with old | new
      · exact outcomes q (List.mem_append_left _ old) checked
      · cases List.mem_singleton.mp new
        rw [Generation.Pass.outcome, pass.1]
        simpa using accepted
  next => cases done

theorem finish_inv (done : step steps io s .finish = some s') : Inv steps register first s' := by
  simp only [step] at done
  split at done
  next p at_pc =>
    split_ifs at done with unchecked
    obtain ⟨gen, moved, rfl⟩ := Option.map_eq_some_iff.mp done
    rw [Generation.finish, at_pc] at moved
    cases moved
    apply unmoved_inv inv
    · rw [Generation.State.started, Generation.State.started, at_pc]
      exact List.append_nil _
    · intro q member
      rcases List.mem_append.mp member with old | new
      · exact inv.whole q old
      · cases List.mem_singleton.mp new
        exact unchecked
  next => cases done


theorem step_inv (keeps : Keeps io register) (a : Generation.Action (ConfigV2 V))
    (done : step steps io s a = some s') : Inv steps register first s' := by
  cases a with
  | configure config =>
    obtain ⟨gen, moved, rfl⟩ := Option.map_eq_some_iff.mp done
    simp only [Generation.step, Generation.configure] at moved
    split_ifs at moved
    cases moved
    exact unmoved_inv inv (Generation.started_configured s.gen config) inv.whole
  | test =>
    obtain ⟨gen, moved, rfl⟩ := Option.map_eq_some_iff.mp done
    simp only [Generation.step, Generation.test] at moved
    split at moved
    next at_pc =>
      split_ifs at moved <;> cases moved <;> refine unmoved_inv inv ?_ inv.whole <;>
        rw [Generation.State.started, Generation.State.started, at_pc] <;> rfl
    next => cases moved
  | copy => exact copy_inv inv done
  | check ok => exact check_inv inv keeps ok done
  | finish => exact finish_inv inv done
  | _ =>
    obtain ⟨gen, moved, rfl⟩ := Option.map_eq_some_iff.mp done
    simp only [Generation.step, Generation.lock, Generation.wait, Generation.spurious, Generation.regain,
      Generation.start] at moved
    split at moved
    next at_pc =>
      cases moved
      refine unmoved_inv inv ?_ inv.whole
      rw [Generation.State.started, Generation.State.started, at_pc]
      rfl
    next => cases moved

end Steps

/-! The passes and the requests. -/

/-- What is taken at places that increase is taken in order. -/
theorem passes_sublist (requests : List (ConfigV2 V)) (passes : List (Generation.Pass (ConfigV2 V))) (n : Nat)
    (used : ∀ p ∈ passes, 0 < p.made ∧ p.made ≤ n ∧ requests[p.made - 1]? = some p.config)
    (increasing : passes.Pairwise fun p q => p.made < q.made) :
    (passes.map (·.config)).Sublist (requests.take n) := by
  induction passes using List.reverseRecOn generalizing n with
  | nil => exact List.nil_sublist _
  | append_singleton before p ih =>
    obtain ⟨positive, bound, found⟩ := used p (List.mem_append_right _ (List.mem_singleton_self p))
    obtain ⟨earlier, -, later⟩ := List.pairwise_append.mp increasing
    have first := ih (p.made - 1) (fun q member => by
      obtain ⟨some_made, -, at_q⟩ := used q (List.mem_append_left _ member)
      have less := later q member p (List.mem_singleton_self p)
      exact ⟨some_made, by omega, at_q⟩) earlier
    have here : requests.take p.made = requests.take (p.made - 1) ++ [p.config] := by
      conv_lhs => rw [show p.made = p.made - 1 + 1 by omega]
      rw [List.take_add_one, found, Option.toList_some]
    rw [List.map_append, List.map_singleton]
    refine List.Sublist.trans ?_ (List.take_sublist_take_left bound)
    rw [here]
    exact first.append (List.Sublist.refl _)

/-- With the flag down, the last pass has ended and was run with the last request. -/
theorem last_of_idle {gen : Generation.State (ConfigV2 V)} (inv : Generation.Inv gen)
    (off : gen.confInProgress = false) (config : ConfigV2 V) (last : gen.requests.getLast? = some config) :
    gen.started = gen.passes ∧
      ∃ p, gen.passes.getLast? = some p ∧ p.config = config ∧ gen.configOk = p.outcome := by
  obtain ⟨copied, between⟩ := inv.idle off
  have started : gen.started = gen.passes := by
    rw [Generation.State.started, between]
    exact List.append_nil _
  have positive : gen.copied ≠ 0 := by
    intro none
    rw [copied, List.length_eq_zero_iff] at none
    rw [none] at last
    cases last
  obtain ⟨p, ended, made⟩ := inv.latest.resolve_left positive
  have used := inv.used p (List.mem_of_getLast? ended)
  rw [started] at ended
  refine ⟨started, p, ended, ?_, (Generation.outcome_between between).mp inv.outcome p ended⟩
  rw [List.getLast?_eq_getElem?, ← copied, ← made, used.2.2] at last
  exact Option.some.inj last

theorem idle_latest {s : State β V} (inv : Inv steps register first s) (gen_inv : Generation.Inv s.gen)
    (off : s.gen.confInProgress = false) (config : ConfigV2 V) (last : s.gen.requests.getLast? = some config) :
    s.taken.getLast? = some config ∧ (s.gen.configOk = true ↔ Legal steps config) ∧
      (Legal steps config →
        ∀ setting ∈ kept, written steps config setting = some (register setting s.port)) := by
  obtain ⟨started, p, ended, same, reported⟩ := last_of_idle gen_inv off config last
  have all : s.gen.started.filter (fun p => !p.checks.isEmpty) = s.gen.passes := by
    rw [started]
    refine List.filter_eq_self.mpr fun q member => ?_
    simpa using inv.whole q member
  have taken : s.taken = s.gen.passes.map (·.config) := by rw [State.taken, all]
  have final : s.taken.getLast? = some config := by
    rw [taken, List.getLast?_map, ended, ← same]
    rfl
  have outcome : s.gen.configOk = true ↔ Legal steps config := by
    rw [reported, ← same]
    exact inv.outcomes p (started ▸ List.mem_of_getLast? ended) (inv.whole p (List.mem_of_getLast? ended))
  refine ⟨final, outcome, ?_⟩
  intro legal setting member
  obtain ⟨word, found⟩ := kept_accepted steps config setting member
  have wrote := written_of_legal steps config legal setting word found
  obtain ⟨before, split⟩ := List.getLast?_eq_some_iff.mp final
  have registers := inv.registers setting member
  rw [split, List.map_append, List.map_singleton, Writes.apply_last_of_some _ _ _ wrote] at registers
  rw [wrote, registers]

/-- On a board that keeps its settings, each of them is what the last pass that has not refused it gave it,
and the passes are some of the requests in their order. With the flag down the last pass is that of the last
request, `config_ok` says whether that was legal, and if it was, nothing is left of the requests before. -/
theorem settings_latest (keeps : Keeps io register) (newconfig : ConfigV2 V) (port : β)
    (actions : List (Generation.Action (ConfigV2 V))) (s : State β V)
    (reached : Transition.run (step steps io) (State.init newconfig port) actions = some s)
    (few : s.gen.requests.length < 2 ^ 31) :
    (∀ setting ∈ kept, register setting s.port =
      Writes.apply (Writes.last (s.taken.map (written steps))) (fun regAddr => register regAddr port) setting) ∧
      s.taken.Sublist s.gen.requests ∧
      (s.gen.confInProgress = false → ∀ config ∈ s.gen.requests.getLast?,
        s.taken.getLast? = some config ∧ (s.gen.configOk = true ↔ Legal steps config) ∧
          (Legal steps config →
            ∀ setting ∈ kept, written steps config setting = some (register setting s.port))) := by
  have inv := Transition.run_invariant (step steps io) (Inv steps register port)
    (fun s a s' before done => step_inv before keeps a done) (Inv.init newconfig port) reached
  obtain ⟨gen, simulated, rfl⟩ := Transition.run_simulates
    (fun (s : State β V) (gen : Generation.State (ConfigV2 V)) => s.gen = gen)
    (fun s gen a s' same done => ⟨s'.gen, by rw [← same]; exact step_gen steps io s a s' done, rfl⟩) rfl reached
  have gen_inv := Generation.run_inv newconfig actions s.gen simulated few
  refine ⟨inv.registers, ?_, ?_⟩
  · have ordered := passes_sublist s.gen.requests s.gen.started s.gen.requests.length
      (fun p member => by
        obtain ⟨positive, bound, found⟩ := gen_inv.used p member
        exact ⟨positive, bound.trans gen_inv.copied_le, found⟩) gen_inv.increasing
    rw [List.take_length] at ordered
    exact (List.filter_sublist.map _).trans ordered
  · intro off config last
    exact idle_latest inv gen_inv off config last

end Machine

deriving instance DecidableEq for ConfigV2

def tooLong : ConfigV2 Nat := { Applied.quiet with chargeAmpRange := 0x3333, resetLength := 0x800000 }

theorem registers_keeps : Keeps Accepted.registers fun regAddr file => file regAddr where
  answers _ _ := rfl
  version _ := rfl
  read_keeps _ _ _ _ := rfl
  write_keeps _ _ _ _ _ apart := Function.update_of_ne apart _ _
  write_sets _ _ _ _ := Function.update_self _ _ _

/-- The second request comes during the pass of the first and is refused for its window: the gains are its
own then, and the window is still that of the first. -/
theorem settings_latest_mixed :
    ∃ s : State (BitVec 8 → BitVec 32) Nat,
      Transition.run (step Applied.wholeVolts Accepted.registers) (State.init Applied.quiet fun _ => 0#32)
        [.configure Applied.quiet, .lock, .test, .copy, .start, .configure tooLong, .check true, .finish, .lock,
          .test, .copy, .start, .check false, .finish, .lock, .test, .wait] = some s ∧
      s.gen.confInProgress = false ∧ s.gen.configOk = false ∧ s.port Reg.rg_config = 0x4444#32 ∧
      s.port Reg.reset = 0x1e848200#32 := by
  have computed : (Transition.run (step Applied.wholeVolts Accepted.registers)
      (State.init Applied.quiet fun _ => 0#32)
      [.configure Applied.quiet, .lock, .test, .copy, .start, .configure tooLong, .check true, .finish, .lock,
        .test, .copy, .start, .check false, .finish, .lock, .test, .wait]).map
      (fun s => (s.gen.requests, s.gen.confInProgress, s.taken)) =
        some ([Applied.quiet, tooLong], false, [Applied.quiet, tooLong]) := by
    decide +kernel
  obtain ⟨s, reached, seen⟩ := Option.map_eq_some_iff.mp computed
  injection seen with requests rest
  injection rest with flag taken
  have few : s.gen.requests.length < 2 ^ 31 := by
    rw [requests]
    decide
  obtain ⟨settings, -, idle⟩ :=
    settings_latest registers_keeps Applied.quiet (fun _ => 0#32) _ s reached few
  obtain ⟨-, outcome, -⟩ := idle flag tooLong (by rw [requests]; rfl)
  rw [taken] at settings
  have refused : ¬Legal Applied.wholeVolts tooLong := fun legal => absurd legal.resetLength (by decide)
  refine ⟨s, reached, flag, Bool.eq_false_iff.mpr fun good => refused (outcome.mp good), ?_, ?_⟩
  · rw [settings Reg.rg_config (by decide)]
    decide +kernel
  · rw [settings Reg.reset (by decide)]
    decide +kernel

end Ipimb.Latest
