import Ipimb.Configure.Accepted
import Ipimb.Library.Transition

/-!
The calibration register, which three setters share: a mode bit, a polarity bit and a divider field of two
bits for each channel. Each setter reads the register, clears its own bits of all channels and puts in what
it was given; a divider setting it refuses leaves the field cleared.
-/

namespace Ipimb.Calibration
open Ipimb.Pass

inductive Call where
  | mode (channels : Fin 4 → Bool)
  | divider (channels : Fin 4 → BitVec 32)
  | polarity (channels : Fin 4 → Bool)

/-! The fields of a channel. -/

def modeBit (i : Fin 4) (content : BitVec 32) : Bool := content.getLsbD (4 * i.val + 3)

def polarityBit (i : Fin 4) (content : BitVec 32) : Bool := content.getLsbD (4 * i.val + 2)

def dividerField (i : Fin 4) (content : BitVec 32) : BitVec 2 := content.extractLsb' (4 * i.val) 2

def nibble (i : Fin 4) (content : BitVec 32) : BitVec 4 := Fields.field 4 i.val content

theorem modeBit_nibble (i : Fin 4) (content : BitVec 32) :
    modeBit i content = (nibble i content).getLsbD 3 :=
  (Fields.getLsbD_field 4 i.val 3 content (by decide)).symm

theorem polarityBit_nibble (i : Fin 4) (content : BitVec 32) :
    polarityBit i content = (nibble i content).getLsbD 2 :=
  (Fields.getLsbD_field 4 i.val 2 content (by decide)).symm

theorem dividerField_nibble (i : Fin 4) (content : BitVec 32) :
    dividerField i content = (nibble i content).extractLsb' 0 2 := by
  apply BitVec.eq_of_getLsbD_eq
  intro k inside
  have within : k < 4 := by omega
  simp [dividerField, nibble, Fields.field, inside, within]

/-- The field for a setting that is accepted. -/
def accepted (setting : BitVec 32) : Option (BitVec 2) :=
  if 2#32 < setting then none else some (BitVec.ofNat 2 (1 + setting.toNat))

/-! Calls, by what they write and what they refuse. -/

def Call.write : Call → BitVec 32 → BitVec 32
  | .mode channels => calibrationMode channels
  | .divider channels => calibrationDivider channels
  | .polarity channels => calibrationPolarity channels

def Call.Refused : Call → Prop
  | .divider channels => ∃ i, 2#32 < channels i
  | .mode _ | .polarity _ => False

/-- What a call gives a channel, if anything. -/
def Call.modeOf (i : Fin 4) : Call → Option Bool
  | .mode channels => some (channels i)
  | .divider _ | .polarity _ => none

def Call.dividerOf (i : Fin 4) : Call → Option (BitVec 2)
  | .divider channels => accepted (channels i)
  | .mode _ | .polarity _ => none

def Call.polarityOf (i : Fin 4) : Call → Option Bool
  | .polarity channels => some (channels i)
  | .mode _ | .divider _ => none

/-- Illegal settings are given only for channels whose field is empty. -/
def Call.Harmless (content : BitVec 32) : Call → Prop
  | .divider channels => ∀ i, 2#32 < channels i → dividerField i content = 0#2
  | .mode _ | .polarity _ => True

instance (content : BitVec 32) (call : Call) : Decidable (call.Harmless content) :=
  match call with
  | .mode _ | .polarity _ => isTrue trivial
  | .divider channels => inferInstanceAs (Decidable (∀ i, 2#32 < channels i → dividerField i content = 0#2))

/-! All setters clear what a mask does not keep and put in four bits for each channel. -/

def Call.mask : Call → BitVec 32
  | .mode _ => 0x7777#32
  | .divider _ => 0xcccc#32
  | .polarity _ => 0xbbbb#32

def Call.keeps : Call → BitVec 4
  | .mode _ => 0x7#4
  | .divider _ => 0xc#4
  | .polarity _ => 0xb#4

def Call.value (i : Fin 4) : Call → BitVec 4
  | .mode channels => if channels i then 1#4 <<< 3 else 0#4
  | .divider channels => ((accepted (channels i)).getD 0#2).setWidth 4
  | .polarity channels => if channels i then 1#4 <<< 2 else 0#4

theorem placed_none (i : Nat) (val : BitVec 32) : val ||| (0#4).setWidth 32 <<< (4 * i) = val := by
  rw [BitVec.setWidth_zero, BitVec.zero_shiftLeft, BitVec.or_zero]

theorem placed_bit (on : Bool) (place : Nat) (inside : place < 4) (i : Nat) (val : BitVec 32) :
    (if on then val ||| 1#32 <<< (place + 4 * i) else val) =
      val ||| (if on then 1#4 <<< place else 0#4).setWidth 32 <<< (4 * i) := by
  have wide : (1#4 <<< place).setWidth 32 = 1#32 <<< place := by
    interval_cases place <;> rfl
  rw [BitVec.shiftLeft_add]
  cases on with
  | false =>
    rw [if_neg Bool.false_ne_true, if_neg Bool.false_ne_true]
    exact (placed_none i val).symm
  | true => rw [if_pos rfl, if_pos rfl, wide]

theorem placed_divider (setting : BitVec 32) (i : Nat) (val : BitVec 32) :
    (if setting > 2#32 then val else val ||| (setting + 1#32) <<< (4 * i)) =
      val ||| (((accepted setting).getD 0#2).setWidth 4).setWidth 32 <<< (4 * i) := by
  by_cases illegal : 2#32 < setting
  · rw [if_pos illegal, accepted, if_pos illegal]
    exact (placed_none i val).symm
  · have small : setting.toNat ≤ 2 := BitVec.not_lt.mp illegal
    have value : ((BitVec.ofNat 2 (1 + setting.toNat)).setWidth 4).setWidth 32 = setting + 1#32 := by
      apply BitVec.eq_of_toNat_eq
      rw [BitVec.toNat_setWidth, BitVec.toNat_setWidth, BitVec.toNat_ofNat, BitVec.toNat_add]
      show (1 + setting.toNat) % 4 % 16 % 2 ^ 32 = (setting.toNat + 1) % 2 ^ 32
      omega
    rw [if_neg illegal, accepted, if_neg illegal, Option.getD_some, value]

theorem write_eq (call : Call) (content : BitVec 32) :
    call.write content = (List.finRange 4).foldl
      (fun val (j : Fin 4) => val ||| (call.value j).setWidth 32 <<< (4 * j.val))
      (content &&& call.mask) := by
  cases call with
  | mode channels => simp only [Call.write, calibrationMode, placed_bit, Nat.reduceLT, Call.value, Call.mask]
  | divider channels => simp only [Call.write, calibrationDivider, placed_divider, Call.value, Call.mask]
  | polarity channels =>
    simp only [Call.write, calibrationPolarity, placed_bit, Nat.reduceLT, Call.value, Call.mask]

theorem value_fits (value : BitVec 4) : (value.setWidth 32).toNat < 2 ^ 4 := by
  revert value
  decide

theorem field_mask (call : Call) (k : Nat) (inside : k < 8) :
    Fields.field 4 k call.mask = if k < 4 then call.keeps else 0#4 := by
  cases call <;> simp only [Call.mask, Call.keeps] <;> interval_cases k <;> rfl

theorem nibble_write (call : Call) (i : Fin 4) (content : BitVec 32) :
    nibble i (call.write content) = (nibble i content &&& call.keeps) ||| call.value i := by
  have narrowed : ∀ value : BitVec 4, (value.setWidth 32).setWidth 4 = value := by decide
  have mask : Fields.field 4 i.val call.mask = call.keeps := by
    rw [field_mask call i (by omega), if_pos i.isLt]
  rw [nibble, write_eq, Fields.field_foldl 4 i (fun j => (call.value j).setWidth 32) _
    (fun j => value_fits _) (by decide), Fields.field_and, mask, narrowed]
  rfl

/-- Above the four channels nothing is left. -/
theorem write_high (call : Call) (content : BitVec 32) (k : Nat) (above : 4 ≤ k) (inside : k < 8) :
    Fields.field 4 k (call.write content) = 0#4 := by
  rw [write_eq, Fields.field_foldl_beyond 4 k above (fun j => (call.value j).setWidth 32) _
    fun j => value_fits _, Fields.field_and, field_mask call k inside, if_neg (by omega), BitVec.and_zero]

/-- What the masks leave of the four bits of a channel, and what is put in. -/
theorem masks : ∀ (bits : BitVec 4) (on : Bool) (value : BitVec 2),
    (((bits &&& 0x7#4) ||| if on then 1#4 <<< 3 else 0#4).getLsbD 3 = on ∧
      ((bits &&& 0x7#4) ||| if on then 1#4 <<< 3 else 0#4).getLsbD 2 = bits.getLsbD 2 ∧
      ((bits &&& 0x7#4) ||| if on then 1#4 <<< 3 else 0#4).extractLsb' 0 2 = bits.extractLsb' 0 2) ∧
    (((bits &&& 0xb#4) ||| if on then 1#4 <<< 2 else 0#4).getLsbD 3 = bits.getLsbD 3 ∧
      ((bits &&& 0xb#4) ||| if on then 1#4 <<< 2 else 0#4).getLsbD 2 = on ∧
      ((bits &&& 0xb#4) ||| if on then 1#4 <<< 2 else 0#4).extractLsb' 0 2 = bits.extractLsb' 0 2) ∧
    ((bits &&& 0xc#4) ||| value.setWidth 4).getLsbD 3 = bits.getLsbD 3 ∧
      ((bits &&& 0xc#4) ||| value.setWidth 4).getLsbD 2 = bits.getLsbD 2 ∧
      ((bits &&& 0xc#4) ||| value.setWidth 4).extractLsb' 0 2 = value := by
  decide +kernel

theorem masks_apart : ∀ (bits : BitVec 4) (mode polarity : Bool) (value : BitVec 2),
    ((((bits &&& 0xb#4) ||| if polarity then 1#4 <<< 2 else 0#4) &&& 0x7#4) |||
        if mode then 1#4 <<< 3 else 0#4) =
      ((((bits &&& 0x7#4) ||| if mode then 1#4 <<< 3 else 0#4) &&& 0xb#4) |||
        if polarity then 1#4 <<< 2 else 0#4) ∧
    ((((bits &&& 0xc#4) ||| value.setWidth 4) &&& 0x7#4) ||| if mode then 1#4 <<< 3 else 0#4) =
      ((((bits &&& 0x7#4) ||| if mode then 1#4 <<< 3 else 0#4) &&& 0xc#4) ||| value.setWidth 4) ∧
    ((((bits &&& 0xc#4) ||| value.setWidth 4) &&& 0xb#4) ||| if polarity then 1#4 <<< 2 else 0#4) =
      ((((bits &&& 0xb#4) ||| if polarity then 1#4 <<< 2 else 0#4) &&& 0xc#4) ||| value.setWidth 4) := by
  decide +kernel

section Write
variable (i : Fin 4) (content : BitVec 32)

theorem modeBit_write (call : Call) :
    modeBit i (call.write content) = (call.modeOf i).getD (modeBit i content) := by
  rw [modeBit_nibble, modeBit_nibble, nibble_write]
  cases call with
  | mode channels => exact (masks (nibble i content) (channels i) 0#2).1.1
  | divider channels => exact (masks (nibble i content) true _).2.2.1
  | polarity channels => exact (masks (nibble i content) (channels i) 0#2).2.1.1

theorem polarityBit_write (call : Call) :
    polarityBit i (call.write content) = (call.polarityOf i).getD (polarityBit i content) := by
  rw [polarityBit_nibble, polarityBit_nibble, nibble_write]
  cases call with
  | mode channels => exact (masks (nibble i content) (channels i) 0#2).1.2.1
  | divider channels => exact (masks (nibble i content) true _).2.2.2.1
  | polarity channels => exact (masks (nibble i content) (channels i) 0#2).2.1.2.1

/-- A refused setting leaves nothing in the field. -/
theorem dividerField_divider (channels : Fin 4 → BitVec 32) :
    dividerField i ((Call.divider channels).write content) = (accepted (channels i)).getD 0#2 := by
  rw [dividerField_nibble, nibble_write]
  exact (masks (nibble i content) true _).2.2.2.2

theorem dividerField_write (call : Call) (harmless : call.Harmless content) :
    dividerField i (call.write content) = (call.dividerOf i).getD (dividerField i content) := by
  cases call with
  | mode channels =>
    rw [dividerField_nibble, dividerField_nibble, nibble_write]
    exact (masks (nibble i content) (channels i) 0#2).1.2.2
  | divider channels =>
    rw [dividerField_divider, Call.dividerOf]
    by_cases illegal : 2#32 < channels i
    · rw [accepted, if_pos illegal, harmless i illegal]
    · rw [accepted, if_neg illegal]
      rfl
  | polarity channels =>
    rw [dividerField_nibble, dividerField_nibble, nibble_write]
    exact (masks (nibble i content) (channels i) 0#2).2.1.2.2

/-- A call that leaves every channel without a legal setting its field has done no harm. -/
theorem harmless_of_kept (call : Call)
    (kept : ∀ i, dividerField i (call.write content) = (call.dividerOf i).getD (dividerField i content)) :
    call.Harmless content := by
  cases call with
  | mode channels => trivial
  | divider channels =>
    intro i illegal
    have left := kept i
    rw [dividerField_divider, Call.dividerOf, accepted, if_pos illegal] at left
    exact left.symm
  | polarity channels => trivial

def Apart : Call → Call → Prop
  | .mode _, .mode _ | .divider _, .divider _ | .polarity _, .polarity _ => False
  | _, _ => True

omit i content in
theorem apart_symm {a b : Call} (apart : Apart a b) : Apart b a := by
  cases a <;> cases b <;> exact apart

theorem write_comm (a b : Call) (apart : Apart a b) :
    a.write (b.write content) = b.write (a.write content) := by
  apply Fields.eq_of_field_eq 4 8 _ _ (by decide)
  intro k inside
  by_cases channel : k < 4
  · have law := masks_apart (nibble ⟨k, channel⟩ content)
    show nibble ⟨k, channel⟩ _ = nibble ⟨k, channel⟩ _
    rw [nibble_write, nibble_write, nibble_write, nibble_write]
    cases a with
    | mode channels =>
      cases b with
      | mode others => exact apart.elim
      | divider others => exact (law _ true _).2.1
      | polarity others => exact (law _ _ 0#2).1
    | divider channels =>
      cases b with
      | mode others => exact (law _ true _).2.1.symm
      | divider others => exact apart.elim
      | polarity others => exact (law true _ _).2.2.symm
    | polarity channels =>
      cases b with
      | mode others => exact (law _ _ 0#2).1.symm
      | divider others => exact (law true _ _).2.2
      | polarity others => exact apart.elim
  · rw [write_high _ _ k (by omega) inside, write_high _ _ k (by omega) inside]

end Write

/-! Sequences of calls. -/

/-- The last value that was given, or the one there was. -/
def last {α : Type} (given : Call → Option α) (calls : List Call) (start : α) : α :=
  (calls.filterMap given).getLast?.getD start

theorem last_concat {α : Type} (given : Call → Option α) (calls : List Call) (call : Call) (start : α) :
    last given (calls ++ [call]) start = (given call).getD (last given calls start) := by
  rw [last, List.filterMap_append]
  cases value : given call with
  | none => simp [value, last]
  | some a => simp [value]

/-- The content of the register after the calls. -/
def written (start : BitVec 32) (calls : List Call) : BitVec 32 :=
  calls.foldl (fun content call => call.write content) start

theorem written_concat (start : BitVec 32) (calls : List Call) (call : Call) :
    written start (calls ++ [call]) = call.write (written start calls) := List.foldl_concat ..

/-- In the run of the calls, illegal settings are given only for channels whose field is empty. -/
def Harmless (start : BitVec 32) (calls : List Call) : Prop :=
  Transition.Along (fun content (call : Call) => some (call.write content))
    (fun content call => call.Harmless content) start calls

theorem run_written (start : BitVec 32) (calls : List Call) :
    Transition.run (fun content (call : Call) => some (call.write content)) start calls =
      some (written start calls) := by
  induction calls generalizing start with
  | nil => rfl
  | cons call rest ih => exact ih (call.write start)

theorem harmless_concat (start : BitVec 32) (calls : List Call) (call : Call) :
    Harmless start (calls ++ [call]) ↔ Harmless start calls ∧ call.Harmless (written start calls) := by
  rw [Harmless, Transition.along_append, run_written]
  simp [Harmless, Transition.Along]

/-- The fields are those last given, and the flag tells whether a setting was refused. -/
structure Accounted (start : BitVec 32) (ok : Bool) (calls : List Call) (content : BitVec 32)
    (configOk : Bool) : Prop where
  mode : ∀ i, modeBit i content = last (Call.modeOf i) calls (modeBit i start)
  polarity : ∀ i, polarityBit i content = last (Call.polarityOf i) calls (polarityBit i start)
  divider : ∀ i, dividerField i content = last (Call.dividerOf i) calls (dividerField i start)
  configOk : configOk = true ↔ ok = true ∧ ∀ call ∈ calls, ¬ call.Refused

theorem modeBit_written (start : BitVec 32) (calls : List Call) (i : Fin 4) :
    modeBit i (written start calls) = last (Call.modeOf i) calls (modeBit i start) := by
  induction calls using List.reverseRecOn with
  | nil => rfl
  | append_singleton calls call ih => rw [written_concat, modeBit_write, last_concat, ih]

theorem polarityBit_written (start : BitVec 32) (calls : List Call) (i : Fin 4) :
    polarityBit i (written start calls) = last (Call.polarityOf i) calls (polarityBit i start) := by
  induction calls using List.reverseRecOn with
  | nil => rfl
  | append_singleton calls call ih => rw [written_concat, polarityBit_write, last_concat, ih]

/-- The divider fields are kept through all of the run exactly if no call does harm. -/
theorem dividerField_written (start : BitVec 32) (calls : List Call) :
    (∀ before, before <+: calls → ∀ i,
      dividerField i (written start before) = last (Call.dividerOf i) before (dividerField i start)) ↔
      Harmless start calls := by
  induction calls using List.reverseRecOn with
  | nil =>
    refine iff_of_true ?_ trivial
    intro before first i
    rw [List.prefix_nil.mp first]
    rfl
  | append_singleton calls call ih =>
    rw [harmless_concat, ← ih]
    constructor
    · intro kept
      refine ⟨fun before first => kept before (first.trans (List.prefix_append _ _)), ?_⟩
      apply harmless_of_kept
      intro i
      rw [← written_concat, kept _ List.prefix_rfl i, last_concat, kept calls (List.prefix_append _ _) i]
    · intro both before first i
      rcases List.prefix_concat_iff.mp first with whole | earlier
      · rw [whole, written_concat, dividerField_write i _ call both.2, last_concat,
          both.1 calls List.prefix_rfl i]
      · exact both.1 before earlier i

section Run
variable {β : Type} (io : Port β) (d : Driver β)

def Call.run : Call → Driver β
  | .mode channels => setCalibrationMode io d channels
  | .divider channels => setCalibrationDivider io d channels
  | .polarity channels => setCalibrationPolarity io d channels

def runAll (calls : List Call) : Driver β := calls.foldl (fun d call => call.run io d) d

theorem run_configOk (call : Call) :
    (call.run io d).configOk = true ↔ d.configOk = true ∧ ¬ call.Refused := by
  cases call with
  | mode channels => exact (and_iff_left not_false).symm
  | divider channels =>
    have any : ((List.finRange 4).any fun i => channels i > 2#32) = true ↔ ∃ i, 2#32 < channels i := by
      simp only [List.any_eq_true, List.mem_finRange, decide_eq_true_eq, true_and, gt_iff_lt]
    have flag : ((Call.divider channels).run io d).configOk =
        (if (List.finRange 4).any fun i => channels i > 2#32 then
          (readRegister io d Reg.cal_rg_config).2.fail
        else (readRegister io d Reg.cal_rg_config).2).configOk := rfl
    rw [flag]
    by_cases refused : ∃ i, 2#32 < channels i
    · rw [if_pos (any.mpr refused)]
      exact iff_of_false Bool.false_ne_true fun good => good.2 refused
    · rw [if_neg fun found => refused (any.mp found)]
      exact (and_iff_left refused).symm
  | polarity channels => exact (and_iff_left not_false).symm

theorem runAll_concat (calls : List Call) (call : Call) :
    runAll io d (calls ++ [call]) = call.run io (runAll io d calls) := List.foldl_concat ..

theorem runAll_configOk (calls : List Call) :
    (runAll io d calls).configOk = true ↔ d.configOk = true ∧ ∀ call ∈ calls, ¬ call.Refused := by
  induction calls using List.reverseRecOn with
  | nil => exact (and_iff_left (fun call member => absurd member List.not_mem_nil)).symm
  | append_singleton calls call ih =>
    rw [runAll_concat, run_configOk, ih, and_assoc, List.forall_mem_append, List.forall_mem_singleton]

/-- Reads of the register are answered with its content, and a write to it sets the content. -/
structure Answering (content : β → BitVec 32) : Prop where
  read_value : ∀ b, (io.read Reg.cal_rg_config b).1 = plain (content b)
  read_keeps : ∀ b, content (io.read Reg.cal_rg_config b).2 = content b
  write_sets : ∀ value b, content (io.write Reg.cal_rg_config value b) = value.value

variable {io} {content : β → BitVec 32} (answering : Answering io content)
include answering

theorem run_content (call : Call) : content (call.run io d).port = call.write (content d.port) := by
  cases call with
  | mode channels =>
    show content (io.write Reg.cal_rg_config _ _) = _
    rw [answering.write_sets, answering.read_value]
    rfl
  | divider channels =>
    show content (io.write Reg.cal_rg_config _ _) = _
    rw [answering.write_sets, answering.read_value]
    rfl
  | polarity channels =>
    show content (io.write Reg.cal_rg_config _ _) = _
    rw [answering.write_sets, answering.read_value]
    rfl

theorem runAll_content (calls : List Call) :
    content (runAll io d calls).port = written (content d.port) calls := by
  induction calls using List.reverseRecOn with
  | nil => rfl
  | append_singleton calls call ih => rw [runAll_concat, run_content _ answering, written_concat, ih]

end Run

/-- The calls are accounted for, all through, exactly if illegal settings are given only for channels whose
field is empty. Neighbouring calls of different setters may change places in any case. -/
theorem accounted_iff {β : Type} (io : Port β) (content : β → BitVec 32) (answering : Answering io content)
    (d : Driver β) (calls : List Call) :
    ((∀ before, before <+: calls →
        Accounted (content d.port) d.configOk before (content (runAll io d before).port)
          (runAll io d before).configOk) ↔
      Harmless (content d.port) calls) ∧
    ∀ (a b : Call) (later : List Call), Apart a b →
      content (runAll io d (calls ++ a :: b :: later)).port =
          content (runAll io d (calls ++ b :: a :: later)).port ∧
        (runAll io d (calls ++ a :: b :: later)).configOk =
          (runAll io d (calls ++ b :: a :: later)).configOk := by
  refine ⟨?_, ?_⟩
  · rw [← dividerField_written]
    refine forall₂_congr fun before _ => ?_
    rw [runAll_content d answering]
    constructor
    · intro accounted
      exact accounted.divider
    · intro kept
      exact ⟨modeBit_written _ before, polarityBit_written _ before, kept, runAll_configOk io d before⟩
  · intro a b later apart
    have shuffled : (calls ++ a :: b :: later).Perm (calls ++ b :: a :: later) :=
      (List.Perm.swap b a later).append_left calls
    constructor
    · rw [runAll_content d answering, runAll_content d answering]
      simp only [written, List.foldl_append, List.foldl_cons, write_comm _ b a (apart_symm apart)]
    · rw [Bool.eq_iff_iff, runAll_configOk, runAll_configOk]
      simp only [shuffled.mem_iff]

theorem registers_answering : Answering Accepted.registers fun file => file Reg.cal_rg_config where
  read_value file := congrArg plain (if_neg (by decide))
  read_keeps _ := rfl
  write_sets value file := by
    show Function.update file Reg.cal_rg_config value.value Reg.cal_rg_config = value.value
    rw [Function.update_self]

/-- Channel 0 has the divider field 1, the others have empty ones. -/
def divided : Driver (BitVec 8 → BitVec 32) := ⟨fun _ => 0x1#32, true⟩

def legal : List Call := [.mode fun _ => true, .divider fun i => if i.val = 0 then 2#32 else 7#32]

theorem accounted_legal :
    Accounted 0x1#32 true legal ((runAll Accepted.registers divided legal).port Reg.cal_rg_config)
      (runAll Accepted.registers divided legal).configOk := by
  have harmless : Harmless 0x1#32 legal := by
    unfold Harmless
    decide +kernel
  exact (accounted_iff Accepted.registers _ registers_answering divided legal).1.mpr harmless legal
    List.prefix_rfl

/-- A setting that is refused leaves the field of channel 0 empty. -/
theorem divider_lost :
    ¬ Accounted 0x1#32 true [.divider fun _ => 3#32]
      ((runAll Accepted.registers divided [.divider fun _ => 3#32]).port Reg.cal_rg_config)
      (runAll Accepted.registers divided [.divider fun _ => 3#32]).configOk := by
  intro accounted
  exact absurd (accounted.divider 0) (by decide +kernel)

end Ipimb.Calibration
