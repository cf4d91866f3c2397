import Ipimb.Device.Shell
import Ipimb.Queue.Published

/-!
The samples the records show, against the formula the DAQ uses. The formula is in whole numbers; the driver
works in the sixteen bits of the sample's own field, in place.
-/

namespace Ipimb.Samples
open Ipimb.Chunk Ipimb.BoardData Ipimb.Acquire Ipimb.DataQueue
open Ipimb.Shell (remapPolarity)

/-- A sample less its presample, in the direction of the signal and not below zero; 0 is for no subtraction. -/
def daq (polarity : Int) (sample presample : Word) : Int :=
  let diff := max 0 (polarity * (sample.toNat - presample.toNat))
  if polarity = 0 then sample.toNat
  else if polarity = 1 then diff
  else 65535 - diff

theorem remapPolarity_cases (argument : Int) :
    remapPolarity argument = -1 ∨ remapPolarity argument = 1 ∨ remapPolarity argument = 0 := by
  unfold remapPolarity
  split <;> decide

section Formula
variable {polarity : Int} (mapped : polarity = -1 ∨ polarity = 1 ∨ polarity = 0) (sample presample : Word)
include mapped

theorem adjusted_daq : ((adjusted polarity sample presample).toNat : Int) = daq polarity sample presample := by
  have small := sample.isLt
  have smallPs := presample.isLt
  rcases mapped with rfl | rfl | rfl
  · have negative : ¬ (-1 : Int) = 0 ∧ ¬ (-1 : Int) = 1 := by decide
    rw [adjusted, daq, if_neg negative.1, if_pos rfl, if_neg negative.1, if_neg negative.2]
    by_cases below : sample < presample
    · have order : sample.toNat < presample.toNat := below
      rw [if_pos below, BitVec.toNat_sub, BitVec.toNat_add]
      show (((2 ^ 16 - presample.toNat + (65535 + sample.toNat) % 2 ^ 16) % 2 ^ 16 : Nat) : Int) = _
      omega
    · have order : ¬ sample.toNat < presample.toNat := below
      rw [if_neg below]
      show (65535 : Int) = _
      omega
  · have positive : ¬ (1 : Int) = 0 ∧ ¬ (1 : Int) = -1 := by decide
    rw [adjusted, daq, if_neg positive.1, if_neg positive.2, if_neg positive.1, if_pos rfl]
    by_cases above : presample < sample
    · have order : presample.toNat < sample.toNat := above
      rw [if_pos above, BitVec.toNat_sub]
      omega
    · have order : ¬ presample.toNat < sample.toNat := above
      rw [if_neg above]
      show (0 : Int) = _
      omega
  · rw [adjusted, daq, if_pos rfl, if_pos rfl]

theorem daq_range : 0 ≤ daq polarity sample presample ∧ daq polarity sample presample ≤ 65535 := by
  have small := (adjusted polarity sample presample).isLt
  rw [← adjusted_daq mapped]
  omega

end Formula

/-! Only data packets are queued. -/

variable {T : Type}

/-- The packet the reader thread works on, if it is not in the queue already. -/
def current : ReaderPc T → Option (List Byte)
  | .reading | .sending .. | .stamped => none
  | .decoding rdbuf _ | .adjusting rdbuf _ | .acquired rdbuf => some rdbuf

/-- No packet of the queue or under way is a command response. -/
structure DataOnly (s : State T) : Prop where
  reader : ∀ rdbuf ∈ current s.reader, command (byteAt rdbuf 0) = false
  packets : ∀ packet ∈ s.packets, command (byteAt packet.1 0) = false

theorem DataOnly.init (polarity : Int) (ts : Nat → T) : DataOnly (State.init polarity ts) where
  reader := nofun
  packets := nofun

theorem DataOnly.keep {s s' : State T} (data : DataOnly s) (same : s'.packets = s.packets)
    (reader : ∀ rdbuf ∈ current s'.reader, rdbuf ∈ current s.reader) : DataOnly s' where
  reader rdbuf member := data.reader rdbuf (reader rdbuf member)
  packets := by
    rw [same]
    exact data.packets

theorem step_dataOnly (s : State T) (a : Action T) (s' : State T) (data : DataOnly s)
    (done : step s a = some s') : DataOnly s' := by
  have same {pc : ReaderPc T} {rdbuf : List Byte} (place : s.reader = pc) (works : current pc = some rdbuf) :
      ∀ other ∈ some rdbuf, other ∈ current s.reader := by
    rw [place, works]
    exact fun _ member => member
  cases effect_of_step s a s' done with
  | packet rdbuf place command =>
    refine ⟨?_, data.packets⟩
    intro other member
    cases member
    exact command
  | storeWord rdbuf i place => exact data.keep rfl (same place rfl)
  | badChunk => exact data.keep rfl nofun
  | checkCrc rdbuf place => exact data.keep rfl (same place rfl)
  | badCrc => exact data.keep rfl nofun
  | adjust rdbuf c place => exact data.keep rfl (same place rfl)
  | returned rdbuf c place => exact data.keep rfl (same place rfl)
  | acquireAgain => exact data.keep rfl nofun
  | queue rdbuf t place =>
    refine ⟨nofun, ?_⟩
    rw [List.forall_mem_append, List.forall_mem_singleton]
    exact ⟨data.packets, data.reader rdbuf (by rw [place]; rfl)⟩
  | stamp => exact data.keep rfl nofun
  | scanIoRequest => exact data.keep rfl nofun
  | noData => exact data
  | getData => exact data.keep rfl fun _ member => member
  | readAi => exact data.keep rfl fun _ member => member
  | nextData => exact data.keep rfl fun _ member => member
  | noNext => exact data

/-! What is shown. -/

/-- The slot holds the packet with its samples replaced after the DAQ's formula. -/
structure Holds (polarity : Int) (rdbuf : List Byte) (p : Slot) : Prop where
  samples : ∀ c, ((p (ch c)).toNat : Int) = daq polarity (wordAt rdbuf (ch c)) (wordAt rdbuf (chPs c))
  others : ∀ i < 16, (∀ c, i ≠ ch c) → p i = wordAt rdbuf i

def Shows (polarity : Int) (rdbuf : List Byte) (c : Fin 4) (rval : Word) : IpimbFunc → Prop
  | .aiData =>
    (rval.toNat : Int) = daq polarity (wordAt rdbuf (ch c)) (wordAt rdbuf (chPs c)) ∧
      0 ≤ daq polarity (wordAt rdbuf (ch c)) (wordAt rdbuf (chPs c)) ∧
      daq polarity (wordAt rdbuf (ch c)) (wordAt rdbuf (chPs c)) ≤ 65535
  | .aiPs => rval = wordAt rdbuf (chPs c)

section Shown
variable {polarity : Int} (mapped : polarity = -1 ∨ polarity = 1 ∨ polarity = 0)
include mapped

theorem holds_of_same (rdbuf : List Byte) (p : Slot) (same : Same p (adjustedPacket polarity rdbuf)) :
    Holds polarity rdbuf p where
  samples c := by
    have inside : ch c < 16 := by
      simp only [ch]
      omega
    rw [same _ inside, adjustedPacket, adjustdata_ch, adjusted_daq mapped]
  others i inside other := by rw [same i inside, adjustedPacket, adjustdata_of_ne _ _ _ other]

theorem shows_of_genuine (rdbuf : List Byte) (c : Fin 4) (funcflag : IpimbFunc) :
    Shows polarity rdbuf c (adjustedPacket polarity rdbuf (field funcflag c.val)) funcflag := by
  have channel : (⟨min c.val 3, by omega⟩ : Fin 4) = c := Fin.ext (by simp only; omega)
  cases funcflag with
  | aiData =>
    rw [field, channel]
    refine ⟨?_, daq_range mapped _ _⟩
    rw [adjustedPacket, adjustdata_ch, adjusted_daq mapped]
  | aiPs =>
    rw [field, channel]
    exact adjustdata_of_ne _ _ _ (chPs_ne_ch c)

end Shown

/-- In every run of the threads: what `read_ai` is handed is a slot of the queue, and as long as the packet in
it, the one it was asked for or a later one, is not being stored over, the slot holds that packet, a data
packet that passed all checks; and what `read_ai` made of such a slot is the packet's presample or the DAQ's
sample. -/
theorem published_daq (argument : Int) (ts : Nat → T) (actions : List (Action T)) (s : State T)
    (reached : Transition.run step (State.init (remapPolarity argument) ts) actions = some s) :
    (∀ which time stamped, s.record = .holding which time stamped →
      (s.drd < s.board.dwr ∧ which = s.drd &&& qMask) ∧
      ∀ j, j &&& qMask = which → j < s.board.dwr → s.front ≤ j + 8 →
        ∃ rdbuf t, s.packets[j]? = some (rdbuf, t) ∧ (command (byteAt rdbuf 0) = false ∧ Passes rdbuf) ∧
          Holds (remapPolarity argument) rdbuf (s.board.data which)) ∧
    ∀ p ∈ s.published, p.drd < p.queued ∧
      ∀ j, j &&& qMask = p.drd &&& qMask → j < p.queued → p.front ≤ j + 8 → ∀ c : Fin 4, p.chnlnum = c.val →
        ∃ rdbuf t, s.packets[j]? = some (rdbuf, t) ∧ (command (byteAt rdbuf 0) = false ∧ Passes rdbuf) ∧
          Shows (remapPolarity argument) rdbuf c p.rval p.funcflag := by
  have mapped := remapPolarity_cases argument
  have inv := Transition.run_invariant step (Inv _) step_inv (Inv.init _ ts) reached
  have data := Transition.run_invariant step DataOnly step_dataOnly (DataOnly.init _ ts) reached
  refine ⟨?_, ?_⟩
  · intro which time stamped held
    obtain ⟨more, slot, -⟩ := inv.holding which time stamped held
    refine ⟨⟨more, slot⟩, fun j here before near => ?_⟩
    obtain ⟨rdbuf, t, queued, passes, same⟩ := inv.data j (by omega) before
    refine ⟨rdbuf, t, queued, ⟨data.packets _ (List.mem_of_getElem? queued), passes⟩, ?_⟩
    rw [← here, and_qMask]
    exact holds_of_same mapped rdbuf _ same
  · intro p member
    have settled := inv.published p member
    refine ⟨settled.more, fun j here before near c channel => ?_⟩
    obtain ⟨rdbuf, t, queued, passes, rval⟩ := settled.value j here before near
    refine ⟨rdbuf, t, queued, ⟨data.packets _ (List.mem_of_getElem? queued), passes⟩, ?_⟩
    rw [rval, channel]
    exact shows_of_genuine mapped rdbuf c p.funcflag

/-- A packet queued and read with polarity 0, that is -1: 5 above the presample shows as 65535. -/
theorem published_daq_first :
    ∃ s : State Nat, Transition.run step (State.init (remapPolarity 0) fun _ => 0)
        ([.packet (sampleFrame 5#16).bytes] ++ List.replicate 16 .storeWord ++ [.checkCrc] ++
          List.replicate 5 .adjust ++ [.queue 1, .stamp, .scanIoRequest, .getData, .readAi .aiData 0]) = some s ∧
      s.published = [⟨0, .aiData, 0, 65535#16, 1, 1, 1, 1⟩] ∧
      ∃ rdbuf, Shows (remapPolarity 0) rdbuf 0 65535#16 .aiData := by
  have computed : (Transition.run step (State.init (remapPolarity 0) fun _ => 0)
      ([.packet (sampleFrame 5#16).bytes] ++ List.replicate 16 .storeWord ++ [.checkCrc] ++
        List.replicate 5 .adjust ++ [.queue 1, .stamp, .scanIoRequest, .getData, .readAi .aiData 0])).map
          State.published = some [⟨0, .aiData, 0, 65535#16, 1, 1, 1, 1⟩] := by decide +kernel
  obtain ⟨s, reached, published⟩ := Option.map_eq_some_iff.mp computed
  refine ⟨s, reached, published, ?_⟩
  obtain ⟨-, slot⟩ := (published_daq 0 (fun _ => 0) _ s reached).2 ⟨0, .aiData, 0, 65535#16, 1, 1, 1, 1⟩
    (by rw [published]; exact List.mem_singleton_self _)
  obtain ⟨rdbuf, t, -, -, shown⟩ := slot 0 rfl (by decide) (by decide) 0 rfl
  exact ⟨rdbuf, shown⟩

end Ipimb.Samples
