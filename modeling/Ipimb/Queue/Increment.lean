import Ipimb.Configure.Pass
import Ipimb.Library.Transition
import Ipimb.Wire.Framing
import Mathlib.Data.List.Chain

/-!
What `CountIncr` reports, against the triggers there have been. The driver knows the board's counter only
from the packets that arrive, and a configuration pass sets the counter back without a word to the
synchroniser.
-/

namespace Ipimb.Increment
open Ipimb.Chunk Ipimb.BoardData Ipimb.Acquire
open Ipimb.Pass (Port Driver Tracked plain setTriggerCounter)

/-- The increment, in the `int` it is kept in. -/
def countIncr (b : Board) : Int := b.curincr.toInt

/-- The count that goes with these words. -/
def carried (words : List Word) : BitVec 64 := triggerCounter fun i => words.getD i 0#16

def counterPort : Port (BitVec 64) where
  read _ counter := (plain 0#32, counter)
  write regAddr regValue counter :=
    if regAddr = Pass.Reg.timestamp0 then regValue.value ++ counter.extractLsb' 0 32
    else if regAddr = Pass.Reg.timestamp1 then counter.extractLsb' 32 32 ++ regValue.value
    else counter

/-- A data packet, with the number of triggers up to its own and the sum of the counts that passes had
wiped by then. -/
structure Sent where
  words : List Word
  trigger : Nat
  wiped : Nat
  deriving DecidableEq

structure Delivered where
  sent : Sent
  countIncr : Int
  deriving DecidableEq

/-- The board, the packets on their way, oldest first, and the reader thread. The last three fields are
for the record only. -/
structure State where
  counter : BitVec 64
  line : List Sent
  reader : Reader
  triggers : Nat
  wiped : Nat
  delivered : List Delivered

def State.init (polarity : Int) (start : BitVec 64) : State where
  counter := start
  line := []
  reader := hunting (Board.init polarity)
  triggers := 0
  wiped := 0
  delivered := []

inductive Action where
  /-- The board counts a trigger and sends a packet of these words. -/
  | trigger (words : List Word)
  /-- The next packet will not be delivered, whatever the line makes of its bytes. -/
  | lose
  /-- A byte has been read; any byte, as the line may do anything to what was sent. -/
  | receive (b : Byte)
  /-- A configuration pass. -/
  | configure

def trigger (s : State) (words : List Word) : Option State :=
  if words.length = len false ∧ carried words = s.counter + 1#64 then
    some { s with
      counter := s.counter + 1#64
      line := s.line ++ [⟨words, s.triggers + 1, s.wiped⟩]
      triggers := s.triggers + 1 }
  else none

def lose (s : State) : Option State :=
  match s.line with
  | [] => none
  | _ :: line => some { s with line := line }

def dataWords (deliveries : List Delivery) : Option (List Word) :=
  (deliveries.find? fun d => !d.packet.cmd).map fun d => d.packet.words

/-- The poll loop over one byte. A data packet that passes all checks is one the board sent. -/
def receive (queued : Nat → Bool) (s : State) (b : Byte) : Option State :=
  let done := onByte queued s.reader b
  match dataWords done.2, s.line with
  | none, _ => some { s with reader := done.1 }
  | some _, [] => none
  | some words, sent :: line =>
    if sent.words = words then
      some { s with
        line := line
        reader := done.1
        delivered := s.delivered ++ [⟨sent, countIncr done.1.board⟩] }
    else none

/-- The configured count is 0. -/
def configure (s : State) : Option State :=
  some { s with
    counter := (setTriggerCounter counterPort ⟨s.counter, true⟩ 0#32 0#32).port
    wiped := s.wiped + s.counter.toNat }

def step (queued : Nat → Bool) (s : State) : Action → Option State
  | .trigger words => trigger s words
  | .lose => lose s
  | .receive b => receive queued s b
  | .configure => configure s

/-- The increment is the number of triggers after the packet before. -/
structure TrueIncrement (p q : Delivered) : Prop where
  counted : q.countIncr = q.sent.trigger - p.sent.trigger
  positive : 1 ≤ q.countIncr

/-- Not too many triggers between the two packets, and what passes wiped in between is a multiple of
2^32, for instance nothing. -/
structure Unbroken (p q : Delivered) : Prop where
  few : q.sent.trigger < p.sent.trigger + 2 ^ 31
  wiped : (2 ^ 32 : Int) ∣ q.sent.wiped - p.sent.wiped

/-! What the reader does to the last count. -/

theorem triggerCounter_adjustdata (polarity : Int) (d : Slot) :
    triggerCounter (adjustdata polarity d) = triggerCounter d := by
  have early (i : Nat) (before : i < 4) : adjustdata polarity d i = d i := by
    apply adjustdata_of_ne
    intro c
    simp only [ch]
    omega
  simp only [triggerCounter, early 0 (by omega), early 1 (by omega), early 2 (by omega), early 3 (by omega)]

theorem lasttrig_putBuffer (b : Board) (cmd : Bool) (p : Slot) :
    (b.putBuffer cmd p).lasttrig = b.lasttrig := by cases cmd <;> rfl

def Tracks (b b' : Board) (deliveries : List Delivery) : Prop :=
  match dataWords deliveries with
  | none => b'.lasttrig = b.lasttrig
  | some words => b'.lasttrig = carried words ∧ b'.curincr = (carried words - b.lasttrig).setWidth 32

theorem takeData_lasttrig (b : Board) : b.takeData.lasttrig = triggerCounter (b.getBuffer false) := by
  rw [Board.takeData, triggerCounter_adjustdata]

theorem takeData_curincr (b : Board) :
    b.takeData.curincr = (triggerCounter (b.getBuffer false) - b.lasttrig).setWidth 32 := by
  rw [Board.takeData, triggerCounter_adjustdata]

variable (queued : Nat → Bool)

theorem deliver_tracks (b : Board) (cmd : Bool) : Tracks b (deliver queued b cmd).1 (deliver queued b cmd).2 := by
  cases cmd with
  | true => rfl
  | false =>
    have last : (deliver queued b false).1.lasttrig = b.takeData.lasttrig := by
      rw [deliver, if_neg Bool.false_ne_true]
      split <;> rfl
    have increment : (deliver queued b false).1.curincr = b.takeData.curincr := by
      rw [deliver, if_neg Bool.false_ne_true]
      split <;> rfl
    exact ⟨last.trans (takeData_lasttrig b), increment.trans (takeData_curincr b)⟩

theorem endOfPacket_tracks (b : Board) (rdbuf : List Byte) :
    Tracks b (endOfPacket queued b rdbuf).1 (endOfPacket queued b rdbuf).2 := by
  unfold endOfPacket
  generalize command (byteAt rdbuf 0) = cmd
  simp only
  split
  · split
    · split
      · have tracks := deliver_tracks queued
          (b.putBuffer cmd (decode cmd rdbuf (len cmd) 0 (b.getBuffer cmd)).1) cmd
        unfold Tracks at tracks ⊢
        rwa [lasttrig_putBuffer] at tracks
      · exact lasttrig_putBuffer _ _ _
    · exact lasttrig_putBuffer _ _ _
  · rfl

theorem onByte_tracks (r : Reader) (b : Byte) :
    Tracks r.board (onByte queued r b).1.board (onByte queued r b).2 := by
  unfold onByte onRead
  split
  · dsimp only
    split <;> rfl
  · split
    · rfl
    · exact endOfPacket_tracks queued _ _

/-! Counts and triggers. -/

/-- The counter after so many triggers, when passes have wiped so much. -/
def countAt (start : BitVec 64) (triggers wiped : Nat) : BitVec 64 :=
  BitVec.ofInt 64 (start.toNat + triggers - wiped)

theorem countAt_zero (start : BitVec 64) : countAt start 0 0 = start := by
  simp [countAt, BitVec.ofInt_natCast]

theorem countAt_trigger (start : BitVec 64) (triggers wiped : Nat) :
    countAt start (triggers + 1) wiped = countAt start triggers wiped + 1#64 := by
  have more : (start.toNat + (triggers + 1 : Nat) - wiped : Int) = start.toNat + triggers - wiped + 1 := by
    omega
  calc
    _ = BitVec.ofInt 64 (start.toNat + triggers - wiped + 1) := congrArg (BitVec.ofInt 64) more
    _ = countAt start triggers wiped + BitVec.ofInt 64 1 := BitVec.ofInt_add ..
    _ = _ := rfl

theorem setTriggerCounter_port (counter : BitVec 64) (start0 start1 : BitVec 32) :
    (setTriggerCounter counterPort ⟨counter, true⟩ start0 start1).port = start0 ++ start1 := by
  show (start0 ++ counter.extractLsb' 0 32).extractLsb' 32 32 ++ start1 = start0 ++ start1
  rw [BitVec.extractLsb'_append_eq_of_le (by omega)]
  simp

theorem countAt_wipe (start : BitVec 64) (triggers wiped : Nat) :
    countAt start triggers (wiped + (countAt start triggers wiped).toNat) = 0#64 := by
  generalize same : countAt start triggers wiped = counter
  have less : (start.toNat + triggers - (wiped + counter.toNat : Nat) : Int) =
      start.toNat + triggers - wiped + -counter.toNat := by
    omega
  have back : BitVec.ofInt 64 (-counter.toNat) = -counter := by
    rw [BitVec.ofInt_neg, BitVec.ofInt_natCast, BitVec.ofNat_toNat, BitVec.setWidth_eq]
  calc
    _ = BitVec.ofInt 64 (start.toNat + triggers - wiped + -counter.toNat) := congrArg (BitVec.ofInt 64) less
    _ = countAt start triggers wiped + BitVec.ofInt 64 (-counter.toNat) := BitVec.ofInt_add ..
    _ = counter + -counter := by rw [same, back]
    _ = 0#64 := BitVec.add_right_neg counter

theorem countAt_sub (start : BitVec 64) (n w n' w' : Nat) :
    ((countAt start n' w' - countAt start n w).setWidth 32).toInt =
      ((n' - n : Int) - (w' - w)).bmod (2 ^ 32) := by
  have split : (start.toNat + n' - w' : Int) = ((n' - n : Int) - (w' - w)) + (start.toNat + n - w) := by omega
  have difference : countAt start n' w' - countAt start n w = BitVec.ofInt 64 ((n' - n : Int) - (w' - w)) := by
    rw [countAt, split, BitVec.ofInt_add, ← countAt, BitVec.add_sub_cancel]
  have wide : 0 ≤ ((n' - n : Int) - (w' - w)) % (2 ^ 64 : Nat) := Int.emod_nonneg _ (by decide)
  have narrow : ((2 ^ 32 : Nat) : Int) ∣ (2 ^ 64 : Nat) := by decide
  rw [difference, BitVec.toInt_setWidth, BitVec.toNat_ofInt, Int.toNat_of_nonneg wide]
  calc
    _ = (((n' - n : Int) - (w' - w)) % (2 ^ 64 : Nat) % (2 ^ 32 : Nat)).bmod (2 ^ 32) :=
      (Int.emod_bmod ..).symm
    _ = (((n' - n : Int) - (w' - w)) % (2 ^ 32 : Nat)).bmod (2 ^ 32) := by
      rw [Int.emod_emod_of_dvd _ narrow]
    _ = _ := Int.emod_bmod ..

theorem increment_iff (start : BitVec 64) (n w n' w' : Nat) (later : n < n') :
    ((countAt start n' w' - countAt start n w).setWidth 32).toInt = (n' - n : Int) ↔
      n' < n + 2 ^ 31 ∧ (2 ^ 32 : Int) ∣ w' - w := by
  rw [countAt_sub, Int.bmod_def]
  omega

/-! The run. -/

def State.sent (s : State) : List Sent := s.delivered.map Delivered.sent ++ s.line

/-- Every packet carries the count of its trigger, and every increment is the difference of two counts. -/
structure Inv (start : BitVec 64) (s : State) : Prop where
  counter : s.counter = countAt start s.triggers s.wiped
  counts : ∀ x ∈ s.sent, carried x.words = countAt start x.trigger x.wiped ∧ x.trigger ≤ s.triggers
  ordered : s.sent.Pairwise fun x y => x.trigger < y.trigger
  lasttrig : ∀ p ∈ s.delivered.getLast?, s.reader.board.lasttrig = carried p.sent.words
  increments : s.delivered.IsChain fun p q =>
    q.countIncr = ((carried q.sent.words - carried p.sent.words).setWidth 32).toInt

theorem Inv.init (polarity : Int) (start : BitVec 64) : Inv start (State.init polarity start) where
  counter := (countAt_zero start).symm
  counts := nofun
  ordered := List.Pairwise.nil
  lasttrig := nofun
  increments := List.IsChain.nil

section Steps
variable {start : BitVec 64} {s s' : State} (inv : Inv start s)
include inv

theorem trigger_inv (words : List Word) (done : trigger s words = some s') : Inv start s' := by
  unfold trigger at done
  split at done
  next sending =>
    cases done
    have count : carried words = countAt start (s.triggers + 1) s.wiped := by
      rw [sending.2, inv.counter, countAt_trigger]
    have sent : State.sent { s with
        counter := s.counter + 1#64
        line := s.line ++ [⟨words, s.triggers + 1, s.wiped⟩]
        triggers := s.triggers + 1 } = s.sent ++ [⟨words, s.triggers + 1, s.wiped⟩] := by
      rw [State.sent, State.sent, List.append_assoc]
    refine { inv with counter := ?_, counts := ?_, ordered := ?_ }
    · rw [countAt_trigger, ← inv.counter]
    · rw [sent, List.forall_mem_append, List.forall_mem_singleton]
      refine ⟨fun x member => ?_, count, le_rfl⟩
      obtain ⟨carries, before⟩ := inv.counts x member
      exact ⟨carries, Nat.le_succ_of_le before⟩
    · rw [sent, List.pairwise_append]
      refine ⟨inv.ordered, List.pairwise_singleton _ _, ?_⟩
      intro x member y last
      rw [List.mem_singleton.mp last]
      exact Nat.lt_succ_of_le (inv.counts x member).2
  next => cases done

theorem lose_inv (done : lose s = some s') : Inv start s' := by
  unfold lose at done
  split at done
  next => cases done
  next first line waiting =>
    cases done
    have fewer : (s.delivered.map Delivered.sent ++ line).Sublist s.sent := by
      rw [State.sent, waiting]
      exact (List.sublist_cons_self first line).append_left _
    refine { inv with counts := ?_, ordered := ?_ }
    · exact fun x member => inv.counts x (fewer.subset member)
    · exact inv.ordered.sublist fewer

theorem receive_inv (queued : Nat → Bool) (b : Byte) (done : receive queued s b = some s') :
    Inv start s' := by
  have tracks := onByte_tracks queued s.reader b
  unfold Tracks at tracks
  simp only [receive] at done
  split at done
  next quiet =>
    cases done
    rw [quiet] at tracks
    refine { inv with lasttrig := ?_ }
    exact fun p last => tracks.trans (inv.lasttrig p last)
  next => cases done
  next words sent line arrived waiting =>
    split at done
    next genuine =>
      cases done
      rw [arrived] at tracks
      obtain ⟨lasttrig, curincr⟩ := tracks
      have same : State.sent { s with
          line := line
          reader := (onByte queued s.reader b).1
          delivered := s.delivered ++ [⟨sent, countIncr (onByte queued s.reader b).1.board⟩] } =
            s.sent := by
        simp [State.sent, waiting]
      refine { inv with counts := ?_, ordered := ?_, lasttrig := ?_, increments := ?_ }
      · rw [same]
        exact inv.counts
      · rw [same]
        exact inv.ordered
      · intro p last
        rw [List.getLast?_concat] at last
        cases last
        exact lasttrig.trans (congrArg carried genuine.symm)
      · refine inv.increments.append (List.isChain_singleton _) ?_
        intro p last q first
        rw [List.head?_cons] at first
        cases first
        show (onByte queued s.reader b).1.board.curincr.toInt = _
        rw [curincr, inv.lasttrig p last, genuine]
    next => cases done

theorem configure_inv (done : configure s = some s') : Inv start s' := by
  cases done
  refine { inv with counter := ?_ }
  show (setTriggerCounter counterPort ⟨s.counter, true⟩ 0#32 0#32).port =
    countAt start s.triggers (s.wiped + s.counter.toNat)
  rw [setTriggerCounter_port, inv.counter, countAt_wipe]
  rfl

end Steps

theorem step_inv (queued : Nat → Bool) {start : BitVec 64} (s : State) (a : Action) (s' : State)
    (inv : Inv start s) (done : step queued s a = some s') : Inv start s' := by
  cases a with
  | trigger words => exact trigger_inv inv words done
  | lose => exact lose_inv inv done
  | receive b => exact receive_inv inv queued b done
  | configure => exact configure_inv inv done

/-- In every run, the increments reported are the true ones exactly when no two packets delivered one after
the other have 2^31 triggers or more between them, and passes have wiped a multiple of 2^32 in between. -/
theorem increments_iff (polarity : Int) (start : BitVec 64) (actions : List Action) (s : State)
    (reached : Transition.run (step queued) (State.init polarity start) actions = some s) :
    s.delivered.IsChain TrueIncrement ↔ s.delivered.IsChain Unbroken := by
  have inv := Transition.run_invariant (step queued) (Inv start) (step_inv queued)
    (Inv.init polarity start) reached
  have before : s.delivered.Pairwise fun p q => p.sent.trigger < q.sent.trigger := by
    have sent := (List.pairwise_append.mp inv.ordered).1
    rwa [List.pairwise_map] at sent
  have counts (p : Delivered) (member : p ∈ s.delivered) :
      carried p.sent.words = countAt start p.sent.trigger p.sent.wiped :=
    (inv.counts p.sent (List.mem_append_left _ (List.mem_map_of_mem member))).1
  simp only [List.isChain_iff_getElem]
  refine forall₂_congr fun i more => ?_
  have later := List.pairwise_iff_getElem.mp before i (i + 1) (by omega) more (by omega)
  have reported := List.isChain_iff_getElem.mp inv.increments i more
  rw [counts _ (List.getElem_mem _), counts _ (List.getElem_mem _)] at reported
  have exact_when := increment_iff start s.delivered[i].sent.trigger s.delivered[i].sent.wiped
    s.delivered[i + 1].sent.trigger s.delivered[i + 1].sent.wiped later
  rw [← reported] at exact_when
  constructor
  · intro right
    have needed := exact_when.mp right.counted
    exact ⟨needed.1, needed.2⟩
  · intro unbroken
    have counted := exact_when.mpr ⟨unbroken.few, unbroken.wiped⟩
    exact ⟨counted, by omega⟩

/-! Packets for the runs below: a small count and nothing else. -/

def countFrame (count : Word) : Framing.Frame where
  cmd := false
  words :=
    let body := [0#16, 0#16, 0#16, count] ++ List.replicate 11 0#16
    body ++ [Crc.crc body]
  length_eq := rfl
  checked := ⟨_, rfl⟩

def taken (count : Word) : List Action :=
  .trigger (countFrame count).words :: (countFrame count).bytes.map .receive

/-- A packet lost between two others. -/
theorem increments_lost :
    ∃ s, Transition.run (step fun _ => true) (State.init 0 5#64)
        (taken 6#16 ++ [.trigger (countFrame 7#16).words, .lose] ++ taken 8#16) = some s ∧
      s.delivered = [⟨⟨(countFrame 6#16).words, 1, 0⟩, 6⟩, ⟨⟨(countFrame 8#16).words, 3, 0⟩, 2⟩] ∧
      s.delivered.IsChain TrueIncrement := by
  have computed : (Transition.run (step fun _ => true) (State.init 0 5#64)
      (taken 6#16 ++ [.trigger (countFrame 7#16).words, .lose] ++ taken 8#16)).map State.delivered =
        some [⟨⟨(countFrame 6#16).words, 1, 0⟩, 6⟩, ⟨⟨(countFrame 8#16).words, 3, 0⟩, 2⟩] := by
    decide +kernel
  obtain ⟨s, reached, delivered⟩ := Option.map_eq_some_iff.mp computed
  refine ⟨s, reached, delivered, (increments_iff (fun _ => true) 0 5#64 _ s reached).mpr ?_⟩
  rw [delivered, List.isChain_pair]
  exact ⟨by decide, by decide⟩

/-- One trigger, a pass, one trigger: the second increment is 0. -/
theorem increment_wiped :
    ¬∀ (polarity : Int) (start : BitVec 64) (actions : List Action) (s : State),
      Transition.run (step fun _ => true) (State.init polarity start) actions = some s →
        s.delivered.IsChain TrueIncrement := by
  intro always
  have computed : (Transition.run (step fun _ => true) (State.init 0 0#64)
      (taken 1#16 ++ [.configure] ++ taken 1#16)).map State.delivered =
        some [⟨⟨(countFrame 1#16).words, 1, 0⟩, 1⟩, ⟨⟨(countFrame 1#16).words, 2, 1⟩, 0⟩] := by
    decide +kernel
  obtain ⟨s, reached, delivered⟩ := Option.map_eq_some_iff.mp computed
  have right := always 0 0#64 _ s reached
  rw [delivered, List.isChain_pair] at right
  exact absurd right.positive (by decide)

end Ipimb.Increment
