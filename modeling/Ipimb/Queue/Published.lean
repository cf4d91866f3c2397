import Ipimb.Library.Ring
import Ipimb.Queue.Data
import Ipimb.Wire.Framing

/-!
What the records show. A slot holds the packet it was given until the reader thread comes round to it
again, eight packets later; until then `read_ai` finds the packet's value in it, and its timestamp once
`sendData` has stored that too. Nothing keeps the reader thread from coming round, and nothing keeps a
`read_ai` from looking before the timestamp is there.
-/

namespace Ipimb.DataQueue
open Ipimb.Chunk Ipimb.Crc Ipimb.BoardData Ipimb.Acquire Ipimb.Framing

variable {T : Type}

def adjustedPacket (polarity : Int) (rdbuf : List Byte) : Slot := adjustdata polarity (wordAt rdbuf)

/-- The channel value and the timestamp are those of the packet that was the drd-th to be queued, and
that packet is complete. -/
def Genuine (polarity : Int) (packets : List (List Byte × T)) (p : Published T) : Prop :=
  ∃ rdbuf, packets[p.drd]? = some (rdbuf, p.time) ∧ Passes rdbuf ∧
    p.rval = adjustedPacket polarity rdbuf (field p.funcflag p.chnlnum)

def Entry (polarity : Int) (packets : List (List Byte × T)) (k : Nat) (p : Slot) : Prop :=
  ∃ rdbuf t, packets[k]? = some (rdbuf, t) ∧ Passes rdbuf ∧ Same p (adjustedPacket polarity rdbuf)

def Timed (packets : List (List Byte × T)) (k : Nat) (t : T) : Prop := ∃ rdbuf, packets[k]? = some (rdbuf, t)

/-- What is known of a `read_ai` that is over: the value is from the packet that was in the slot, whichever
that was, and the timestamp from the packet it was asked for if that one's was there. -/
structure Settled (polarity : Int) (packets : List (List Byte × T)) (p : Published T) : Prop where
  more : p.drd < p.queued
  value : ∀ j, j &&& qMask = p.drd &&& qMask → j < p.queued → p.front ≤ j + 8 →
    ∃ rdbuf t, packets[j]? = some (rdbuf, t) ∧ Passes rdbuf ∧
      p.rval = adjustedPacket polarity rdbuf (field p.funcflag p.chnlnum)
  time : p.front ≤ p.drd + 8 → p.drd < p.stamped → Timed packets p.drd p.time

theorem Settled.genuine {polarity : Int} {packets : List (List Byte × T)} {p : Published T}
    (settled : Settled polarity packets p) (near : p.front ≤ p.drd + 8) (stamped : p.drd < p.stamped) :
    Genuine polarity packets p := by
  obtain ⟨rdbuf, t, queued, passes, rval⟩ := settled.value p.drd rfl settled.more near
  obtain ⟨rdbuf', timed⟩ := settled.time near stamped
  have same : rdbuf' = rdbuf := by
    rw [queued] at timed
    exact (congrArg Prod.fst (Option.some.inj timed)).symm
  subst same
  exact ⟨rdbuf', timed, passes, rval⟩

/-- How far the packet in the reader thread's slot has come. -/
def ReaderOk (s : State T) : Prop :=
  match s.reader with
  | .reading | .stamped => True
  | .decoding rdbuf i => i ≤ len false ∧ command (byteAt rdbuf 0) = false ∧
      eofr (byteAt rdbuf (blen false - 3)) = true ∧
      ∀ k < i, goodChunk false rdbuf k = true ∧ s.slot k = wordAt rdbuf k
  | .adjusting rdbuf c => c ≤ 4 ∧ (s.board.polarity = 0 → c = 0) ∧ Passes rdbuf ∧
      Same s.slot (adjustTo s.board.polarity (wordAt rdbuf) c)
  | .acquired rdbuf => Passes rdbuf ∧ Same s.slot (adjustedPacket s.board.polarity rdbuf)
  | .sending which t => which = s.stamped &&& qMask ∧ s.stamped + 1 = s.board.dwr ∧ Timed s.packets s.stamped t

/-- Slots the reader thread has not come back to hold the packet they were given. -/
structure Inv (polarity : Int) (s : State T) : Prop where
  polarity_eq : s.board.polarity = polarity
  drd_le : s.drd ≤ s.board.dwr
  counted : s.packets.length = s.board.dwr
  begun : s.board.dwr ≤ s.front
  reader : ReaderOk s
  data : Ring.Backed 8 s.board.data (Entry polarity s.packets) (s.front - 8) s.board.dwr
  times : Ring.Backed 8 s.ts (Timed s.packets) (s.front - 8) s.stamped
  holding : ∀ which time stamped, s.record = .holding which time stamped →
    s.drd < s.board.dwr ∧ which = s.drd &&& qMask ∧
      (s.front ≤ s.drd + 8 → s.drd < stamped → Timed s.packets s.drd time)
  published : ∀ p ∈ s.published, Settled polarity s.packets p
  ordered : s.published.Pairwise fun p q => p.drd ≤ q.drd
  behind : ∀ p ∈ s.published, p.drd ≤ s.drd

theorem Inv.init (polarity : Int) (ts : Nat → T) : Inv polarity (State.init polarity ts) where
  polarity_eq := rfl
  drd_le := le_rfl
  counted := rfl
  begun := le_rfl
  reader := trivial
  data := Ring.Backed.of_empty le_rfl
  times := Ring.Backed.of_empty le_rfl
  holding := nofun
  published := nofun
  ordered := List.Pairwise.nil
  behind := nofun

theorem stamped_le (s : State T) : s.stamped ≤ s.board.dwr := Nat.sub_le _ _

/-! Steps of the reader thread. -/

/-- What a step of the reader thread does to the rest, unless it is in `sendData`: no store at all, or one
into the slot of `dwr`. -/
structure Unqueued (s s' : State T) : Prop where
  drd_eq : s'.drd = s.drd
  record_eq : s'.record = s.record
  packets_eq : s'.packets = s.packets
  published_eq : s'.published = s.published
  dwr_eq : s'.board.dwr = s.board.dwr
  polarity_eq : s'.board.polarity = s.board.polarity
  ts_eq : s'.ts = s.ts
  stamped_eq : s'.stamped = s.stamped
  memory : (s'.board.data = s.board.data ∧ s'.front = s.front) ∨
    ((∃ p, s'.board.data = Function.update s.board.data (s.board.dwr % 8) p) ∧
      s'.front = max s.front (s.board.dwr + 1))

theorem Unqueued.front_le {s s' : State T} (kept : Unqueued s s') : s.front ≤ s'.front := by
  rcases kept.memory with ⟨-, front⟩ | ⟨-, front⟩ <;> omega

theorem Inv.unqueued {polarity : Int} {s s' : State T} (inv : Inv polarity s) (kept : Unqueued s s')
    (reader : ReaderOk s') : Inv polarity s' where
  polarity_eq := kept.polarity_eq.trans inv.polarity_eq
  drd_le := by
    rw [kept.drd_eq, kept.dwr_eq]
    exact inv.drd_le
  counted := by
    rw [kept.packets_eq, kept.dwr_eq]
    exact inv.counted
  begun := by
    rw [kept.dwr_eq]
    exact inv.begun.trans kept.front_le
  reader := reader
  data := by
    rw [kept.packets_eq, kept.dwr_eq]
    rcases kept.memory with ⟨data, front⟩ | ⟨⟨p, data⟩, front⟩
    · rw [data, front]
      exact inv.data
    · rw [data, front]
      exact inv.data.store (by omega) (by omega) p
  times := by
    rw [kept.packets_eq, kept.stamped_eq, kept.ts_eq]
    exact inv.times.drop (Nat.sub_le_sub_right kept.front_le 8)
  holding := by
    intro which time stamped held
    rw [kept.record_eq] at held
    obtain ⟨more, slot, found⟩ := inv.holding which time stamped held
    rw [kept.drd_eq, kept.dwr_eq, kept.packets_eq]
    exact ⟨more, slot, fun near => found (kept.front_le.trans near)⟩
  published := by
    rw [kept.published_eq, kept.packets_eq]
    exact inv.published
  ordered := by
    rw [kept.published_eq]
    exact inv.ordered
  behind := by
    rw [kept.published_eq, kept.drd_eq]
    exact inv.behind

theorem unqueued_move (s : State T) (pc : ReaderPc T) (same : pc.unstamped = s.reader.unstamped) :
    Unqueued s { s with reader := pc } :=
  ⟨rfl, rfl, rfl, rfl, rfl, rfl, rfl, congrArg (s.board.dwr - ·) same, Or.inl ⟨rfl, rfl⟩⟩

theorem unqueued_store (s : State T) (p : Slot) (pc : ReaderPc T) (same : pc.unstamped = s.reader.unstamped) :
    Unqueued s (s.store p pc) :=
  ⟨rfl, rfl, rfl, rfl, rfl, rfl, rfl, congrArg (s.board.dwr - ·) same,
    Or.inr ⟨⟨p, by rw [← and_qMask]; rfl⟩, rfl⟩⟩

/-- A packet whose words have all been stored from good chunks passes when the checksum in the slot
is right. -/
theorem passes_of_slot {rdbuf : List Byte} {p : Slot} (data : command (byteAt rdbuf 0) = false)
    (eof : eofr (byteAt rdbuf (blen false - 3)) = true)
    (stored : ∀ k < len false, goodChunk false rdbuf k = true ∧ p k = wordAt rdbuf k)
    (checksum : crc (words p (len false - 1)) = p (len false - 1)) : Passes rdbuf where
  eof := by rw [data]; exact eof
  chunks := by
    rw [data]
    exact fun k bound => (stored k bound).1
  checksum := by
    have body : words p (len false - 1) = (packetWords rdbuf).take (len false - 1) := by
      rw [packetWords_take, data, len_false]
      exact words_congr fun k bound => (stored k (by rw [len_false]; omega)).2
    rw [data, ← body, checksum]
    exact (stored (len false - 1) (by decide)).2

/-! A packet that is queued does not take the place of another. -/

section Queued
variable {polarity : Int} {packets : List (List Byte × T)} {k : Nat}

theorem getElem_queued {packet : List Byte × T} (found : packets[k]? = some packet) (next : List Byte × T) :
    (packets ++ [next])[k]? = some packet := by
  rw [List.getElem?_append_left (List.getElem?_eq_some_iff.mp found).1, found]

theorem Entry.queued {p : Slot} (entry : Entry polarity packets k p) (next : List Byte × T) :
    Entry polarity (packets ++ [next]) k p := by
  obtain ⟨rdbuf, t, found, rest⟩ := entry
  exact ⟨rdbuf, t, getElem_queued found next, rest⟩

theorem Timed.queued {t : T} (timed : Timed packets k t) (next : List Byte × T) :
    Timed (packets ++ [next]) k t := by
  obtain ⟨rdbuf, found⟩ := timed
  exact ⟨rdbuf, getElem_queued found next⟩

theorem Settled.queued {p : Published T} (settled : Settled polarity packets p) (next : List Byte × T) :
    Settled polarity (packets ++ [next]) p where
  more := settled.more
  value j slot before near := by
    obtain ⟨rdbuf, t, found, rest⟩ := settled.value j slot before near
    exact ⟨rdbuf, t, getElem_queued found next, rest⟩
  time near stamped := (settled.time near stamped).queued next

end Queued

section Reader
variable {polarity : Int} {s : State T} (inv : Inv polarity s)
include inv

theorem packet_inv (rdbuf : List Byte) (place : s.reader = .reading)
    (data : command (byteAt rdbuf 0) = false) (eof : eofr (byteAt rdbuf (blen false - 3)) = true) :
    Inv polarity { s with reader := .decoding rdbuf 0 } :=
  inv.unqueued (unqueued_move s _ (by rw [place]; rfl))
    ⟨Nat.zero_le _, data, eof, fun k none => absurd none (Nat.not_lt_zero k)⟩

theorem reading_inv (all : s.reader.unstamped = 0) : Inv polarity { s with reader := .reading } :=
  inv.unqueued (unqueued_move s _ all.symm) trivial

theorem storeWord_inv (rdbuf : List Byte) (i : Nat) (place : s.reader = .decoding rdbuf i)
    (more : i < len false) (good : goodChunk false rdbuf i = true) :
    Inv polarity (s.store (Function.update s.slot i (wordAt rdbuf i)) (.decoding rdbuf (i + 1))) := by
  have reader := inv.reader
  rw [ReaderOk, place] at reader
  obtain ⟨-, data, eof, stored⟩ := reader
  refine inv.unqueued (unqueued_store s _ _ (by rw [place]; rfl)) ⟨more, data, eof, ?_⟩
  intro k bound
  rw [slot_store]
  by_cases here : k = i
  · rw [here, Function.update_self]
    exact ⟨good, rfl⟩
  · rw [Function.update_of_ne here]
    exact stored k (by omega)

theorem checkCrc_inv (rdbuf : List Byte) (place : s.reader = .decoding rdbuf (len false))
    (checksum : crc (words s.slot (len false - 1)) = s.slot (len false - 1)) :
    Inv polarity { s with reader := .adjusting rdbuf 0 } := by
  have reader := inv.reader
  rw [ReaderOk, place] at reader
  obtain ⟨-, data, eof, stored⟩ := reader
  exact inv.unqueued (unqueued_move s _ (by rw [place]; rfl)) ⟨Nat.zero_le _, fun _ => rfl,
    passes_of_slot data eof stored checksum, fun k bound => (stored k bound).2⟩

theorem adjust_inv (rdbuf : List Byte) (c : Nat) (place : s.reader = .adjusting rdbuf c)
    (more : c < 4 ∧ s.board.polarity ≠ 0) :
    Inv polarity
      (s.store (adjustChannel s.board.polarity s.slot ⟨c, more.1⟩) (.adjusting rdbuf (c + 1))) := by
  have reader := inv.reader
  rw [ReaderOk, place] at reader
  obtain ⟨-, -, passes, same⟩ := reader
  refine inv.unqueued (unqueued_store s _ _ (by rw [place]; rfl)) ⟨more.1, ?_, passes, ?_⟩
  · exact fun zero => absurd zero more.2
  · rw [slot_store]
    exact adjustTo_succ s.board.polarity _ c more.1 ▸ same.adjustChannel _ _

theorem returned_inv (rdbuf : List Byte) (c : Nat) (place : s.reader = .adjusting rdbuf c)
    (stop : ¬(c < 4 ∧ s.board.polarity ≠ 0)) : Inv polarity (s.returned rdbuf) := by
  have reader := inv.reader
  rw [ReaderOk, place] at reader
  obtain ⟨bound, off, passes, same⟩ := reader
  have whole := adjustdata_eq s.board.polarity (wordAt rdbuf) c bound off stop
  rw [← whole] at same
  have stamped : (s.returned rdbuf).stamped = s.stamped := by
    rw [State.stamped, State.stamped, place]
    rfl
  exact inv.unqueued ⟨rfl, rfl, rfl, rfl, rfl, rfl, rfl, stamped, Or.inl ⟨rfl, rfl⟩⟩ ⟨passes, same⟩

/-- The packet in the slot becomes the next one of the queue, still without its timestamp. -/
theorem queue_inv (rdbuf : List Byte) (t : T) (place : s.reader = .acquired rdbuf) :
    Inv polarity { s with
      board := s.board.sendData
      packets := s.packets ++ [(rdbuf, t)]
      front := max s.front (s.board.dwr + 1)
      reader := .sending (s.board.dwr &&& qMask) t } := by
  have reader := inv.reader
  rw [ReaderOk, place] at reader
  obtain ⟨passes, same⟩ := reader
  have stamped : s.stamped = s.board.dwr := by
    rw [State.stamped, place]
    rfl
  have newest : (s.packets ++ [(rdbuf, t)])[s.board.dwr]? = some (rdbuf, t) := by
    rw [← inv.counted]
    exact List.getElem?_concat_length
  have lower : s.front - 8 ≤ max s.front (s.board.dwr + 1) - 8 := by omega
  exact {
    polarity_eq := inv.polarity_eq
    drd_le := inv.drd_le.trans (Nat.le_succ _)
    counted := by
      rw [List.length_append, inv.counted]
      rfl
    begun := le_max_right _ _
    reader := ⟨rfl, rfl, rdbuf, newest⟩
    data := by
      refine ((inv.data.mono fun k _ p entry => entry.queued (rdbuf, t)).drop lower).push ?_
      refine ⟨rdbuf, t, newest, passes, ?_⟩
      rw [← inv.polarity_eq]
      simpa [State.slot, Board.getBuffer, and_qMask] using same
    times := by
      have times := (inv.times.mono fun k _ time timed => timed.queued (rdbuf, t)).drop lower
      rw [stamped] at times
      exact times
    holding := by
      intro which time stamped held
      obtain ⟨more, slot, found⟩ := inv.holding which time stamped held
      exact ⟨Nat.lt_succ_of_lt more, slot,
        fun near there => (found (le_trans (le_max_left _ _) near) there).queued _⟩
    published := fun p member => (inv.published p member).queued _
    ordered := inv.ordered
    behind := inv.behind }

theorem stamp_inv (which : Nat) (t : T) (place : s.reader = .sending which t) :
    Inv polarity { s with ts := Function.update s.ts which t, reader := .stamped } := by
  have reader := inv.reader
  rw [ReaderOk, place] at reader
  obtain ⟨slot, newest, timed⟩ := reader
  have begun := inv.begun
  have close : s.stamped < s.front - 8 + 8 := by omega
  refine { inv with reader := trivial, times := ?_ }
  have times := (inv.times.store le_rfl close t).push (by rwa [Function.update_self])
  rw [newest, ← and_qMask, ← slot] at times
  exact times

end Reader

/-! Steps of the record side. -/

section Record
variable {polarity : Int} {s : State T} (inv : Inv polarity s)
include inv

theorem getData_inv (some_packet : s.drd ≠ s.board.dwr) :
    Inv polarity { s with record := .holding (s.drd &&& qMask) (s.ts (s.drd &&& qMask)) s.stamped } := by
  have more : s.drd < s.board.dwr := by
    have le := inv.drd_le
    omega
  refine { inv with holding := ?_ }
  intro which time stamped held
  cases held
  refine ⟨more, rfl, fun near there => ?_⟩
  have close : s.front ≤ s.drd + 8 := near
  rw [and_qMask]
  exact inv.times s.drd (by omega) there

/-- What is read through the pointer belongs to the packet that is in the slot by then. -/
theorem readAi_inv (funcflag : IpimbFunc) (chnlnum which : Nat) (time : T) (stamped : Nat)
    (held : s.record = .holding which time stamped) :
    Inv polarity { s with
      record := .idle
      published := s.published ++
        [⟨s.drd, funcflag, chnlnum, s.board.data which (field funcflag chnlnum), time, stamped,
          s.board.dwr, s.front⟩] } := by
  obtain ⟨more, slot, copied⟩ := inv.holding which time stamped held
  have field_lt : field funcflag chnlnum < 16 := by
    cases funcflag <;> simp only [field, ch, chPs] <;> omega
  refine { inv with holding := ?_, published := ?_, ordered := ?_, behind := ?_ }
  · intro which time stamped held
    cases held
  · rw [List.forall_mem_append, List.forall_mem_singleton]
    refine ⟨inv.published, more, ?_, copied⟩
    intro j same before near
    have close : s.front ≤ j + 8 := near
    obtain ⟨rdbuf, t, found, passes, stored⟩ := inv.data j (by omega) before
    refine ⟨rdbuf, t, found, passes, ?_⟩
    have here : which = j % 8 := by rw [slot, ← and_qMask, same]
    rw [here]
    exact stored _ field_lt
  · rw [List.pairwise_append]
    refine ⟨inv.ordered, List.pairwise_singleton _ _, ?_⟩
    intro p old q new
    rw [List.mem_singleton] at new
    rw [new]
    exact inv.behind p old
  · rw [List.forall_mem_append, List.forall_mem_singleton]
    exact ⟨inv.behind, le_rfl⟩

theorem nextData_inv (idle : s.record = .idle) (some_packet : s.drd ≠ s.board.dwr) :
    Inv polarity { s with drd := s.drd + 1 } := by
  have le := inv.drd_le
  refine { inv with drd_le := ?_, holding := ?_, behind := ?_ }
  · simp only
    omega
  · intro which time stamped held
    rw [idle] at held
    cases held
  · exact fun p member => (inv.behind p member).trans (Nat.le_succ _)

end Record

theorem step_inv {polarity : Int} (s : State T) (a : Action T) (s' : State T) (inv : Inv polarity s)
    (done : step s a = some s') : Inv polarity s' := by
  cases effect_of_step s a s' done with
  | packet rdbuf place data eof => exact packet_inv inv rdbuf place data eof
  | storeWord rdbuf i place more good => exact storeWord_inv inv rdbuf i place more good
  | badChunk rdbuf i place => exact reading_inv inv (by rw [place]; rfl)
  | checkCrc rdbuf place checksum => exact checkCrc_inv inv rdbuf place checksum
  | badCrc rdbuf place => exact reading_inv inv (by rw [place]; rfl)
  | adjust rdbuf c place more => exact adjust_inv inv rdbuf c place more
  | returned rdbuf c place stop => exact returned_inv inv rdbuf c place stop
  | acquireAgain rdbuf place => exact reading_inv inv (by rw [place]; rfl)
  | queue rdbuf t place => exact queue_inv inv rdbuf t place
  | stamp which t place => exact stamp_inv inv which t place
  | scanIoRequest place => exact reading_inv inv (by rw [place]; rfl)
  | noData => exact inv
  | getData some_packet => exact getData_inv inv some_packet
  | readAi funcflag chnlnum which time stamped held =>
    exact readAi_inv inv funcflag chnlnum which time stamped held
  | nextData idle some_packet => exact nextData_inv inv idle some_packet
  | noNext => exact inv

/-- Whatever the threads do, packets are published in the order they were queued. A `read_ai` that copies the
timestamp after `sendData` has stored it, and reads before the reader thread has begun to store the packet
eight places further on, publishes the channel value and the timestamp of the packet that was the drd-th to
be queued. -/
theorem published_genuine (polarity : Int) (ts : Nat → T) (actions : List (Action T)) (s : State T)
    (reached : Transition.run step (State.init polarity ts) actions = some s) :
    (s.published.Pairwise fun p q => p.drd ≤ q.drd) ∧
      ∀ p ∈ s.published, p.front ≤ p.drd + 8 → p.drd < p.stamped → Genuine polarity s.packets p := by
  have inv := Transition.run_invariant step (Inv polarity) step_inv (Inv.init polarity ts) reached
  exact ⟨inv.ordered, fun p member => (inv.published p member).genuine⟩

/-! Packets for the runs below: one channel set, all other words zero. -/

def sampleFrame (sample : Word) : Frame where
  cmd := false
  words :=
    let body := List.replicate 7 0#16 ++ [sample] ++ List.replicate 7 0#16
    body ++ [crc body]
  length_eq := rfl
  checked := ⟨_, rfl⟩

def acquire (rdbuf : List Byte) : List (Action T) :=
  [.packet rdbuf] ++ List.replicate 16 .storeWord ++ [.checkCrc, .adjust]

def enqueue (rdbuf : List Byte) (t : T) : List (Action T) :=
  acquire rdbuf ++ [.queue t, .stamp, .scanIoRequest]

/-- Two packets; the first is read while `sendData` queues the second. -/
def pair : List (Action Nat) :=
  enqueue (sampleFrame 5#16).bytes 1 ++ acquire (sampleFrame 6#16).bytes ++
    [.getData, .queue 2, .readAi .aiData 0, .stamp, .nextData, .getData, .scanIoRequest, .readAi .aiData 0]

theorem published_genuine_pair :
    ∃ s : State Nat, Transition.run step (State.init 0 fun _ => 0) pair = some s ∧
      s.published = [⟨0, .aiData, 0, 5#16, 1, 1, 2, 2⟩, ⟨1, .aiData, 0, 6#16, 2, 2, 2, 2⟩] ∧
      ∀ p ∈ s.published, Genuine 0 s.packets p := by
  have computed : (Transition.run step (State.init 0 fun _ => 0) pair).map State.published =
      some [⟨0, .aiData, 0, 5#16, 1, 1, 2, 2⟩, ⟨1, .aiData, 0, 6#16, 2, 2, 2, 2⟩] := by decide +kernel
  obtain ⟨s, reached, published⟩ := Option.map_eq_some_iff.mp computed
  have timely : ∀ p ∈ s.published, p.front ≤ p.drd + 8 ∧ p.drd < p.stamped := by
    rw [published]
    decide
  refine ⟨s, reached, published, fun p member => ?_⟩
  exact (published_genuine 0 (fun _ => 0) pair s reached).2 p member (timely p member).1 (timely p member).2

/-- A `read_ai` between the two stores of `sendData` shows the packet under the slot's old timestamp. -/
example : (Transition.run step (State.init 0 fun _ => 7)
    (acquire (sampleFrame 5#16).bytes ++ [.queue 1, .getData, .stamp, .readAi .aiData 0])).map
      State.published = some [⟨0, .aiData, 0, 5#16, 7, 0, 1, 1⟩] := by decide +kernel

/-- Eight packets are queued and `read_ai` holds the first; the ninth is decoded over it. -/
def lapped : List (Action Nat) :=
  (List.range 8).flatMap (fun t => enqueue (sampleFrame 0#16).bytes t) ++
    [.getData, .packet (sampleFrame 5#16).bytes] ++ List.replicate 8 .storeWord ++ [.readAi .aiData 0]

/-- The reader thread a whole queue ahead: the value of an unfinished packet under the timestamp of
the first. -/
theorem published_torn :
    ¬∀ (actions : List (Action Nat)) (s : State Nat),
      Transition.run step (State.init 0 fun _ => 0) actions = some s →
        ∀ p ∈ s.published, Genuine 0 s.packets p := by
  intro always
  have computed : (Transition.run step (State.init 0 fun _ => 0) lapped).map
      (fun s => (s.published, s.packets[0]?)) =
        some ([⟨0, .aiData, 0, 5#16, 0, 8, 8, 9⟩], some ((sampleFrame 0#16).bytes, 0)) := by decide +kernel
  obtain ⟨s, reached, seen⟩ := Option.map_eq_some_iff.mp computed
  injection seen with published first
  obtain ⟨rdbuf, packet, -, rval⟩ := always lapped s reached ⟨0, .aiData, 0, 5#16, 0, 8, 8, 9⟩
    (by rw [published]; exact List.mem_singleton_self _)
  rw [first] at packet
  have bytes : rdbuf = (sampleFrame 0#16).bytes := (congrArg Prod.fst (Option.some.inj packet)).symm
  rw [bytes] at rval
  exact absurd rval (by decide +kernel)

end Ipimb.DataQueue
