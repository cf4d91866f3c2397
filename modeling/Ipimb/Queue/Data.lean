import Ipimb.Library.Transition
import Ipimb.Wire.Acquire

/-!
The queue of data packets between the reader thread and the records. `Acquire` decodes straight into
the slot that will be published next, `sendData` moves `dwr` on and then stores the timestamp, `read_ai`
reads through a pointer into the slot of `drd`. Both threads move one memory access at a time and in
any order; nothing compares the two counters but for emptiness.
-/

namespace Ipimb.DataQueue
open Ipimb.Chunk Ipimb.Crc Ipimb.BoardData Ipimb.Acquire

variable {T : Type}

/-- Where the reader thread is, with the data packet it works on in `rdbuf`: before word i of the decoding
loop, before channel c of `adjustdata`, or done with `Acquire`. In `sendData` it has `dwr` moved but not the
timestamp stored, then the scan still to request. -/
inductive ReaderPc (T : Type) where
  | reading
  | decoding (rdbuf : List Byte) (i : Nat)
  | adjusting (rdbuf : List Byte) (c : Nat)
  | acquired (rdbuf : List Byte)
  | sending (which : Nat) (t : T)
  | stamped

/-- The packets that are queued without a timestamp of their own. -/
def ReaderPc.unstamped : ReaderPc T → Nat
  | .sending .. => 1
  | _ => 0

/-- The packets that are queued without a scan requested for them. -/
def ReaderPc.unrequested : ReaderPc T → Nat
  | .sending .. | .stamped => 1
  | _ => 0

theorem ReaderPc.unstamped_le (pc : ReaderPc T) : pc.unstamped ≤ pc.unrequested := by
  cases pc <;> simp [unstamped, unrequested]

/-- A `read_ai` holds a pointer to slot `which`, with the timestamp copied; when it was, so many packets had
theirs stored. -/
inductive RecordPc (T : Type) where
  | idle
  | holding (which : Nat) (time : T) (stamped : Nat)

inductive IpimbFunc where
  | aiData
  | aiPs
  deriving DecidableEq

/-- The word of the packet that `read_ai` takes; the last channel is also the default. -/
def field (funcflag : IpimbFunc) (chnlnum : Nat) : Nat :=
  let c : Fin 4 := ⟨min chnlnum 3, by omega⟩
  match funcflag with
  | .aiData => ch c
  | .aiPs => chPs c

/-- A `read_ai` that has reported success, and the value of `drd` it was made at. For the record only: how
many timestamps had been stored when it copied one, how many packets were queued when it read the channel,
and how many the reader thread had begun to store by then. -/
structure Published (T : Type) where
  drd : Nat
  funcflag : IpimbFunc
  chnlnum : Nat
  rval : Word
  time : T
  stamped : Nat
  queued : Nat
  front : Nat
  deriving DecidableEq

/-- The queue and both threads. The last three fields are for the record only: the packets queued so
far, how many packets the reader thread has begun to store, and what has been published. -/
structure State (T : Type) where
  board : Board
  ts : Nat → T
  drd : Nat
  reader : ReaderPc T
  record : RecordPc T
  packets : List (List Byte × T)
  front : Nat
  published : List (Published T)

def State.init (polarity : Int) (ts : Nat → T) : State T where
  board := Board.init polarity
  ts := ts
  drd := 0
  reader := .reading
  record := .idle
  packets := []
  front := 0
  published := []

def State.stamped (s : State T) : Nat := s.board.dwr - s.reader.unstamped

def State.slot (s : State T) : Slot := s.board.getBuffer false

def State.store (s : State T) (p : Slot) (next : ReaderPc T) : State T :=
  { s with
    board := s.board.putBuffer false p
    front := max s.front (s.board.dwr + 1)
    reader := next }

@[simp] theorem slot_store (s : State T) (p : Slot) (next : ReaderPc T) : (s.store p next).slot = p :=
  getBuffer_putBuffer s.board false p

/-! The reader thread. -/

/-- All bytes of a data packet have been read and the end of frame is in its place. -/
def packet (s : State T) (rdbuf : List Byte) : Option (State T) :=
  match s.reader with
  | .reading =>
    if rdbuf.length = blen false ∧ command (byteAt rdbuf 0) = false ∧
        eofr (byteAt rdbuf (blen false - 3)) = true then
      some { s with reader := .decoding rdbuf 0 }
    else none
  | _ => none

def storeWord (s : State T) : Option (State T) :=
  match s.reader with
  | .decoding rdbuf i =>
    if i < len false then
      if goodChunk false rdbuf i then
        some (s.store (Function.update s.slot i (wordAt rdbuf i)) (.decoding rdbuf (i + 1)))
      else some { s with reader := .reading }
    else none
  | _ => none

def checkCrc (s : State T) : Option (State T) :=
  match s.reader with
  | .decoding rdbuf i =>
    if i = len false then
      if crc (words s.slot (len false - 1)) = s.slot (len false - 1) then
        some { s with reader := .adjusting rdbuf 0 }
      else some { s with reader := .reading }
    else none
  | _ => none

/-- The end of `Acquire`: the trigger count is compared with the last one. -/
def State.returned (s : State T) (rdbuf : List Byte) : State T :=
  let curtrig := triggerCounter s.slot
  { s with
    board := { s.board with
      curincr := (curtrig - s.board.lasttrig).setWidth 32
      lasttrig := curtrig
      handed := s.board.handed + 1 }
    reader := .acquired rdbuf }

def adjust (s : State T) : Option (State T) :=
  match s.reader with
  | .adjusting rdbuf c =>
    if more : c < 4 ∧ s.board.polarity ≠ 0 then
      some (s.store (adjustChannel s.board.polarity s.slot ⟨c, more.1⟩) (.adjusting rdbuf (c + 1)))
    else
      some (s.returned rdbuf)
  | _ => none

/-- The synchroniser calls `Acquire` again without queueing the packet. -/
def acquireAgain (s : State T) : Option (State T) :=
  match s.reader with
  | .acquired _ => some { s with reader := .reading }
  | _ => none

/-- `sendData` begins: `ts[dwr++ & IPIMB_Q_MASK] = t` assigns a structure, and `dwr` moves first. -/
def queue (s : State T) (t : T) : Option (State T) :=
  match s.reader with
  | .acquired rdbuf =>
    some { s with
      board := s.board.sendData
      packets := s.packets ++ [(rdbuf, t)]
      front := max s.front (s.board.dwr + 1)
      reader := .sending (s.board.dwr &&& qMask) t }
  | _ => none

def stamp (s : State T) : Option (State T) :=
  match s.reader with
  | .sending which t => some { s with ts := Function.update s.ts which t, reader := .stamped }
  | _ => none

def scanIoRequest (s : State T) : Option (State T) :=
  match s.reader with
  | .stamped => some { s with reader := .reading }
  | _ => none

/-! The record side. -/

/-- A `NULL` makes `read_ai` fail, so nothing is published. -/
def getData (s : State T) : Option (State T) :=
  match s.record with
  | .idle =>
    if s.drd = s.board.dwr then some s
    else
      let which := s.drd &&& qMask
      some { s with record := .holding which (s.ts which) s.stamped }
  | _ => none

def readAi (s : State T) (funcflag : IpimbFunc) (chnlnum : Nat) : Option (State T) :=
  match s.record with
  | .holding which time stamped =>
    some { s with
      record := .idle
      published := s.published ++
        [{ drd := s.drd
           funcflag := funcflag
           chnlnum := chnlnum
           rval := s.board.data which (field funcflag chnlnum)
           time := time
           stamped := stamped
           queued := s.board.dwr
           front := s.front }] }
  | _ => none

def nextData (s : State T) : Option (State T) :=
  match s.record with
  | .idle => if s.drd ≠ s.board.dwr then some { s with drd := s.drd + 1 } else some s
  | _ => none

inductive Action (T : Type) where
  | packet (rdbuf : List Byte)
  | storeWord
  | checkCrc
  | adjust
  | acquireAgain
  | queue (t : T)
  | stamp
  | scanIoRequest
  | getData
  | readAi (funcflag : IpimbFunc) (chnlnum : Nat)
  | nextData

def step (s : State T) : Action T → Option (State T)
  | .packet rdbuf => packet s rdbuf
  | .storeWord => storeWord s
  | .checkCrc => checkCrc s
  | .adjust => adjust s
  | .acquireAgain => acquireAgain s
  | .queue t => queue s t
  | .stamp => stamp s
  | .scanIoRequest => scanIoRequest s
  | .getData => getData s
  | .readAi funcflag chnlnum => readAi s funcflag chnlnum
  | .nextData => nextData s

/-! What a step can do. -/

inductive Effect (s : State T) : Action T → State T → Prop where
  | packet (rdbuf : List Byte) (place : s.reader = .reading) (data : command (byteAt rdbuf 0) = false)
      (eof : eofr (byteAt rdbuf (blen false - 3)) = true) :
      Effect s (.packet rdbuf) { s with reader := .decoding rdbuf 0 }
  | storeWord (rdbuf : List Byte) (i : Nat) (place : s.reader = .decoding rdbuf i) (more : i < len false)
      (good : goodChunk false rdbuf i = true) :
      Effect s .storeWord (s.store (Function.update s.slot i (wordAt rdbuf i)) (.decoding rdbuf (i + 1)))
  | badChunk (rdbuf : List Byte) (i : Nat) (place : s.reader = .decoding rdbuf i) :
      Effect s .storeWord { s with reader := .reading }
  | checkCrc (rdbuf : List Byte) (place : s.reader = .decoding rdbuf (len false))
      (checksum : crc (words s.slot (len false - 1)) = s.slot (len false - 1)) :
      Effect s .checkCrc { s with reader := .adjusting rdbuf 0 }
  | badCrc (rdbuf : List Byte) (place : s.reader = .decoding rdbuf (len false)) :
      Effect s .checkCrc { s with reader := .reading }
  | adjust (rdbuf : List Byte) (c : Nat) (place : s.reader = .adjusting rdbuf c)
      (more : c < 4 ∧ s.board.polarity ≠ 0) :
      Effect s .adjust
        (s.store (adjustChannel s.board.polarity s.slot ⟨c, more.1⟩) (.adjusting rdbuf (c + 1)))
  | returned (rdbuf : List Byte) (c : Nat) (place : s.reader = .adjusting rdbuf c)
      (stop : ¬(c < 4 ∧ s.board.polarity ≠ 0)) : Effect s .adjust (s.returned rdbuf)
  | acquireAgain (rdbuf : List Byte) (place : s.reader = .acquired rdbuf) :
      Effect s .acquireAgain { s with reader := .reading }
  | queue (rdbuf : List Byte) (t : T) (place : s.reader = .acquired rdbuf) :
      Effect s (.queue t) { s with
        board := s.board.sendData
        packets := s.packets ++ [(rdbuf, t)]
        front := max s.front (s.board.dwr + 1)
        reader := .sending (s.board.dwr &&& qMask) t }
  | stamp (which : Nat) (t : T) (place : s.reader = .sending which t) :
      Effect s .stamp { s with ts := Function.update s.ts which t, reader := .stamped }
  | scanIoRequest (place : s.reader = .stamped) : Effect s .scanIoRequest { s with reader := .reading }
  | noData : Effect s .getData s
  | getData (some_packet : s.drd ≠ s.board.dwr) :
      Effect s .getData
        { s with record := .holding (s.drd &&& qMask) (s.ts (s.drd &&& qMask)) s.stamped }
  | readAi (funcflag : IpimbFunc) (chnlnum which : Nat) (time : T) (stamped : Nat)
      (held : s.record = .holding which time stamped) :
      Effect s (.readAi funcflag chnlnum) { s with
        record := .idle
        published := s.published ++
          [⟨s.drd, funcflag, chnlnum, s.board.data which (field funcflag chnlnum), time, stamped,
            s.board.dwr, s.front⟩] }
  | nextData (idle : s.record = .idle) (some_packet : s.drd ≠ s.board.dwr) :
      Effect s .nextData { s with drd := s.drd + 1 }
  | noNext : Effect s .nextData s

theorem effect_of_step (s : State T) (a : Action T) (s' : State T) (done : step s a = some s') :
    Effect s a s' := by
  cases a with
  | packet rdbuf =>
    simp only [step, packet] at done
    split at done
    next place =>
      split_ifs at done with ready
      cases done
      exact .packet rdbuf place ready.2.1 ready.2.2
    next => cases done
  | storeWord =>
    simp only [step, storeWord] at done
    split at done
    next rdbuf i place =>
      split_ifs at done with more good <;> cases done
      · exact .storeWord rdbuf i place more good
      · exact .badChunk rdbuf i place
    next => cases done
  | checkCrc =>
    simp only [step, checkCrc] at done
    split at done
    next rdbuf i place =>
      split_ifs at done with complete checksum <;> cases done
      · exact .checkCrc rdbuf (by rw [place, complete]) checksum
      · exact .badCrc rdbuf (by rw [place, complete])
    next => cases done
  | adjust =>
    simp only [step, adjust] at done
    split at done
    next rdbuf c place =>
      split_ifs at done with more <;> cases done
      · exact .adjust rdbuf c place more
      · exact .returned rdbuf c place more
    next => cases done
  | acquireAgain =>
    simp only [step, acquireAgain] at done
    split at done
    next rdbuf place =>
      cases done
      exact .acquireAgain rdbuf place
    next => cases done
  | queue t =>
    simp only [step, queue] at done
    split at done
    next rdbuf place =>
      cases done
      exact .queue rdbuf t place
    next => cases done
  | stamp =>
    simp only [step, stamp] at done
    split at done
    next which t place =>
      cases done
      exact .stamp which t place
    next => cases done
  | scanIoRequest =>
    simp only [step, scanIoRequest] at done
    split at done
    next place =>
      cases done
      exact .scanIoRequest place
    next => cases done
  | getData =>
    simp only [step, getData] at done
    split at done
    · split_ifs at done with none <;> cases done
      · exact .noData
      · exact .getData none
    · cases done
  | readAi funcflag chnlnum =>
    simp only [step, readAi] at done
    split at done
    next which time stamped held =>
      cases done
      exact .readAi funcflag chnlnum which time stamped held
    next => cases done
  | nextData =>
    simp only [step, nextData] at done
    split at done
    next idle =>
      split_ifs at done with some_packet <;> cases done
      · exact .nextData idle some_packet
      · exact .noNext
    next => cases done

end Ipimb.DataQueue
