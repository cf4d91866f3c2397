import Ipimb.Library.Transition
import Ipimb.Wire.Command

/-!
Reading registers over the serial line. `ReadRegister` sends a command and waits on a condition
variable for the reader thread to deliver responses into the command queue; responses carry an
address and nothing else to tell them apart. The board takes the commands in order and answers reads,
each after any delay or never. The steps of the three are interleaved in any way the mutex allows.
-/

namespace Ipimb.Register
open Ipimb.Chunk Ipimb.BoardData Ipimb.Acquire Ipimb.Command

def badValue : BitVec 32 := 0xfadefade#32

/-- A command on its way to the board, and how many calls of `ReadRegister` there had been. -/
structure Sent where
  cmd : IpimBoardCommand
  call : Nat

/-- A response of the board, and the call whose command it answers. -/
structure Answer where
  addr : BitVec 8
  data : BitVec 32
  call : Nat
  deriving DecidableEq

def Answer.words (a : Answer) : List Word :=
  (IpimBoardCommand.mk false (a.addr.setWidth 32) a.data).commandList

/-- Where `ReadRegister` is. -/
inductive Place where
  /-- At the head of the loop, holding the mutex. -/
  | head
  /-- In `pthread_cond_timedwait`, without the mutex. -/
  | waiting
  /-- The wait has timed out and wants the mutex back. -/
  | expired
  /-- The wait has been woken up, by a signal or not, and wants the mutex back. -/
  | woken
  deriving DecidableEq

/-- A call of `ReadRegister`. From `flush` on the fields are for the record only: `cwr` when the queue
was flushed, all contents the register has had since, whether all commands were sent, whether a
response has been ignored, whether the last wait began with a response unread, and whether such a wait
has timed out after a response had been ignored. -/
structure Call where
  regAddr : BitVec 8
  doWrite : Bool
  i : Nat
  place : Place
  flush : Nat
  contents : List (BitVec 32)
  sent : Bool
  stale : Bool
  queued : Bool
  late : Bool

/-- What a call of `ReadRegister` has come to: its result, the contents the register had meanwhile,
the response the result comes from, whether all commands were sent, the responses delivered since the
flush, and whether it timed out in a wait begun with a response unread. -/
structure Return where
  call : Nat
  regAddr : BitVec 8
  result : BitVec 32
  contents : List (BitVec 32)
  source : Option Answer
  sent : Bool
  got : List Answer
  late : Bool
  deriving DecidableEq

/-- The driver, the line and the board. `storing` counts the words of response number `cwr` that the
reader thread has stored, if it has begun to. The commands sent and the responses given are kept for
good; the first `handled` commands have been handled, and the first `cwr` responses delivered. -/
structure State where
  board : Board
  crd : Nat
  reading : Option Call
  storing : Option Nat
  regs : BitVec 8 → BitVec 32
  sent : List Sent
  handled : Nat
  given : List Answer
  call : Nat
  returned : List Return

def State.init (regs : BitVec 8 → BitVec 32) : State where
  board := Board.init 0
  crd := 0
  reading := none
  storing := none
  regs := regs
  sent := []
  handled := 0
  given := []
  call := 0
  returned := []

/-! The configurer thread. -/

/-- `ReadRegister` up to the loop. -/
def readRegister (s : State) (regAddr : BitVec 8) : Option State :=
  match s.reading with
  | none =>
    some { s with
      crd := s.board.cwr
      call := s.call + 1
      reading := some {
        regAddr, doWrite := true, i := 0, place := .head, flush := s.board.cwr
        contents := [s.regs regAddr], sent := true, stale := false, queued := false, late := false } }
  | some _ => none

/-- `WriteRegister`, which does not look at what `WriteCommand` returns. -/
def writeRegister (s : State) (regAddr : BitVec 8) (regValue : BitVec 32) (ok : Bool) : Option State :=
  match s.reading with
  | none =>
    if ok then some { s with sent := s.sent ++ [⟨⟨true, regAddr.setWidth 32, regValue⟩, s.call⟩] }
    else some s
  | some _ => none

def State.ret (s : State) (c : Call) (result : BitVec 32) (source : Option Answer) : State :=
  { s with
    reading := none
    returned := s.returned ++
      [⟨s.call, c.regAddr, result, c.contents, source, c.sent, (s.given.take s.board.cwr).drop c.flush,
        c.late⟩] }

/-- From the head of the loop into the wait. `ok` tells whether `WriteCommand` succeeds. -/
def loop (s : State) (ok : Bool) : Option State :=
  match s.reading with
  | some c =>
    if c.place = .head then
      let wait := { c with place := Place.waiting, queued := decide (s.crd ≠ s.board.cwr) }
      if c.i < 5 then
        if c.doWrite then
          if ok then
            some { s with
              reading := some wait
              sent := s.sent ++ [⟨⟨false, c.regAddr.setWidth 32, 0#32⟩, s.call⟩] }
          else some (s.ret { c with sent := false } badValue none)
        else some { s with reading := some wait }
      else some (s.ret c badValue none)
    else none
  | none => none

def expire (s : State) : Option State :=
  match s.reading with
  | some c =>
    if c.place = .waiting then some { s with reading := some { c with place := .expired } } else none
  | none => none

def spurious (s : State) : Option State :=
  match s.reading with
  | some c =>
    if c.place = .waiting then some { s with reading := some { c with place := .woken } } else none
  | none => none

/-- The oldest unread response is taken: the result if its address fits, else it is ignored. -/
def State.take (s : State) (c : Call) (resp : IpimBoardResponse) : State :=
  if resp.addr = c.regAddr.setWidth 32 then
    { s with crd := s.crd + 1 }.ret c resp.data s.given[s.crd]?
  else
    { s with
      crd := s.crd + 1
      reading := some { c with doWrite := false, place := .head, stale := true } }

/-- The mutex is held again: from the end of the wait to the head of the loop, or out of it. -/
def regain (s : State) : Option State :=
  match s.reading with
  | some c =>
    if c.place = .expired then
      some { s with reading := some { c with
        i := c.i + 1, doWrite := true, place := .head, late := c.late || (c.stale && c.queued) } }
    else if c.place = .woken then
      if s.board.cwr = s.crd then some { s with reading := some { c with i := c.i + 1, place := .head } }
      else some (s.take c (ipimBoardResponse (s.board.cmd (s.crd &&& qMask))))
    else none
  | none => none

/-! The board. -/

def State.setReg (s : State) (addr : BitVec 8) (data : BitVec 32) : State :=
  let regs := Function.update s.regs addr data
  { s with
    regs := regs
    reading := s.reading.map fun c => { c with contents := regs c.regAddr :: c.contents } }

/-- The next command is handled. A read is answered, or not. -/
def handle (s : State) (answer : Bool) : Option State :=
  match s.sent[s.handled]? with
  | some x =>
    let addr := x.cmd.address.setWidth 8
    let s := { s with handled := s.handled + 1 }
    if x.cmd.write then some (s.setReg addr x.cmd.data)
    else if answer then some { s with given := s.given ++ [⟨addr, s.regs addr, x.call⟩] }
    else some s
  | none => none

/-! The reader thread. -/

/-- All bytes of the next response have been read. -/
def receive (s : State) : Option State :=
  match s.storing with
  | none => if s.board.cwr < s.given.length then some { s with storing := some 0 } else none
  | some _ => none

def storeWord (s : State) : Option State :=
  match s.storing, s.given[s.board.cwr]? with
  | some i, some a =>
    if i < len true then
      some { s with
        board := s.board.putBuffer true (Function.update (s.board.getBuffer true) i (a.words.getD i 0#16))
        storing := some (i + 1) }
    else none
  | _, _ => none

/-- A word of a frame that will be discarded is stored. -/
def junk (s : State) (i : Nat) (w : Word) : Option State :=
  match s.storing with
  | none => some { s with board := s.board.putBuffer true (Function.update (s.board.getBuffer true) i w) }
  | some _ => none

/-- `SendCommandResponse`, once the mutex is free. The signal wakes a waiting `ReadRegister`. -/
def deliver (s : State) : Option State :=
  if s.storing = some (len true) ∧ ∀ c ∈ s.reading, c.place ≠ .head then
    some { s with
      board := s.board.sendCommandResponse
      storing := none
      reading := s.reading.map fun c => if c.place = .waiting then { c with place := .woken } else c }
  else none

inductive Action where
  | readRegister (regAddr : BitVec 8)
  | writeRegister (regAddr : BitVec 8) (regValue : BitVec 32) (ok : Bool)
  | loop (ok : Bool)
  | expire
  | spurious
  | regain
  | handle (answer : Bool)
  | change (addr : BitVec 8) (data : BitVec 32)
  | receive
  | storeWord
  | junk (i : Nat) (w : Word)
  | deliver
  deriving DecidableEq

def step (s : State) : Action → Option State
  | .readRegister regAddr => readRegister s regAddr
  | .writeRegister regAddr regValue ok => writeRegister s regAddr regValue ok
  | .loop ok => loop s ok
  | .expire => expire s
  | .spurious => spurious s
  | .regain => regain s
  | .handle answer => handle s answer
  | .change addr data => some (s.setReg addr data)
  | .receive => receive s
  | .storeWord => storeWord s
  | .junk i w => junk s i w
  | .deliver => deliver s

/-! The steps of the reader thread are those of `Acquire`. -/

def Answer.frame (a : Answer) : Framing.Frame :=
  (IpimBoardCommand.mk false (a.addr.setWidth 32) a.data).frame

theorem reaches_decode (a : Answer) (left i : Nat) (total : i + left = len true) (s : State)
    (begun : s.storing = some i) (found : s.given[s.board.cwr]? = some a) :
    ∃ s', Transition.Reaches step s s' ∧ s'.storing = some (len true) ∧ s'.reading = s.reading ∧
      s'.board = s.board.putBuffer true (decode true a.frame.bytes left i (s.board.getBuffer true)).1 := by
  induction left generalizing i s with
  | zero =>
    have last : i = len true := by omega
    exact ⟨s, .refl s, by rw [begun, last], rfl, (putBuffer_getBuffer s.board true).symm⟩
  | succ left ih =>
    have more : i < len true := by omega
    have first : step s .storeWord = some { s with
        board := s.board.putBuffer true (Function.update (s.board.getBuffer true) i (a.words.getD i 0#16))
        storing := some (i + 1) } := by
      simp only [step, storeWord, begun, found, if_pos more]
    obtain ⟨s', reached, stored, reading, board⟩ := ih (i + 1) (by omega) { s with
        board := s.board.putBuffer true (Function.update (s.board.getBuffer true) i (a.words.getD i 0#16))
        storing := some (i + 1) } rfl (by simp only [putBuffer_cwr]; exact found)
    refine ⟨s', (Transition.Reaches.single _ first).trans reached, stored, reading, ?_⟩
    have good : goodChunk true a.frame.bytes i = true := a.frame.goodChunk i more
    have word : wordAt a.frame.bytes i = a.words.getD i 0#16 := a.frame.wordAt i more
    rw [board, getBuffer_putBuffer, putBuffer_putBuffer, decode, if_pos good, word]

/-- Left alone, the reader thread takes a response to the board that `endOfPacket` computes. -/
theorem reaches_endOfPacket (queued : Nat → Bool) (s : State) (a : Answer) (idle : s.storing = none)
    (found : s.given[s.board.cwr]? = some a) (free : ∀ c ∈ s.reading, c.place ≠ .head) :
    ∃ s', Transition.Reaches step s s' ∧ s'.storing = none ∧
      s'.board = (endOfPacket queued s.board a.frame.bytes).1 := by
  have received : step s .receive = some { s with storing := some 0 } := by
    have more := (List.getElem?_eq_some_iff.mp found).1
    simp only [step, receive, idle, if_pos more]
  obtain ⟨s', reached, stored, reading, board⟩ :=
    reaches_decode a (len true) 0 (Nat.zero_add _) { s with storing := some 0 } rfl found
  have delivered : step s' .deliver = some { s' with
      board := s'.board.sendCommandResponse
      storing := none
      reading := s'.reading.map fun c => if c.place = .waiting then { c with place := .woken } else c } := by
    rw [step, deliver, if_pos]
    exact ⟨stored, by rw [reading]; exact free⟩
  refine ⟨_, ((Transition.Reaches.single _ received).trans reached).trans (.single _ delivered), rfl, ?_⟩
  rw [Answer.frame, endOfPacket_board, ← Answer.frame]
  exact congrArg Board.sendCommandResponse board

/-! Pieces of runs. -/

def response : List Action := .receive :: List.replicate 4 .storeWord ++ [.deliver]

/-- A read that is sent twice. Both commands are answered, and the first answer is the result. -/
def readTwice : List Action :=
  [.readRegister 9, .loop true, .expire, .regain, .loop true, .handle true, .handle true] ++
    response ++ [.regain]

end Ipimb.Register
