import Ipimb.Wire.Framing

/-!
Commands and responses, the structures of four words. The configurer encodes commands, the board
answers with responses in the same frame, and the reader takes up both alike.
-/

namespace Ipimb.Command
open Ipimb.Chunk Ipimb.Crc Ipimb.BoardData Ipimb.Acquire Ipimb.Framing

/-- The arguments of the constructor. -/
structure IpimBoardCommand where
  write : Bool
  address : BitVec 32
  data : BitVec 32
  deriving DecidableEq

def IpimBoardCommand.body (c : IpimBoardCommand) : List Word :=
  let word0 := (c.address &&& 0xff#32).setWidth 16
  [if c.write then word0 ||| 1#16 <<< 8 else word0,
    (c.data &&& 0xffff#32).setWidth 16,
    ((c.data >>> 16) &&& 0xffff#32).setWidth 16]

/-- `_commandList`, as the constructor leaves it. -/
def IpimBoardCommand.commandList (c : IpimBoardCommand) : List Word := c.body ++ [crc c.body]

/-- What `WriteCommand` makes of word i. -/
def wrchunk (data : Word) (i : Nat) : List Byte :=
  [0x90#8 ||| (data &&& 0xf#16).setWidth 8 ||| (if i = 0 then 0x40#8 else 0#8) |||
      (if i = 3 then 0x20#8 else 0#8),
    ((data >>> 4) &&& 0x3f#16).setWidth 8,
    0x40#8 ||| ((data >>> 10) &&& 0x3f#16).setWidth 8]

/-- The bytes `WriteCommand` hands to `write`. -/
def wrdata (cList : List Word) : List Byte :=
  (List.range crPackets).flatMap fun i => wrchunk (cList.getD i 0#16) i

/-- `WriteCommand`, for a line that has some bytes already and what `write` returns: what the line has then,
and the result. -/
def writeCommand (out : List Byte) (res : Int) (cList : List Word) : List Byte × Int :=
  (out ++ (wrdata cList).take res.toNat, if res ≠ 12 then -1 else 0)

structure IpimBoardResponse where
  addr : BitVec 32
  data : BitVec 32
  checksum : BitVec 32
  respList : List Word
  deriving DecidableEq

/-- `IpimBoardResponse` of four words in memory. -/
def ipimBoardResponse (packet : Slot) : IpimBoardResponse where
  addr := (packet 0).setWidth 32 &&& 0xff#32
  data := (packet 1).setWidth 32 ||| (packet 2).setWidth 32 <<< 16
  checksum := (packet 3).setWidth 32
  respList := words packet crPackets

/-! A command on the wire is a well formed frame. -/

theorem wrchunk_eq_chunk (data : Word) (i : Nat) : wrchunk data i = chunk (i == 0) (i == 3) true data := by
  have flags : 0x80#8 ||| 0x10#8 = 0x90#8 := by decide
  simp only [wrchunk, chunk, chunkFirst, chunkSecond, chunkThird, if_true, flags, beq_iff_eq]

def IpimBoardCommand.frame (c : IpimBoardCommand) : Frame := ⟨true, c.commandList, rfl, ⟨c.body, rfl⟩⟩

theorem wrdata_eq_encode (w0 w1 w2 w3 : Word) :
    wrdata [w0, w1, w2, w3] = encode true true [w0, w1, w2, w3] := by
  simp [wrdata, crPackets, List.range_succ, wrchunk_eq_chunk, encode]

theorem wrdata_eq_bytes (c : IpimBoardCommand) : wrdata c.commandList = c.frame.bytes :=
  wrdata_eq_encode _ _ _ _

theorem writeCommand_whole (out : List Byte) (c : IpimBoardCommand) :
    writeCommand out 12 c.commandList = (out ++ c.frame.bytes, 0) := by
  have whole : c.frame.bytes.length = 12 := c.frame.bytes_length
  have taken : (wrdata c.commandList).take (12 : Int).toNat = c.frame.bytes := by
    rw [wrdata_eq_bytes]
    exact List.take_of_length_le (le_of_eq whole)
  rw [writeCommand, taken]
  rfl

/-! A response gives back what a command was made of. -/

theorem low_byte (address : BitVec 32) (write : Bool) :
    (if write then (address &&& 0xff#32).setWidth 16 ||| 1#16 <<< 8
      else (address &&& 0xff#32).setWidth 16).setWidth 32 &&& 0xff#32 = address &&& 0xff#32 := by
  apply BitVec.eq_of_getLsbD_eq
  intro i bound
  interval_cases i <;> cases write <;> simp

theorem halves (data : BitVec 32) :
    ((data &&& 0xffff#32).setWidth 16).setWidth 32 |||
      (((data >>> 16) &&& 0xffff#32).setWidth 16).setWidth 32 <<< 16 = data := by
  apply BitVec.eq_of_getLsbD_eq
  intro i bound
  interval_cases i <;> simp

/-- Only the low byte of the address travels; the data come back whole. -/
theorem response_of_command (c : IpimBoardCommand) (packet : Slot)
    (same : words packet (len true) = c.commandList) :
    (ipimBoardResponse packet).addr = c.address &&& 0xff#32 ∧
      (ipimBoardResponse packet).data = c.data := by
  have each : [packet 0, packet 1, packet 2, packet 3] = c.commandList := same
  simp only [IpimBoardCommand.commandList, IpimBoardCommand.body, List.cons_append, List.nil_append,
    List.cons.injEq] at each
  obtain ⟨word0, word1, word2, -⟩ := each
  constructor
  · rw [ipimBoardResponse, word0]
    exact low_byte c.address c.write
  · rw [ipimBoardResponse, word1, word2]
    exact halves c.data

/-! Queue counters of what is delivered. -/

@[simp] theorem putBuffer_cwr (b : Board) (cmd : Bool) (p : Slot) :
    (b.putBuffer cmd p).cwr = b.cwr := by cases cmd <;> rfl

@[simp] theorem putBuffer_dwr (b : Board) (cmd : Bool) (p : Slot) :
    (b.putBuffer cmd p).dwr = b.dwr := by cases cmd <;> rfl

/-- A packet goes out under the counter of the slot it has been decoded into. -/
theorem endOfPacket_counter (queued : Nat → Bool) (b : Board) (rdbuf : List Byte) :
    ∀ d ∈ (endOfPacket queued b rdbuf).2,
      d.counter = if command (byteAt rdbuf 0) then b.cwr else b.dwr := by
  intro d member
  unfold endOfPacket at member
  cases kind : command (byteAt rdbuf 0) <;>
    · simp only [kind] at member
      split_ifs at member <;> simp [deliver] at member
      simp [member]

/-- `SendCommandResponse` is called once for each response, and never for data. -/
theorem endOfPacket_cwr (queued : Nat → Bool) (b : Board) (rdbuf : List Byte) :
    (endOfPacket queued b rdbuf).1.cwr =
      b.cwr + ((endOfPacket queued b rdbuf).2.filter fun d => d.packet.cmd).length := by
  unfold endOfPacket
  cases kind : command (byteAt rdbuf 0) <;> simp only
  · split_ifs <;> simp [deliver, Board.takeData]
    split_ifs <;> simp [Board.sendData]
  · split_ifs <;> simp [deliver, Board.sendCommandResponse]

theorem endOfPacket_command (queued : Nat → Bool) (b : Board) (c : IpimBoardCommand) :
    (endOfPacket queued b c.frame.bytes).2 = [⟨b.cwr, c.frame.packet⟩] ∧
      (endOfPacket queued b c.frame.bytes).1.cwr = b.cwr + 1 := by
  have delivered := endOfPacket_packets queued b c.frame.bytes
  rw [c.frame.accepted] at delivered
  obtain ⟨d, only, packet⟩ := List.map_eq_singleton_iff.mp delivered
  have counter := endOfPacket_counter queued b c.frame.bytes d (by simp [only])
  have counted := endOfPacket_cwr queued b c.frame.bytes
  rw [c.frame.command_head] at counter
  rw [only] at counted ⊢
  have cmd : d.packet.cmd = true := by rw [packet]; rfl
  refine ⟨?_, by simpa [cmd] using counted⟩
  rw [← packet, ← show d.counter = b.cwr from counter]

/-- The slot the words of a command are decoded into is the one that is delivered. -/
theorem endOfPacket_board (queued : Nat → Bool) (b : Board) (c : IpimBoardCommand) :
    (endOfPacket queued b c.frame.bytes).1 =
      (b.putBuffer true
        (decode true c.frame.bytes (len true) 0 (b.getBuffer true)).1).sendCommandResponse := by
  have delivered := (endOfPacket_command queued b c).1
  have head : command (byteAt c.frame.bytes 0) = true := c.frame.command_head
  unfold endOfPacket at delivered ⊢
  simp only [head] at delivered ⊢
  split_ifs at delivered ⊢
  rfl

/-- Commands on the line, each written after some noise. -/
def line (items : List (List Byte × IpimBoardCommand)) : List Byte :=
  items.foldl (fun out item => (writeCommand (out ++ item.1) 12 item.2.commandList).1) []

theorem line_eq (items : List (List Byte × IpimBoardCommand)) :
    line items = items.flatMap fun item => item.1 ++ item.2.frame.bytes := by
  have all (out : List Byte) :
      items.foldl (fun out item => (writeCommand (out ++ item.1) 12 item.2.commandList).1) out =
        out ++ items.flatMap fun item => item.1 ++ item.2.frame.bytes := by
    induction items generalizing out with
    | nil => exact (List.append_nil out).symm
    | cons item items ih =>
      rw [List.foldl_cons, ih, writeCommand_whole, List.flatMap_cons]
      simp only [List.append_assoc]
  exact all []

/-- One delivery for each command, under consecutive values of `cwr`. -/
def received (cwr : Nat) : List IpimBoardCommand → List Delivery
  | [] => []
  | c :: rest => ⟨cwr, ⟨true, c.commandList⟩⟩ :: received (cwr + 1) rest

theorem acquire_line (queued : Nat → Bool) (b : Board) (items : List (List Byte × IpimBoardCommand))
    (quiet : ∀ item ∈ items, ∀ x ∈ item.1, sofr x = false) :
    ∃ b', acquire queued (hunting b) (line items) =
      (hunting b', received b.cwr (items.map Prod.snd)) ∧ b'.cwr = b.cwr + items.length := by
  induction items generalizing b with
  | nil => exact ⟨b, rfl, rfl⟩
  | cons item items ih =>
    have skip := acquire_skip queued b item.1 (quiet item (by simp))
    have frame := acquire_whole queued b item.2.frame.bytes item.2.frame.sofr_head
      (by rw [Frame.command_head, Frame.bytes_length])
    obtain ⟨delivered, counted⟩ := endOfPacket_command queued b item.2
    obtain ⟨b', later, total⟩ := ih (endOfPacket queued b item.2.frame.bytes).1
      (fun other member => quiet other (List.mem_cons_of_mem _ member))
    refine ⟨b', ?_, by rw [total, counted, List.length_cons]; omega⟩
    have split : line (item :: items) = item.1 ++ (item.2.frame.bytes ++ line items) := by
      simp [line_eq]
    rw [split, acquire_append, skip, acquire_append, frame, later, delivered, counted]
    rfl

/-- Commands between noise, read as the schedule says: no response but one for each command, in order
and under consecutive values of `cwr`, and all of them once the line is empty, which it is after
enough reads. Each response gives back the low byte of the address, and the data. What any bytes
deliver depends only on how many of them have been read, not on how. -/
theorem commands_received (queued : Nat → Bool) (b : Board)
    (items : List (List Byte × IpimBoardCommand)) (trailing : List Byte)
    (quiet : ∀ item ∈ items, ∀ x ∈ item.1, sofr x = false) (still : ∀ x ∈ trailing, sofr x = false) :
    (∀ schedule : List Int,
      let run := acquireReads queued (hunting b) (line items ++ trailing) schedule
      run.2.1 <+: received b.cwr (items.map Prod.snd) ∧
        (run.2.2 = [] → run.2.1 = received b.cwr (items.map Prod.snd) ∧
          run.1.board.cwr = b.cwr + items.length) ∧
        ((line items ++ trailing).length ≤ schedule.countP (0 < ·) → run.2.2 = [])) ∧
      (∀ (c : IpimBoardCommand) (packet : Slot), words packet (len true) = c.commandList →
        (ipimBoardResponse packet).addr.toNat = c.address.toNat % 256 ∧
          (ipimBoardResponse packet).data = c.data) ∧
      ∀ (r : Reader) (bytes : List Byte) (schedule schedule' : List Int),
        (acquireReads queued r bytes schedule).2.2 = (acquireReads queued r bytes schedule').2.2 →
          (acquireReads queued r bytes schedule).2.1 = (acquireReads queued r bytes schedule').2.1 := by
  obtain ⟨b', commands, counted⟩ := acquire_line queued b items quiet
  have whole : acquire queued (hunting b) (line items ++ trailing) =
      (hunting b', received b.cwr (items.map Prod.snd)) := by
    rw [acquire_append, commands, acquire_skip queued b' trailing still, List.append_nil]
  refine ⟨?_, ?_, ?_⟩
  · intro schedule run
    refine ⟨?_, ?_, ?_⟩
    · have part := Transducer.drive_output_part (onByte queued) want (onRead queued)
        (onRead_eq_acquire queued) (hunting b) (line items ++ trailing) schedule
      rwa [← acquire, whole] at part
    · intro empty
      have complete := acquireReads_complete queued (hunting b) _ schedule empty
      rw [whole] at complete
      have ended : run = (hunting b', received b.cwr (items.map Prod.snd), []) := complete
      rw [ended]
      exact ⟨rfl, counted⟩
    · exact Transducer.drive_exhausts want (onRead queued) want_pos (hunting b) _ schedule
  · intro c packet same
    obtain ⟨addr, data⟩ := response_of_command c packet same
    refine ⟨?_, data⟩
    rw [addr, BitVec.toNat_and]
    exact Nat.and_two_pow_sub_one_eq_mod c.address.toNat 8
  · intro r bytes schedule schedule' same
    have equal := Transducer.drive_same_unread (onByte queued) want (onRead queued)
      (onRead_eq_acquire queued) r bytes schedule schedule' same
    exact congrArg (fun run => run.2.1) equal

/-- A write and a read of one register with noise around them, through failing and short reads. -/
theorem commands_received_write_read :
    let items : List (List Byte × IpimBoardCommand) :=
      [([0x00#8, 0x7f#8], ⟨true, 0x09#32, 0x12345678#32⟩), ([0x95#8], ⟨false, 0x109#32, 0#32⟩)]
    let run := acquireReads (fun _ => true) (hunting (Board.init 0)) (line items ++ [0x40#8])
      ([0, -1] ++ List.replicate 28 5)
    run.2.2 = [] ∧ run.2.1 = received 0 [⟨true, 0x09#32, 0x12345678#32⟩, ⟨false, 0x109#32, 0#32⟩] := by
  intro items run
  have all := (commands_received (fun _ => true) (Board.init 0) items [0x40#8] (by decide)
    (by decide)).1 ([0, -1] ++ List.replicate 28 5)
  have empty := all.2.2 (by decide)
  exact ⟨empty, (all.2.1 empty).1⟩

end Ipimb.Command
