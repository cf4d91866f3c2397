import Ipimb.Library.Transducer
import Ipimb.Wire.BoardData
import Ipimb.Wire.Crc

/-!
The reader thread's `Acquire`, called again and again by the synchroniser's poll loop. It
hunts for a byte that looks like a start of frame, reads as many bytes as that byte promises,
decodes them into the slot that will be published next, checks the checksum and delivers.
-/

namespace Ipimb.Acquire
open Ipimb.Chunk Ipimb.Crc Ipimb.BoardData

def qMask : Nat := 7

/-- What `Acquire` works on in an `IpimBoard`, with the counters kept by the sync object and the
number of data packets handed to the synchroniser. -/
structure Board where
  polarity : Int
  cmd : Nat → Slot
  data : Nat → Slot
  cwr : Nat
  dwr : Nat
  lasttrig : BitVec 64
  curincr : BitVec 32
  handed : Nat

def Board.init (polarity : Int) : Board where
  polarity := polarity
  cmd := fun _ _ => 0#16
  data := fun _ _ => 0#16
  cwr := 0
  dwr := 0
  lasttrig := 0#64
  curincr := 1#32
  handed := 0

structure Packet where
  cmd : Bool
  words : List Word
  deriving DecidableEq

/-- A packet with the value of the queue counter whose slot holds it. -/
structure Delivery where
  counter : Nat
  packet : Packet
  deriving DecidableEq

def Board.getBuffer (b : Board) (cmd : Bool) : Slot :=
  if cmd then b.cmd (b.cwr &&& qMask) else b.data (b.dwr &&& qMask)

def Board.putBuffer (b : Board) (cmd : Bool) (p : Slot) : Board :=
  if cmd then { b with cmd := Function.update b.cmd (b.cwr &&& qMask) p }
  else { b with data := Function.update b.data (b.dwr &&& qMask) p }

def Board.sendCommandResponse (b : Board) : Board := { b with cwr := b.cwr + 1 }

/-- The part of `sendData` that moves the queue. -/
def Board.sendData (b : Board) : Board := { b with dwr := b.dwr + 1 }

/-- The data packet in the slot is adjusted in place and its trigger count compared with the last. -/
def Board.takeData (b : Board) : Board :=
  let d := adjustdata b.polarity (b.getBuffer false)
  let curtrig := triggerCounter d
  { b.putBuffer false d with
    curincr := (curtrig - b.lasttrig).setWidth 32, lasttrig := curtrig, handed := b.handed + 1 }

def byteAt (rdbuf : List Byte) (j : Nat) : Byte := rdbuf.getD j 0#8

/-- The three checks on the bytes of chunk i, and its command flag against the packet's. -/
def goodChunk (cmd : Bool) (rdbuf : List Byte) (i : Nat) : Bool :=
  first (byteAt rdbuf (3 * i)) && second (byteAt rdbuf (3 * i + 1)) && third (byteAt rdbuf (3 * i + 2)) &&
    command (byteAt rdbuf (3 * i)) == cmd

def wordAt (rdbuf : List Byte) (i : Nat) : Word :=
  chunkWord (byteAt rdbuf (3 * i)) (byteAt rdbuf (3 * i + 1)) (byteAt rdbuf (3 * i + 2))

/-- The decoding loop from word i on: words are stored until a chunk fails its checks. -/
def decode (cmd : Bool) (rdbuf : List Byte) : (left i : Nat) → Slot → Slot × Nat
  | 0, i, p => (p, i)
  | left + 1, i, p =>
    if goodChunk cmd rdbuf i then
      decode cmd rdbuf left (i + 1) (Function.update p i (wordAt rdbuf i))
    else (p, i)

/-- The packet that has passed the checks is delivered. Whether the n-th data packet is then queued
is up to the synchroniser, which calls `QueueData` at most once before the next `Acquire`. -/
def deliver (queued : Nat → Bool) (b : Board) (cmd : Bool) : Board × List Delivery :=
  if cmd then
    (b.sendCommandResponse, [⟨b.cwr, ⟨true, words (b.getBuffer true) (len true)⟩⟩])
  else
    (if queued b.handed then b.takeData.sendData else b.takeData,
      [⟨b.dwr, ⟨false, words (b.getBuffer false) (len false)⟩⟩])

/-- All that happens once `rdbuf` holds as many bytes as its first byte promised. -/
def endOfPacket (queued : Nat → Bool) (b : Board) (rdbuf : List Byte) : Board × List Delivery :=
  let cmd := command (byteAt rdbuf 0)
  if eofr (byteAt rdbuf (blen cmd - 3)) then
    let decoded := decode cmd rdbuf (len cmd) 0 (b.getBuffer cmd)
    let b := b.putBuffer cmd decoded.1
    if decoded.2 = len cmd then
      let p := b.getBuffer cmd
      if crc (words p (len cmd - 1)) = p (len cmd - 1) then deliver queued b cmd else (b, [])
    else (b, [])
  else (b, [])

/-- The reader between two calls of `read`: hunting while `rdbuf` is empty, else in the middle
of a packet. -/
structure Reader where
  board : Board
  rdbuf : List Byte
  unfinished : ∀ b ∈ rdbuf.head?, rdbuf.length < blen (command b)

/-- Between packets, looking for a start of frame. -/
def hunting (b : Board) : Reader := ⟨b, [], by simp⟩

/-- The size `read` is called with. -/
def want (r : Reader) : Nat :=
  match r.rdbuf with
  | [] => 1
  | b :: _ => blen (command b) - r.rdbuf.length

theorem start_unfinished (b : Byte) : ∀ c ∈ [b].head?, [b].length < blen (command c) := by
  intro c _
  have bound := le_blen (command c)
  simp only [List.length_singleton]
  omega

/-- `read` has returned these bytes, none for a zero or negative result. -/
def onRead (queued : Nat → Bool) (r : Reader) (got : List Byte) : Reader × List Delivery :=
  match r.rdbuf with
  | [] =>
    match got with
    | [] => (r, [])
    | b :: _ => if sofr b then (⟨r.board, [b], start_unfinished b⟩, []) else (r, [])
  | b :: rest =>
    if short : (b :: rest ++ got).length < blen (command b) then
      (⟨r.board, b :: rest ++ got, by simpa using short⟩, [])
    else
      let done := endOfPacket queued r.board (b :: rest ++ got)
      (hunting done.1, done.2)

def onByte (queued : Nat → Bool) (r : Reader) (b : Byte) : Reader × List Delivery :=
  onRead queued r [b]

def acquire (queued : Nat → Bool) : Reader → List Byte → Reader × List Delivery :=
  Transducer.feed (onByte queued)

def packets (queued : Nat → Bool) (r : Reader) (bytes : List Byte) : List Packet :=
  (acquire queued r bytes).2.map Delivery.packet

/-- The poll loop with `read` returning as the schedule says: end state, deliveries, and the
bytes still in the serial line. -/
def acquireReads (queued : Nat → Bool) :
    Reader → List Byte → List Int → Reader × List Delivery × List Byte :=
  Transducer.drive want (onRead queued)

/-! The slot a packet is decoded into. -/

theorem and_qMask (n : Nat) : n &&& qMask = n % 8 := Nat.and_two_pow_sub_one_eq_mod n 3

/-- The loop runs to the end exactly when every chunk is good. -/
theorem decode_complete (cmd : Bool) (rdbuf : List Byte) (left i : Nat) (p : Slot) :
    (decode cmd rdbuf left i p).2 = i + left ↔
      ∀ k, i ≤ k → k < i + left → goodChunk cmd rdbuf k = true := by
  induction left generalizing i p with
  | zero =>
    simp only [decode, Nat.add_zero, true_iff]
    intro k low high
    omega
  | succ left ih =>
    unfold decode
    split
    next good =>
      rw [show i + (left + 1) = i + 1 + left by omega, ih]
      constructor
      · intro later k low high
        by_cases here : k = i
        · rw [here, good]
        · exact later k (by omega) high
      · intro all k low high
        exact all k (by omega) high
    next bad =>
      constructor
      · intro stopped
        simp only at stopped
        omega
      · intro all
        exact absurd (all i le_rfl (by omega)) bad

theorem decode_before (cmd : Bool) (rdbuf : List Byte) (left i : Nat) (p : Slot) (k : Nat)
    (before : k < i) : (decode cmd rdbuf left i p).1 k = p k := by
  induction left generalizing i p with
  | zero => rfl
  | succ left ih =>
    unfold decode
    split
    · rw [ih (i + 1) _ (by omega)]
      exact Function.update_of_ne (by omega) _ _
    · rfl

theorem decode_words (cmd : Bool) (rdbuf : List Byte) (left i : Nat) (p : Slot) (k : Nat)
    (low : i ≤ k) (high : k < (decode cmd rdbuf left i p).2) :
    (decode cmd rdbuf left i p).1 k = wordAt rdbuf k := by
  induction left generalizing i p with
  | zero =>
    simp only [decode] at high
    omega
  | succ left ih =>
    unfold decode at high ⊢
    split at high
    next good =>
      rw [if_pos good]
      by_cases here : k = i
      · subst here
        rw [decode_before _ _ _ _ _ _ (by omega), Function.update_self]
      · exact ih (i + 1) _ (by omega) high
    next bad =>
      simp only at high
      omega

@[simp] theorem getBuffer_putBuffer (b : Board) (cmd : Bool) (p : Slot) :
    (b.putBuffer cmd p).getBuffer cmd = p := by
  cases cmd <;> simp [Board.putBuffer, Board.getBuffer]

theorem putBuffer_getBuffer (b : Board) (cmd : Bool) : b.putBuffer cmd (b.getBuffer cmd) = b := by
  cases cmd <;> simp [Board.putBuffer, Board.getBuffer]

theorem putBuffer_putBuffer (b : Board) (cmd : Bool) (p q : Slot) :
    (b.putBuffer cmd p).putBuffer cmd q = b.putBuffer cmd q := by
  cases cmd <;> simp [Board.putBuffer]

/-! What a complete packet is worth, without the slots. -/

def packetWords (rdbuf : List Byte) : List Word :=
  (List.range (len (command (byteAt rdbuf 0)))).map (wordAt rdbuf)

/-- A complete packet passes all checks: the end of frame where it has to be, good chunks, and a
good checksum. -/
structure Passes (rdbuf : List Byte) : Prop where
  eof : eofr (byteAt rdbuf (blen (command (byteAt rdbuf 0)) - 3)) = true
  chunks : ∀ i < len (command (byteAt rdbuf 0)), goodChunk (command (byteAt rdbuf 0)) rdbuf i = true
  checksum : crc ((packetWords rdbuf).take (len (command (byteAt rdbuf 0)) - 1)) =
    wordAt rdbuf (len (command (byteAt rdbuf 0)) - 1)

instance (rdbuf : List Byte) : Decidable (Passes rdbuf) :=
  decidable_of_iff
    (eofr (byteAt rdbuf (blen (command (byteAt rdbuf 0)) - 3)) = true ∧
      (∀ i < len (command (byteAt rdbuf 0)),
        goodChunk (command (byteAt rdbuf 0)) rdbuf i = true) ∧
      crc ((packetWords rdbuf).take (len (command (byteAt rdbuf 0)) - 1)) =
        wordAt rdbuf (len (command (byteAt rdbuf 0)) - 1))
    ⟨fun h => ⟨h.1, h.2.1, h.2.2⟩, fun h => ⟨h.eof, h.chunks, h.checksum⟩⟩

/-- The packet delivered for a complete `rdbuf`, if any. -/
def accepted (rdbuf : List Byte) : List Packet :=
  if Passes rdbuf then [⟨command (byteAt rdbuf 0), packetWords rdbuf⟩] else []

theorem deliver_packets (queued : Nat → Bool) (b : Board) (cmd : Bool) :
    (deliver queued b cmd).2.map Delivery.packet = [⟨cmd, words (b.getBuffer cmd) (len cmd)⟩] := by
  cases cmd <;> rfl

theorem packetWords_take (rdbuf : List Byte) (n : Nat) :
    (packetWords rdbuf).take n =
      (List.range (min n (len (command (byteAt rdbuf 0))))).map (wordAt rdbuf) := by
  rw [packetWords, ← List.map_take, List.take_range]

theorem Passes.checked {rdbuf : List Byte} (passes : Passes rdbuf) :
    Checked (packetWords rdbuf) := by
  have positive : 0 < len (command (byteAt rdbuf 0)) := by
    cases command (byteAt rdbuf 0) <;> decide
  refine ⟨(packetWords rdbuf).take (len (command (byteAt rdbuf 0)) - 1), ?_⟩
  have whole : List.range (len (command (byteAt rdbuf 0))) =
      List.range (len (command (byteAt rdbuf 0)) - 1) ++ [len (command (byteAt rdbuf 0)) - 1] := by
    rw [← List.range_succ]
    congr 1
    omega
  rw [passes.checksum, packetWords_take, Nat.min_eq_left (by omega), packetWords, whole,
    List.map_append, List.map_singleton]

theorem endOfPacket_packets (queued : Nat → Bool) (b : Board) (rdbuf : List Byte) :
    (endOfPacket queued b rdbuf).2.map Delivery.packet = accepted rdbuf := by
  unfold endOfPacket accepted
  generalize shape : command (byteAt rdbuf 0) = cmd
  simp only
  have positive : 0 < len cmd := by cases cmd <;> decide
  split
  next eof =>
    split
    next complete =>
      have good := (decode_complete cmd rdbuf (len cmd) 0 (b.getBuffer cmd)).mp (by omega)
      have filled : ∀ k < len cmd,
          (decode cmd rdbuf (len cmd) 0 (b.getBuffer cmd)).1 k = wordAt rdbuf k := by
        intro k bound
        exact decode_words cmd rdbuf (len cmd) 0 _ k (Nat.zero_le k) (by omega)
      have body : words (decode cmd rdbuf (len cmd) 0 (b.getBuffer cmd)).1 (len cmd - 1) =
          (packetWords rdbuf).take (len cmd - 1) := by
        rw [packetWords_take, shape, Nat.min_eq_left (by omega)]
        exact words_congr (fun k bound => filled k (by omega))
      simp only [getBuffer_putBuffer, body, filled (len cmd - 1) (by omega)]
      split
      next checksum =>
        rw [deliver_packets, getBuffer_putBuffer, if_pos ⟨by rw [shape]; exact eof,
          by rw [shape]; exact fun i bound => good i (Nat.zero_le i) (by omega),
          by rw [shape]; exact checksum⟩]
        congr 2
        rw [packetWords, shape]
        exact words_congr filled
      next wrong =>
        rw [if_neg (fun passes => wrong (by simpa only [shape] using passes.checksum))]
        rfl
    next incomplete =>
      rw [if_neg]
      · rfl
      · intro passes
        apply incomplete
        have all := passes.chunks
        rw [shape] at all
        have complete := (decode_complete cmd rdbuf (len cmd) 0 (b.getBuffer cmd)).mpr
          (fun k _ high => all k (by omega))
        omega
  next noEof =>
    rw [if_neg (fun passes => noEof (by simpa only [shape] using passes.eof))]
    rfl

/-! The size of the reads does not matter. -/

theorem onRead_nil (queued : Nat → Bool) (r : Reader) : onRead queued r [] = (r, []) := by
  obtain ⟨board, rdbuf, unfinished⟩ := r
  cases rdbuf with
  | nil => rfl
  | cons b rest =>
    have short := unfinished b (by simp)
    simp only [List.length_cons] at short
    simp [onRead, short]

theorem onRead_eq_acquire (queued : Nat → Bool) (r : Reader) (got : List Byte)
    (fits : got.length ≤ want r) : onRead queued r got = acquire queued r got := by
  induction got generalizing r with
  | nil => exact onRead_nil queued r
  | cons x got ih =>
    obtain ⟨board, rdbuf, unfinished⟩ := r
    cases rdbuf with
    | nil =>
      have single : got = [] := by
        simp only [want, List.length_cons] at fits
        exact List.eq_nil_of_length_eq_zero (by omega)
      subst single
      simp [acquire, Transducer.feed_cons, onByte]
    | cons b rest =>
      simp only [want, List.length_cons] at fits
      by_cases short : rest.length + 2 < blen (command b)
      · have step : onByte queued ⟨board, b :: rest, unfinished⟩ x =
            (⟨board, b :: rest ++ [x], by simpa using short⟩, []) := by
          simp only [onByte, onRead]
          rw [dif_pos (by simpa using short)]
        have later := ih ⟨board, b :: rest ++ [x], by simpa using short⟩ (by
          simp only [want, List.cons_append, List.length_cons, List.length_append, List.length_nil]
          omega)
        rw [acquire, Transducer.feed_cons, step, List.nil_append, ← acquire, ← later]
        simp only [onRead, List.cons_append, List.append_assoc, List.nil_append]
      · have single : got = [] := List.eq_nil_of_length_eq_zero (by omega)
        subst single
        simp [acquire, Transducer.feed_cons, onByte]

/-- A schedule of reads that empties the line delivers what reading byte by byte delivers. -/
theorem acquireReads_complete (queued : Nat → Bool) (r : Reader) (bytes : List Byte)
    (schedule : List Int) (complete : (acquireReads queued r bytes schedule).2.2 = []) :
    acquireReads queued r bytes schedule =
      ((acquire queued r bytes).1, (acquire queued r bytes).2, []) :=
  Transducer.drive_complete (onByte queued) want (onRead queued) (onRead_eq_acquire queued) r bytes
    schedule complete

theorem want_pos (r : Reader) : 0 < want r := by
  obtain ⟨board, rdbuf, unfinished⟩ := r
  cases rdbuf with
  | nil => exact Nat.one_pos
  | cons b rest => exact Nat.sub_pos_of_lt (unfinished b (by simp))

end Ipimb.Acquire
