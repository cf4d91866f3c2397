import Ipimb.Wire.Acquire

/-!
Well formed frames: four words with the command flag in every chunk, or sixteen without it,
SOF in the first chunk only, EOF in the last only, the last word the checksum of the others.
The reader takes each of them up from the hunt and delivers its words.
-/

namespace Ipimb.Framing
open Ipimb.Chunk Ipimb.Crc Ipimb.Acquire

structure Frame where
  cmd : Bool
  words : List Word
  length_eq : words.length = len cmd
  checked : Checked words

/-- Words as chunks, the last one with EOF and the first one with SOF if so asked. -/
def encode (cmd : Bool) : (sof : Bool) → List Word → List Byte
  | _, [] => []
  | sof, data :: rest => chunk sof rest.isEmpty cmd data ++ encode cmd false rest

def Frame.bytes (f : Frame) : List Byte := encode f.cmd true f.words

def Frame.packet (f : Frame) : Packet := ⟨f.cmd, f.words⟩

def wire (fs : List Frame) : List Byte := fs.flatMap Frame.bytes

@[simp] theorem wire_nil : wire [] = [] := rfl

@[simp] theorem wire_cons (f : Frame) (fs : List Frame) : wire (f :: fs) = f.bytes ++ wire fs :=
  List.flatMap_cons

theorem encode_length (cmd sof : Bool) (ws : List Word) :
    (encode cmd sof ws).length = 3 * ws.length := by
  induction ws generalizing sof with
  | nil => rfl
  | cons data rest ih =>
    simp only [encode, List.length_append, chunk_length, ih, List.length_cons]
    omega

@[simp] theorem Frame.bytes_length (f : Frame) : f.bytes.length = blen f.cmd := by
  rw [Frame.bytes, encode_length, f.length_eq, blen]

theorem byteAt_append_left (xs ys : List Byte) (j : Nat) (bound : j < xs.length) :
    byteAt (xs ++ ys) j = byteAt xs j := by
  simp [byteAt, List.getElem?_append_left bound]

theorem byteAt_append_right (xs ys : List Byte) (j : Nat) :
    byteAt (xs ++ ys) (xs.length + j) = byteAt ys j := by
  simp [byteAt, List.getElem?_append_right]

theorem byteAt_take (xs : List Byte) (n j : Nat) (bound : j < n) :
    byteAt (xs.take n) j = byteAt xs j := by
  simp [byteAt, bound]

theorem byteAt_drop (xs : List Byte) (n j : Nat) : byteAt (xs.drop n) j = byteAt xs (n + j) := by
  simp [byteAt]

theorem encode_chunk (cmd sof : Bool) (ws : List Word) (i : Nat) (bound : i < ws.length) :
    byteAt (encode cmd sof ws) (3 * i) =
        chunkFirst (sof && i == 0) (i + 1 == ws.length) cmd (ws.getD i 0#16) ∧
      byteAt (encode cmd sof ws) (3 * i + 1) = chunkSecond (ws.getD i 0#16) ∧
      byteAt (encode cmd sof ws) (3 * i + 2) = chunkThird (ws.getD i 0#16) := by
  induction ws generalizing sof i with
  | nil => simp at bound
  | cons data rest ih =>
    cases i with
    | zero =>
      have last : rest.isEmpty = (0 + 1 == (data :: rest).length) := by cases rest <;> simp
      rw [← last]
      simp [encode, chunk, byteAt]
    | succ i =>
      have later := ih false i (by simpa using bound)
      have skip : ∀ t, byteAt (encode cmd sof (data :: rest)) (3 * (i + 1) + t) =
          byteAt (encode cmd false rest) (3 * i + t) := by
        intro t
        rw [encode, show 3 * (i + 1) + t = (chunk sof rest.isEmpty cmd data).length + (3 * i + t) by
          rw [chunk_length]; omega, byteAt_append_right]
      have head := skip 0
      simp only [Nat.add_zero] at head
      rw [head, skip 1, skip 2, later.1, later.2.1, later.2.2]
      simp

section Bytes
variable (f : Frame) (i : Nat) (bound : i < len f.cmd)
include bound

theorem Frame.first_byte : byteAt f.bytes (3 * i) =
    chunkFirst (i == 0) (i + 1 == len f.cmd) f.cmd (f.words.getD i 0#16) := by
  have chunks := encode_chunk f.cmd true f.words i (by rw [f.length_eq]; exact bound)
  rw [f.length_eq, Bool.true_and] at chunks
  exact chunks.1

theorem Frame.second_byte : byteAt f.bytes (3 * i + 1) = chunkSecond (f.words.getD i 0#16) :=
  (encode_chunk f.cmd true f.words i (by rw [f.length_eq]; exact bound)).2.1

theorem Frame.third_byte : byteAt f.bytes (3 * i + 2) = chunkThird (f.words.getD i 0#16) :=
  (encode_chunk f.cmd true f.words i (by rw [f.length_eq]; exact bound)).2.2

theorem Frame.goodChunk : goodChunk f.cmd f.bytes i = true := by
  simp [Acquire.goodChunk, f.first_byte i bound, f.second_byte i bound, f.third_byte i bound]

theorem Frame.wordAt : wordAt f.bytes i = f.words.getD i 0#16 := by
  rw [Acquire.wordAt, f.first_byte i bound, f.second_byte i bound, f.third_byte i bound,
    chunkWord_chunk]

end Bytes

theorem Frame.len_pos (f : Frame) : 0 < len f.cmd := by cases f.cmd <;> decide

theorem Frame.command_head (f : Frame) : command (byteAt f.bytes 0) = f.cmd := by
  rw [f.first_byte 0 f.len_pos]
  simp

theorem Frame.sofr_head (f : Frame) : sofr (byteAt f.bytes 0) = true := by
  rw [f.first_byte 0 f.len_pos]
  simp

theorem Frame.not_sofr (f : Frame) (j : Nat) (inside : 0 < j) (bound : j < blen f.cmd) :
    sofr (byteAt f.bytes j) = false := by
  have chunk_bound : j / 3 < len f.cmd := by
    rw [blen] at bound
    omega
  have position : j = 3 * (j / 3) ∨ j = 3 * (j / 3) + 1 ∨ j = 3 * (j / 3) + 2 := by omega
  rcases position with here | here | here
  · rw [here, f.first_byte _ chunk_bound, sofr_chunkFirst]
    simp only [beq_eq_false_iff_ne, ne_eq]
    omega
  · rw [here, f.second_byte _ chunk_bound]
    exact not_sofr_of_second _ (second_chunkSecond _)
  · rw [here, f.third_byte _ chunk_bound]
    exact not_sofr_of_third _ (third_chunkThird _)

theorem Frame.packetWords (f : Frame) : packetWords f.bytes = f.words := by
  rw [Acquire.packetWords, f.command_head]
  apply List.ext_getElem
  · simp [f.length_eq]
  · intro i low high
    rw [f.length_eq] at high
    rw [List.getElem_map, List.getElem_range, f.wordAt i high]
    simp [f.length_eq, high]

theorem Frame.passes (f : Frame) : Passes f.bytes where
  eof := by
    have last : len f.cmd - 1 < len f.cmd := by
      have positive := f.len_pos
      omega
    rw [f.command_head, show blen f.cmd - 3 = 3 * (len f.cmd - 1) by rw [blen]; omega,
      f.first_byte _ last, eofr_chunkFirst]
    simp only [beq_iff_eq]
    omega
  chunks := by
    rw [f.command_head]
    exact f.goodChunk
  checksum := by
    have last : len f.cmd - 1 < len f.cmd := by
      have positive := f.len_pos
      omega
    rw [f.command_head, f.packetWords, f.wordAt _ last, ← f.length_eq]
    obtain ⟨body, split⟩ := f.checked
    rw [split]
    simp

theorem Frame.accepted (f : Frame) : accepted f.bytes = [f.packet] := by
  rw [Acquire.accepted, if_pos f.passes, f.command_head, f.packetWords]
  rfl

/-! The reader and whole packets. -/

theorem acquire_append (queued : Nat → Bool) (r : Reader) (xs ys : List Byte) :
    acquire queued r (xs ++ ys) =
      ((acquire queued (acquire queued r xs).1 ys).1,
        (acquire queued r xs).2 ++ (acquire queued (acquire queued r xs).1 ys).2) :=
  Transducer.feed_append _ _ _ _

theorem packets_append (queued : Nat → Bool) (r : Reader) (xs ys : List Byte) :
    packets queued r (xs ++ ys) =
      packets queued r xs ++ packets queued (acquire queued r xs).1 ys := by
  rw [packets, acquire, Transducer.feed_append_output, List.map_append]
  rfl

/-- From the hunt, bytes that promise exactly as many bytes as they are make one packet. -/
theorem acquire_whole (queued : Nat → Bool) (b : Board) (bytes : List Byte)
    (sof : sofr (byteAt bytes 0) = true) (whole : bytes.length = blen (command (byteAt bytes 0))) :
    acquire queued (hunting b) bytes =
      (hunting (endOfPacket queued b bytes).1, (endOfPacket queued b bytes).2) := by
  cases bytes with
  | nil => simp [byteAt, sofr] at sof
  | cons x rest =>
    have head : byteAt (x :: rest) 0 = x := rfl
    rw [head] at sof whole
    have step : onByte queued (hunting b) x = (⟨b, [x], start_unfinished x⟩, []) := by
      simp [onByte, onRead, hunting, sof]
    have fits : rest.length ≤ want ⟨b, [x], start_unfinished x⟩ := by
      simp only [want, List.length_cons, List.length_nil, ← whole]
      omega
    rw [acquire, Transducer.feed_cons, step, ← acquire, ← onRead_eq_acquire queued _ _ fits]
    simp only [onRead, List.cons_append, List.nil_append]
    rw [dif_neg (by omega)]

/-- From the hunt, bytes without any start of frame are skipped. -/
theorem acquire_skip (queued : Nat → Bool) (b : Board) (bytes : List Byte)
    (noSof : ∀ x ∈ bytes, sofr x = false) :
    acquire queued (hunting b) bytes = (hunting b, []) := by
  apply Transducer.feed_idle
  intro x member
  simp [onByte, onRead, hunting, noSof x member]

theorem acquire_frame (queued : Nat → Bool) (b : Board) (f : Frame) :
    ∃ b', acquire queued (hunting b) f.bytes = (hunting b', (endOfPacket queued b f.bytes).2) :=
  ⟨_, acquire_whole queued b f.bytes f.sofr_head (by rw [f.command_head, f.bytes_length])⟩

theorem acquire_wire (queued : Nat → Bool) (b : Board) (fs : List Frame) :
    ∃ b', (acquire queued (hunting b) (wire fs)).1 = hunting b' := by
  induction fs generalizing b with
  | nil => exact ⟨b, rfl⟩
  | cons f fs ih =>
    obtain ⟨b', frame⟩ := acquire_frame queued b f
    obtain ⟨b'', later⟩ := ih b'
    refine ⟨b'', ?_⟩
    rw [wire_cons, acquire, Transducer.feed_append_state, ← acquire, frame, later]

/-- Well formed frames are delivered one by one. -/
theorem packets_wire (queued : Nat → Bool) (b : Board) (fs : List Frame) :
    packets queued (hunting b) (wire fs) = fs.map Frame.packet := by
  induction fs generalizing b with
  | nil => rfl
  | cons f fs ih =>
    obtain ⟨b', frame⟩ := acquire_frame queued b f
    calc packets queued (hunting b) (wire (f :: fs))
        = packets queued (hunting b) f.bytes ++ packets queued (hunting b') (wire fs) := by
          rw [wire_cons, packets_append, frame]
      _ = [f.packet] ++ fs.map Frame.packet := by
          rw [ih, packets, frame, endOfPacket_packets, f.accepted]
      _ = (f :: fs).map Frame.packet := rfl

end Ipimb.Framing
