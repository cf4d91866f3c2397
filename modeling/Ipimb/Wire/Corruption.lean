import Ipimb.Wire.Command
import Ipimb.Wire.Resync

/-!
Up to three wire bits of one frame inverted. Bytes altered inside a frame are garbage before
the frames that follow, so resynchronisation leaves only packets made of the altered bytes
alone. Twelve of them are never taken for a command inside a data frame (four command flags
would have to be inverted), and a packet of the frame's own size has the frame's own words,
because the checksum has distance four.
-/

namespace Ipimb.Corruption
open Ipimb.Chunk Ipimb.Crc Ipimb.Acquire Ipimb.Framing Ipimb.Resync

def ones (b : Byte) : Nat := (Lfsr.wordBits b).count true

def weight (mask : List Byte) : Nat := (mask.map ones).sum

/-- The bits set in the mask inverted. -/
def flip (bytes mask : List Byte) : List Byte := List.zipWith (· ^^^ ·) bytes mask

@[simp] theorem weight_nil : weight [] = 0 := rfl

@[simp] theorem weight_cons (b : Byte) (mask : List Byte) : weight (b :: mask) = ones b + weight mask :=
  List.sum_cons

theorem ones_pos (b : Byte) (set : b ≠ 0#8) : 0 < ones b := by
  revert b
  decide

theorem flip_length (bytes mask : List Byte) (lengths : mask.length = bytes.length) :
    (flip bytes mask).length = bytes.length := by
  simp [flip, lengths]

theorem byteAt_flip (bytes mask : List Byte) (lengths : mask.length = bytes.length) (j : Nat) :
    byteAt (flip bytes mask) j = byteAt bytes j ^^^ byteAt mask j := by
  by_cases inside : j < bytes.length
  · simp [flip, byteAt, inside, lengths]
  · have outside : mask.length ≤ j := by omega
    simp [flip, byteAt, show bytes.length ≤ j by omega, outside]

theorem ones_add_weight_drop (mask : List Byte) (j : Nat) :
    ones (byteAt mask j) + weight (mask.drop (j + 1)) ≤ weight (mask.drop j) := by
  by_cases inside : j < mask.length
  · rw [List.drop_eq_getElem_cons inside, weight_cons]
    simp [byteAt, inside]
  · have outside : mask.length ≤ j := by omega
    have none : ones 0#8 = 0 := by decide
    simp [byteAt, outside, none, List.drop_eq_nil_of_le (show mask.length ≤ j + 1 by omega)]

theorem weight_drop_le (mask : List Byte) (m n : Nat) (le : m ≤ n) :
    weight (mask.drop n) ≤ weight (mask.drop m) := by
  induction n, le using Nat.le_induction with
  | base => exact le_rfl
  | succ n _ ih =>
    have step := ones_add_weight_drop mask n
    omega

/-- Four altered bytes, three places apart, take four inverted bits. -/
theorem four_le_weight (mask : List Byte) (m : Nat)
    (altered : ∀ i < 4, byteAt mask (m + 3 * i) ≠ 0#8) : 4 ≤ weight mask := by
  have zero := ones_pos _ (altered 0 (by decide))
  have one := ones_pos _ (altered 1 (by decide))
  have two := ones_pos _ (altered 2 (by decide))
  have three := ones_pos _ (altered 3 (by decide))
  have at0 := ones_add_weight_drop mask (m + 3 * 0)
  have at1 := ones_add_weight_drop mask (m + 3 * 1)
  have at2 := ones_add_weight_drop mask (m + 3 * 2)
  have at3 := ones_add_weight_drop mask (m + 3 * 3)
  have to1 := weight_drop_le mask (m + 3 * 0 + 1) (m + 3 * 1) (by omega)
  have to2 := weight_drop_le mask (m + 3 * 1 + 1) (m + 3 * 2) (by omega)
  have to3 := weight_drop_le mask (m + 3 * 2 + 1) (m + 3 * 3) (by omega)
  have all := weight_drop_le mask 0 (m + 3 * 0) (by omega)
  rw [List.drop_zero] at all
  omega

/-! Every packet comes from a window of the stream. -/

/-- The bytes the reader collects when it takes the byte at place m for a start of frame. -/
def window (bytes : List Byte) (m : Nat) : List Byte :=
  (bytes.drop m).take (blen (command (byteAt bytes m)))

/-- Some place looks like a start of frame and its window fits in the stream and passes. -/
def HasWindow (bytes : List Byte) : Prop :=
  ∃ m, sofr (byteAt bytes m) = true ∧ m + blen (command (byteAt bytes m)) ≤ bytes.length ∧
    Passes (window bytes m)

theorem HasWindow.of_drop (bytes : List Byte) (n : Nat) (le : n ≤ bytes.length)
    (later : HasWindow (bytes.drop n)) : HasWindow bytes := by
  obtain ⟨m, sof, fits, passes⟩ := later
  rw [byteAt_drop] at sof fits
  rw [List.length_drop] at fits
  refine ⟨n + m, sof, by omega, ?_⟩
  simpa only [window, byteAt_drop, List.drop_drop] using passes

theorem packets_eq_nil (queued : Nat → Bool) (b : Board) (bytes : List Byte)
    (none : ¬HasWindow bytes) : packets queued (hunting b) bytes = [] := by
  induction size : bytes.length using Nat.strong_induction_on generalizing b bytes with
  | _ size ih =>
    cases bytes with
    | nil => rfl
    | cons x rest =>
      rw [List.length_cons] at size
      by_cases sof : sofr x = true
      · by_cases whole : blen (command x) ≤ (x :: rest).length
        · -- The first window is read, rejected, and the hunt goes on behind it.
          have head : byteAt ((x :: rest).take (blen (command x))) 0 = x := by
            rw [byteAt_take _ _ _ (by have bound := le_blen (command x); omega)]
            rfl
          have read := acquire_whole queued b ((x :: rest).take (blen (command x)))
            (by rw [head]; exact sof) (by rw [head, List.length_take]; omega)
          have rejected : ¬Passes ((x :: rest).take (blen (command x))) := by
            intro passes
            exact none ⟨0, sof, by simpa [byteAt] using whole, passes⟩
          have nothing : packets queued (hunting b) ((x :: rest).take (blen (command x))) = [] := by
            rw [packets, read, endOfPacket_packets, accepted, if_neg rejected]
          conv_lhs => rw [← List.take_append_drop (blen (command x)) (x :: rest)]
          rw [packets_append, nothing, List.nil_append, read]
          refine ih _ ?_ _ _ ?_ rfl
          · have bound := le_blen (command x)
            simp only [List.length_drop, List.length_cons]
            omega
          · exact fun later => none (HasWindow.of_drop _ _ whole later)
        · -- The stream ends inside the window.
          have step : onByte queued (hunting b) x = (⟨b, [x], start_unfinished x⟩, []) := by
            simp [onByte, onRead, hunting, sof]
          have fits : rest.length ≤ want ⟨b, [x], start_unfinished x⟩ := by
            simp only [want, List.length_cons, List.length_nil] at whole ⊢
            omega
          rw [packets, acquire, Transducer.feed_cons, step, ← acquire,
            ← onRead_eq_acquire queued _ _ fits]
          simp only [onRead, List.cons_append, List.nil_append]
          rw [dif_pos (by omega)]
          rfl
      · have step : acquire queued (hunting b) [x] = (hunting b, []) :=
          acquire_skip queued b [x] (by simpa using sof)
        rw [show x :: rest = [x] ++ rest from rfl, packets_append, packets, step]
        exact ih rest.length (by omega) b rest
          (fun later => none (HasWindow.of_drop (x :: rest) 1 (by simp) later)) rfl

/-! Data bits. -/

theorem count_wordBits_xor (x y : Word) :
    (Lfsr.wordBits (x ^^^ y)).count true ≤
      (Lfsr.wordBits x).count true + (Lfsr.wordBits y).count true := by
  rw [Lfsr.wordBits_xor]
  have lengths : (Lfsr.wordBits x).length = (Lfsr.wordBits y).length := by simp
  generalize Lfsr.wordBits x = xs at lengths ⊢
  generalize Lfsr.wordBits y = ys at lengths ⊢
  induction xs generalizing ys with
  | nil => simp
  | cons a xs ih =>
    cases ys with
    | nil => simp at lengths
    | cons c ys =>
      have later := ih ys (by simpa using lengths)
      cases a <;> cases c <;> simp <;> omega

theorem count_chunkWord (b0 b1 b2 : Byte) :
    (Lfsr.wordBits (chunkWord b0 b1 b2)).count true ≤ ones b0 + ones b1 + ones b2 := by
  have first : ∀ b : Byte, (Lfsr.wordBits (chunkWord b 0#8 0#8)).count true ≤ ones b := by
    decide +kernel
  have second : ∀ b : Byte, (Lfsr.wordBits (chunkWord 0#8 b 0#8)).count true ≤ ones b := by
    decide +kernel
  have third : ∀ b : Byte, (Lfsr.wordBits (chunkWord 0#8 0#8 b)).count true ≤ ones b := by
    decide +kernel
  have split : chunkWord b0 b1 b2 =
      chunkWord b0 0#8 0#8 ^^^ (chunkWord 0#8 b1 0#8 ^^^ chunkWord 0#8 0#8 b2) := by
    simp [← chunkWord_xor]
  have inner := count_wordBits_xor (chunkWord 0#8 b1 0#8) (chunkWord 0#8 0#8 b2)
  calc (Lfsr.wordBits (chunkWord b0 b1 b2)).count true
      ≤ (Lfsr.wordBits (chunkWord b0 0#8 0#8)).count true +
          (Lfsr.wordBits (chunkWord 0#8 b1 0#8 ^^^ chunkWord 0#8 0#8 b2)).count true := by
        rw [split]
        exact count_wordBits_xor _ _
    _ ≤ (Lfsr.wordBits (chunkWord b0 0#8 0#8)).count true +
          ((Lfsr.wordBits (chunkWord 0#8 b1 0#8)).count true +
            (Lfsr.wordBits (chunkWord 0#8 0#8 b2)).count true) := Nat.add_le_add_left inner _
    _ ≤ ones b0 + (ones b1 + ones b2) :=
        Nat.add_le_add (first b0) (Nat.add_le_add (second b1) (third b2))
    _ = ones b0 + ones b1 + ones b2 := (Nat.add_assoc _ _ _).symm

theorem wordAt_cons (b0 b1 b2 : Byte) (rest : List Byte) (i : Nat) :
    wordAt (b0 :: b1 :: b2 :: rest) (i + 1) = wordAt rest i := by
  simp only [wordAt, byteAt, show 3 * (i + 1) = 3 * i + 1 + 1 + 1 by omega, List.getD_cons_succ]

theorem count_mask_words (n : Nat) (mask : List Byte) (size : mask.length = 3 * n) :
    (bits ((List.range n).map (wordAt mask))).count true ≤ weight mask := by
  induction n generalizing mask with
  | zero => simp
  | succ n ih =>
    match mask, size with
    | b0 :: b1 :: b2 :: rest, size =>
      have later := ih rest (by simp only [List.length_cons] at size; omega)
      have here := count_chunkWord b0 b1 b2
      rw [List.range_succ_eq_map, List.map_cons, List.map_map, bits_cons, List.count_append]
      have tail : (wordAt (b0 :: b1 :: b2 :: rest)) ∘ Nat.succ = wordAt rest :=
        funext (wordAt_cons b0 b1 b2 rest)
      rw [tail, show wordAt (b0 :: b1 :: b2 :: rest) 0 = chunkWord b0 b1 b2 from rfl]
      simp only [weight_cons]
      omega

def alteredWords (f : Frame) (mask : List Byte) : List Word :=
  (List.range (len f.cmd)).map (wordAt (flip f.bytes mask))

theorem wordAt_flip (bytes mask : List Byte) (lengths : mask.length = bytes.length) (i : Nat) :
    wordAt (flip bytes mask) i = wordAt bytes i ^^^ wordAt mask i := by
  simp only [wordAt, byteAt_flip bytes mask lengths, chunkWord_xor]

theorem frame_words (f : Frame) : (List.range (len f.cmd)).map (wordAt f.bytes) = f.words := by
  rw [← f.packetWords, packetWords, f.command_head]

theorem differing_alteredWords (f : Frame) (mask : List Byte)
    (lengths : mask.length = f.bytes.length) :
    differing (alteredWords f mask) f.words ≤ weight mask := by
  have size : mask.length = 3 * len f.cmd := by rw [lengths, f.bytes_length, blen]
  have same : List.zipWith (· ^^^ ·) (alteredWords f mask) f.words =
      (List.range (len f.cmd)).map (wordAt mask) := by
    rw [← frame_words f, alteredWords, List.zipWith_map, List.zipWith_self]
    apply List.map_congr_left
    intro i _
    rw [wordAt_flip _ _ lengths, BitVec.xor_comm (wordAt f.bytes i), BitVec.xor_assoc,
      BitVec.xor_self, BitVec.xor_zero]
  rw [differing, zipWith_bits _ _ (by simp [alteredWords, f.length_eq]), same]
  exact count_mask_words _ mask size

/-! Which windows an altered frame can have. -/

/-- No byte of a data frame is a first byte with the command flag. -/
theorem data_byte (f : Frame) (data : f.cmd = false) (j : Nat) (bound : j < 48) :
    (first (byteAt f.bytes j) && command (byteAt f.bytes j)) = false := by
  have chunk_bound : j / 3 < len f.cmd := by rw [data, len_false]; omega
  have position : j = 3 * (j / 3) ∨ j = 3 * (j / 3) + 1 ∨ j = 3 * (j / 3) + 2 := by omega
  rcases position with here | here | here
  · rw [here, f.first_byte _ chunk_bound, command_chunkFirst, data, Bool.and_false]
  · rw [here, f.second_byte _ chunk_bound, not_first_of_second _ (second_chunkSecond _),
      Bool.false_and]
  · rw [here, f.third_byte _ chunk_bound, not_first_of_third _ (third_chunkThird _), Bool.false_and]

/-- A command inside a data frame takes four inverted bits, one for each of its chunks. -/
theorem no_short_window (f : Frame) (data : f.cmd = false) (mask : List Byte)
    (lengths : mask.length = f.bytes.length) (few : weight mask ≤ 3) (m : Nat)
    (short : command (byteAt (flip f.bytes mask) m) = true) (fits : m + 12 ≤ 48) :
    ¬Passes (window (flip f.bytes mask) m) := by
  intro passes
  have inside : ∀ j < 12, byteAt (window (flip f.bytes mask) m) j =
      byteAt (flip f.bytes mask) (m + j) := by
    intro j bound
    rw [window, short, blen_true, byteAt_take _ _ _ bound, byteAt_drop]
  have head := inside 0 (by decide)
  rw [Nat.add_zero] at head
  have good := passes.chunks
  rw [head, short] at good
  have altered := four_le_weight mask m (by
    intro i bound unset
    have chunk := good i bound
    have heads := inside (3 * i) (by omega)
    rw [byteAt_flip _ _ lengths, unset, BitVec.xor_zero] at heads
    have original := data_byte f data (m + 3 * i) (by omega)
    simp only [goodChunk, heads, Bool.and_eq_true, beq_iff_eq] at chunk
    simp [chunk.1.1.1, chunk.2] at original)
  omega

/-- The only window an altered frame can have is the whole of it, as a packet of its own kind. -/
theorem window_whole (f : Frame) (mask : List Byte) (lengths : mask.length = f.bytes.length)
    (few : weight mask ≤ 3) (found : HasWindow (flip f.bytes mask)) :
    sofr (byteAt (flip f.bytes mask) 0) = true ∧ command (byteAt (flip f.bytes mask) 0) = f.cmd ∧
      Passes (flip f.bytes mask) := by
  obtain ⟨m, sof, fits, passes⟩ := found
  have size : (flip f.bytes mask).length = blen f.cmd := by
    rw [flip_length _ _ lengths, f.bytes_length]
  rw [size] at fits
  have least := le_blen (command (byteAt (flip f.bytes mask) m))
  have whole : command (byteAt (flip f.bytes mask) m) = f.cmd → m = 0 →
      sofr (byteAt (flip f.bytes mask) 0) = true ∧
        command (byteAt (flip f.bytes mask) 0) = f.cmd ∧ Passes (flip f.bytes mask) := by
    intro kind start
    subst start
    refine ⟨sof, kind, ?_⟩
    rw [window, kind, List.drop_zero, List.take_of_length_le (by omega)] at passes
    exact passes
  cases kind : f.cmd with
  | true =>
    rw [kind, blen_true] at fits
    cases read : command (byteAt (flip f.bytes mask) m) with
    | true =>
      have result := whole (by rw [read, kind]) (by omega)
      rwa [kind] at result
    | false =>
      rw [read, blen_false] at fits
      omega
  | false =>
    rw [kind, blen_false] at fits
    cases read : command (byteAt (flip f.bytes mask) m) with
    | true =>
      rw [read, blen_true] at fits
      exact absurd passes (no_short_window f kind mask lengths few m read fits)
    | false =>
      rw [read, blen_false] at fits
      have result := whole (by rw [read, kind]) (by omega)
      rwa [kind] at result

/-- Alone, an altered frame is delivered unaltered or not at all. -/
theorem packets_flip (queued : Nat → Bool) (b : Board) (f : Frame) (mask : List Byte)
    (lengths : mask.length = f.bytes.length) (few : weight mask ≤ 3) :
    packets queued (hunting b) (flip f.bytes mask) = [] ∨
      (packets queued (hunting b) (flip f.bytes mask) = [f.packet] ∧
        alteredWords f mask = f.words) := by
  by_cases found : HasWindow (flip f.bytes mask)
  · right
    obtain ⟨sof, kind, passes⟩ := window_whole f mask lengths few found
    have size : (flip f.bytes mask).length = blen (command (byteAt (flip f.bytes mask) 0)) := by
      rw [flip_length _ _ lengths, f.bytes_length, kind]
    have words : packetWords (flip f.bytes mask) = alteredWords f mask := by
      rw [packetWords, kind, alteredWords]
    have same : alteredWords f mask = f.words := by
      apply checked_distance
      · simp [alteredWords, f.length_eq]
      · have bound : len f.cmd ≤ 16 := by cases f.cmd <;> decide
        simpa [alteredWords] using bound
      · rw [← words]
        exact passes.checked
      · exact f.checked
      · exact (differing_alteredWords f mask lengths).trans few
    refine ⟨?_, same⟩
    rw [packets, acquire_whole queued b _ sof size, endOfPacket_packets, accepted, if_pos passes,
      kind, words, same]
    rfl
  · left
    exact packets_eq_nil queued b _ found

/-- Invert up to three bits of one frame of a stream: what is delivered are frames of the stream,
each with its own words and in order, and not the altered one if its data words have changed. -/
theorem corruption_detected (queued : Nat → Bool) (b : Board) (before after : List Frame) (f : Frame)
    (mask : List Byte) (lengths : mask.length = f.bytes.length) (few : weight mask ≤ 3) :
    let delivered := packets queued (hunting b) (wire before ++ flip f.bytes mask ++ wire after)
    (∀ p ∈ delivered, ∃ g ∈ before ++ f :: after, p.words = g.words ∧ p.cmd = g.cmd) ∧
      delivered.Sublist ((before ++ f :: after).map Frame.packet) ∧
      (alteredWords f mask ≠ f.words → delivered.Sublist ((before ++ after).map Frame.packet)) := by
  intro delivered
  obtain ⟨b', start⟩ : ∃ b', (acquire queued (hunting b) (wire before)).1 = hunting b' :=
    acquire_wire queued b before
  obtain ⟨split, -⟩ := resynchronises queued b' (flip f.bytes mask) after
  have parts : delivered = before.map Frame.packet ++
      (packets queued (hunting b') (flip f.bytes mask) ++
        (after.drop (touched (missing (acquire queued (hunting b') (flip f.bytes mask)).1)
          after)).map Frame.packet) := by
    simp only [delivered]
    rw [List.append_assoc, packets_append, packets_wire, start, split]
  have tail : ((after.drop (touched (missing (acquire queued (hunting b') (flip f.bytes mask)).1)
      after)).map Frame.packet).Sublist (after.map Frame.packet) :=
    (List.drop_sublist _ _).map _
  have sub : delivered.Sublist ((before ++ f :: after).map Frame.packet) := by
    rw [parts, List.map_append, List.map_cons]
    apply (List.Sublist.refl _).append
    rcases packets_flip queued b' f mask lengths few with nothing | ⟨whole, -⟩
    · rw [nothing]
      exact tail.cons _
    · rw [whole]
      exact tail.cons_cons _
  refine ⟨?_, sub, ?_⟩
  · intro p member
    obtain ⟨g, found, rfl⟩ := List.mem_map.mp (sub.subset member)
    exact ⟨g, found, rfl, rfl⟩
  · intro changed
    rw [parts, List.map_append]
    apply (List.Sublist.refl _).append
    rcases packets_flip queued b' f mask lengths few with nothing | ⟨-, same⟩
    · rw [nothing]
      exact tail
    · exact absurd same changed

/-- The start flag and two data bits of the second of three commands inverted. -/
theorem corruption_detected_command :
    let f := fun data => (Command.IpimBoardCommand.mk true 0x09#32 data).frame
    let mask : List Byte := [0x40#8, 0#8, 0#8, 0x03#8, 0#8, 0#8, 0#8, 0#8, 0#8, 0#8, 0#8, 0#8]
    (mask.length = (f 2#32).bytes.length ∧ weight mask ≤ 3 ∧ alteredWords (f 2#32) mask ≠ (f 2#32).words) ∧
      (packets (fun _ => true) (hunting (Board.init 0))
        (wire [f 1#32] ++ flip (f 2#32).bytes mask ++ wire [f 3#32])).Sublist
          [(f 1#32).packet, (f 3#32).packet] := by
  intro f mask
  have fits : mask.length = (f 2#32).bytes.length ∧ weight mask ≤ 3 := by decide
  have changed : alteredWords (f 2#32) mask ≠ (f 2#32).words := by decide
  exact ⟨⟨fits.1, fits.2, changed⟩, (corruption_detected (fun _ => true) (Board.init 0) [f 1#32] [f 3#32]
    (f 2#32) mask fits.1 fits.2).2.2 changed⟩

end Ipimb.Corruption
