import Ipimb.Wire.Framing

/-!
Resynchronisation. A packet begun inside garbage swallows a fixed number of bytes of the
frames that follow. The read that straddles the border is never delivered: its alignment,
its command flags or its end of frame byte gives it away before the checksum is looked at.
-/

namespace Ipimb.Resync
open Ipimb.Chunk Ipimb.Crc Ipimb.Acquire Ipimb.Framing

def missing (r : Reader) : Nat :=
  match r.rdbuf with
  | [] => 0
  | b :: _ => blen (command b) - r.rdbuf.length

theorem missing_le (r : Reader) : missing r ≤ 47 := by
  obtain ⟨board, rdbuf, unfinished⟩ := r
  cases rdbuf with
  | nil => simp [missing]
  | cons b rest =>
    have bound := blen_le (command b)
    simp only [missing, List.length_cons]
    omega

def touched : Nat → List Frame → Nat
  | 0, _ => 0
  | _ + 1, [] => 0
  | n + 1, f :: fs => touched (n + 1 - f.bytes.length) fs + 1

@[simp] theorem touched_zero (fs : List Frame) : touched 0 fs = 0 := by cases fs <;> rfl

@[simp] theorem touched_nil (n : Nat) : touched n [] = 0 := by cases n <;> rfl

/-- Frames of at least `size` bytes: n bytes touch no more than n / size of them, rounded up. -/
theorem touched_mul_lt (size : Nat) (positive : 0 < size) (n : Nat) (fs : List Frame)
    (large : ∀ f ∈ fs, size ≤ f.bytes.length) : touched n fs * size < n + size := by
  induction fs generalizing n with
  | nil => simp; omega
  | cons f fs ih =>
    cases n with
    | zero => simpa using positive
    | succ n =>
      have later := ih (n + 1 - f.bytes.length) (fun g member => large g (by simp [member]))
      have here := large f (by simp)
      by_cases inside : n + 1 ≤ f.bytes.length
      · rw [touched, show n + 1 - f.bytes.length = 0 by omega, touched_zero]
        omega
      · rw [touched, Nat.add_mul]
        omega

theorem touched_all (n : Nat) (fs : List Frame) (short : (wire fs).length < n) :
    touched n fs = fs.length := by
  induction fs generalizing n with
  | nil => simp
  | cons f fs ih =>
    cases n with
    | zero => omega
    | succ n =>
      rw [wire_cons, List.length_append] at short
      rw [touched, ih _ (by omega), List.length_cons]

/-- The read across the border fails the checks, whatever the garbage before it. -/
theorem straddle_rejected (garbage : List Byte) (fs : List Frame) (begun : garbage ≠ [])
    (inside : garbage.length < blen (command (byteAt garbage 0)))
    (enough : blen (command (byteAt garbage 0)) ≤ garbage.length + (wire fs).length) :
    ¬Passes (garbage ++ (wire fs).take (blen (command (byteAt garbage 0)) - garbage.length)) := by
  generalize shape : command (byteAt garbage 0) = cmd at inside enough ⊢
  have positive : 0 < garbage.length := List.length_pos_iff.mpr begun
  cases fs with
  | nil =>
    simp only [wire_nil, List.length_nil] at enough
    omega
  | cons f fs =>
    intro passes
    have head : command (byteAt (garbage ++ (wire (f :: fs)).take (blen cmd - garbage.length)) 0) =
        cmd := by rw [byteAt_append_left _ _ _ positive, shape]
    have first_frame : ∀ j, garbage.length + j < blen cmd → j < blen f.cmd →
        byteAt (garbage ++ (wire (f :: fs)).take (blen cmd - garbage.length)) (garbage.length + j) =
          byteAt f.bytes j := by
      intro j bound within
      rw [byteAt_append_right, byteAt_take _ _ _ (by omega), wire_cons,
        byteAt_append_left _ _ _ (by rw [f.bytes_length]; exact within)]
    have border := first_frame 0 (by omega) (by have bound := le_blen f.cmd; omega)
    rw [Nat.add_zero] at border
    have chunk_bound : garbage.length / 3 < len cmd := by
      rw [blen] at inside
      omega
    have good := passes.chunks
    rw [head] at good
    have chunk := good (garbage.length / 3) chunk_bound
    simp only [goodChunk, Bool.and_eq_true, beq_iff_eq] at chunk
    have sof := f.sofr_head
    -- The frame's start of frame byte may only stand where a chunk begins.
    have aligned : garbage.length = 3 * (garbage.length / 3) := by
      have position : garbage.length = 3 * (garbage.length / 3) ∨
        garbage.length = 3 * (garbage.length / 3) + 1 ∨
        garbage.length = 3 * (garbage.length / 3) + 2 := by omega
      rcases position with here | here | here
      · exact here
      · rw [← here, border] at chunk
        rw [not_sofr_of_second _ chunk.1.1.2] at sof
        cases sof
      · rw [← here, border] at chunk
        rw [not_sofr_of_third _ chunk.1.2] at sof
        cases sof
    -- So the packet and the frame are of one kind.
    have same : f.cmd = cmd := by
      rw [← aligned, border, f.command_head] at chunk
      exact chunk.2
    -- And the packet ends before the frame's end of frame byte.
    have last := passes.eof
    have back : len cmd - 1 - garbage.length / 3 < len f.cmd := by rw [same]; omega
    rw [head, show blen cmd - 3 = garbage.length + 3 * (len cmd - 1 - garbage.length / 3) by
      rw [blen]; omega, first_frame _ (by rw [blen]; omega) (by rw [blen]; omega),
      f.first_byte _ back, eofr_chunkFirst, beq_iff_eq, same] at last
    omega

/-- From the hunt in the middle of a frame, the rest of it is skipped. -/
theorem packets_drop (queued : Nat → Bool) (b : Board) (n : Nat) (fs : List Frame) :
    packets queued (hunting b) ((wire fs).drop n) = (fs.drop (touched n fs)).map Frame.packet := by
  induction fs generalizing n with
  | nil => simp [packets, acquire]
  | cons f fs ih =>
    cases n with
    | zero => simpa using packets_wire queued b (f :: fs)
    | succ n =>
      rw [touched, List.drop_succ_cons, wire_cons, List.drop_append]
      by_cases whole : f.bytes.length ≤ n + 1
      · rw [List.drop_eq_nil_of_le whole, List.nil_append, ih]
      · have noSof : ∀ x ∈ f.bytes.drop (n + 1), sofr x = false := by
          intro x member
          obtain ⟨j, bound, rfl⟩ := List.mem_iff_getElem.mp member
          rw [List.length_drop, f.bytes_length] at bound
          have quiet := f.not_sofr (n + 1 + j) (by omega) (by omega)
          rw [List.getElem_drop]
          simpa [byteAt, show n + 1 + j < blen f.cmd by omega] using quiet
        rw [show n + 1 - f.bytes.length = 0 by omega, List.drop_zero, touched_zero, List.drop_zero,
          packets_append, acquire_skip queued b _ noSof, packets_wire, packets,
          acquire_skip queued b _ noSof]
        rfl

/-- A reader in any state loses the frames its unfinished packet touches, and no others. -/
theorem packets_resume (queued : Nat → Bool) (r : Reader) (fs : List Frame) :
    packets queued r (wire fs) = (fs.drop (touched (missing r) fs)).map Frame.packet ∧
      packets queued r ((wire fs).take (missing r)) = [] := by
  obtain ⟨board, rdbuf, unfinished⟩ := r
  cases rdbuf with
  | nil =>
    refine ⟨?_, rfl⟩
    simp only [missing, touched_zero, List.drop_zero]
    exact packets_wire queued board fs
  | cons b rest =>
    have inside := unfinished b (by simp)
    have need : missing ⟨board, b :: rest, unfinished⟩ = blen (command b) - (b :: rest).length := rfl
    rw [need]
    generalize short : blen (command b) - (b :: rest).length = n
    -- The bytes that still fit are taken in one read.
    have fits : ((wire fs).take n).length ≤ want ⟨board, b :: rest, unfinished⟩ := by
      simp only [want, List.length_take]
      omega
    have filled := onRead_eq_acquire queued _ _ fits
    by_cases enough : n ≤ (wire fs).length
    · have whole : (b :: rest ++ (wire fs).take n).length = blen (command b) := by
        simp only [List.length_append, List.length_take] at inside ⊢
        omega
      have rejected := straddle_rejected (b :: rest) fs (by simp) inside (by
        change blen (command b) ≤ _
        omega)
      rw [show byteAt (b :: rest) 0 = b from rfl, short] at rejected
      simp only [onRead] at filled
      rw [dif_neg (by omega)] at filled
      have nothing : packets queued ⟨board, b :: rest, unfinished⟩ ((wire fs).take n) = [] := by
        rw [packets, ← filled, endOfPacket_packets, accepted, if_neg rejected]
      refine ⟨?_, nothing⟩
      conv_lhs => rw [← List.take_append_drop n (wire fs)]
      rw [packets_append, nothing, List.nil_append, ← filled, packets_drop]
    · have all : (wire fs).take n = wire fs := List.take_of_length_le (by omega)
      simp only [onRead] at filled
      rw [dif_pos (by simp only [List.length_append, List.length_take] at inside ⊢; omega)] at filled
      have nothing : packets queued ⟨board, b :: rest, unfinished⟩ ((wire fs).take n) = [] := by
        rw [packets, ← filled]
        rfl
      rw [touched_all n fs (by omega), List.drop_length, all]
      rw [all] at nothing
      exact ⟨nothing, nothing⟩

/-- After any garbage the reader delivers what it delivers on the garbage alone, then every frame
but those touched by the at most 47 bytes that complete a packet begun in the garbage. -/
theorem resynchronises (queued : Nat → Bool) (b : Board) (garbage : List Byte) (fs : List Frame) :
    let r := (acquire queued (hunting b) garbage).1
    let k := touched (missing r) fs
    packets queued (hunting b) (garbage ++ wire fs) =
        packets queued (hunting b) garbage ++ (fs.drop k).map Frame.packet ∧
      packets queued (hunting b) (garbage ++ (wire fs).take (missing r)) =
        packets queued (hunting b) garbage ∧
      missing r ≤ 47 ∧ (r.rdbuf = [] → k = 0) ∧ k ≤ 4 ∧ ((∀ f ∈ fs, f.cmd = false) → k ≤ 1) := by
  intro r k
  have resumed := packets_resume queued r fs
  have bound := missing_le r
  refine ⟨?_, ?_, bound, ?_, ?_, ?_⟩
  · rw [packets_append, resumed.1]
  · rw [packets_append, resumed.2, List.append_nil]
  · intro idle
    simp [k, missing, idle]
  · have few := touched_mul_lt 12 (by decide) (missing r) fs (fun f _ => by
      rw [f.bytes_length]
      exact le_blen f.cmd)
    omega
  · intro data
    have few := touched_mul_lt 48 (by decide) (missing r) fs (fun f member => by
      rw [f.bytes_length, data f member]
      decide)
    omega

end Ipimb.Resync
