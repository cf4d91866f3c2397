import Ipimb.Wire.Acquire

/-!
What the checksum catches in a packet of any length: an odd number of inverted bits, and all that happens
within sixteen bits in a row of the stream.
-/

namespace Ipimb.Bursts
open Ipimb.Chunk Ipimb.Crc Ipimb.BoardData Ipimb.Acquire

/-- The comparison at the end of `Acquire`, for a packet of n words. -/
def Matches (p : Slot) (n : Nat) : Prop := crc (words p (n - 1)) = p (n - 1)

theorem words_succ (p : Slot) (n : Nat) : words p (n + 1) = words p n ++ [p n] := by
  rw [words, List.range_succ, List.map_append]
  rfl

/-- The comparison succeeds exactly if the register ends at zero. -/
theorem matches_iff (p : Slot) (n : Nat) :
    Matches p (n + 1) ↔ Lfsr.register poly 0xffff#16 (bits (words p (n + 1))) = 0#16 := by
  have last : Lfsr.register poly 0xffff#16 (bits (words p (n + 1))) =
      (Lfsr.shift poly)^[16] (crc (words p n) ^^^ p n) := by
    rw [← foldl_crcWord, words_succ, List.foldl_append, List.foldl_cons, List.foldl_nil, ← crc,
      crcWord_eq_shift]
  rw [last]
  constructor
  · intro good
    have same : crc (words p n) = p n := good
    rw [same, BitVec.xor_self, Lfsr.iterate_zero]
  · intro zero
    exact BitVec.xor_eq_zero_iff.mp (Lfsr.iterate_eq_zero poly (by decide) 16 _ zero)

def inverted (p q : Slot) (n : Nat) : List Bool := List.zipWith xor (bits (words p n)) (bits (words q n))

/-- Some bits are inverted, and all of them within sixteen in a row. -/
def Burst (p q : Slot) (n : Nat) : Prop :=
  true ∈ inverted p q n ∧ ∃ start, ∀ k : Nat, (inverted p q n)[k]? = some true → start ≤ k ∧ k < start + 16

def Odd (p q : Slot) (n : Nat) : Prop := (inverted p q n).count true % 2 = 1

theorem register_inverted (p q : Slot) (n : Nat) :
    Lfsr.register poly 0#16 (inverted p q n) =
      Lfsr.register poly 0xffff#16 (bits (words p n)) ^^^ Lfsr.register poly 0xffff#16 (bits (words q n)) := by
  have lengths : (bits (words p n)).length = (bits (words q n)).length := by
    rw [bits_length, bits_length, words_length, words_length]
  exact Lfsr.register_xor poly 0xffff#16 0xffff#16 _ _ lengths

/-- The words that `Acquire` compares, as far as the chunks were good. -/
def decoded (b : Board) (rdbuf : List Byte) : Slot :=
  (decode (command (byteAt rdbuf 0)) rdbuf (len (command (byteAt rdbuf 0))) 0
    (b.getBuffer (command (byteAt rdbuf 0)))).1

theorem endOfPacket_mismatch (queued : Nat → Bool) (b : Board) (rdbuf : List Byte)
    (mismatch : ¬ Matches (decoded b rdbuf) (len (command (byteAt rdbuf 0)))) :
    (endOfPacket queued b rdbuf).2 = [] := by
  unfold Matches decoded at mismatch
  unfold endOfPacket
  simp only [getBuffer_putBuffer, if_neg mismatch]
  split
  · split <;> rfl
  · rfl

/-- The checksum is that of the register for x16 + x12 + x5 + 1, most significant bits first; a packet
it is right for does not pass the comparison any more after a burst or an odd number of inverted bits; and
`Acquire` delivers nothing when the comparison fails. -/
theorem bursts_rejected :
    (∀ lst : List Word, crc lst = Lfsr.register poly 0xffff#16 (bits lst)) ∧
      (∀ (n : Nat) (packet altered : Slot), 0 < n → Matches packet n →
        Burst packet altered n ∨ Odd packet altered n → ¬ Matches altered n) ∧
      ∀ (queued : Nat → Bool) (b : Board) (rdbuf : List Byte),
        ¬ Matches (decoded b rdbuf) (len (command (byteAt rdbuf 0))) → (endOfPacket queued b rdbuf).2 = [] := by
  refine ⟨crc_eq_register, ?_, endOfPacket_mismatch⟩
  intro n packet altered positive good damaged still
  obtain ⟨m, rfl⟩ : ∃ m, n = m + 1 := ⟨n - 1, by omega⟩
  have difference := register_inverted packet altered (m + 1)
  rw [(matches_iff packet m).mp good, (matches_iff altered m).mp still, BitVec.xor_self] at difference
  rcases damaged with burst | odd
  · obtain ⟨some_one, start, confined⟩ := burst
    exact Lfsr.register_ne_zero_of_burst (by decide) _ start confined some_one difference
  · exact parity.register_ne_zero _ odd difference

/-- Two words, the second of them the checksum of the first. -/
def pair : Slot := fun i => if i = 0 then 5#16 else crc [5#16]

def damagedPair : Slot := fun i => pair i ^^^ if i = 0 then 0x00ff#16 else 0xff00#16

theorem pair_rejected : ¬ Matches damagedPair 2 := by
  have confined : ∀ k < 32, (inverted pair damagedPair 2)[k]? = some true → 8 ≤ k ∧ k < 8 + 16 := by
    decide +kernel
  have burst : Burst pair damagedPair 2 := by
    refine ⟨by decide +kernel, 8, ?_⟩
    intro k set
    have bound := (List.getElem?_eq_some_iff.mp set).1
    rw [inverted, List.length_zipWith, bits_length, bits_length, words_length, words_length] at bound
    exact confined k (by omega) set
  have good : Matches pair 2 := by
    unfold Matches
    decide +kernel
  exact bursts_rejected.2.1 2 pair damagedPair (by decide) good (Or.inl burst)

end Ipimb.Bursts
