import Ipimb.Library.Lfsr
import Ipimb.Wire.Chunk

/-!
The checksum of a packet. The source expands one word of CRC 0x0421 (x16 + x12 + x5 + 1)
into sixteen exclusive-or equations; they are a register with that polynomial shifted
sixteen times, and the checksum of a packet is the register fed with its bits.
-/

namespace Ipimb.Crc
open Ipimb.Chunk

/-- The sixteen equations for the new remainder, from the old one and the message word. -/
def CI (C D : Nat → Bool) : Nat → Bool
  | 0 => D 12 ^^ D 11 ^^ D 8 ^^ D 4 ^^ D 0 ^^ C 0 ^^ C 4 ^^ C 8 ^^ C 11 ^^ C 12
  | 1 => D 13 ^^ D 12 ^^ D 9 ^^ D 5 ^^ D 1 ^^ C 1 ^^ C 5 ^^ C 9 ^^ C 12 ^^ C 13
  | 2 => D 14 ^^ D 13 ^^ D 10 ^^ D 6 ^^ D 2 ^^ C 2 ^^ C 6 ^^ C 10 ^^ C 13 ^^ C 14
  | 3 => D 15 ^^ D 14 ^^ D 11 ^^ D 7 ^^ D 3 ^^ C 3 ^^ C 7 ^^ C 11 ^^ C 14 ^^ C 15
  | 4 => D 15 ^^ D 12 ^^ D 8 ^^ D 4 ^^ C 4 ^^ C 8 ^^ C 12 ^^ C 15
  | 5 => D 13 ^^ D 12 ^^ D 11 ^^ D 9 ^^ D 8 ^^ D 5 ^^ D 4 ^^ D 0 ^^
      C 0 ^^ C 4 ^^ C 5 ^^ C 8 ^^ C 9 ^^ C 11 ^^ C 12 ^^ C 13
  | 6 => D 14 ^^ D 13 ^^ D 12 ^^ D 10 ^^ D 9 ^^ D 6 ^^ D 5 ^^ D 1 ^^
      C 1 ^^ C 5 ^^ C 6 ^^ C 9 ^^ C 10 ^^ C 12 ^^ C 13 ^^ C 14
  | 7 => D 15 ^^ D 14 ^^ D 13 ^^ D 11 ^^ D 10 ^^ D 7 ^^ D 6 ^^ D 2 ^^
      C 2 ^^ C 6 ^^ C 7 ^^ C 10 ^^ C 11 ^^ C 13 ^^ C 14 ^^ C 15
  | 8 => D 15 ^^ D 14 ^^ D 12 ^^ D 11 ^^ D 8 ^^ D 7 ^^ D 3 ^^
      C 3 ^^ C 7 ^^ C 8 ^^ C 11 ^^ C 12 ^^ C 14 ^^ C 15
  | 9 => D 15 ^^ D 13 ^^ D 12 ^^ D 9 ^^ D 8 ^^ D 4 ^^ C 4 ^^ C 8 ^^ C 9 ^^ C 12 ^^ C 13 ^^ C 15
  | 10 => D 14 ^^ D 13 ^^ D 10 ^^ D 9 ^^ D 5 ^^ C 5 ^^ C 9 ^^ C 10 ^^ C 13 ^^ C 14
  | 11 => D 15 ^^ D 14 ^^ D 11 ^^ D 10 ^^ D 6 ^^ C 6 ^^ C 10 ^^ C 11 ^^ C 14 ^^ C 15
  | 12 => D 15 ^^ D 8 ^^ D 7 ^^ D 4 ^^ D 0 ^^ C 0 ^^ C 4 ^^ C 7 ^^ C 8 ^^ C 15
  | 13 => D 9 ^^ D 8 ^^ D 5 ^^ D 1 ^^ C 1 ^^ C 5 ^^ C 8 ^^ C 9
  | 14 => D 10 ^^ D 9 ^^ D 6 ^^ D 2 ^^ C 2 ^^ C 6 ^^ C 9 ^^ C 10
  | 15 => D 11 ^^ D 10 ^^ D 7 ^^ D 3 ^^ C 3 ^^ C 7 ^^ C 10 ^^ C 11
  | _ => false

/-- Bits put back together: `crc = ((bit[i] << i) + crc) & 0xffff` for i below n. -/
def pack (bit : Nat → Bool) (n : Nat) : Word :=
  (List.range n).foldl (fun crc i => (BitVec.ofBool (bit i)).setWidth 16 <<< i + crc) 0#16

/-- One round of the loop in `CRC`. -/
def crcWord (crc word : Word) : Word := pack (CI crc.getLsbD word.getLsbD) 16

/-- `CRC(lst, length)` of all the words of a list. -/
def crc (lst : List Word) : Word := lst.foldl crcWord 0xffff#16

theorem pack_succ (bit : Nat → Bool) (n : Nat) :
    pack bit (n + 1) = (BitVec.ofBool (bit n)).setWidth 16 <<< n + pack bit n := by
  simp only [pack, List.range_succ, List.foldl_append, List.foldl_cons, List.foldl_nil]

theorem pack_getLsbD (bit : Nat → Bool) (n : Nat) (bound : n ≤ 16) (i : Nat) :
    (pack bit n).getLsbD i = (decide (i < n) && bit i) := by
  induction n generalizing i with
  | zero => simp [pack]
  | succ n ih =>
    have single : ∀ k, ((BitVec.ofBool (bit n)).setWidth 16 <<< n).getLsbD k =
        (decide (k = n) && bit n) := by
      intro k
      rw [BitVec.getLsbD_shiftLeft, BitVec.getLsbD_setWidth, BitVec.getLsbD_ofBool]
      by_cases here : k = n
      · subst here
        simp [show k < 16 by omega]
      · by_cases below : k < n
        · simp [below, here]
        · simp [below, here, show k - n ≠ 0 by omega]
    have disjoint : (BitVec.ofBool (bit n)).setWidth 16 <<< n &&& pack bit n = 0#16 := by
      apply BitVec.eq_of_getLsbD_eq
      intro k _
      rw [BitVec.getLsbD_and, single, ih (by omega)]
      by_cases here : k = n
      · simp [here]
      · simp [here]
    rw [pack_succ, BitVec.add_eq_or_of_and_eq_zero _ _ disjoint, BitVec.getLsbD_or, single,
      ih (by omega)]
    by_cases here : i = n
    · simp [here]
    · simp [here, show i < n + 1 ↔ i < n by omega]

theorem crcWord_getLsbD (crc word : Word) (i : Nat) (bound : i < 16) :
    (crcWord crc word).getLsbD i = CI crc.getLsbD word.getLsbD i := by
  rw [crcWord, pack_getLsbD _ 16 le_rfl]
  simp [bound]

theorem crcWord_xor (a b x y : Word) :
    crcWord (a ^^^ b) (x ^^^ y) = crcWord a x ^^^ crcWord b y := by
  have commutes : Std.Commutative Bool.xor := ⟨Bool.xor_comm⟩
  apply BitVec.eq_of_getLsbD_eq
  intro i bound
  rw [BitVec.getLsbD_xor]
  simp only [crcWord_getLsbD _ _ _ bound]
  interval_cases i <;> simp only [CI, BitVec.getLsbD_xor] <;> ac_rfl

/-- The polynomial's coefficients below x16. -/
def poly : Word := 0x1021#16

/-- A word of the message is exclusive-ored into the remainder, which is then shifted sixteen
times: what the equations have been expanded from. -/
theorem crcWord_eq_shift (crc word : Word) :
    crcWord crc word = (Lfsr.shift poly)^[16] (crc ^^^ word) := by
  have through : ∀ x, crcWord x 0#16 = (Lfsr.shift poly)^[16] x := by
    apply Lfsr.additive_ext _ _ _ (Lfsr.iterate_xor poly 16) (by decide +kernel)
    intro a b
    simpa using crcWord_xor a b 0#16 0#16
  have word_as_crc : ∀ x, crcWord 0#16 x = crcWord x 0#16 := by
    apply Lfsr.additive_ext _ _ _ _ (by decide +kernel)
    · intro a b
      simpa using crcWord_xor 0#16 0#16 a b
    · intro a b
      simpa using crcWord_xor a b 0#16 0#16
  calc crcWord crc word = crcWord (crc ^^^ 0#16) (0#16 ^^^ word) := by
        rw [BitVec.xor_zero, BitVec.zero_xor]
    _ = crcWord crc 0#16 ^^^ crcWord 0#16 word := crcWord_xor crc 0#16 0#16 word
    _ = (Lfsr.shift poly)^[16] crc ^^^ (Lfsr.shift poly)^[16] word := by
        rw [word_as_crc, through, through]
    _ = (Lfsr.shift poly)^[16] (crc ^^^ word) := (Lfsr.iterate_xor poly 16 crc word).symm

theorem crcWord_eq_register (crc word : Word) :
    crcWord crc word = Lfsr.register poly crc (Lfsr.wordBits word) := by
  have lengths : (Lfsr.wordBits word).length = (Lfsr.wordBits (0#16 : Word)).length := by simp
  have bits : ∀ x : Word, Lfsr.register poly 0#16 (Lfsr.wordBits x) = (Lfsr.shift poly)^[16] x := by
    apply Lfsr.additive_ext _ _ _ (Lfsr.iterate_xor poly 16) (by decide +kernel)
    intro a b
    rw [Lfsr.wordBits_xor, ← Lfsr.register_xor _ _ _ _ _ (by simp), BitVec.xor_zero]
  have zeros : Lfsr.wordBits (0#16 : Word) = List.replicate 16 false := by decide
  calc crcWord crc word = (Lfsr.shift poly)^[16] (word ^^^ crc) := by
        rw [crcWord_eq_shift, BitVec.xor_comm]
    _ = (Lfsr.shift poly)^[16] word ^^^ (Lfsr.shift poly)^[16] crc := Lfsr.iterate_xor poly 16 word crc
    _ = Lfsr.register poly 0#16 (Lfsr.wordBits word) ^^^ Lfsr.register poly crc (Lfsr.wordBits 0#16) := by
        rw [bits, zeros, Lfsr.register_replicate_false]
    _ = Lfsr.register poly (0#16 ^^^ crc) (List.zipWith xor (Lfsr.wordBits word) (Lfsr.wordBits 0#16)) :=
        (Lfsr.register_xor poly 0#16 crc _ _ lengths).symm
    _ = Lfsr.register poly crc (Lfsr.wordBits word) := by
        rw [← Lfsr.wordBits_xor, BitVec.xor_zero, BitVec.zero_xor]

/-- The message bits of a packet in the order the register takes them. -/
def bits (lst : List Word) : List Bool := lst.flatMap Lfsr.wordBits

theorem foldl_crcWord (start : Word) (lst : List Word) :
    lst.foldl crcWord start = Lfsr.register poly start (bits lst) := by
  induction lst generalizing start with
  | nil => rfl
  | cons word lst ih =>
    rw [List.foldl_cons, ih, crcWord_eq_register, bits, bits, List.flatMap_cons,
      Lfsr.register_append]

theorem crc_eq_register (lst : List Word) : crc lst = Lfsr.register poly 0xffff#16 (bits lst) :=
  foldl_crcWord 0xffff#16 lst

@[simp] theorem bits_nil : bits [] = [] := rfl

theorem bits_cons (word : Word) (lst : List Word) :
    bits (word :: lst) = Lfsr.wordBits word ++ bits lst := List.flatMap_cons

theorem bits_length (lst : List Word) : (bits lst).length = 16 * lst.length := by
  induction lst with
  | nil => rfl
  | cons word lst ih =>
    rw [bits_cons, List.length_append, Lfsr.wordBits_length, ih, List.length_cons]
    omega

theorem bits_injective (xs ys : List Word) (lengths : xs.length = ys.length)
    (same : bits xs = bits ys) : xs = ys := by
  induction xs generalizing ys with
  | nil => simpa using lengths.symm
  | cons x xs ih =>
    cases ys with
    | nil => simp at lengths
    | cons y ys =>
      rw [bits_cons, bits_cons] at same
      have heads := List.append_inj_left same (by simp)
      have tails := List.append_inj_right same (by simp)
      rw [Lfsr.wordBits_injective heads, ih ys (by simpa using lengths) tails]

/-- A packet whose last word is the checksum of the others. -/
def Checked (lst : List Word) : Prop := ∃ body, lst = body ++ [crc body]

theorem register_checked (lst : List Word) (checked : Checked lst) :
    Lfsr.register poly 0xffff#16 (bits lst) = 0#16 := by
  obtain ⟨body, rfl⟩ := checked
  calc Lfsr.register poly 0xffff#16 (bits (body ++ [crc body])) = crcWord (crc body) (crc body) := by
        rw [← foldl_crcWord, List.foldl_append, ← crc, List.foldl_cons, List.foldl_nil]
    _ = (Lfsr.shift poly)^[16] 0#16 := by rw [crcWord_eq_shift, BitVec.xor_self]
    _ = 0#16 := Lfsr.iterate_zero poly 16

/-- The shift has no period of 255 or less: the bits of a data packet all have different effects. -/
theorem aperiodic : ∀ d, 0 < d → d < 256 →
    (Lfsr.shift poly)^[d] (Lfsr.shift poly (Lfsr.top 16)) ≠ Lfsr.shift poly (Lfsr.top 16) := by
  have checked : ∀ d < 256, 0 < d →
      (Lfsr.shift poly)^[d] (Lfsr.shift poly (Lfsr.top 16)) ≠ Lfsr.shift poly (Lfsr.top 16) := by
    decide +kernel
  exact fun d positive bound => checked d bound positive

/-- x16 + x12 + x5 + 1 has an even number of terms. -/
def parity : Lfsr.Parity poly := Lfsr.Parity.ofOdd (n := 15) poly (by decide)

def differing (xs ys : List Word) : Nat := (List.zipWith xor (bits xs) (bits ys)).count true

theorem zipWith_bits (xs ys : List Word) (lengths : xs.length = ys.length) :
    List.zipWith xor (bits xs) (bits ys) = bits (List.zipWith (· ^^^ ·) xs ys) := by
  induction xs generalizing ys with
  | nil => rfl
  | cons x xs ih =>
    cases ys with
    | nil => simp at lengths
    | cons y ys =>
      rw [bits_cons, bits_cons, List.zipWith_append (by simp), ih ys (by simpa using lengths),
        List.zipWith_cons_cons, bits_cons, Lfsr.wordBits_xor]

theorem eq_of_no_difference (xs ys : List Bool) (lengths : xs.length = ys.length)
    (none : (List.zipWith xor xs ys).count true = 0) : xs = ys := by
  induction xs generalizing ys with
  | nil => simpa using lengths.symm
  | cons x xs ih =>
    cases ys with
    | nil => simp at lengths
    | cons y ys =>
      simp only [List.zipWith_cons_cons, List.count_cons] at none
      have tails := ih ys (by simpa using lengths) (by omega)
      cases x <;> cases y <;> simp_all

/-- Minimum distance four: two packets of one length with good checksums, sixteen words at
most, are equal or differ in four bits at least. -/
theorem checked_distance (xs ys : List Word) (lengths : xs.length = ys.length)
    (short : xs.length ≤ 16) (first : Checked xs) (second : Checked ys)
    (close : differing xs ys ≤ 3) : xs = ys := by
  have bitLengths : (bits xs).length = (bits ys).length := by simp only [bits_length, lengths]
  have linear := Lfsr.register_xor poly 0xffff#16 0xffff#16 (bits xs) (bits ys) bitLengths
  rw [register_checked xs first, register_checked ys second, BitVec.xor_self] at linear
  have bound : (List.zipWith xor (bits xs) (bits ys)).length ≤ 256 := by
    simp only [List.length_zipWith, bits_length]
    omega
  have none := Lfsr.register_distance parity (by decide) 256 aperiodic _ bound close
    (by simpa using linear)
  exact bits_injective xs ys lengths (eq_of_no_difference _ _ bitLengths none)

end Ipimb.Crc
