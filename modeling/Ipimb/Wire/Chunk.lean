import Mathlib.Data.BitVec
import Mathlib.Data.List.Basic
import Mathlib.Data.List.TakeDrop
import Mathlib.Tactic.IntervalCases

/-!
Bytes on the serial line. All data travels in three byte chunks which contain two bytes:
1 SOF EOF Command D[3:0], then 0 0 D[9:4], then 0 1 D[15:10]. A command or response packet
has four words, a data packet sixteen.
-/

namespace Ipimb.Chunk

abbrev Byte := BitVec 8
abbrev Word := BitVec 16

def first (b : Byte) : Bool := b &&& 0x80#8 == 0x80#8
def second (b : Byte) : Bool := b &&& 0xc0#8 == 0x00#8
def third (b : Byte) : Bool := b &&& 0xc0#8 == 0x40#8
def sofr (b : Byte) : Bool := b &&& 0xc0#8 == 0xc0#8
def eofr (b : Byte) : Bool := b &&& 0xa0#8 == 0xa0#8
def command (b : Byte) : Bool := b &&& 0x10#8 != 0x00#8

def crPackets : Nat := 4
def dataPackets : Nat := 16

/-- Words in a packet, given its command flag. -/
def len (cmd : Bool) : Nat := if cmd then crPackets else dataPackets

def blen (cmd : Bool) : Nat := 3 * len cmd

@[simp] theorem len_true : len true = 4 := rfl
@[simp] theorem len_false : len false = 16 := rfl
@[simp] theorem blen_true : blen true = 12 := rfl
@[simp] theorem blen_false : blen false = 48 := rfl

theorem blen_le (cmd : Bool) : blen cmd ≤ 48 := by cases cmd <;> decide

theorem le_blen (cmd : Bool) : 12 ≤ blen cmd := by cases cmd <;> decide

/-- The sixteen bits spread over the three bytes of a chunk. -/
def chunkWord (b0 b1 b2 : Byte) : Word :=
  (b0 &&& 0x0f#8).setWidth 16 ||| (b1 &&& 0x3f#8).setWidth 16 <<< 4 |||
    (b2 &&& 0x3f#8).setWidth 16 <<< 10

/-! The sending side. -/

def chunkFirst (sof eof cmd : Bool) (data : Word) : Byte :=
  0x80#8 ||| (if cmd then 0x10#8 else 0#8) ||| (data &&& 0xf#16).setWidth 8 |||
    (if sof then 0x40#8 else 0#8) ||| (if eof then 0x20#8 else 0#8)

def chunkSecond (data : Word) : Byte := ((data >>> 4) &&& 0x3f#16).setWidth 8

def chunkThird (data : Word) : Byte := 0x40#8 ||| ((data >>> 10) &&& 0x3f#16).setWidth 8

def chunk (sof eof cmd : Bool) (data : Word) : List Byte :=
  [chunkFirst sof eof cmd data, chunkSecond data, chunkThird data]

@[simp] theorem chunk_length (sof eof cmd : Bool) (data : Word) :
    (chunk sof eof cmd data).length = 3 := rfl

/-! Only the low nibble or the low six bits of a word reach a byte, so the flags of all
sent bytes can be read off finitely many cases. -/

theorem nibble (data : Word) : (data &&& 0xf#16).setWidth 8 = (data.setWidth 4).setWidth 8 := by
  apply BitVec.eq_of_getLsbD_eq
  intro i bound
  interval_cases i <;> simp

theorem six (data : Word) : (data &&& 0x3f#16).setWidth 8 = (data.setWidth 6).setWidth 8 := by
  apply BitVec.eq_of_getLsbD_eq
  intro i bound
  interval_cases i <;> simp

private theorem first_flags (sof eof cmd : Bool) : ∀ n : BitVec 4,
    let b := 0x80#8 ||| (if cmd then 0x10#8 else 0#8) ||| n.setWidth 8 |||
      (if sof then 0x40#8 else 0#8) ||| (if eof then 0x20#8 else 0#8)
    first b = true ∧ command b = cmd ∧ sofr b = sof ∧ eofr b = eof ∧ b &&& 0x0f#8 = n.setWidth 8 := by
  cases sof <;> cases eof <;> cases cmd <;> decide

private theorem second_flags : ∀ n : BitVec 6, let b := n.setWidth 8
    second b = true ∧ b &&& 0x3f#8 = n.setWidth 8 := by decide

private theorem third_flags : ∀ n : BitVec 6, let b := 0x40#8 ||| n.setWidth 8
    third b = true ∧ b &&& 0x3f#8 = n.setWidth 8 := by decide

section Flags
variable (sof eof cmd : Bool) (data : Word)

@[simp] theorem first_chunkFirst : first (chunkFirst sof eof cmd data) = true := by
  rw [chunkFirst, nibble]
  exact (first_flags sof eof cmd _).1

@[simp] theorem command_chunkFirst : command (chunkFirst sof eof cmd data) = cmd := by
  rw [chunkFirst, nibble]
  exact (first_flags sof eof cmd _).2.1

@[simp] theorem sofr_chunkFirst : sofr (chunkFirst sof eof cmd data) = sof := by
  rw [chunkFirst, nibble]
  exact (first_flags sof eof cmd _).2.2.1

@[simp] theorem eofr_chunkFirst : eofr (chunkFirst sof eof cmd data) = eof := by
  rw [chunkFirst, nibble]
  exact (first_flags sof eof cmd _).2.2.2.1

@[simp] theorem second_chunkSecond : second (chunkSecond data) = true := by
  rw [chunkSecond, six]
  exact (second_flags _).1

@[simp] theorem third_chunkThird : third (chunkThird data) = true := by
  rw [chunkThird, six]
  exact (third_flags _).1

/-- Unpacking a chunk gives back the word that was packed. -/
@[simp] theorem chunkWord_chunk :
    chunkWord (chunkFirst sof eof cmd data) (chunkSecond data) (chunkThird data) = data := by
  rw [chunkWord, chunkFirst, chunkSecond, chunkThird, nibble, six, six,
    (first_flags sof eof cmd _).2.2.2.2, (second_flags _).2, (third_flags _).2]
  apply BitVec.eq_of_getLsbD_eq
  intro i bound
  interval_cases i <;> simp

end Flags

theorem chunkWord_getLsbD (b0 b1 b2 : Byte) (i : Nat) (bound : i < 16) :
    (chunkWord b0 b1 b2).getLsbD i =
      if i < 4 then b0.getLsbD i else if i < 10 then b1.getLsbD (i - 4) else b2.getLsbD (i - 10) := by
  interval_cases i <;> simp [chunkWord]

/-- Unpacking is linear in exclusive or. -/
theorem chunkWord_xor (a0 a1 a2 b0 b1 b2 : Byte) :
    chunkWord (a0 ^^^ b0) (a1 ^^^ b1) (a2 ^^^ b2) = chunkWord a0 a1 a2 ^^^ chunkWord b0 b1 b2 := by
  apply BitVec.eq_of_getLsbD_eq
  intro i bound
  simp only [BitVec.getLsbD_xor, chunkWord_getLsbD _ _ _ i bound]
  split_ifs <;> rfl

theorem not_sofr_of_second (b : Byte) : second b = true → sofr b = false := by
  revert b; decide

theorem not_sofr_of_third (b : Byte) : third b = true → sofr b = false := by
  revert b; decide

theorem not_first_of_second (b : Byte) : second b = true → first b = false := by
  revert b; decide

theorem not_first_of_third (b : Byte) : third b = true → first b = false := by
  revert b; decide

end Ipimb.Chunk
