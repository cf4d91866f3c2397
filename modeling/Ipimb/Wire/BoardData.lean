import Ipimb.Wire.Chunk
import Mathlib.Logic.Function.Basic

/-!
The structure laid over the sixteen decoded words of a data packet: the trigger counter,
three configuration words, four channels, their four presamples and the checksum.
-/

namespace Ipimb.BoardData
open Ipimb.Chunk

/-- The memory behind an `unsigned short *`. -/
abbrev Slot := Nat → Word

def words (p : Slot) (n : Nat) : List Word := (List.range n).map p

@[simp] theorem words_length (p : Slot) (n : Nat) : (words p n).length = n := by simp [words]

theorem words_congr {p q : Slot} {n : Nat} (same : ∀ i < n, p i = q i) : words p n = words q n :=
  List.map_congr_left (fun i member => same i (List.mem_range.mp member))

/-- Where channel c lies: `ch0` to `ch3` after the counter and three configuration words. -/
def ch (c : Fin 4) : Nat := 7 + c.val

/-- Where the presample of channel c lies: `ch0_ps` to `ch3_ps`. -/
def chPs (c : Fin 4) : Nat := 11 + c.val

def triggerCounter (tc : Slot) : BitVec 64 :=
  (tc 0).setWidth 64 <<< 48 ||| (tc 1).setWidth 64 <<< 32 ||| (tc 2).setWidth 64 <<< 16 |||
    (tc 3).setWidth 64

/-- The baseline subtraction of one channel, in the sixteen bits of its field. -/
def adjusted (polarity : Int) (sample presample : Word) : Word :=
  if polarity = 0 then sample
  else if polarity = -1 then
    if presample > sample then 65535#16 + sample - presample else 65535#16
  else
    if presample < sample then sample - presample else 0#16

/-- One of the four blocks of `adjustdata`: channel c is replaced in place. -/
def adjustChannel (polarity : Int) (d : Slot) (c : Fin 4) : Slot :=
  Function.update d (ch c) (adjusted polarity (d (ch c)) (d (chPs c)))

def adjustdata (polarity : Int) (d : Slot) : Slot :=
  if polarity = 0 then d
  else [0, 1, 2, 3].foldl (adjustChannel polarity) d

theorem adjustChannel_ch (polarity : Int) (d : Slot) (c : Fin 4) :
    adjustChannel polarity d c (ch c) = adjusted polarity (d (ch c)) (d (chPs c)) := by
  simp [adjustChannel]

/-- The other words are left alone, the presamples among them. -/
theorem adjustChannel_of_ne (polarity : Int) (d : Slot) (c : Fin 4) (i : Nat) (other : i ≠ ch c) :
    adjustChannel polarity d c i = d i := by
  simp [adjustChannel, other]

def Same (p q : Slot) : Prop := ∀ i < 16, p i = q i

theorem Same.adjustChannel {p q : Slot} (same : Same p q) (polarity : Int) (c : Fin 4) :
    Same (adjustChannel polarity p c) (adjustChannel polarity q c) := by
  have ch_lt : ch c < 16 := by simp only [ch]; omega
  have chPs_lt : chPs c < 16 := by simp only [chPs]; omega
  intro i bound
  by_cases here : i = ch c
  · rw [here, adjustChannel_ch, adjustChannel_ch, same _ ch_lt, same _ chPs_lt]
  · rw [adjustChannel_of_ne _ _ _ _ here, adjustChannel_of_ne _ _ _ _ here, same i bound]

def adjustTo (polarity : Int) (d : Slot) (c : Nat) : Slot :=
  ((List.finRange 4).take c).foldl (adjustChannel polarity) d

theorem adjustTo_zero (polarity : Int) (d : Slot) : adjustTo polarity d 0 = d := rfl

theorem adjustTo_succ (polarity : Int) (d : Slot) (c : Nat) (more : c < 4) :
    adjustTo polarity d (c + 1) = adjustChannel polarity (adjustTo polarity d c) ⟨c, more⟩ := by
  rw [adjustTo, List.take_succ_eq_append_getElem (by simpa using more), List.foldl_append]
  simp [adjustTo]

theorem adjustdata_eq (polarity : Int) (d : Slot) (c : Nat) (bound : c ≤ 4)
    (none : polarity = 0 → c = 0) (stop : ¬(c < 4 ∧ polarity ≠ 0)) :
    adjustdata polarity d = adjustTo polarity d c := by
  by_cases off : polarity = 0
  · rw [adjustdata, if_pos off, none off, adjustTo_zero]
  · have last : c = 4 := by
      have ended : ¬c < 4 := fun more => stop ⟨more, off⟩
      omega
    rw [adjustdata, if_neg off, last]
    rfl

/-! What `adjustdata` leaves in the slot. -/

theorem ch_injective {c c' : Fin 4} (same : ch c = ch c') : c = c' := by
  simp only [ch] at same
  omega

theorem chPs_ne_ch (c c' : Fin 4) : chPs c ≠ ch c' := by
  simp only [ch, chPs]
  omega

theorem adjustTo_of_ne (polarity : Int) (d : Slot) (n : Nat) (bound : n ≤ 4) (i : Nat)
    (other : ∀ c : Fin 4, i ≠ ch c) : adjustTo polarity d n i = d i := by
  induction n with
  | zero => rfl
  | succ n ih => rw [adjustTo_succ _ _ _ bound, adjustChannel_of_ne _ _ _ _ (other _), ih (by omega)]

theorem adjustTo_ch (polarity : Int) (d : Slot) (n : Nat) (bound : n ≤ 4) (c : Fin 4) :
    adjustTo polarity d n (ch c) =
      if c.val < n then adjusted polarity (d (ch c)) (d (chPs c)) else d (ch c) := by
  induction n with
  | zero => rfl
  | succ n ih =>
    have presample : adjustTo polarity d n (chPs c) = d (chPs c) :=
      adjustTo_of_ne polarity d n (by omega) _ (chPs_ne_ch c)
    rw [adjustTo_succ _ _ _ bound]
    by_cases here : c = ⟨n, bound⟩
    · rw [← here, adjustChannel_ch, ih (by omega), presample, here]
      simp
    · have apart : c.val ≠ n := fun same => here (Fin.ext same)
      rw [adjustChannel_of_ne _ _ _ _ fun same => here (ch_injective same), ih (by omega)]
      simp only [show c.val < n + 1 ↔ c.val < n by omega]

theorem adjustdata_ch (polarity : Int) (d : Slot) (c : Fin 4) :
    adjustdata polarity d (ch c) = adjusted polarity (d (ch c)) (d (chPs c)) := by
  by_cases off : polarity = 0
  · rw [adjustdata, if_pos off, adjusted, if_pos off]
  · rw [adjustdata_eq polarity d 4 le_rfl (fun zero => absurd zero off) (by omega),
      adjustTo_ch _ _ _ le_rfl, if_pos c.isLt]

theorem adjustdata_of_ne (polarity : Int) (d : Slot) (i : Nat) (other : ∀ c : Fin 4, i ≠ ch c) :
    adjustdata polarity d i = d i := by
  by_cases off : polarity = 0
  · rw [adjustdata, if_pos off]
  · rw [adjustdata_eq polarity d 4 le_rfl (fun zero => absurd zero off) (by omega),
      adjustTo_of_ne _ _ _ le_rfl _ other]

end Ipimb.BoardData
