import Mathlib.Data.BitVec
import Mathlib.Logic.Function.Iterate
import Mathlib.Data.List.Basic
import Mathlib.Data.List.Count

/-! Linear feedback shift registers over bit vectors, as cyclic redundancy checks use them.
A register is shifted towards its most significant bit; the polynomial's low coefficients
are exclusive-ored in when a one falls out. Everything is linear in exclusive or. -/

namespace Lfsr

variable {w : Nat}

/-- One shift of the register. -/
def shift (poly c : BitVec w) : BitVec w :=
  if c.msb then (c <<< 1) ^^^ poly else c <<< 1

def top (w : Nat) : BitVec w := BitVec.twoPow w (w - 1)

/-- One message bit, exclusive-ored into the top of the register before the shift. -/
def feedBit (poly c : BitVec w) (b : Bool) : BitVec w :=
  shift poly (if b then c ^^^ top w else c)

def register (poly : BitVec w) : BitVec w → List Bool → BitVec w := List.foldl (feedBit poly)

variable (poly : BitVec w)

theorem xor_swap (a b c d : BitVec w) : (a ^^^ b) ^^^ (c ^^^ d) = (a ^^^ c) ^^^ (b ^^^ d) := by
  ac_rfl

theorem shift_zero : shift poly 0#w = 0#w := by
  simp [shift]

theorem shift_xor (a b : BitVec w) : shift poly (a ^^^ b) = shift poly a ^^^ shift poly b := by
  have cancel : ∀ x y : BitVec w, x ^^^ y = (x ^^^ poly) ^^^ (y ^^^ poly) := by
    intro x y
    rw [xor_swap, BitVec.xor_self, BitVec.xor_zero]
  unfold shift
  rw [BitVec.msb_xor, BitVec.shiftLeft_xor_distrib]
  cases a.msb <;> cases b.msb
  · simp
  · simp only [Bool.false_bne, ↓reduceIte, Bool.false_eq_true, BitVec.xor_assoc]
  · simp only [Bool.bne_false, ↓reduceIte, Bool.false_eq_true]
    ac_rfl
  · simpa using cancel (a <<< 1) (b <<< 1)

/-- With a constant coefficient in the polynomial, no shift loses information. -/
theorem shift_eq_zero (odd : poly.getLsbD 0 = true) (c : BitVec w) (zero : shift poly c = 0#w) :
    c = 0#w := by
  have positive : 0 < w := by
    rcases Nat.eq_zero_or_pos w with rfl | positive
    · simp at odd
    · exact positive
  have clear : c.msb = false := by
    cases msb : c.msb with
    | false => rfl
    | true =>
      have low := congrArg (fun x => x.getLsbD 0) zero
      simp [shift, msb, odd] at low
  simp only [shift, clear, Bool.false_eq_true, ↓reduceIte] at zero
  apply BitVec.eq_of_getLsbD_eq
  intro i bound
  by_cases last : i = w - 1
  · subst last
    rw [BitVec.msb_eq_getLsbD_last] at clear
    simp [clear]
  · have next := congrArg (fun x => x.getLsbD (i + 1)) zero
    have inside : i + 1 < w := by omega
    rw [BitVec.getLsbD_eq_getElem bound]
    simpa [inside] using next

theorem shift_injective (odd : poly.getLsbD 0 = true) : Function.Injective (shift poly) := by
  intro a b same
  have zero : shift poly (a ^^^ b) = 0#w := by rw [shift_xor, same, BitVec.xor_self]
  have equal := shift_eq_zero poly odd _ zero
  exact BitVec.xor_eq_zero_iff.mp equal

theorem iterate_zero (n : Nat) : (shift poly)^[n] 0#w = 0#w := by
  induction n with
  | zero => rfl
  | succ n ih => rw [Function.iterate_succ_apply, shift_zero, ih]

theorem iterate_xor (n : Nat) (a b : BitVec w) :
    (shift poly)^[n] (a ^^^ b) = (shift poly)^[n] a ^^^ (shift poly)^[n] b := by
  induction n generalizing a b with
  | zero => rfl
  | succ n ih => simp only [Function.iterate_succ_apply, shift_xor, ih]

theorem iterate_eq_zero (odd : poly.getLsbD 0 = true) (n : Nat) (c : BitVec w)
    (zero : (shift poly)^[n] c = 0#w) : c = 0#w := by
  rw [← iterate_zero poly n] at zero
  exact (shift_injective poly odd).iterate n zero

theorem feedBit_xor (a b : BitVec w) (x y : Bool) :
    feedBit poly (a ^^^ b) (x ^^ y) = feedBit poly a x ^^^ feedBit poly b y := by
  simp only [feedBit]
  rw [← shift_xor]
  congr 1
  cases x <;> cases y
  · rfl
  · simp only [Bool.false_bne, ↓reduceIte, Bool.false_eq_true, BitVec.xor_assoc]
  · simp only [Bool.bne_false, ↓reduceIte, Bool.false_eq_true]
    ac_rfl
  · simp [xor_swap]

@[simp] theorem register_nil (c : BitVec w) : register poly c [] = c := rfl

@[simp] theorem register_cons (c : BitVec w) (b : Bool) (bits : List Bool) :
    register poly c (b :: bits) = register poly (feedBit poly c b) bits := rfl

theorem register_append (c : BitVec w) (xs ys : List Bool) :
    register poly c (xs ++ ys) = register poly (register poly c xs) ys :=
  List.foldl_append

/-- The register is linear in its start value and the message together. -/
theorem register_xor (a b : BitVec w) (xs ys : List Bool) (lengths : xs.length = ys.length) :
    register poly (a ^^^ b) (List.zipWith xor xs ys) =
      register poly a xs ^^^ register poly b ys := by
  induction xs generalizing a b ys with
  | nil =>
    cases ys with
    | nil => rfl
    | cons y ys => simp at lengths
  | cons x xs ih =>
    cases ys with
    | nil => simp at lengths
    | cons y ys =>
      simp only [List.zipWith_cons_cons, register_cons]
      rw [← ih _ _ ys (by simpa using lengths), ← feedBit_xor]

theorem register_replicate_false (c : BitVec w) (n : Nat) :
    register poly c (List.replicate n false) = (shift poly)^[n] c := by
  induction n generalizing c with
  | zero => rfl
  | succ n ih =>
    rw [List.replicate_succ, register_cons, ih, Function.iterate_succ_apply]
    rfl

/-! Words of the register's own width, sent most significant bit first. -/

/-- The bits of a word, most significant first. -/
def wordBits (x : BitVec w) : List Bool := (List.range w).map fun i => x.getMsbD i

@[simp] theorem wordBits_length (x : BitVec w) : (wordBits x).length = w := by
  simp [wordBits]

theorem wordBits_xor (x y : BitVec w) :
    wordBits (x ^^^ y) = List.zipWith xor (wordBits x) (wordBits y) := by
  simp only [wordBits, List.zipWith_map, List.zipWith_self, BitVec.getMsbD_xor]

theorem wordBits_injective : Function.Injective (wordBits : BitVec w → List Bool) := by
  intro x y same
  apply BitVec.eq_of_getMsbD_eq
  intro i bound
  exact List.map_inj_left.mp same i (List.mem_range.mpr bound)

theorem additive_ext {v : Nat} (f g : BitVec w → BitVec v)
    (fAdds : ∀ a b, f (a ^^^ b) = f a ^^^ f b) (gAdds : ∀ a b, g (a ^^^ b) = g a ^^^ g b)
    (agree : ∀ i < w, f (BitVec.twoPow w i) = g (BitVec.twoPow w i)) (x : BitVec w) :
    f x = g x := by
  -- Induction on a bound above every one in the vector: clearing the highest bit lowers it.
  have below : ∀ k ≤ w, ∀ y : BitVec w, (∀ i, k ≤ i → y.getLsbD i = false) → f y = g y := by
    intro k
    induction k with
    | zero =>
      intro _ y empty
      have zero : y = 0#w := BitVec.eq_of_getLsbD_eq (fun i _ => by simpa using empty i (Nat.zero_le i))
      have fz := fAdds 0#w 0#w
      have gz := gAdds 0#w 0#w
      simp only [BitVec.xor_self] at fz gz
      rw [zero, fz, gz]
    | succ k ih =>
      intro bound y high
      cases bit : y.getLsbD k with
      | false =>
        apply ih (by omega)
        intro i above
        by_cases here : i = k
        · rw [here, bit]
        · exact high i (by omega)
      | true =>
        have split : y = (y ^^^ BitVec.twoPow w k) ^^^ BitVec.twoPow w k := by
          rw [BitVec.xor_assoc, BitVec.xor_self, BitVec.xor_zero]
        rw [split, fAdds, gAdds, agree k (by omega)]
        congr 1
        apply ih (by omega)
        intro i above
        rw [BitVec.getLsbD_xor, BitVec.getLsbD_twoPow]
        by_cases here : i = k
        · subst here
          simp [bit, show i < w by omega]
        · simp [high i (by omega), show k ≠ i by omega]
  exact below w le_rfl x (fun i above => BitVec.getLsbD_of_ge x i above)

/-! Parity. A functional that no shift changes and that counts every message bit once tells
whether the message had an odd number of ones. -/

/-- An additive functional of the register that shifts keep and single message bits flip. -/
structure Parity (poly : BitVec w) where
  odd : BitVec w → Bool
  odd_xor : ∀ a b, odd (a ^^^ b) = (odd a ^^ odd b)
  odd_shift : ∀ c, odd (shift poly c) = odd c
  odd_top : odd (top w) = true

def oddBelow (c : BitVec w) : Nat → Bool
  | 0 => false
  | k + 1 => oddBelow c k ^^ c.getLsbD k

theorem oddBelow_xor (a b : BitVec w) (k : Nat) :
    oddBelow (a ^^^ b) k = (oddBelow a k ^^ oddBelow b k) := by
  induction k with
  | zero => rfl
  | succ k ih =>
    simp only [oddBelow, ih, BitVec.getLsbD_xor]
    cases oddBelow a k <;> cases oddBelow b k <;> simp

theorem oddBelow_shiftLeft (c : BitVec w) (k : Nat) (bound : k < w) :
    oddBelow (c <<< 1) (k + 1) = oddBelow c k := by
  induction k with
  | zero => simp [oddBelow]
  | succ k ih =>
    rw [oddBelow, ih (by omega), oddBelow, BitVec.getLsbD_eq_getElem (show k < w by omega)]
    simp [bound]

/-- A polynomial with an odd number of low coefficients (so divisible by x + 1 with the leading
term counted in) keeps the parity of the register. -/
def Parity.ofOdd {n : Nat} (poly : BitVec (n + 1)) (odd : oddBelow poly (n + 1) = true) :
    Parity poly where
  odd c := oddBelow c (n + 1)
  odd_xor a b := oddBelow_xor a b (n + 1)
  odd_shift c := by
    have moved := oddBelow_shiftLeft c n (by omega)
    have parted : oddBelow c (n + 1) = (oddBelow c n ^^ c.msb) := by
      rw [oddBelow, BitVec.msb_eq_getLsbD_last, Nat.add_sub_cancel]
    unfold shift
    cases msb : c.msb with
    | false => simp only [Bool.false_eq_true, ↓reduceIte, moved, parted, msb, Bool.bne_false]
    | true => simp only [↓reduceIte, oddBelow_xor, moved, parted, msb, odd]
  odd_top := by
    have low : ∀ k ≤ n, oddBelow (top (n + 1)) k = false := by
      intro k
      induction k with
      | zero => intro _; rfl
      | succ k ih =>
        intro bound
        rw [oddBelow, ih (by omega), top, BitVec.getLsbD_twoPow]
        simp [show n ≠ k by omega]
    rw [oddBelow, low n le_rfl, top, BitVec.getLsbD_twoPow]
    simp

variable {poly}

theorem Parity.odd_zero (parity : Parity poly) : parity.odd 0#w = false := by
  have same := parity.odd_xor 0#w 0#w
  rw [BitVec.xor_self] at same
  cases value : parity.odd 0#w <;> simp_all

theorem Parity.odd_register (parity : Parity poly) (c : BitVec w) (bits : List Bool) :
    parity.odd (register poly c bits) = (parity.odd c ^^ decide (bits.count true % 2 = 1)) := by
  induction bits generalizing c with
  | nil => simp
  | cons b bits ih =>
    rw [register_cons, ih, feedBit, parity.odd_shift]
    cases b with
    | false => simp
    | true =>
      simp only [↓reduceIte, parity.odd_xor, parity.odd_top, List.count_cons_self]
      rcases Nat.mod_two_eq_zero_or_one (bits.count true) with even | odd
      · simp [even, show (bits.count true + 1) % 2 = 1 by omega]
      · simp [odd, show ¬(bits.count true + 1) % 2 = 1 by omega]

theorem Parity.register_ne_zero (parity : Parity poly) (bits : List Bool)
    (odd : bits.count true % 2 = 1) : register poly 0#w bits ≠ 0#w := by
  intro zero
  have value := parity.odd_register 0#w bits
  rw [zero, parity.odd_zero] at value
  simp [odd] at value

/-! Double errors. Two ones `d` bits apart cancel only when `d` shifts bring the register back. -/

theorem first_one (bits : List Bool) (some_one : 0 < bits.count true) :
    ∃ i rest, bits = List.replicate i false ++ true :: rest ∧
      bits.count true = rest.count true + 1 := by
  induction bits with
  | nil => simp at some_one
  | cons b bits ih =>
    cases b with
    | true => exact ⟨0, bits, rfl, List.count_cons_self⟩
    | false =>
      obtain ⟨i, rest, split, count⟩ := ih (by simpa using some_one)
      refine ⟨i + 1, rest, ?_, ?_⟩
      · rw [List.replicate_succ, List.cons_append, split]
      · simpa using count

theorem no_ones (bits : List Bool) (none : true ∉ bits) : bits = List.replicate bits.length false := by
  apply List.eq_replicate_of_mem
  intro b member
  cases b with
  | false => rfl
  | true => exact absurd member none

theorem register_leading (i : Nat) (rest : List Bool) :
    register poly 0#w (List.replicate i false ++ true :: rest) =
      register poly (shift poly (top w)) rest := by
  rw [register_append, register_replicate_false, iterate_zero, register_cons, feedBit]
  simp

/-- No period below `limit`: messages up to `limit` bits with exactly two ones are caught. -/
theorem register_ne_zero_of_two (odd : poly.getLsbD 0 = true) (limit : Nat)
    (aperiodic : ∀ d, 0 < d → d < limit →
      (shift poly)^[d] (shift poly (top w)) ≠ shift poly (top w))
    (bits : List Bool) (short : bits.length ≤ limit) (two : bits.count true = 2) :
    register poly 0#w bits ≠ 0#w := by
  obtain ⟨i, middle, split, count⟩ := first_one bits (by omega)
  obtain ⟨j, rest, split', count'⟩ := first_one middle (by omega)
  have trailing := no_ones rest (List.count_eq_zero.mp (by omega))
  subst split
  subst split'
  rw [register_leading, register_append, register_replicate_false, register_cons, feedBit, trailing,
    register_replicate_false]
  intro zero
  have back := iterate_eq_zero poly odd _ _ zero
  simp only [↓reduceIte] at back
  rw [shift_xor, ← Function.iterate_succ_apply' (shift poly), BitVec.xor_eq_zero_iff] at back
  simp only [List.length_append, List.length_replicate, List.length_cons] at short
  exact aperiodic (j + 1) (by omega) (by omega) back

/-- Minimum distance four: up to `limit` bits, one, two or three ones are always caught. -/
theorem register_distance (parity : Parity poly) (odd : poly.getLsbD 0 = true) (limit : Nat)
    (aperiodic : ∀ d, 0 < d → d < limit →
      (shift poly)^[d] (shift poly (top w)) ≠ shift poly (top w))
    (bits : List Bool) (short : bits.length ≤ limit) (few : bits.count true ≤ 3)
    (zero : register poly 0#w bits = 0#w) : bits.count true = 0 := by
  by_contra some_one
  have cases : bits.count true % 2 = 1 ∨ bits.count true = 2 := by omega
  rcases cases with odd_count | two
  · exact parity.register_ne_zero bits odd_count zero
  · exact register_ne_zero_of_two odd limit aperiodic bits short two zero

/-! Bursts. As many message bits as the register has places come down to one word shifted, so they cannot
cancel each other. -/

/-- Message bits in the places they enter the register at, the first one at the top. -/
def aligned : List Bool → BitVec w
  | [] => 0#w
  | b :: rest => (if b then top w else 0#w) ^^^ aligned rest >>> 1

theorem top_getMsbD (b : Bool) (k : Nat) (inside : k < w) :
    (if b then top w else 0#w).getMsbD k = (decide (k = 0) && b) := by
  have place : w - (w - 1) - 1 = 0 := by omega
  have room : w - 1 < w := by omega
  cases b with
  | false => simp
  | true => rw [if_pos rfl, top, BitVec.getMsbD_twoPow, place, decide_eq_true room, Bool.true_and, Bool.and_true]

theorem aligned_getMsbD (bits : List Bool) (k : Nat) (inside : k < w) :
    (aligned bits : BitVec w).getMsbD k = bits[k]?.getD false := by
  induction bits generalizing k with
  | nil => simp [aligned]
  | cons b rest ih =>
    rw [aligned, BitVec.getMsbD_xor, top_getMsbD b k inside, BitVec.getMsbD_ushiftRight,
      decide_eq_true inside, Bool.true_and]
    cases k with
    | zero => simp
    | succ k => simpa using ih k (by omega)

theorem shift_ushiftRight (c : BitVec w) (clear : c.getLsbD 0 = false) : shift poly (c >>> 1) = c := by
  have msb : (c >>> 1).msb = false := by
    rw [BitVec.msb_ushiftRight]
    simp
  rw [shift, msb, if_neg Bool.false_ne_true]
  apply BitVec.eq_of_getLsbD_eq
  intro k inside
  rw [BitVec.getLsbD_shiftLeft, BitVec.getLsbD_ushiftRight, decide_eq_true inside, Bool.true_and]
  cases k with
  | zero => simp [clear]
  | succ k => simp [Nat.add_comm 1 k]

variable (poly) in
theorem register_eq_iterate (c : BitVec w) (bits : List Bool) (fits : bits.length ≤ w) :
    register poly c bits = (shift poly)^[bits.length] (c ^^^ aligned bits) := by
  induction bits generalizing c with
  | nil => simp [aligned]
  | cons b rest ih =>
    have room : rest.length < w := fits
    have clear : (aligned rest : BitVec w).getLsbD 0 = false := by
      have last := aligned_getMsbD rest (w - 1) (by omega : w - 1 < w)
      rw [BitVec.getMsbD_eq_getLsbD, decide_eq_true (by omega), Bool.true_and] at last
      have beyond : rest[w - 1]? = none := List.getElem?_eq_none (by omega)
      rw [beyond] at last
      simpa using last
    have fed : feedBit poly c b = shift poly (c ^^^ if b then top w else 0#w) := by
      cases b <;> simp [feedBit]
    rw [register_cons, ih _ (by omega), List.length_cons, Function.iterate_succ_apply, aligned,
      ← BitVec.xor_assoc, shift_xor, shift_ushiftRight _ clear, fed]

theorem register_ne_zero_of_window (odd : poly.getLsbD 0 = true) (window : List Bool)
    (fits : window.length ≤ w) (some_one : true ∈ window) : register poly 0#w window ≠ 0#w := by
  intro zero
  rw [register_eq_iterate poly _ _ fits, BitVec.zero_xor] at zero
  have none := iterate_eq_zero poly odd _ _ zero
  obtain ⟨k, set⟩ := List.mem_iff_getElem?.mp some_one
  have bound := (List.getElem?_eq_some_iff.mp set).1
  have bit := aligned_getMsbD window k (by omega : k < w)
  rw [none, set] at bit
  simp at bit

/-- A burst: all ones of the message lie within as many places as the register has. -/
theorem register_ne_zero_of_burst (odd : poly.getLsbD 0 = true) (bits : List Bool) (start : Nat)
    (confined : ∀ k : Nat, bits[k]? = some true → start ≤ k ∧ k < start + w) (some_one : true ∈ bits) :
    register poly 0#w bits ≠ 0#w := by
  have split : bits = bits.take start ++ ((bits.drop start).take w ++ bits.drop (start + w)) := by
    rw [← List.drop_drop, List.take_append_drop, List.take_append_drop]
  have before : true ∉ bits.take start := by
    intro member
    obtain ⟨k, set⟩ := List.mem_iff_getElem?.mp member
    rw [List.getElem?_take] at set
    split at set
    next early =>
      have late := (confined k set).1
      omega
    next => cases set
  have after : true ∉ bits.drop (start + w) := by
    intro member
    obtain ⟨k, set⟩ := List.mem_iff_getElem?.mp member
    rw [List.getElem?_drop] at set
    have early := (confined _ set).2
    omega
  have window : true ∈ (bits.drop start).take w := by
    rw [split] at some_one
    simpa only [List.mem_append, before, after, false_or, or_false] using some_one
  have short : ((bits.drop start).take w).length ≤ w := List.length_take_le _ _
  intro zero
  rw [split, register_append, register_append, no_ones _ before, no_ones _ after, register_replicate_false,
    register_replicate_false, iterate_zero] at zero
  exact register_ne_zero_of_window odd _ short window (iterate_eq_zero poly odd _ _ zero)

end Lfsr
