import Mathlib.Algebra.Group.Nat.Defs
import Mathlib.Data.Fin.Basic
import Mathlib.Data.List.FinRange

/-! Words cut into fields of equal width. Masks and disjunctions work on each field by itself, and a value
that fits its field is found there and nowhere else. -/

namespace Fields

variable {N : Nat}

def field (w i : Nat) (word : BitVec N) : BitVec w := word.extractLsb' (w * i) w

theorem getLsbD_field (w i k : Nat) (word : BitVec N) (inside : k < w) :
    (field w i word).getLsbD k = word.getLsbD (w * i + k) := by
  rw [field, BitVec.getLsbD_extractLsb', decide_eq_true inside, Bool.true_and]

theorem field_and (w i : Nat) (a b : BitVec N) : field w i (a &&& b) = field w i a &&& field w i b :=
  BitVec.extractLsb'_and

theorem field_or (w i : Nat) (a b : BitVec N) : field w i (a ||| b) = field w i a ||| field w i b :=
  BitVec.extractLsb'_or

theorem field_shiftLeft_self (w i : Nat) (value : BitVec N) (room : w * (i + 1) ≤ N) :
    field w i (value <<< (w * i)) = value.setWidth w := by
  apply BitVec.eq_of_getLsbD_eq
  intro k inside
  have within : w * i + k < N := by
    rw [Nat.mul_succ] at room
    omega
  rw [getLsbD_field w i k _ inside, BitVec.getLsbD_shiftLeft, BitVec.getLsbD_setWidth,
    decide_eq_true within, decide_eq_true inside, decide_eq_false (by omega), Nat.add_sub_cancel_left]
  rfl

theorem field_shiftLeft_ne (w i j : Nat) (value : BitVec N) (fits : value.toNat < 2 ^ w) (apart : i ≠ j) :
    field w i (value <<< (w * j)) = 0#w := by
  apply BitVec.eq_of_getLsbD_eq
  intro k inside
  rw [getLsbD_field w i k _ inside, BitVec.getLsbD_shiftLeft, BitVec.getLsbD_zero]
  by_cases below : i < j
  · have before : w * i + w ≤ w * j := by
      rw [← Nat.mul_succ]
      exact Nat.mul_le_mul_left w below
    rw [decide_eq_true (show w * i + k < w * j by omega), Bool.not_true, Bool.and_false, Bool.false_and]
  · have beyond : w * j + w ≤ w * i := by
      rw [← Nat.mul_succ]
      exact Nat.mul_le_mul_left w (by omega)
    have large : value.toNat < 2 ^ (w * i + k - w * j) :=
      lt_of_lt_of_le fits (Nat.pow_le_pow_right (by decide) (by omega))
    rw [← BitVec.testBit_toNat, Nat.testBit_lt_two_pow large, Bool.and_false]

/-- Values put in one after the other, the j-th into the j-th field. -/
theorem field_foldl {n : Nat} (w : Nat) (i : Fin n) (values : Fin n → BitVec N) (start : BitVec N)
    (fits : ∀ j, (values j).toNat < 2 ^ w) (room : w * n ≤ N) :
    field w i ((List.finRange n).foldl (fun word j => word ||| values j <<< (w * j.val)) start) =
      field w i start ||| (values i).setWidth w := by
  have whole : w * (i + 1) ≤ N := (Nat.mul_le_mul_left w i.isLt).trans room
  have along : ∀ (places : List (Fin n)) (start : BitVec N),
      field w i (places.foldl (fun word j => word ||| values j <<< (w * j.val)) start) =
        field w i start ||| if i ∈ places then (values i).setWidth w else 0#w := by
    intro places
    induction places with
    | nil =>
      intro start
      rw [if_neg List.not_mem_nil, BitVec.or_zero, List.foldl_nil]
    | cons j rest ih =>
      intro start
      rw [List.foldl_cons, ih, field_or]
      by_cases here : i = j
      · subst here
        rw [field_shiftLeft_self w i _ whole, if_pos List.mem_cons_self]
        by_cases again : i ∈ rest
        · rw [if_pos again, BitVec.or_assoc, BitVec.or_self]
        · rw [if_neg again, BitVec.or_zero]
      · have apart : i.val ≠ j.val := fun same => here (Fin.ext same)
        rw [field_shiftLeft_ne w i j _ (fits j) apart, BitVec.or_zero]
        simp only [List.mem_cons, here, false_or]
  rw [along, if_pos (List.mem_finRange i)]

theorem field_foldl_beyond {n : Nat} (w i : Nat) (beyond : n ≤ i) (values : Fin n → BitVec N)
    (start : BitVec N) (fits : ∀ j, (values j).toNat < 2 ^ w) :
    field w i ((List.finRange n).foldl (fun word j => word ||| values j <<< (w * j.val)) start) =
      field w i start := by
  generalize List.finRange n = places
  induction places generalizing start with
  | nil => rfl
  | cons j rest ih =>
    have apart : i ≠ j.val := by omega
    rw [List.foldl_cons, ih, field_or, field_shiftLeft_ne w i j _ (fits j) apart, BitVec.or_zero]

theorem eq_of_field_eq (w n : Nat) (a b : BitVec N) (covered : N ≤ w * n)
    (same : ∀ i < n, field w i a = field w i b) : a = b := by
  apply BitVec.eq_of_getLsbD_eq
  intro k inside
  have place : k / w < n := Nat.div_lt_of_lt_mul (by omega)
  have positive : 0 < w := by
    apply Nat.pos_of_ne_zero
    intro none
    subst none
    omega
  have split : w * (k / w) + k % w = k := Nat.div_add_mod k w
  have bit := congrArg (fun part : BitVec w => part.getLsbD (k % w)) (same (k / w) place)
  simp only [getLsbD_field w _ _ _ (Nat.mod_lt k positive), split] at bit
  exact bit

end Fields
