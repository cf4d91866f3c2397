import Mathlib.Data.List.DropRight
import Mathlib.Logic.Function.Basic
import Mathlib.Order.Lattice

/-! Insertion into an array that is sorted as far as it is filled: the greater entries move up by one, from the
last on, and the value goes into the place that has become free. Then, the rank of an entry of a sorted list. -/

namespace Insertion

variable {V : Type*}

def filled (order : Nat → V) (n : Nat) : List V := (List.range n).map order

def slide (greater : V → V → Bool) (value : V) (order : Nat → V) : Nat → Nat → V
  | 0 => Function.update order 0 value
  | j + 1 =>
    if greater (order j) value then slide greater value (Function.update order (j + 1) (order j)) j
    else Function.update order (j + 1) value

/-- What the array is to hold then: the value behind the last entry that is not greater. -/
def place (greater : V → V → Bool) (value : V) (entries : List V) : List V :=
  entries.rdropWhile (greater · value) ++ value :: entries.rtakeWhile (greater · value)

theorem filled_succ (order : Nat → V) (n : Nat) : filled order (n + 1) = filled order n ++ [order n] := by
  rw [filled, List.range_succ, List.map_append]
  rfl

theorem length_filled (order : Nat → V) (n : Nat) : (filled order n).length = n := by
  rw [filled, List.length_map, List.length_range]

theorem getElem?_filled (order : Nat → V) {n k : Nat} (inside : k < n) : (filled order n)[k]? = some (order k) := by
  rw [filled, List.getElem?_map, List.getElem?_range inside]
  rfl

theorem filled_update (order : Nat → V) {m n : Nat} (above : m ≤ n) (value : V) :
    filled (Function.update order n value) m = filled order m := by
  apply List.map_congr_left
  intro k member
  have below := List.mem_range.mp member
  exact Function.update_of_ne (show k ≠ n by omega) value order

section Slide
variable (greater : V → V → Bool) (value : V)

theorem slide_above (order : Nat → V) (j k : Nat) (above : j < k) : slide greater value order j k = order k := by
  induction j generalizing order with
  | zero => exact Function.update_of_ne (show k ≠ 0 by omega) value order
  | succ j ih =>
    rw [slide]
    split
    · rw [ih _ (by omega)]
      exact Function.update_of_ne (show k ≠ j + 1 by omega) _ order
    · exact Function.update_of_ne (show k ≠ j + 1 by omega) value order

theorem place_concat (entries : List V) (last : V) :
    place greater value (entries ++ [last]) =
      if greater last value then place greater value entries ++ [last] else entries ++ [last] ++ [value] := by
  rw [place, List.rdropWhile_concat, List.rtakeWhile_concat]
  split
  · rw [place, List.append_assoc, List.cons_append]
  · rfl

/-- The loop and the list. -/
theorem filled_slide (order : Nat → V) (j : Nat) :
    filled (slide greater value order j) (j + 1) = place greater value (filled order j) := by
  induction j generalizing order with
  | zero => rfl
  | succ j ih =>
    rw [filled_succ order j, place_concat, slide]
    split
    · rw [filled_succ, ih, filled_update order (Nat.le_succ j), slide_above greater value _ j (j + 1) (by omega),
        Function.update_self]
    · rw [filled_succ, filled_update order (Nat.le_refl _), Function.update_self, filled_succ]

theorem place_cons_of_not (v : V) (entries : List V) (stays : greater v value = false) :
    place greater value (v :: entries) = v :: place greater value entries := by
  induction entries using List.reverseRecOn with
  | nil =>
    rw [← List.nil_append [v], place_concat, if_neg (Bool.eq_false_iff.mp stays)]
    rfl
  | append_singleton entries last ih =>
    rw [← List.cons_append, place_concat, place_concat, ih]
    split <;> rfl

theorem place_of_forall (entries : List V) (all : ∀ entry ∈ entries, greater entry value = true) :
    place greater value entries = value :: entries := by
  rw [place, List.rdropWhile_eq_nil_iff.mpr all, List.rtakeWhile_eq_self_iff.mpr all, List.nil_append]

theorem place_perm (entries : List V) : (place greater value entries).Perm (value :: entries) := by
  have parts : entries.rdropWhile (greater · value) ++ entries.rtakeWhile (greater · value) = entries :=
    List.rdropWhile_append_rtakeWhile
  apply List.perm_middle.trans
  rw [parts]

theorem place_sorted {K : Type*} [LinearOrder K] (key : V → K) (entries : List V)
    (sorted : entries.Pairwise fun a b => key a ≤ key b)
    (agrees : ∀ entry ∈ entries, (greater entry value = true ↔ key value < key entry)) :
    (place greater value entries).Pairwise fun a b => key a ≤ key b := by
  induction entries using List.reverseRecOn with
  | nil => exact List.pairwise_singleton _ _
  | append_singleton entries last ih =>
    obtain ⟨first, -, below⟩ := List.pairwise_append.mp sorted
    have last_agrees := agrees last (List.mem_append_right _ (List.mem_singleton_self last))
    rw [place_concat]
    split
    next moved =>
      have less := last_agrees.mp moved
      have placed := ih first fun entry member => agrees entry (List.mem_append_left _ member)
      refine List.pairwise_append.mpr ⟨placed, List.pairwise_singleton _ _, ?_⟩
      intro entry member other same
      rw [List.mem_singleton.mp same]
      rcases List.mem_cons.mp ((place_perm greater value entries).mem_iff.mp member) with new | old
      · rw [new]
        exact less.le
      · exact below entry old last (List.mem_singleton_self last)
    next stays =>
      have le : key last ≤ key value := not_lt.mp fun less => stays (last_agrees.mpr less)
      refine List.pairwise_append.mpr ⟨sorted, List.pairwise_singleton _ _, ?_⟩
      intro entry member other same
      rw [List.mem_singleton.mp same]
      rcases List.mem_append.mp member with old | end_
      · exact (below entry old last (List.mem_singleton_self last)).trans le
      · rw [List.mem_singleton.mp end_]
        exact le

end Slide

/-- Of a sorted list, at most k entries are below the one with number k, and more than k are not above it. -/
theorem countP_rank {K : Type*} [LinearOrder K] (key : V → K) (entries : List V)
    (sorted : entries.Pairwise fun a b => key a ≤ key b) (k : Nat) (v : V) (found : entries[k]? = some v) :
    (entries.countP fun entry => key entry < key v) ≤ k ∧ k < entries.countP fun entry => key entry ≤ key v := by
  obtain ⟨inside, here⟩ := List.getElem?_eq_some_iff.mp found
  have split : entries = entries.take k ++ v :: entries.drop (k + 1) := by
    rw [← here, List.getElem_cons_drop, List.take_append_drop]
  have length : (entries.take k).length = k := by
    rw [List.length_take]
    omega
  generalize entries.take k = front at split length
  generalize entries.drop (k + 1) = back at split
  subst split
  obtain ⟨-, later, before⟩ := List.pairwise_append.mp sorted
  obtain ⟨after, -⟩ := List.pairwise_cons.mp later
  rw [List.countP_append, List.countP_cons, List.countP_append, List.countP_cons,
    decide_eq_false (lt_irrefl (key v)), decide_eq_true (le_refl (key v))]
  constructor
  · have none_above : back.countP (fun entry => key entry < key v) = 0 := by
      refine List.countP_eq_zero.mpr fun entry member => ?_
      simpa using after entry member
    have some_below := List.countP_le_length (p := fun entry => decide (key entry < key v)) (l := front)
    rw [none_above, if_neg Bool.false_ne_true]
    omega
  · have all_below : front.countP (fun entry => key entry ≤ key v) = k := by
      rw [List.countP_eq_length.mpr, length]
      intro entry member
      simpa using before entry member v List.mem_cons_self
    rw [all_below, if_pos rfl]
    omega

end Insertion
