import Mathlib.Logic.Function.Basic

/-! Rings addressed by counters that run on freely and are reduced to a slot number on use.
Slots of counters less than the size apart differ, so a store for one counter leaves the entries
of the counters close behind it alone. -/

namespace Ring

variable {β : Type*}

theorem slot_ne {size i j : Nat} (before : i < j) (close : j < i + size) : i % size ≠ j % size := by
  intro same
  have divides : size ∣ j - i := Nat.dvd_of_mod_eq_zero (Nat.sub_mod_eq_zero_of_mod_eq same.symm)
  have large := Nat.le_of_dvd (by omega) divides
  omega

/-- The ring holds a good entry for every counter from lo on and below hi. -/
def Backed (size : Nat) (mem : Nat → β) (good : Nat → β → Prop) (lo hi : Nat) : Prop :=
  ∀ k, lo ≤ k → k < hi → good k (mem (k % size))

variable {size : Nat} {mem : Nat → β} {good : Nat → β → Prop} {lo hi : Nat}

theorem Backed.of_empty (empty : hi ≤ lo) : Backed size mem good lo hi := by
  intro k low high
  omega

theorem Backed.drop {lo' : Nat} (backed : Backed size mem good lo hi) (later : lo ≤ lo') :
    Backed size mem good lo' hi :=
  fun k low high => backed k (Nat.le_trans later low) high

/-- A store into the slot of the next counter spares the entries close behind it. -/
theorem Backed.store {lo' : Nat} (backed : Backed size mem good lo hi) (later : lo ≤ lo')
    (close : hi < lo' + size) (entry : β) :
    Backed size (Function.update mem (hi % size) entry) good lo' hi := by
  intro k low high
  rw [Function.update_of_ne (slot_ne high (by omega))]
  exact backed k (Nat.le_trans later low) high

theorem Backed.push (backed : Backed size mem good lo hi) (next : good hi (mem (hi % size))) :
    Backed size mem good lo (hi + 1) := by
  intro k low high
  by_cases last : k = hi
  · rw [last]
    exact next
  · exact backed k low (by omega)

theorem Backed.mono {good' : Nat → β → Prop} (backed : Backed size mem good lo hi)
    (weaker : ∀ k < hi, ∀ entry, good k entry → good' k entry) : Backed size mem good' lo hi :=
  fun k low high => weaker k high _ (backed k low high)

end Ring
