import Mathlib.Data.Finset.Card
import Mathlib.Data.Fintype.Basic

/-! Clients that hold shared resources, one resource for each client and one flag that tells whether it
is held. A count kept for each resource is right when it is the number of its holders. -/

namespace Holders

variable {B T : Type*} [Fintype B] [DecidableEq T]

/-- The clients that hold t. -/
def holders (index : B → T) (user : B → Bool) (t : T) : Finset B :=
  Finset.univ.filter fun b => index b = t ∧ user b = true

variable {index : B → T} {user : B → Bool}

@[simp] theorem mem_holders {t : T} {b : B} : b ∈ holders index user t ↔ index b = t ∧ user b = true := by
  simp [holders]

theorem holders_eq_empty {t : T} (none : ∀ b, index b = t → user b = false) :
    holders index user t = ∅ := by
  rw [Finset.eq_empty_iff_forall_notMem]
  intro b member
  obtain ⟨here, held⟩ := mem_holders.mp member
  rw [none b here] at held
  cases held

/-- A count for each resource. -/
def Counted (index : B → T) (user : B → Bool) (count : T → Int) : Prop :=
  ∀ t, count t = (holders index user t).card

variable {count : T → Int}

theorem Counted.nonneg (counted : Counted index user count) (t : T) : 0 ≤ count t := by
  rw [counted]
  exact Int.natCast_nonneg _

theorem Counted.pos (counted : Counted index user count) {b : B} (held : user b = true) :
    0 < count (index b) := by
  have member : b ∈ holders index user (index b) := by simp [held]
  rw [counted]
  exact_mod_cast Finset.card_pos.mpr ⟨b, member⟩

theorem Counted.eq_zero (counted : Counted index user count) {t : T}
    (none : ∀ b, index b = t → user b = false) : count t = 0 := by
  rw [counted, holders_eq_empty none]
  rfl

theorem Counted.free (counted : Counted index user count) {t : T} (zero : count t = 0) (b : B)
    (here : index b = t) : user b = false := by
  by_contra held
  have positive := counted.pos (b := b) (by simpa using held)
  rw [here, zero] at positive
  exact absurd positive (lt_irrefl _)

variable [DecidableEq B]

theorem holders_other {t : T} {b : B} (other : index b ≠ t) (held : Bool) :
    holders index (Function.update user b held) t = holders index user t := by
  ext c
  by_cases same : c = b
  · subst same
    simp [other]
  · simp [same]

theorem holders_take (b : B) :
    holders index (Function.update user b true) (index b) = insert b (holders index user (index b)) := by
  ext c
  by_cases same : c = b <;> simp [same]

theorem holders_release (b : B) :
    holders index (Function.update user b false) (index b) = (holders index user (index b)).erase b := by
  ext c
  by_cases same : c = b <;> simp [same]

theorem Counted.take (counted : Counted index user count) (b : B) (free : user b = false) :
    Counted index (Function.update user b true)
      (Function.update count (index b) (count (index b) + 1)) := by
  intro t
  by_cases here : t = index b
  · have new : b ∉ holders index user (index b) := by simp [free]
    rw [here, Function.update_self, holders_take, Finset.card_insert_of_notMem new, counted]
    push_cast
    rfl
  · rw [Function.update_of_ne here, holders_other (Ne.symm here), counted]

theorem Counted.release (counted : Counted index user count) (b : B) (held : user b = true) :
    Counted index (Function.update user b false)
      (Function.update count (index b) (count (index b) - 1)) := by
  intro t
  by_cases here : t = index b
  · have old : b ∈ holders index user (index b) := by simp [held]
    have positive : 0 < (holders index user (index b)).card := Finset.card_pos.mpr ⟨b, old⟩
    rw [here, Function.update_self, holders_release, Finset.card_erase_of_mem old, counted]
    omega
  · rw [Function.update_of_ne here, holders_other (Ne.symm here), counted]

end Holders
