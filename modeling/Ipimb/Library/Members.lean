import Mathlib.Algebra.Group.Nat.Defs
import Mathlib.Data.List.Basic
import Mathlib.Data.Nat.Basic
import Mathlib.Order.Lattice

/-! Structures in memory: members one behind the other, each aligned to its size or to what is packed to, the low
byte of a number first. -/

namespace Members

abbrev Byte := BitVec 8

/-! Numbers. -/

def byte (v j : Nat) : Byte := .ofNat 8 (v / 256 ^ j)

def load (memory : Nat → Byte) : Nat → Nat → Nat
  | _, 0 => 0
  | a, n + 1 => (memory a).toNat + 256 * load memory (a + 1) n

theorem byte_succ (v j : Nat) : byte v (j + 1) = byte (v / 256) j := by
  rw [byte, byte, Nat.div_div_eq_div_mul, Nat.pow_succ']

theorem load_byte {memory : Nat → Byte} {v a n : Nat} (stored : ∀ j < n, memory (a + j) = byte v j) :
    load memory a n = v % 256 ^ n := by
  induction n generalizing v a with
  | zero => rw [load, Nat.pow_zero, Nat.mod_one]
  | succ n ih =>
    have low : (memory a).toNat = v % 256 := by
      have first := stored 0 (Nat.succ_pos n)
      rw [Nat.add_zero] at first
      rw [first, byte, Nat.pow_zero, Nat.div_one]
      rfl
    have high : load memory (a + 1) n = v / 256 % 256 ^ n := by
      apply ih
      intro j small
      have next := stored (j + 1) (by omega)
      rw [byte_succ] at next
      rw [← next]
      congr 1
      omega
    rw [load, low, high, Nat.pow_succ', Nat.mod_mul]

/-! Structures. -/

/-- Where a member goes that is next behind a place. -/
def align (pack place size : Nat) : Nat := (place + min pack size - 1) / min pack size * min pack size

theorem le_align {pack size : Nat} (packed : 0 < pack) (present : 0 < size) (place : Nat) :
    place ≤ align pack place size := by
  have positive : 0 < min pack size := lt_min packed present
  have split := Nat.div_add_mod' (place + min pack size - 1) (min pack size)
  have rest := Nat.mod_lt (place + min pack size - 1) positive
  rw [align]
  omega

/-- The members' sizes and values, as they lie behind a place; what is between them is zero. -/
def image (pack : Nat) : Nat → List (Nat × Nat) → Nat → Byte
  | _, [], _ => 0
  | place, (size, value) :: rest, a =>
      if align pack place size ≤ a ∧ a < align pack place size + size then byte value (a - align pack place size)
      else image pack (align pack place size + size) rest a

def read (pack : Nat) (memory : Nat → Byte) (base : Nat) : Nat → List Nat → List Nat
  | _, [] => []
  | place, size :: rest =>
      load memory (base + align pack place size) size ::
        read pack memory base (align pack place size + size) rest

def finish (pack : Nat) : Nat → List Nat → Nat
  | place, [] => place
  | place, size :: rest => finish pack (align pack place size + size) rest

def sizeof (pack : Nat) (sizes : List Nat) : Nat := align pack (finish pack 0 sizes) (sizes.foldl max 1)

section
variable {pack : Nat} (packed : 0 < pack)
include packed

theorem le_finish {sizes : List Nat} (present : ∀ size ∈ sizes, 0 < size) (place : Nat) :
    place ≤ finish pack place sizes := by
  induction sizes generalizing place with
  | nil => exact Nat.le_refl place
  | cons size rest ih =>
    rw [List.forall_mem_cons] at present
    have aligned := le_align packed present.1 place
    have later := ih present.2 (align pack place size + size)
    rw [finish]
    omega

/-- A copy of a structure gives its members back. -/
theorem read_image (memory : Nat → Byte) (base : Nat) (fields : List (Nat × Nat))
    (present : ∀ field ∈ fields, 0 < field.1) (place : Nat)
    (copied : ∀ a, place ≤ a → a < finish pack place (fields.map Prod.fst) →
      memory (base + a) = image pack place fields a) :
    read pack memory base place (fields.map Prod.fst) = fields.map fun field => field.2 % 256 ^ field.1 := by
  induction fields generalizing place with
  | nil => rfl
  | cons field rest ih =>
    obtain ⟨size, value⟩ := field
    rw [List.forall_mem_cons] at present
    simp only [List.map_cons, finish, image] at copied
    have aligned : place ≤ align pack place size := le_align packed present.1 place
    have nonempty : 0 < size := present.1
    have later : align pack place size + size ≤ finish pack (align pack place size + size) (rest.map Prod.fst) := by
      apply le_finish packed
      intro size member
      obtain ⟨field, inside, rfl⟩ := List.mem_map.mp member
      exact present.2 field inside
    have first : load memory (base + align pack place size) size = value % 256 ^ size := by
      apply load_byte
      intro j small
      rw [Nat.add_assoc, copied _ (by omega) (by omega), if_pos ⟨by omega, by omega⟩, Nat.add_sub_cancel_left]
    rw [List.map_cons, List.map_cons, read, first]
    congr 1
    apply ih present.2
    intro a behind inside
    dsimp only at behind inside
    rw [copied a (by omega) inside, if_neg (by omega)]

end

end Members
