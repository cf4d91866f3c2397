import Mathlib.Data.List.Basic
import Mathlib.Logic.Function.Basic

/-! Writes to some of the registers of a file. What a sequence of them leaves in a register is the last one that
writes it, or else what has been there. -/

namespace Writes

variable {A V : Type*}

def apply (writes : A → Option V) (file : A → V) : A → V := fun a => (writes a).getD (file a)

def andThen (first later : A → Option V) : A → Option V := fun a => (later a).or (first a)

def none : A → Option V := fun _ => Option.none

def single [DecidableEq A] (a : A) (value : Option V) : A → Option V := Function.update none a value

theorem apply_congr (writes : A → Option V) {file file' : A → V} {a : A} (same : file a = file' a) :
    apply writes file a = apply writes file' a := by
  rw [apply, apply, same]

theorem apply_andThen (first later : A → Option V) (file : A → V) :
    apply (andThen first later) file = apply later (apply first file) := by
  funext a
  rw [apply, apply, apply, andThen]
  cases later a <;> rfl

theorem andThen_none (writes : A → Option V) : andThen writes none = writes := rfl

theorem none_andThen (writes : A → Option V) : andThen none writes = writes := by
  funext a
  rw [andThen, none]
  exact Option.or_none

def together [DecidableEq A] (words : List (A × Option V)) : A → Option V :=
  words.foldl (fun before word => andThen before (single word.1 word.2)) none

theorem single_self [DecidableEq A] (a : A) (value : Option V) : single a value a = value := by
  rw [single, Function.update_self]

theorem single_of_ne [DecidableEq A] {a b : A} (apart : b ≠ a) (value : Option V) :
    single a value b = Option.none := by
  rw [single, Function.update_of_ne apart, none]

theorem foldl_absent [DecidableEq A] (words : List (A × Option V)) (before : A → Option V) (a : A)
    (absent : a ∉ words.map Prod.fst) :
    words.foldl (fun before word => andThen before (single word.1 word.2)) before a = before a := by
  induction words generalizing before with
  | nil => rfl
  | cons word rest ih =>
    rw [List.map_cons, List.mem_cons, not_or] at absent
    rw [List.foldl_cons, ih _ absent.2, andThen, single_of_ne absent.1]
    rfl

theorem foldl_of_mem [DecidableEq A] (words : List (A × Option V)) (before : A → Option V) (a : A)
    (value : Option V) (fresh : before a = Option.none) (once : (words.map Prod.fst).Nodup)
    (member : (a, value) ∈ words) :
    words.foldl (fun before word => andThen before (single word.1 word.2)) before a = value := by
  induction words generalizing before with
  | nil => cases member
  | cons word rest ih =>
    rw [List.map_cons, List.nodup_cons] at once
    rw [List.foldl_cons]
    rcases List.mem_cons.mp member with first | later
    · subst first
      rw [foldl_absent rest _ a once.1, andThen, single_self, fresh, Option.or_none]
    · have apart : a ≠ word.1 := by
        intro same
        exact once.1 (same ▸ List.mem_map_of_mem later)
      refine ih _ ?_ once.2 later
      rw [andThen, single_of_ne apart, fresh]
      rfl

/-- When each register is named once, it gets what stands beside it. -/
theorem together_of_mem [DecidableEq A] (words : List (A × Option V)) (a : A) (value : Option V)
    (once : (words.map Prod.fst).Nodup) (member : (a, value) ∈ words) : together words a = value :=
  foldl_of_mem words none a value rfl once member

def last (sequence : List (A → Option V)) : A → Option V := fun a => sequence.reverse.findSome? fun writes => writes a

theorem last_concat (sequence : List (A → Option V)) (writes : A → Option V) :
    last (sequence ++ [writes]) = andThen (last sequence) writes := by
  funext a
  rw [last, List.reverse_append, List.reverse_singleton, List.singleton_append, List.findSome?_cons, andThen]
  cases writes a <;> rfl

theorem apply_last_concat (sequence : List (A → Option V)) (writes : A → Option V) (file : A → V) :
    apply (last (sequence ++ [writes])) file = apply writes (apply (last sequence) file) := by
  rw [last_concat, apply_andThen]

/-- What is written at last does not depend on what has been written before. -/
theorem apply_last_of_some (sequence : List (A → Option V)) (writes : A → Option V) (file : A → V) {a : A} {v : V}
    (written : writes a = some v) : apply (last (sequence ++ [writes])) file a = v := by
  rw [apply_last_concat, apply, written, Option.getD_some]

end Writes
