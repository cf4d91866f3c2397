import Mathlib.Data.List.Basic
import Mathlib.Data.List.TakeDrop

/-! Machines that eat a stream one symbol at a time, and the same machines fed by reads
that return arbitrary amounts. A block reader asks for `want` symbols; a read hands over
any part of what it asks for, or nothing at all. When eating a block is eating its symbols,
the sizes of the reads do not matter. -/

namespace Transducer

variable {σ β ο : Type*}

/-- Eat symbols one by one, collecting what the machine puts out. -/
def feed (step : σ → β → σ × List ο) : σ → List β → σ × List ο
  | s, [] => (s, [])
  | s, b :: rest =>
      let first := step s b
      let later := feed step first.1 rest
      (later.1, first.2 ++ later.2)

variable (step : σ → β → σ × List ο)

@[simp] theorem feed_nil (s : σ) : feed step s [] = (s, []) := rfl

theorem feed_cons (s : σ) (b : β) (rest : List β) :
    feed step s (b :: rest) =
      ((feed step (step s b).1 rest).1, (step s b).2 ++ (feed step (step s b).1 rest).2) := rfl

theorem feed_append (s : σ) (xs ys : List β) :
    feed step s (xs ++ ys) =
      ((feed step (feed step s xs).1 ys).1,
        (feed step s xs).2 ++ (feed step (feed step s xs).1 ys).2) := by
  induction xs generalizing s with
  | nil => simp
  | cons x xs ih => simp only [List.cons_append, feed_cons, ih, List.append_assoc]

theorem feed_append_state (s : σ) (xs ys : List β) :
    (feed step s (xs ++ ys)).1 = (feed step (feed step s xs).1 ys).1 := by
  rw [feed_append]

theorem feed_append_output (s : σ) (xs ys : List β) :
    (feed step s (xs ++ ys)).2 = (feed step s xs).2 ++ (feed step (feed step s xs).1 ys).2 := by
  rw [feed_append]

theorem feed_idle (s : σ) (xs : List β) (idle : ∀ x ∈ xs, step s x = (s, [])) :
    feed step s xs = (s, []) := by
  induction xs with
  | nil => rfl
  | cons x xs ih =>
    have here := idle x (by simp)
    have later := ih (fun y member => idle y (by simp [member]))
    simp only [feed_cons, here, later, List.nil_append]

/-! Reads. The schedule lists what each call of the reader returns at most: a positive
number is an upper bound on the symbols handed over, any other number hands over nothing. -/

/-- How many symbols one read hands over, out of the `avail` that are there. -/
def granted (want avail : Nat) (ret : Int) : Nat := min (min ret.toNat want) avail

/-- Reads by schedule: the end state, the output, and the symbols nobody has read yet. -/
def drive (want : σ → Nat) (block : σ → List β → σ × List ο) :
    σ → List β → List Int → σ × List ο × List β
  | s, input, [] => (s, [], input)
  | s, input, ret :: schedule =>
      let n := granted (want s) input.length ret
      let first := block s (input.take n)
      let later := drive want block first.1 (input.drop n) schedule
      (later.1, first.2 ++ later.2.1, later.2.2)

variable (want : σ → Nat) (block : σ → List β → σ × List ο)

/-- What a schedule leaves unread is a suffix, and the rest has been eaten symbol by symbol. -/
theorem drive_eq_feed
    (eats : ∀ s chunk, chunk.length ≤ want s → block s chunk = feed step s chunk)
    (s : σ) (input : List β) (schedule : List Int) :
    ∃ eaten, input = eaten ++ (drive want block s input schedule).2.2 ∧
      feed step s eaten =
        ((drive want block s input schedule).1, (drive want block s input schedule).2.1) := by
  induction schedule generalizing s input with
  | nil => exact ⟨[], by simp [drive], by simp [drive]⟩
  | cons ret schedule ih =>
    have fits : (input.take (granted (want s) input.length ret)).length ≤ want s := by
      simp only [List.length_take, granted]
      omega
    obtain ⟨eaten, split, agrees⟩ := ih
      (block s (input.take (granted (want s) input.length ret))).1
      (input.drop (granted (want s) input.length ret))
    refine ⟨input.take (granted (want s) input.length ret) ++ eaten, ?_, ?_⟩
    · simp only [drive]
      rw [List.append_assoc, ← split, List.take_append_drop]
    · simp only [drive]
      rw [eats s _ fits] at agrees ⊢
      rw [feed_append, agrees]

/-- A schedule that reads everything computes what eating symbol by symbol computes. -/
theorem drive_complete
    (eats : ∀ s chunk, chunk.length ≤ want s → block s chunk = feed step s chunk)
    (s : σ) (input : List β) (schedule : List Int)
    (complete : (drive want block s input schedule).2.2 = []) :
    drive want block s input schedule = ((feed step s input).1, (feed step s input).2, []) := by
  obtain ⟨eaten, split, agrees⟩ := drive_eq_feed step want block eats s input schedule
  rw [complete, List.append_nil] at split
  subst split
  rw [agrees]
  exact Prod.ext rfl (Prod.ext rfl complete)

/-- Two schedules that leave the same symbols unread have computed the same. -/
theorem drive_same_unread
    (eats : ∀ s chunk, chunk.length ≤ want s → block s chunk = feed step s chunk)
    (s : σ) (input : List β) (schedule schedule' : List Int)
    (same : (drive want block s input schedule).2.2 = (drive want block s input schedule').2.2) :
    drive want block s input schedule = drive want block s input schedule' := by
  obtain ⟨eaten, split, agrees⟩ := drive_eq_feed step want block eats s input schedule
  obtain ⟨eaten', split', agrees'⟩ := drive_eq_feed step want block eats s input schedule'
  have equal : eaten = eaten' := by
    rw [same] at split
    exact List.append_cancel_right (split.symm.trans split')
  rw [equal, agrees'] at agrees
  injection agrees with state output
  exact Prod.ext state.symm (Prod.ext output.symm same)

theorem drive_output_part
    (eats : ∀ s chunk, chunk.length ≤ want s → block s chunk = feed step s chunk)
    (s : σ) (input : List β) (schedule : List Int) :
    (drive want block s input schedule).2.1 <+: (feed step s input).2 := by
  obtain ⟨eaten, split, agrees⟩ := drive_eq_feed step want block eats s input schedule
  have output := feed_append_output step s eaten (drive want block s input schedule).2.2
  rw [← split, agrees] at output
  exact ⟨_, output.symm⟩

/-- A reader that always wants something has read everything after enough reads that return. -/
theorem drive_exhausts (progress : ∀ s, 0 < want s) (s : σ) (input : List β) (schedule : List Int)
    (enough : input.length ≤ schedule.countP (0 < ·)) :
    (drive want block s input schedule).2.2 = [] := by
  induction schedule generalizing s input with
  | nil =>
    rw [List.countP_nil] at enough
    exact List.eq_nil_of_length_eq_zero (Nat.le_zero.mp enough)
  | cons ret schedule ih =>
    rw [drive]
    apply ih
    have positive := progress s
    rw [List.countP_cons] at enough
    rw [List.length_drop, granted]
    split at enough
    next returns =>
      have returned : 0 < ret := by simpa using returns
      omega
    next nothing => omega

end Transducer
