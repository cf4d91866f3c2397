import Mathlib.Data.List.Basic

/-! Transition systems with a partial step function, their runs, and what holds along a run. -/

namespace Transition

variable {σ α : Type*} (step : σ → α → Option σ)

/-- Take the actions one after the other; none of them may be disabled. -/
def run : σ → List α → Option σ
  | s, [] => some s
  | s, a :: rest =>
    match step s a with
    | some s' => run s' rest
    | none => none

@[simp] theorem run_nil (s : σ) : run step s [] = some s := rfl

theorem run_cons (s : σ) (a : α) (rest : List α) :
    run step s (a :: rest) = (step s a).bind fun s' => run step s' rest := by
  rw [run]
  cases step s a <;> rfl

theorem run_append (s : σ) (first rest : List α) :
    run step s (first ++ rest) = (run step s first).bind fun s' => run step s' rest := by
  induction first generalizing s with
  | nil => rfl
  | cons a first ih =>
    rw [List.cons_append, run_cons, run_cons]
    cases step s a with
    | none => rfl
    | some s' => exact ih s'

theorem run_cons_eq_some {s t : σ} {a : α} {rest : List α} (done : run step s (a :: rest) = some t) :
    ∃ s', step s a = some s' ∧ run step s' rest = some t := by
  rw [run_cons] at done
  exact Option.bind_eq_some_iff.mp done

theorem run_middle {s t : σ} {first rest : List α} {a : α} (done : run step s (first ++ a :: rest) = some t) :
    ∃ mid next, run step s first = some mid ∧ step mid a = some next ∧ run step next rest = some t := by
  rw [run_append] at done
  obtain ⟨mid, before, after⟩ := Option.bind_eq_some_iff.mp done
  obtain ⟨next, taken, later⟩ := run_cons_eq_some step after
  exact ⟨mid, next, before, taken, later⟩

theorem run_foldl (f : σ → α → σ) (s : σ) (actions : List α) :
    run (fun s a => some (f s a)) s actions = some (actions.foldl f s) := by
  induction actions generalizing s with
  | nil => rfl
  | cons a rest ih => exact ih (f s a)

/-- What every step keeps, every run keeps. -/
theorem run_invariant (inv : σ → Prop) (keeps : ∀ s a s', inv s → step s a = some s' → inv s')
    {s t : σ} {actions : List α} (start : inv s) (done : run step s actions = some t) : inv t := by
  induction actions generalizing s with
  | nil =>
    cases done
    exact start
  | cons a rest ih =>
    obtain ⟨s', first, later⟩ := run_cons_eq_some step done
    exact ih (keeps s a s' start first) later

theorem run_invariant_of (kind : α → Prop) (inv : σ → Prop)
    (keeps : ∀ s a s', inv s → kind a → step s a = some s' → inv s')
    {s t : σ} {actions : List α} (start : inv s) (all : ∀ a ∈ actions, kind a)
    (done : run step s actions = some t) : inv t := by
  induction actions generalizing s with
  | nil =>
    cases done
    exact start
  | cons a rest ih =>
    obtain ⟨s', first, later⟩ := run_cons_eq_some step done
    rw [List.forall_mem_cons] at all
    exact ih (keeps s a s' start all.1 first) all.2 later

/-- Every step of the run is taken in a state where the condition on it holds. -/
def Along (good : σ → α → Prop) : σ → List α → Prop
  | _, [] => True
  | s, a :: rest => good s a ∧ ∀ s' ∈ step s a, Along good s' rest

instance decidableAlong (good : σ → α → Prop) [∀ s a, Decidable (good s a)] :
    (s : σ) → (actions : List α) → Decidable (Along step good s actions)
  | _, [] => isTrue trivial
  | s, a :: rest =>
    have later : Decidable (∀ s' ∈ step s a, Along step good s' rest) :=
      match step s a with
      | none => isTrue (by simp)
      | some s' =>
        have := decidableAlong good s' rest
        decidable_of_iff (Along step good s' rest) (by simp)
    inferInstanceAs (Decidable (good s a ∧ _))

theorem along_append (good : σ → α → Prop) (s : σ) (first rest : List α) :
    Along step good s (first ++ rest) ↔
      Along step good s first ∧ ∀ t ∈ run step s first, Along step good t rest := by
  induction first generalizing s with
  | nil => simp [Along]
  | cons a first ih =>
    rw [List.cons_append, Along, Along, and_assoc, run_cons]
    refine and_congr_right fun _ => ?_
    cases step s a with
    | none => simp
    | some s' => simpa using ih s'

theorem along_congr {good good' : σ → α → Prop} (inv : σ → Prop)
    (keeps : ∀ s a s', inv s → step s a = some s' → inv s') (same : ∀ s a, inv s → (good s a ↔ good' s a))
    {s : σ} (start : inv s) (actions : List α) :
    Along step good s actions ↔ Along step good' s actions := by
  induction actions generalizing s with
  | nil => rfl
  | cons a rest ih =>
    rw [Along, Along, same s a start]
    refine and_congr_right fun _ => ?_
    exact forall₂_congr fun s' taken => ih (keeps s a s' start taken)

/-- What every step keeps under the condition, every run that meets the condition keeps. -/
theorem run_invariant_along (good : σ → α → Prop) (inv : σ → Prop)
    (keeps : ∀ s a s', inv s → good s a → step s a = some s' → inv s')
    {s t : σ} {actions : List α} (start : inv s) (along : Along step good s actions)
    (done : run step s actions = some t) : inv t := by
  induction actions generalizing s with
  | nil =>
    cases done
    exact start
  | cons a rest ih =>
    obtain ⟨s', first, later⟩ := run_cons_eq_some step done
    exact ih (keeps s a s' start along.1 first) (along.2 s' first) later

/-- What a step earns and what it takes from the potential pay for the actions that are counted. -/
theorem run_count_le (counted : α → Bool) (earned potential : σ → Nat) (inv : σ → Prop)
    (keeps : ∀ s a s', inv s → step s a = some s' → inv s')
    (pays : ∀ s a s', inv s → step s a = some s' →
      earned s + potential s' + (if counted a then 1 else 0) ≤ earned s' + potential s)
    {s t : σ} {actions : List α} (start : inv s) (done : run step s actions = some t) :
    earned s + potential t + actions.countP counted ≤ earned t + potential s := by
  induction actions generalizing s with
  | nil =>
    cases done
    exact Nat.le_refl _
  | cons a rest ih =>
    obtain ⟨s', first, later⟩ := run_cons_eq_some step done
    have paid := pays s a s' start first
    have rest_paid := ih (keeps s a s' start first) later
    rw [List.countP_cons]
    omega

/-- Some run leads from one state to the other. -/
def Reaches (s t : σ) : Prop := ∃ actions, run step s actions = some t

variable {step}

theorem Reaches.refl (s : σ) : Reaches step s s := ⟨[], rfl⟩

theorem Reaches.single {s t : σ} (a : α) (taken : step s a = some t) : Reaches step s t :=
  ⟨[a], by rw [run_cons, taken]; rfl⟩

theorem Reaches.trans {s t u : σ} (first : Reaches step s t) (later : Reaches step t u) :
    Reaches step s u := by
  obtain ⟨actions, reached⟩ := first
  obtain ⟨more, ended⟩ := later
  exact ⟨actions ++ more, by rw [run_append, reached]; exact ended⟩

/-- Simulation: when every step is matched by a run of another system, so is every run. -/
theorem Reaches.simulates {τ β : Type*} {step' : τ → β → Option τ} (rel : σ → τ → Prop)
    (simulates : ∀ s t a s', rel s t → step s a = some s' → ∃ t', Reaches step' t t' ∧ rel s' t')
    {s s' : σ} {t : τ} (start : rel s t) (reached : Reaches step s s') :
    ∃ t', Reaches step' t t' ∧ rel s' t' := by
  obtain ⟨actions, done⟩ := reached
  induction actions generalizing s t with
  | nil =>
    cases done
    exact ⟨t, .refl t, start⟩
  | cons a rest ih =>
    obtain ⟨mid, first, later⟩ := run_cons_eq_some step done
    obtain ⟨t', matched, related⟩ := simulates s t a mid start first
    obtain ⟨t'', ended, final⟩ := ih related later
    exact ⟨t'', matched.trans ended, final⟩

/-- Simulation step by step: the other system takes the same actions. -/
theorem run_simulates {τ : Type*} {step' : τ → α → Option τ} (rel : σ → τ → Prop)
    (simulates : ∀ s t a s', rel s t → step s a = some s' → ∃ t', step' t a = some t' ∧ rel s' t')
    {s s' : σ} {t : τ} {actions : List α} (start : rel s t) (done : run step s actions = some s') :
    ∃ t', run step' t actions = some t' ∧ rel s' t' := by
  induction actions generalizing s t with
  | nil =>
    cases done
    exact ⟨t, rfl, start⟩
  | cons a rest ih =>
    obtain ⟨mid, first, later⟩ := run_cons_eq_some step done
    obtain ⟨t', matched, related⟩ := simulates s t a mid start first
    obtain ⟨t'', ended, final⟩ := ih related later
    refine ⟨t'', ?_, final⟩
    rw [run_cons, matched]
    exact ended

/-- And it meets the conditions that carry over. -/
theorem along_simulates {τ : Type*} {step' : τ → α → Option τ} (rel : σ → τ → Prop)
    (simulates : ∀ s t a s', rel s t → step s a = some s' → ∃ t', step' t a = some t' ∧ rel s' t')
    {good : σ → α → Prop} {good' : τ → α → Prop} (carries : ∀ s t a, rel s t → good s a → good' t a)
    {s s' : σ} {t : τ} {actions : List α} (start : rel s t) (done : run step s actions = some s')
    (along : Along step good s actions) : Along step' good' t actions := by
  induction actions generalizing s t with
  | nil => trivial
  | cons a rest ih =>
    obtain ⟨mid, first, later⟩ := run_cons_eq_some step done
    obtain ⟨t', matched, related⟩ := simulates s t a mid start first
    refine ⟨carries s t a start along.1, ?_⟩
    intro next taken
    rw [matched] at taken
    cases taken
    exact ih related later (along.2 mid first)

end Transition
