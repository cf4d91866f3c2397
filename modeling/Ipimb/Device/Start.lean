import Ipimb.Library.Transition
import Mathlib.Data.List.Count
import Mathlib.Data.Nat.Basic

/-!
The gate in front of the reader threads. The first board creates the mutex and its thread keeps it locked; each
reader thread goes through it before it looks for its PVs; `ipimbStart` unlocks it, once.
-/

namespace Ipimb.Start

inductive Mutex where
  | null
  | free
  /-- Locked by the thread of the shell. -/
  | shell
  | reader (board : Nat)
  deriving DecidableEq

inductive Place where
  | waiting
  | holding
  | through
  deriving DecidableEq

structure State where
  startMutex : Mutex
  started : Bool
  readers : List Place

def State.empty : State := ⟨.null, false, []⟩

def addBoard (s : State) : State where
  startMutex := if s.startMutex = .null then .shell else s.startMutex
  started := s.started
  readers := s.readers ++ [.waiting]

/-- A mutex that is null, or another thread's, cannot be unlocked. -/
def ipimbStart (s : State) : Option State :=
  if s.started = true then some s
  else if s.startMutex = .shell then some { s with startMutex := .free, started := true }
  else none

def lock (s : State) (board : Nat) : Option State :=
  if s.readers[board]? = some .waiting ∧ s.startMutex = .free then
    some { s with startMutex := .reader board, readers := s.readers.set board .holding }
  else none

def unlock (s : State) (board : Nat) : Option State :=
  if s.readers[board]? = some .holding ∧ s.startMutex = .reader board then
    some { s with startMutex := .free, readers := s.readers.set board .through }
  else none

inductive Action where
  | addBoard
  | ipimbStart
  | lock (board : Nat)
  | unlock (board : Nat)
  deriving DecidableEq

def step (s : State) : Action → Option State
  | .addBoard => some (addBoard s)
  | .ipimbStart => ipimbStart s
  | .lock board => lock s board
  | .unlock board => unlock s board

def Action.ofReader : Action → Bool
  | .lock _ | .unlock _ => true
  | _ => false

inductive Effect (s s' : State) : Action → Prop where
  | first (null : s.startMutex = .null)
      (same : s' = { s with startMutex := .shell, readers := s.readers ++ [.waiting] }) :
      Effect s s' .addBoard
  | another (created : s.startMutex ≠ .null) (same : s' = { s with readers := s.readers ++ [.waiting] }) :
      Effect s s' .addBoard
  | again (started : s.started = true) (same : s' = s) : Effect s s' .ipimbStart
  | start (early : s.started = false) (locked : s.startMutex = .shell)
      (same : s' = { s with startMutex := .free, started := true }) : Effect s s' .ipimbStart
  | lock (board : Nat) (here : s.readers[board]? = some .waiting) (free : s.startMutex = .free)
      (same : s' = { s with startMutex := .reader board, readers := s.readers.set board .holding }) :
      Effect s s' (.lock board)
  | unlock (board : Nat) (here : s.readers[board]? = some .holding) (own : s.startMutex = .reader board)
      (same : s' = { s with startMutex := .free, readers := s.readers.set board .through }) :
      Effect s s' (.unlock board)

theorem effect_of_step {s s' : State} {a : Action} (taken : step s a = some s') : Effect s s' a := by
  cases a with
  | addBoard =>
    have added : addBoard s = s' := Option.some.inj taken
    subst added
    by_cases null : s.startMutex = .null
    · exact .first null (by rw [addBoard, if_pos null])
    · exact .another null (by rw [addBoard, if_neg null])
  | ipimbStart =>
    rw [step, ipimbStart] at taken
    split at taken
    · rename_i started
      exact .again started (Option.some.inj taken).symm
    · rename_i early
      split at taken
      · rename_i locked
        exact .start (by simpa using early) locked (Option.some.inj taken).symm
      · cases taken
  | lock board =>
    rw [step, lock] at taken
    split at taken
    · rename_i enabled
      exact .lock board enabled.1 enabled.2 (Option.some.inj taken).symm
    · cases taken
  | unlock board =>
    rw [step, unlock] at taken
    split at taken
    · rename_i enabled
      exact .unlock board enabled.1 enabled.2 (Option.some.inj taken).symm
    · cases taken

/-- The mutex is locked by whom it says, and nobody is past it before the start. -/
structure Inv (s : State) : Prop where
  null : s.startMutex = .null ↔ s.readers = []
  early : s.started = false → s.startMutex = .null ∨ s.startMutex = .shell
  late : s.started = true → s.startMutex ≠ .null ∧ s.startMutex ≠ .shell
  waiting : s.started = false → ∀ place ∈ s.readers, place = .waiting
  holder : ∀ board, s.readers[board]? = some .holding ↔ s.startMutex = .reader board

theorem Inv.empty : Inv State.empty where
  null := by simp [State.empty]
  early _ := .inl rfl
  late started := by cases started
  waiting _ place member := absurd member List.not_mem_nil
  holder board := by simp [State.empty]

theorem getElem?_holding_concat (readers : List Place) (board : Nat) :
    (readers ++ [.waiting])[board]? = some .holding ↔ readers[board]? = some .holding := by
  rw [List.getElem?_append]
  split
  · rfl
  · rename_i beyond
    rw [List.getElem?_eq_none (not_lt.mp beyond)]
    cases board - readers.length with
    | zero => simp
    | succ n => simp

theorem Inv.step {s s' : State} {a : Action} (inv : Inv s) (taken : step s a = some s') : Inv s' := by
  cases effect_of_step taken with
  | first null same =>
    subst same
    have early : s.started = false := by
      by_contra started
      exact (inv.late (by simpa using started)).1 null
    have nobody := inv.null.mp null
    exact {
      null := by simp
      early := fun _ => .inr rfl
      late := fun started => absurd (early.symm.trans started) (by simp)
      waiting := fun _ => by simp [nobody]
      holder := fun board => by
        rw [getElem?_holding_concat, inv.holder, null]
        simp }
  | another created same =>
    subst same
    exact {
      null := by simp [created]
      early := inv.early
      late := inv.late
      waiting := fun early => by
        rw [List.forall_mem_append]
        exact ⟨inv.waiting early, by simp⟩
      holder := fun board => (getElem?_holding_concat s.readers board).trans (inv.holder board) }
  | again started same =>
    subst same
    exact inv
  | start early locked same =>
    subst same
    have someone : s.readers ≠ [] := fun nobody => by
      rw [inv.null.mpr nobody] at locked
      cases locked
    exact {
      null := by simp [someone]
      early := by simp
      late := by simp
      waiting := by simp
      holder := fun board => by
        rw [inv.holder, locked]
        simp }
  | lock board here free same =>
    subst same
    have started : s.started = true := by
      by_contra early
      have locked := inv.early (by simpa using early)
      rw [free] at locked
      simp at locked
    have inside := (List.getElem?_eq_some_iff.mp here).1
    have someone : s.readers ≠ [] := List.ne_nil_of_length_pos (Nat.zero_lt_of_lt inside)
    exact {
      null := by simp [someone]
      early := fun early => absurd (started.symm.trans early) (by simp)
      late := by simp
      waiting := fun early => absurd (started.symm.trans early) (by simp)
      holder := fun other => by
        by_cases same : board = other
        · subst same
          simp [inside]
        · rw [List.getElem?_set_ne same, inv.holder, free]
          simp [same] }
  | unlock board here own same =>
    subst same
    have started : s.started = true := by
      by_contra early
      have locked := inv.early (by simpa using early)
      rw [own] at locked
      simp at locked
    have inside := (List.getElem?_eq_some_iff.mp here).1
    have someone : s.readers ≠ [] := List.ne_nil_of_length_pos (Nat.zero_lt_of_lt inside)
    exact {
      null := by simp [someone]
      early := fun early => absurd (started.symm.trans early) (by simp)
      late := by simp
      waiting := fun early => absurd (started.symm.trans early) (by simp)
      holder := fun other => by
        by_cases same : board = other
        · subst same
          simp [inside]
        · rw [List.getElem?_set_ne same, inv.holder, own]
          simp [same] }

/-- The steps that the readers have before them. -/
def pending (s : State) : Nat := 2 * s.readers.count .waiting + s.readers.count .holding

theorem count_set {readers : List Place} {board : Nat} {old : Place} (here : readers[board]? = some old)
    (new place : Place) :
    (readers.set board new).count place + (if old = place then 1 else 0) =
      readers.count place + (if new = place then 1 else 0) := by
  obtain ⟨inside, rfl⟩ := List.getElem?_eq_some_iff.mp here
  rw [List.count_set inside]
  by_cases was : readers[board] = place
  · have some_ : 0 < readers.count place := List.count_pos_iff.mpr (was ▸ List.getElem_mem inside)
    simp only [was, beq_self_eq_true, if_true, beq_iff_eq]
    omega
  · simp only [beq_iff_eq, was, if_false]
    omega

/-- Each board brings two steps of its reader, and each step of a reader takes one away. -/
theorem step_pending {s s' : State} {a : Action} (taken : step s a = some s') :
    2 * s.readers.length + pending s' + (if a.ofReader = true then 1 else 0) =
      2 * s'.readers.length + pending s := by
  cases effect_of_step taken with
  | first null same =>
    subst same
    simp [pending, Action.ofReader]
    omega
  | another created same =>
    subst same
    simp [pending, Action.ofReader]
    omega
  | again started same =>
    subst same
    rfl
  | start early locked same =>
    subst same
    rfl
  | lock board here free same =>
    subst same
    have waiting := count_set here .holding .waiting
    have holding := count_set here .holding .holding
    simp [pending, Action.ofReader] at *
    omega
  | unlock board here own same =>
    subst same
    have waiting := count_set here .through .waiting
    have holding := count_set here .through .holding
    simp [pending, Action.ofReader] at *
    omega

theorem Inv.progress {s : State} (inv : Inv s) (started : s.started = true) :
    (∀ place ∈ s.readers, place = .through) ∨ ∃ a : Action, a.ofReader = true ∧ (Start.step s a).isSome = true := by
  cases held : s.startMutex with
  | null => exact absurd held (inv.late started).1
  | shell => exact absurd held (inv.late started).2
  | reader board =>
    have here := (inv.holder board).mpr held
    exact .inr ⟨.unlock board, rfl, by simp [Start.step, unlock, here, held]⟩
  | free =>
    by_cases someone : .waiting ∈ s.readers
    · obtain ⟨board, here⟩ := List.mem_iff_getElem?.mp someone
      exact .inr ⟨.lock board, rfl, by simp [Start.step, lock, here, held]⟩
    · refine .inl fun place member => ?_
      cases place with
      | waiting => exact absurd member someone
      | holding =>
        obtain ⟨board, here⟩ := List.mem_iff_getElem?.mp member
        have locked := (inv.holder board).mp here
        rw [held] at locked
        cases locked
      | through => rfl

theorem step_started {s s' : State} {a : Action} (taken : step s a = some s') :
    s'.started = true ↔ s.started = true ∨ a = .ipimbStart := by
  cases effect_of_step taken with
  | first null same => simp [same]
  | another created same => simp [same]
  | again started same => simp [same, started]
  | start early locked same => simp [same]
  | lock board here free same => simp [same]
  | unlock board here own same => simp [same]

theorem step_length {s s' : State} {a : Action} (taken : step s a = some s') :
    s'.readers.length = s.readers.length + [a].count .addBoard := by
  cases effect_of_step taken with
  | first null same => simp [same]
  | another created same => simp [same]
  | again started same => simp [same]
  | start early locked same => simp [same]
  | lock board here free same => simp [same]
  | unlock board here own same => simp [same]

theorem run_inv {actions : List Action} {s t : State} (inv : Inv s) (reached : Transition.run step s actions = some t) :
    Inv t :=
  Transition.run_invariant step Inv (fun _ _ _ inv taken => inv.step taken) inv reached

theorem run_started {actions : List Action} {s t : State} (reached : Transition.run step s actions = some t) :
    t.started = true ↔ s.started = true ∨ .ipimbStart ∈ actions := by
  induction actions generalizing s with
  | nil =>
    cases reached
    simp
  | cons a rest ih =>
    obtain ⟨s', taken, later⟩ := Transition.run_cons_eq_some step reached
    rw [ih later, step_started taken, List.mem_cons, or_assoc]
    exact or_congr_right (or_congr_left eq_comm)

theorem run_pending {actions : List Action} {s t : State} (reached : Transition.run step s actions = some t) :
    actions.countP Action.ofReader + pending t = 2 * actions.count .addBoard + pending s ∧
      t.readers.length = s.readers.length + actions.count .addBoard := by
  induction actions generalizing s with
  | nil =>
    cases reached
    simp
  | cons a rest ih =>
    obtain ⟨s', taken, later⟩ := Transition.run_cons_eq_some step reached
    obtain ⟨paid, length⟩ := ih later
    have one := step_pending taken
    have grown := step_length taken
    rw [← List.singleton_append, List.count_append, List.countP_append, List.countP_singleton]
    constructor <;> omega

structure Gate (actions : List Action) (s : State) : Prop where
  started : s.started = true ↔ .ipimbStart ∈ actions
  /-- No reader is let through before the start. -/
  behind : ∀ before board after, actions = before ++ .lock board :: after → .ipimbStart ∈ before
  /-- No start goes before the first board. -/
  created : ∀ before after, actions = before ++ .ipimbStart :: after → .addBoard ∈ before
  one : ∀ b c : Nat, s.readers[b]? = some Place.holding → s.readers[c]? = some Place.holding → b = c
  steps : actions.countP Action.ofReader + pending s = 2 * actions.count .addBoard
  progress : s.started = true →
    (∀ place ∈ s.readers, place = .through) ∨ ∃ a : Action, a.ofReader = true ∧ (step s a).isSome = true

/-- Boards may be added, and the start given, at any time and in any order. -/
theorem gate (actions : List Action) (s : State) (reached : Transition.run step State.empty actions = some s) :
    Gate actions s := by
  have inv := run_inv Inv.empty reached
  refine ⟨?_, ?_, ?_, ?_, ?_, inv.progress⟩
  · rw [run_started reached]
    simp [State.empty]
  · rintro before board after rfl
    obtain ⟨mid, next, first, taken, -⟩ := Transition.run_middle step reached
    have midInv := run_inv Inv.empty first
    cases effect_of_step taken with
    | lock _ here free _ =>
      have started : mid.started = true := by
        by_contra early
        have locked := midInv.early (by simpa using early)
        rw [free] at locked
        simp at locked
      simpa [State.empty] using (run_started first).mp started
  · rintro before after rfl
    obtain ⟨mid, next, first, taken, -⟩ := Transition.run_middle step reached
    have midInv := run_inv Inv.empty first
    have someone : mid.readers ≠ [] := by
      intro nobody
      have null := midInv.null.mpr nobody
      cases effect_of_step taken with
      | again started _ => exact (midInv.late started).1 null
      | start _ locked _ =>
        rw [null] at locked
        cases locked
    have boards := (run_pending first).2
    have added : 0 < before.count Action.addBoard := by
      have positive := List.length_pos_iff.mpr someone
      simp only [State.empty, List.length_nil, Nat.zero_add] at boards
      omega
    exact List.count_pos_iff.mp added
  · intro b c hereB hereC
    have lockedB := (inv.holder b).mp hereB
    have lockedC := (inv.holder c).mp hereC
    rw [lockedB] at lockedC
    exact Mutex.reader.inj lockedC
  · exact (run_pending reached).1

theorem gate_late : Gate [.addBoard, .addBoard, .ipimbStart, .lock 1, .addBoard, .unlock 1, .lock 2, .ipimbStart]
    ⟨.reader 2, true, [.waiting, .through, .holding]⟩ :=
  gate _ _ rfl

end Ipimb.Start
