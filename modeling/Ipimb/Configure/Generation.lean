import Ipimb.Library.Transition
import Mathlib.Data.BitVec
import Mathlib.Data.List.Basic

/-!
Requests and passes. `configure` leaves a configuration and counts up a generation under the mutex; the
configurer thread compares generations, copies the configuration and makes a pass with the mutex
released. The two share the flag and the outcome that `read_bi` reports.
-/

namespace Ipimb.Generation

variable {C : Type}

/-- A pass: the configuration it was run with, how many calls of `configure` had been made when it
copied that, and what its checks have found so far. -/
structure Pass (C : Type) where
  config : C
  made : Nat
  checks : List Bool

def Pass.outcome (p : Pass C) : Bool := p.checks.all id

/-- Where the configurer thread is in `do_configure`. -/
inductive Pc (C : Type) where
  /-- Before it locks the mutex. -/
  | lock
  /-- At the generation test, holding the mutex. -/
  | test
  /-- About to wait, still holding the mutex. -/
  | wait
  /-- In `pthread_cond_wait`, without the mutex. -/
  | asleep
  /-- Out of the wait, by a signal or not; wants the mutex back. -/
  | woken
  /-- Past the test, about to copy, holding the mutex. -/
  | copy
  /-- The mutex is released; `config_ok` not yet set. -/
  | start (p : Pass C)
  /-- In the pass. -/
  | running (p : Pass C)

/-- The fields shared between the threads and the thread's own `current_gen`. The last three are for
the record only: the arguments of all calls of `configure`, how many there had been at the last copy,
and the passes that have ended. -/
structure State (C : Type) where
  newconfig : C
  configGen : BitVec 32
  currentGen : BitVec 32
  confInProgress : Bool
  configOk : Bool
  pc : Pc C
  requests : List C
  copied : Nat
  passes : List (Pass C)

/-- As the constructor leaves it, with whatever is in `newconfig`. -/
def State.init (newconfig : C) : State C where
  newconfig := newconfig
  configGen := 0#32
  currentGen := 0#32
  confInProgress := false
  configOk := false
  pc := .lock
  requests := []
  copied := 0
  passes := []

def Pc.current : Pc C → Option (Pass C)
  | .start p => some p
  | .running p => some p
  | _ => none

def State.started (s : State C) : List (Pass C) := s.passes ++ s.pc.current.toList

def Pc.holds : Pc C → Bool
  | .test => true
  | .wait => true
  | .copy => true
  | _ => false

def Pc.signal : Pc C → Pc C
  | .asleep => .woken
  | pc => pc

def State.configured (s : State C) (config : C) : State C :=
  { s with
    newconfig := config
    configGen := s.configGen + 1
    confInProgress := true
    pc := s.pc.signal
    requests := s.requests ++ [config] }

/-- `configure`, all of it under the mutex. -/
def configure (s : State C) (config : C) : Option (State C) :=
  if s.pc.holds then none else some (s.configured config)

def lock (s : State C) : Option (State C) :=
  match s.pc with
  | .lock => some { s with pc := .test }
  | _ => none

/-- The generation test, with the flag cleared when there is nothing to do. -/
def test (s : State C) : Option (State C) :=
  match s.pc with
  | .test =>
    if s.currentGen = s.configGen then some { s with confInProgress := false, pc := .wait }
    else some { s with pc := .copy }
  | _ => none

def wait (s : State C) : Option (State C) :=
  match s.pc with
  | .wait => some { s with pc := .asleep }
  | _ => none

def spurious (s : State C) : Option (State C) :=
  match s.pc with
  | .asleep => some { s with pc := .woken }
  | _ => none

def regain (s : State C) : Option (State C) :=
  match s.pc with
  | .woken => some { s with pc := .test }
  | _ => none

def copy (s : State C) : Option (State C) :=
  match s.pc with
  | .copy =>
    some { s with
      currentGen := s.configGen
      pc := .start ⟨s.newconfig, s.requests.length, []⟩
      copied := s.requests.length }
  | _ => none

def start (s : State C) : Option (State C) :=
  match s.pc with
  | .start p => some { s with configOk := true, pc := .running p }
  | _ => none

/-- A check of the pass; nothing but a failing one touches `config_ok`. -/
def check (s : State C) (ok : Bool) : Option (State C) :=
  match s.pc with
  | .running p =>
    some { s with
      configOk := if ok then s.configOk else false
      pc := .running { p with checks := p.checks ++ [ok] } }
  | _ => none

/-- The pass ends, at its end or by the early `continue`. -/
def finish (s : State C) : Option (State C) :=
  match s.pc with
  | .running p => some { s with pc := .lock, passes := s.passes ++ [p] }
  | _ => none

inductive Action (C : Type) where
  | configure (config : C)
  | lock
  | test
  | wait
  | spurious
  | regain
  | copy
  | start
  | check (ok : Bool)
  | finish

def step (s : State C) : Action C → Option (State C)
  | .configure config => configure s config
  | .lock => lock s
  | .test => test s
  | .wait => wait s
  | .spurious => spurious s
  | .regain => regain s
  | .copy => copy s
  | .start => start s
  | .check ok => check s ok
  | .finish => finish s

/-- What `config_ok` says, given where the thread is. -/
def OutcomeOk (s : State C) : Prop :=
  match s.pc with
  | .start p => p.checks = []
  | .running p => s.configOk = p.outcome
  | _ => ∀ p ∈ s.passes.getLast?, s.configOk = p.outcome

structure Inv (s : State C) : Prop where
  configGen_eq : s.configGen = BitVec.ofNat 32 s.requests.length
  currentGen_eq : s.currentGen = BitVec.ofNat 32 s.copied
  copied_le : s.copied ≤ s.requests.length
  newconfig_eq : ∀ c ∈ s.requests.getLast?, c = s.newconfig
  used : ∀ p ∈ s.started, 0 < p.made ∧ p.made ≤ s.copied ∧ s.requests[p.made - 1]? = some p.config
  latest : s.copied = 0 ∨ ∃ p ∈ s.started.getLast?, p.made = s.copied
  increasing : s.started.Pairwise fun p q => p.made < q.made
  idle : s.confInProgress = false → s.copied = s.requests.length ∧ s.pc.current = none
  resting : s.pc = .wait ∨ s.pc = .asleep → s.confInProgress = false
  new : s.pc = .copy → s.copied < s.requests.length
  outcome : OutcomeOk s

theorem Inv.init (newconfig : C) : Inv (State.init newconfig) where
  configGen_eq := rfl
  currentGen_eq := rfl
  copied_le := le_rfl
  newconfig_eq := by intro c now; cases now
  used := by intro p now; cases now
  latest := .inl rfl
  increasing := List.Pairwise.nil
  idle := fun _ => ⟨rfl, rfl⟩
  resting := fun _ => rfl
  new := by intro now; cases now
  outcome := by intro p now; cases now

@[simp] theorem signal_current (pc : Pc C) : pc.signal.current = pc.current := by cases pc <;> rfl

theorem started_configured (s : State C) (config : C) : (s.configured config).started = s.started := by
  simp [State.started, State.configured]

theorem outcome_between {s : State C} (between : s.pc.current = none) :
    OutcomeOk s ↔ ∀ p ∈ s.passes.getLast?, s.configOk = p.outcome := by
  unfold OutcomeOk
  cases at_pc : s.pc <;> simp [at_pc, Pc.current] at between ⊢

section Steps
variable {s s' : State C} (inv : Inv s)
include inv

theorem configure_inv (config : C) (done : configure s config = some s') : Inv s' := by
  unfold configure at done
  split_ifs at done with held
  cases done
  constructor
  · rw [State.configured, inv.configGen_eq, List.length_append, BitVec.ofNat_add]
    rfl
  · exact inv.currentGen_eq
  · rw [State.configured, List.length_append]
    exact inv.copied_le.trans (Nat.le_add_right _ _)
  · intro c last
    rw [State.configured, List.getLast?_concat] at last
    exact (Option.some.inj last).symm
  · rw [started_configured]
    intro p member
    obtain ⟨positive, bound, found⟩ := inv.used p member
    refine ⟨positive, bound, ?_⟩
    rw [State.configured, List.getElem?_append_left (List.getElem?_eq_some_iff.mp found).1]
    exact found
  · rw [started_configured]
    exact inv.latest
  · rw [started_configured]
    exact inv.increasing
  · intro now
    cases now
  · cases at_pc : s.pc <;> simp [State.configured, at_pc, Pc.signal, Pc.holds] at held ⊢
  · cases at_pc : s.pc <;> simp [State.configured, at_pc, Pc.signal, Pc.holds] at held ⊢
  · have outcome := inv.outcome
    unfold OutcomeOk at outcome ⊢
    cases at_pc : s.pc <;> simpa [State.configured, at_pc, Pc.signal] using outcome

theorem flag_up {p : Pass C} (under : s.pc.current = some p) : s.confInProgress = true := by
  by_contra off
  have none := (inv.idle (by simpa using off)).2
  rw [under] at none
  cases none

theorem aside_inv (flag ok : Bool) (pc : Pc C) (passes : List (Pass C))
    (started : passes ++ pc.current.toList = s.started)
    (idle : flag = false → s.copied = s.requests.length ∧ pc.current = none)
    (resting : pc = .wait ∨ pc = .asleep → flag = false)
    (new : pc = .copy → s.copied < s.requests.length)
    (outcome : OutcomeOk { s with confInProgress := flag, configOk := ok, pc := pc, passes := passes }) :
    Inv { s with confInProgress := flag, configOk := ok, pc := pc, passes := passes } := by
  have same : State.started { s with
      confInProgress := flag, configOk := ok, pc := pc, passes := passes } = s.started := started
  refine { inv with
    used := ?_, latest := ?_, increasing := ?_
    idle := idle, resting := resting, new := new, outcome := outcome }
  · rw [same]
    exact inv.used
  · rw [same]
    exact inv.latest
  · rw [same]
    exact inv.increasing

/-- Moves between passes, where nothing but the flag may change. -/
theorem move_inv (pc : Pc C) (flag : Bool) (from_between : s.pc.current = none)
    (between : pc.current = none) (idle : flag = false → s.copied = s.requests.length)
    (resting : pc = .wait ∨ pc = .asleep → flag = false)
    (new : pc = .copy → s.copied < s.requests.length) :
    Inv { s with confInProgress := flag, pc := pc } := by
  have started : s.passes ++ pc.current.toList = s.started := by
    rw [State.started, from_between, between]
  have outcome := (outcome_between from_between).mp inv.outcome
  exact aside_inv inv flag s.configOk pc s.passes started (fun off => ⟨idle off, between⟩) resting new
    ((outcome_between between).mpr outcome)

theorem lock_inv (done : lock s = some s') : Inv s' := by
  unfold lock at done
  split at done
  next at_pc =>
    cases done
    exact move_inv inv .test s.confInProgress (by rw [at_pc]; rfl) rfl (fun off => (inv.idle off).1)
      (by simp) (by intro now; cases now)
  next => cases done

theorem wait_inv (done : wait s = some s') : Inv s' := by
  unfold wait at done
  split at done
  next at_pc =>
    cases done
    exact move_inv inv .asleep s.confInProgress (by rw [at_pc]; rfl) rfl (fun off => (inv.idle off).1)
      (fun _ => inv.resting (.inl at_pc)) (by intro now; cases now)
  next => cases done

theorem spurious_inv (done : spurious s = some s') : Inv s' := by
  unfold spurious at done
  split at done
  next at_pc =>
    cases done
    exact move_inv inv .woken s.confInProgress (by rw [at_pc]; rfl) rfl (fun off => (inv.idle off).1)
      (by simp) (by intro now; cases now)
  next => cases done

theorem regain_inv (done : regain s = some s') : Inv s' := by
  unfold regain at done
  split at done
  next at_pc =>
    cases done
    exact move_inv inv .test s.confInProgress (by rw [at_pc]; rfl) rfl (fun off => (inv.idle off).1)
      (by simp) (by intro now; cases now)
  next => cases done

/-- Generations are equal just when nothing has been asked for since the last copy. -/
theorem generations_eq (few : s.requests.length < 2 ^ 31) :
    s.currentGen = s.configGen ↔ s.copied = s.requests.length := by
  rw [inv.currentGen_eq, inv.configGen_eq]
  have le := inv.copied_le
  constructor
  · intro same
    have values := congrArg BitVec.toNat same
    rw [BitVec.toNat_ofNat, BitVec.toNat_ofNat, Nat.mod_eq_of_lt (by omega),
      Nat.mod_eq_of_lt (by omega)] at values
    exact values
  · intro same
    rw [same]

theorem test_inv (few : s.requests.length < 2 ^ 31) (done : test s = some s') : Inv s' := by
  have le := inv.copied_le
  have generations := generations_eq inv few
  unfold test at done
  split at done
  next at_pc =>
    split_ifs at done with equal <;> cases done
    · exact move_inv inv .wait false (by rw [at_pc]; rfl) rfl (fun _ => generations.mp equal)
        (fun _ => rfl) (by intro now; cases now)
    · have behind : s.copied ≠ s.requests.length := fun same => equal (generations.mpr same)
      exact move_inv inv .copy s.confInProgress (by rw [at_pc]; rfl) rfl (fun off => (inv.idle off).1)
        (by simp) (fun _ => lt_of_le_of_ne le behind)
  next => cases done

theorem copy_inv (done : copy s = some s') : Inv s' := by
  unfold copy at done
  split at done
  next at_pc =>
    cases done
    have new := inv.new at_pc
    have started : s.started = s.passes := by simp [State.started, at_pc, Pc.current]
    have used := inv.used
    rw [started] at used
    have newest : s.requests[s.requests.length - 1]? = some s.newconfig := by
      rw [← List.getLast?_eq_getElem?]
      cases last : s.requests.getLast? with
      | none =>
        rw [List.getLast?_eq_none_iff] at last
        rw [last] at new
        simp at new
      | some c => rw [inv.newconfig_eq c last]
    constructor
    · exact inv.configGen_eq
    · exact inv.configGen_eq
    · exact le_rfl
    · exact inv.newconfig_eq
    · intro p member
      rcases List.mem_append.mp member with old | last
      · obtain ⟨positive, bound, found⟩ := used p old
        exact ⟨positive, bound.trans inv.copied_le, found⟩
      · rw [show p = _ from List.mem_singleton.mp last]
        exact ⟨Nat.lt_of_le_of_lt (Nat.zero_le _) new, le_rfl, newest⟩
    · exact .inr ⟨_, List.getLast?_concat, rfl⟩
    · have increasing := inv.increasing
      rw [started] at increasing
      refine List.pairwise_append.mpr ⟨increasing, List.pairwise_singleton _ _, fun p old q last => ?_⟩
      rw [show q = _ from List.mem_singleton.mp last]
      exact Nat.lt_of_le_of_lt (used p old).2.1 new
    · intro off
      have idle := (inv.idle off).1
      omega
    · simp
    · intro now
      cases now
    · rfl
  next => cases done

theorem start_inv (done : start s = some s') : Inv s' := by
  unfold start at done
  split at done
  next p at_pc =>
    cases done
    have outcome := inv.outcome
    rw [OutcomeOk, at_pc] at outcome
    have busy : s.confInProgress = true := flag_up inv (by rw [at_pc]; rfl)
    apply aside_inv inv s.confInProgress true (.running p) s.passes
    · rw [State.started, at_pc]
      rfl
    · rw [busy]
      intro now
      cases now
    · simp
    · intro now
      cases now
    · simp [OutcomeOk, Pass.outcome, outcome]
  next => cases done

theorem check_inv (ok : Bool) (done : check s ok = some s') : Inv s' := by
  unfold check at done
  split at done
  next p at_pc =>
    cases done
    have outcome := inv.outcome
    rw [OutcomeOk, at_pc] at outcome
    have started : s.started = s.passes ++ [p] := by simp [State.started, at_pc, Pc.current]
    have used := inv.used
    have latest := inv.latest
    have increasing := inv.increasing
    rw [started] at used latest increasing
    refine { inv with
      used := ?_, latest := ?_, increasing := ?_, idle := ?_, resting := ?_, new := ?_, outcome := ?_ }
    · intro q member
      rcases List.mem_append.mp member with old | last
      · exact used q (List.mem_append_left _ old)
      · rw [show q = _ from List.mem_singleton.mp last]
        exact used p (List.mem_append_right _ (List.mem_singleton_self p))
    · apply latest.imp id
      intro found
      obtain ⟨q, last, made⟩ := found
      rw [List.getLast?_concat] at last
      cases last
      exact ⟨_, List.getLast?_concat, made⟩
    · rw [List.pairwise_append] at increasing
      refine List.pairwise_append.mpr ⟨increasing.1, List.pairwise_singleton _ _, fun q old r last => ?_⟩
      rw [show r = _ from List.mem_singleton.mp last]
      exact increasing.2.2 q old p (List.mem_singleton_self p)
    · rw [flag_up inv (show s.pc.current = some p by rw [at_pc]; rfl)]
      intro now
      cases now
    · simp
    · intro now
      cases now
    · cases ok <;> simp [OutcomeOk, Pass.outcome, outcome]
  next => cases done

theorem finish_inv (done : finish s = some s') : Inv s' := by
  unfold finish at done
  split at done
  next p at_pc =>
    cases done
    have outcome := inv.outcome
    rw [OutcomeOk, at_pc] at outcome
    have busy : s.confInProgress = true := flag_up inv (by rw [at_pc]; rfl)
    apply aside_inv inv s.confInProgress s.configOk .lock (s.passes ++ [p])
    · rw [State.started, at_pc]
      exact List.append_nil _
    · rw [busy]
      intro now
      cases now
    · simp
    · intro now
      cases now
    · intro q last
      rw [List.getLast?_concat] at last
      cases last
      exact outcome
  next => cases done

end Steps

theorem step_requests (s : State C) (a : Action C) (s' : State C) (done : step s a = some s') :
    s.requests.length ≤ s'.requests.length := by
  cases a with
  | configure config =>
    simp only [step, configure] at done
    split_ifs at done
    cases done
    simp [State.configured]
  | test =>
    simp only [step, test] at done
    split at done
    · split_ifs at done <;> cases done <;> exact le_rfl
    · cases done
  | _ =>
    simp only [step, lock, wait, spurious, regain, copy, start, check, finish] at done
    split at done <;> cases done
    exact le_rfl

theorem step_inv (s : State C) (a : Action C) (s' : State C) (few : s.requests.length < 2 ^ 31)
    (inv : Inv s) (done : step s a = some s') : Inv s' := by
  cases a with
  | configure config => exact configure_inv inv config done
  | lock => exact lock_inv inv done
  | test => exact test_inv inv few done
  | wait => exact wait_inv inv done
  | spurious => exact spurious_inv inv done
  | regain => exact regain_inv inv done
  | copy => exact copy_inv inv done
  | start => exact start_inv inv done
  | check ok => exact check_inv inv ok done
  | finish => exact finish_inv inv done

theorem run_inv (newconfig : C) (actions : List (Action C)) (s : State C)
    (reached : Transition.run step (State.init newconfig) actions = some s)
    (few : s.requests.length < 2 ^ 31) : Inv s := by
  have kept := Transition.run_invariant step (fun s => s.requests.length < 2 ^ 31 → Inv s)
    (fun s a s' inv done few => by
      have before := Nat.lt_of_le_of_lt (step_requests s a s' done) few
      exact step_inv s a s' before (inv before) done)
    (fun _ => Inv.init newconfig) reached
  exact kept few

/-- With the flag down no pass is under way, the last one was run with the last request, and `config_ok`
is its outcome. Each request has been used by a pass, or a later one was there before any pass could
copy it, or it is the last one, and the thread is not waiting. No request is used twice. -/
theorem latest_reported (newconfig : C) (actions : List (Action C)) (s : State C)
    (reached : Transition.run step (State.init newconfig) actions = some s)
    (few : s.requests.length < 2 ^ 31) :
    (s.confInProgress = false → s.requests ≠ [] →
      s.pc.current = none ∧
        ∃ p ∈ s.passes.getLast?, s.requests.getLast? = some p.config ∧ s.configOk = p.outcome) ∧
      (∀ i c, s.requests[i]? = some c →
        (∃ p ∈ s.started, p.made = i + 1 ∧ p.config = c) ∨
          (i + 1 < s.requests.length ∧ ∀ p ∈ s.started, i < p.made → i + 1 < p.made) ∨
          (i + 1 = s.requests.length ∧ (∀ p ∈ s.started, p.made ≤ i) ∧ s.confInProgress = true ∧
            s.pc ≠ .asleep ∧ s.pc ≠ .wait)) ∧
      s.started.Pairwise fun p q => p.made < q.made := by
  have inv := run_inv newconfig actions s reached few
  refine ⟨fun off some_request => ?_, fun i c request => ?_, inv.increasing⟩
  · obtain ⟨copied, between⟩ := inv.idle off
    have positive : 0 < s.requests.length := List.length_pos_of_ne_nil some_request
    have started : s.started = s.passes := by simp [State.started, between]
    obtain ⟨p, last, made⟩ := inv.latest.resolve_left (by omega)
    have member : p ∈ s.started := List.mem_of_getLast? last
    rw [started] at last
    refine ⟨between, p, last, ?_, (outcome_between between).mp inv.outcome p last⟩
    rw [List.getLast?_eq_getElem?, ← copied, ← made]
    exact (inv.used p member).2.2
  · have bound := (List.getElem?_eq_some_iff.mp request).1
    by_cases copied : ∃ p ∈ s.started, p.made = i + 1
    · obtain ⟨p, member, made⟩ := copied
      have found := (inv.used p member).2.2
      rw [made, Nat.add_sub_cancel, request] at found
      exact .inl ⟨p, member, made, (Option.some.inj found).symm⟩
    · right
      have never : ∀ p ∈ s.started, p.made ≠ i + 1 := fun p member made => copied ⟨p, member, made⟩
      by_cases replaced : i + 1 < s.requests.length
      · refine .inl ⟨replaced, fun p member after => ?_⟩
        have differ := never p member
        omega
      · have le := inv.copied_le
        have pending : s.copied ≠ s.requests.length := by
          intro same
          obtain ⟨p, last, made⟩ := inv.latest.resolve_left (by omega)
          exact never p (List.mem_of_getLast? last) (by omega)
        have raised : s.confInProgress = true := by
          by_contra off
          exact pending (inv.idle (by simpa using off)).1
        refine .inr ⟨by omega, fun p member => ?_, raised, fun asleep => ?_, fun waits => ?_⟩
        · have le_copied := (inv.used p member).2.1
          have differ := never p member
          omega
        · rw [inv.resting (.inr asleep)] at raised
          cases raised
        · rw [inv.resting (.inl waits)] at raised
          cases raised

/-- Two requests, the second during the pass of the first; the second pass fails a check. -/
theorem latest_reported_two :
    ∃ s : State Nat, Transition.run step (State.init 0)
        [.configure 1, .lock, .test, .copy, .start, .configure 2, .check true, .finish, .lock, .test,
          .copy, .start, .check false, .check true, .finish, .lock, .test, .wait] = some s ∧
      s.requests.length < 2 ^ 31 ∧ s.confInProgress = false ∧ s.configOk = false ∧
      ∃ p ∈ s.passes.getLast?, s.requests.getLast? = some p.config ∧ s.configOk = p.outcome := by
  have computed : (Transition.run step (State.init 0)
      [.configure 1, .lock, .test, .copy, .start, .configure 2, .check true, .finish, .lock, .test,
        .copy, .start, .check false, .check true, .finish, .lock, .test, .wait]).map
      (fun s => (s.requests, s.confInProgress, s.configOk)) = some ([1, 2], false, false) := by decide
  obtain ⟨s, reached, seen⟩ := Option.map_eq_some_iff.mp computed
  injection seen with requests rest
  injection rest with flag ok
  have few : s.requests.length < 2 ^ 31 := by
    rw [requests]
    decide
  exact ⟨s, reached, few, flag, ok,
    ((latest_reported 0 _ s reached few).1 flag (by rw [requests]; decide)).2⟩

/-! The flag, as the other threads see it. -/

theorem step_flag (s : State C) (a : Action C) (s' : State C) (done : step s a = some s') :
    s'.confInProgress = s.confInProgress ∨ ((∃ config, a = .configure config) ∧ s'.confInProgress = true) ∨
      (a = .test ∧ s'.confInProgress = false) := by
  cases a with
  | configure config =>
    simp only [step, configure] at done
    split_ifs at done
    cases done
    exact .inr (.inl ⟨⟨config, rfl⟩, rfl⟩)
  | test =>
    simp only [step, test] at done
    split at done
    · split_ifs at done <;> cases done
      · exact .inr (.inr ⟨rfl, rfl⟩)
      · exact .inl rfl
    · cases done
  | _ =>
    simp only [step, lock, wait, spurious, regain, copy, start, check, finish] at done
    split at done <;> cases done
    exact .inl rfl

end Ipimb.Generation
