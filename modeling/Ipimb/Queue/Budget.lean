import Ipimb.Queue.Responses

/-!
How long reading a register can take. A turn of the loop is either one of five or pays with a response it
ignores, and the board gives no more responses than commands have been sent.
-/

namespace Ipimb.Register
open Ipimb.Acquire Ipimb.Command

/-- A step of the thread that reads. -/
def Action.own : Action → Bool
  | .loop _ | .expire | .spurious | .regain => true
  | _ => false

def State.asks (s : State) (call : Nat) : Nat :=
  s.sent.countP fun x => !x.cmd.write && x.call == call

/-- Of the five turns so many are left; a wait takes two steps out of three. -/
def Call.left (c : Call) : Nat :=
  match c.place with
  | .head => 3 * (5 - c.i) + 1
  | .waiting => 3 * (5 - c.i)
  | .expired | .woken => 3 * (5 - c.i) - 1

def State.potential (s : State) : Nat :=
  3 * (s.given.length - s.crd) + s.reading.elim 0 Call.left

def State.earned (s : State) : Nat := 16 * s.call + 3 * s.given.length

/-- The turns of the call under way, and the commands it has sent. -/
structure Spent (s : State) (c : Call) : Prop where
  called : 1 ≤ s.call
  turns : c.i ≤ 5
  waits : c.place ≠ .head → c.i < 5
  asked : s.asks s.call ≤ c.i + 1
  five : s.asks s.call ≤ 5
  next : c.place = .head → c.doWrite = true → s.asks s.call ≤ c.i

structure Budget (s : State) : Prop where
  asks : ∀ call, s.asks call ≤ 5
  called : ∀ x ∈ s.sent, x.cmd.write = false → 1 ≤ x.call
  answered : s.given.length ≤ (s.sent.take s.handled).countP fun x => !x.cmd.write
  spent : ∀ c ∈ s.reading, Spent s c

theorem Budget.init (regs : BitVec 8 → BitVec 32) : Budget (State.init regs) where
  asks _ := Nat.zero_le 5
  called := nofun
  answered := Nat.le_refl 0
  spent := nofun

theorem asks_beyond {s : State} (linked : Linked s) (call : Nat) (later : s.call < call) : s.asks call = 0 := by
  rw [State.asks, List.countP_eq_zero]
  intro x member
  have sent := linked.sent_le x member
  have other : x.call ≠ call := by omega
  simp [other]

section Budget
variable {s : State} (inv : Budget s)
include inv

theorem move_budget {s' : State} (sent : s'.sent = s.sent) (handled : s'.handled = s.handled)
    (given : s'.given = s.given) (spent : ∀ c ∈ s'.reading, Spent s' c) : Budget s' := by
  refine ⟨?_, ?_, ?_, spent⟩
  · intro call
    rw [State.asks, sent]
    exact inv.asks call
  · rw [sent]
    exact inv.called
  · rw [sent, handled, given]
    exact inv.answered

theorem same_budget {s' : State} (sent : s'.sent = s.sent) (handled : s'.handled = s.handled)
    (given : s'.given = s.given) (call : s'.call = s.call)
    (same : ∀ c' ∈ s'.reading, ∃ c ∈ s.reading, c'.i = c.i ∧ c'.doWrite = c.doWrite ∧
      (c'.place = .head ↔ c.place = .head)) : Budget s' := by
  refine move_budget inv sent handled given ?_
  intro c' under
  obtain ⟨c, before, i, doWrite, place⟩ := same c' under
  have spent := inv.spent c before
  have asks : s'.asks s'.call = s.asks s.call := by rw [State.asks, State.asks, sent, call]
  constructor
  · rw [call]
    exact spent.called
  · rw [i]
    exact spent.turns
  · rw [i, Ne, place]
    exact spent.waits
  · rw [i, asks]
    exact spent.asked
  · rw [asks]
    exact spent.five
  · rw [i, asks, doWrite, place]
    exact spent.next

theorem write_budget (x : Sent) (write : x.cmd.write = true) (idle : s.reading = none) :
    Budget { s with sent := s.sent ++ [x] } := by
  refine ⟨?_, ?_, ?_, ?_⟩
  · intro call
    have same : State.asks { s with sent := s.sent ++ [x] } call = s.asks call := by
      simp [State.asks, List.countP_append, write]
    rw [same]
    exact inv.asks call
  · rw [List.forall_mem_append, List.forall_mem_singleton]
    refine ⟨inv.called, fun read => ?_⟩
    rw [write] at read
    cases read
  · rw [List.take_append, List.countP_append]
    exact inv.answered.trans (Nat.le_add_right _ _)
  · intro c under
    rw [idle] at under
    cases under

theorem ask_budget (c : Call) (under : s.reading = some c) (head : c.place = .head) (more : c.i < 5)
    (doWrite : c.doWrite = true) (cmd : IpimBoardCommand) (wait : Call) (i : wait.i = c.i)
    (waiting : wait.place = .waiting) (read : cmd.write = false) :
    Budget { s with reading := some wait, sent := s.sent ++ [⟨cmd, s.call⟩] } := by
  have spent := inv.spent c under
  have before := spent.next head doWrite
  have asks (call : Nat) : State.asks { s with reading := some wait, sent := s.sent ++ [⟨cmd, s.call⟩] } call =
      s.asks call + if s.call = call then 1 else 0 := by
    simp [State.asks, List.countP_append, List.countP_cons, read]
  refine ⟨?_, ?_, ?_, ?_⟩
  · intro call
    rw [asks]
    have few := inv.asks call
    by_cases here : s.call = call
    · rw [if_pos here, ← here]
      omega
    · rw [if_neg here]
      exact few
  · rw [List.forall_mem_append, List.forall_mem_singleton]
    exact ⟨inv.called, fun _ => spent.called⟩
  · rw [List.take_append, List.countP_append]
    exact inv.answered.trans (Nat.le_add_right _ _)
  · intro c' now
    cases now
    have own := asks s.call
    rw [if_pos rfl] at own
    refine ⟨spent.called, ?_, fun _ => ?_, ?_, ?_, fun at_head => ?_⟩
    · omega
    · omega
    · rw [own]
      omega
    · rw [own]
      omega
    · rw [waiting] at at_head
      cases at_head

theorem handle_budget (answer : Bool) (s' : State) (done : handle s answer = some s') : Budget s' := by
  unfold handle at done
  split at done
  next x found =>
    have next : s.sent.take (s.handled + 1) = s.sent.take s.handled ++ [x] := by
      rw [List.take_add_one, found]
      rfl
    have count : (s.sent.take (s.handled + 1)).countP (fun x => !x.cmd.write) =
        (s.sent.take s.handled).countP (fun x => !x.cmd.write) + if x.cmd.write then 0 else 1 := by
      rw [next, List.countP_append, List.countP_singleton]
      cases x.cmd.write <;> rfl
    have answered := inv.answered
    split_ifs at done with write given <;> cases done
    · refine ⟨inv.asks, inv.called, ?_, ?_⟩
      · show s.given.length ≤ _
        rw [State.setReg, count]
        omega
      · intro c' under
        obtain ⟨c, before, rfl⟩ := Option.map_eq_some_iff.mp under
        exact { inv.spent c before with }
    · refine ⟨inv.asks, inv.called, ?_, fun c under => { inv.spent c under with }⟩
      simp only
      rw [count, if_neg write, List.length_append, List.length_singleton]
      omega
    · refine ⟨inv.asks, inv.called, ?_, fun c under => { inv.spent c under with }⟩
      simp only
      rw [count]
      omega
  next => cases done

theorem turn_spent (c c' : Call) (under : s.reading = some c) (waited : c.place ≠ .head) (i : c'.i = c.i + 1)
    (head : c'.place = .head) : Spent { s with reading := some c' } c' := by
  have spent := inv.spent c under
  have more := spent.waits waited
  have asked : State.asks { s with reading := some c' } s.call ≤ c.i + 1 := spent.asked
  refine ⟨spent.called, ?_, fun other => absurd head other, ?_, spent.five, fun _ _ => ?_⟩
  · rw [i]
    exact more
  · rw [i]
    exact asked.trans (Nat.le_succ _)
  · rw [i]
    exact asked

theorem loop_budget (ok : Bool) (s' : State) (done : loop s ok = some s') : Budget s' := by
  unfold loop at done
  split at done
  next c under =>
    have spent := inv.spent c under
    split_ifs at done with head more doWrite sent <;> cases done
    · exact ask_budget inv c under head more doWrite _ _ rfl rfl rfl
    · exact move_budget inv rfl rfl rfl nofun
    · refine move_budget inv rfl rfl rfl ?_
      intro c' now
      cases now
      exact ⟨spent.called, spent.turns, fun _ => more, spent.asked, spent.five, nofun⟩
    · exact move_budget inv rfl rfl rfl nofun
  next => cases done

theorem regain_budget (s' : State) (done : regain s = some s') : Budget s' := by
  unfold regain at done
  split at done
  next c under =>
    have spent := inv.spent c under
    split_ifs at done with expired woken empty <;> cases done
    · refine move_budget inv rfl rfl rfl ?_
      intro c' now
      cases now
      exact turn_spent inv c _ under (by rw [expired]; decide) rfl rfl
    · refine move_budget inv rfl rfl rfl ?_
      intro c' now
      cases now
      exact turn_spent inv c _ under (by rw [woken]; decide) rfl rfl
    · unfold State.take
      split
      · exact move_budget inv rfl rfl rfl nofun
      · refine move_budget inv rfl rfl rfl ?_
        intro c' now
        cases now
        exact ⟨spent.called, spent.turns, fun other => absurd rfl other, spent.asked, spent.five, nofun⟩
  next => cases done

end Budget

theorem step_budget (s : State) (a : Action) (s' : State) (linked : Linked s) (inv : Budget s)
    (done : step s a = some s') : Budget s' := by
  cases a with
  | readRegister regAddr =>
    simp only [step, readRegister] at done
    split at done <;> cases done
    have none := asks_beyond linked (s.call + 1) (Nat.lt_succ_self _)
    refine move_budget inv rfl rfl rfl ?_
    intro c now
    cases now
    refine ⟨Nat.le_add_left 1 _, Nat.zero_le 5, fun other => absurd rfl other, ?_, ?_, fun _ _ => ?_⟩
    · exact none.trans_le (Nat.zero_le _)
    · exact none.trans_le (Nat.zero_le _)
    · exact none.le
  | writeRegister regAddr regValue ok =>
    simp only [step, writeRegister] at done
    split at done
    next idle =>
      split_ifs at done <;> cases done
      · exact write_budget inv _ rfl idle
      · exact inv
    next => cases done
  | loop ok => exact loop_budget inv ok s' done
  | expire =>
    simp only [step, expire] at done
    split at done
    next c under =>
      split_ifs at done with waiting
      cases done
      refine same_budget inv rfl rfl rfl rfl ?_
      intro c' now
      cases now
      exact ⟨c, under, rfl, rfl, by simp [waiting]⟩
    next => cases done
  | spurious =>
    simp only [step, spurious] at done
    split at done
    next c under =>
      split_ifs at done with waiting
      cases done
      refine same_budget inv rfl rfl rfl rfl ?_
      intro c' now
      cases now
      exact ⟨c, under, rfl, rfl, by simp [waiting]⟩
    next => cases done
  | regain => exact regain_budget inv s' done
  | handle answer => exact handle_budget inv answer s' done
  | change addr data =>
    cases done
    refine same_budget inv rfl rfl rfl rfl ?_
    intro c' under
    obtain ⟨c, before, rfl⟩ := Option.map_eq_some_iff.mp under
    exact ⟨c, before, rfl, rfl, Iff.rfl⟩
  | receive =>
    simp only [step, receive] at done
    split at done
    · split_ifs at done
      cases done
      exact same_budget inv rfl rfl rfl rfl fun c under => ⟨c, under, rfl, rfl, Iff.rfl⟩
    · cases done
  | storeWord =>
    simp only [step, storeWord] at done
    split at done
    · split_ifs at done
      cases done
      exact same_budget inv rfl rfl rfl rfl fun c under => ⟨c, under, rfl, rfl, Iff.rfl⟩
    · cases done
  | junk i w =>
    simp only [step, junk] at done
    split at done <;> cases done
    exact same_budget inv rfl rfl rfl rfl fun c under => ⟨c, under, rfl, rfl, Iff.rfl⟩
  | deliver =>
    simp only [step, deliver] at done
    split_ifs at done with ready
    cases done
    refine same_budget inv rfl rfl rfl rfl ?_
    intro c' under
    obtain ⟨c, before, rfl⟩ := Option.map_eq_some_iff.mp under
    refine ⟨c, before, ?_⟩
    split_ifs with waiting
    · exact ⟨rfl, rfl, by simp [waiting]⟩
    · exact ⟨rfl, rfl, Iff.rfl⟩

/-! Every step of the thread is paid for. -/

section Pays
variable {s : State} (linked : Linked s)

theorem potential_under {c : Call} (under : s.reading = some c) :
    s.potential = 3 * (s.given.length - s.crd) + c.left := by
  rw [State.potential, under]
  rfl

theorem potential_idle (idle : s.reading = none) : s.potential = 3 * (s.given.length - s.crd) := by
  rw [State.potential, idle]
  rfl

theorem aside_pays {s' : State} (given : s'.given = s.given) (crd : s'.crd = s.crd) (call : s'.call = s.call)
    (left : s'.reading.elim 0 Call.left ≤ s.reading.elim 0 Call.left) :
    s.earned + s'.potential ≤ s'.earned + s.potential := by
  rw [State.earned, State.earned, State.potential, State.potential, given, crd, call]
  omega

theorem loop_pays (ok : Bool) (s' : State) (done : loop s ok = some s') :
    s.earned + s'.potential + 1 ≤ s'.earned + s.potential := by
  unfold loop at done
  split at done
  next c under =>
    split_ifs at done with head more doWrite sent <;> cases done <;> rw [potential_under under]
    all_goals simp only [State.earned, State.potential, State.ret, Option.elim_some, Option.elim_none, Call.left,
      head]
    all_goals omega
  next => cases done

include linked in
theorem regain_pays (inv : Budget s) (s' : State) (done : regain s = some s') :
    s.earned + s'.potential + 1 ≤ s'.earned + s.potential := by
  unfold regain at done
  split at done
  next c under =>
    have spent := inv.spent c under
    have crd_le := linked.crd_le
    have cwr_le := linked.cwr_le
    split_ifs at done with expired woken empty <;> cases done <;> rw [potential_under under]
    · have more := spent.waits (by rw [expired]; decide)
      simp only [State.earned, State.potential, Option.elim_some, Call.left, expired]
      omega
    · have more := spent.waits (by rw [woken]; decide)
      simp only [State.earned, State.potential, Option.elim_some, Call.left, woken]
      omega
    · -- An ignored response gives back the turn it was found on.
      have more := spent.waits (by rw [woken]; decide)
      unfold State.take
      split
      · simp only [State.earned, State.potential, State.ret, Option.elim_none, Call.left, woken]
        omega
      · simp only [State.earned, State.potential, Option.elim_some, Call.left, woken]
        omega
  next => cases done

include linked in
theorem step_pays (a : Action) (s' : State) (inv : Budget s) (done : step s a = some s') :
    s.earned + s'.potential + (if a.own then 1 else 0) ≤ s'.earned + s.potential := by
  have crd_le := linked.crd_le
  have cwr_le := linked.cwr_le
  cases a with
  | readRegister regAddr =>
    simp only [step, readRegister] at done
    split at done
    next idle =>
      cases done
      rw [potential_idle idle]
      simp only [State.earned, State.potential, Option.elim_some, Call.left, Action.own, Bool.false_eq_true,
        if_false]
      omega
    next => cases done
  | writeRegister regAddr regValue ok =>
    simp only [step, writeRegister] at done
    split at done
    · split_ifs at done <;> cases done <;> exact aside_pays rfl rfl rfl le_rfl
    · cases done
  | loop ok => exact loop_pays ok s' done
  | expire =>
    simp only [step, expire] at done
    split at done
    next c under =>
      split_ifs at done with waiting
      cases done
      have more := (inv.spent c under).waits (by rw [waiting]; decide)
      rw [potential_under under]
      simp only [State.earned, State.potential, Option.elim_some, Call.left, waiting, Action.own, if_true]
      omega
    next => cases done
  | spurious =>
    simp only [step, spurious] at done
    split at done
    next c under =>
      split_ifs at done with waiting
      cases done
      have more := (inv.spent c under).waits (by rw [waiting]; decide)
      rw [potential_under under]
      simp only [State.earned, State.potential, Option.elim_some, Call.left, waiting, Action.own, if_true]
      omega
    next => cases done
  | regain => exact regain_pays linked inv s' done
  | handle answer =>
    simp only [step, handle] at done
    split at done
    · split_ifs at done <;> cases done
      · refine aside_pays rfl rfl rfl ?_
        cases s.reading <;> exact le_rfl
      · simp only [State.earned, State.potential, List.length_append, List.length_singleton, Action.own,
          Bool.false_eq_true, if_false]
        omega
      · exact aside_pays rfl rfl rfl le_rfl
    · cases done
  | change addr data =>
    cases done
    refine aside_pays rfl rfl rfl ?_
    simp only [State.setReg]
    cases s.reading <;> exact le_rfl
  | receive =>
    simp only [step, receive] at done
    split at done
    · split_ifs at done
      cases done
      exact aside_pays rfl rfl rfl le_rfl
    · cases done
  | storeWord =>
    simp only [step, storeWord] at done
    split at done
    · split_ifs at done
      cases done
      exact aside_pays rfl rfl rfl le_rfl
    · cases done
  | junk i w =>
    simp only [step, junk] at done
    split at done <;> cases done
    exact aside_pays rfl rfl rfl le_rfl
  | deliver =>
    simp only [step, deliver] at done
    split_ifs at done with ready
    cases done
    refine aside_pays rfl rfl rfl ?_
    cases s.reading with
    | none => exact le_rfl
    | some c =>
      simp only [Option.map_some, Option.elim_some]
      split_ifs with waiting
      · simp only [Call.left, waiting]
        omega
      · exact le_rfl

end Pays

/-- A call under way can go on. -/
theorem own_enabled (s : State) (c : Call) (under : s.reading = some c) :
    ∃ a s', a.own = true ∧ step s a = some s' := by
  cases place : c.place with
  | head =>
    refine ⟨.loop true, ?_⟩
    simp only [step, loop, under, place, if_true]
    split_ifs <;> exact ⟨_, rfl, rfl⟩
  | waiting => exact ⟨.expire, _, rfl, by simp only [step, expire, under, place, if_true]; rfl⟩
  | expired => exact ⟨.regain, _, rfl, by simp only [step, regain, under, place, if_true]; rfl⟩
  | woken =>
    refine ⟨.regain, ?_⟩
    simp only [step, regain, under, place, reduceCtorEq, if_false, if_true]
    split_ifs <;> exact ⟨_, rfl, rfl⟩

/-- Few of each key, and so many keys. -/
theorem countP_le_of_keys {α : Type} (entries : List α) (p : α → Bool) (key : α → Nat) (few keys : Nat)
    (known : ∀ x ∈ entries, p x = true → 1 ≤ key x ∧ key x ≤ keys)
    (each : ∀ k, (entries.countP fun x => p x && key x == k) ≤ few) : entries.countP p ≤ few * keys := by
  induction keys generalizing p with
  | zero =>
    have none : entries.countP p = 0 := by
      rw [List.countP_eq_zero]
      intro x member here
      have range := known x member here
      omega
    rw [none]
    exact Nat.zero_le _
  | succ keys ih =>
    have split := List.countP_eq_countP_filter_add entries p fun x => key x == keys + 1
    rw [List.countP_filter, List.countP_filter] at split
    have last := each (keys + 1)
    have others := ih (fun x => p x && !(key x == keys + 1))
      (by
        intro x member here
        have range := known x member (by simp_all)
        have other : key x ≠ keys + 1 := by simp_all
        omega)
      (by
        intro k
        refine le_trans ?_ (each k)
        apply List.countP_mono_left
        intro x _ here
        simp_all)
    rw [split, Nat.mul_succ]
    omega

/-- In every run: a call of `ReadRegister` sends its command at most five times; the board has given at most
five responses a call; while a call is under way its thread can go on, and all the steps it has taken in all
calls are at most 31 for each, however many responses had to be ignored. -/
theorem reads_end (regs : BitVec 8 → BitVec 32) (actions : List Action) (s : State)
    (reached : Transition.run step (State.init regs) actions = some s) :
    (∀ call, s.asks call ≤ 5) ∧ s.given.length ≤ 5 * s.call ∧
      (∀ c, s.reading = some c → ∃ a s', a.own = true ∧ step s a = some s') ∧
      actions.countP Action.own ≤ 31 * s.call := by
  have keeps : ∀ s a s', Linked s ∧ Budget s → step s a = some s' → Linked s' ∧ Budget s' :=
    fun s a s' inv done => ⟨step_linked s a s' inv.1 done, step_budget s a s' inv.1 inv.2 done⟩
  have start : Linked (State.init regs) ∧ Budget (State.init regs) := ⟨Linked.init regs, Budget.init regs⟩
  obtain ⟨linked, budget⟩ := Transition.run_invariant step _ keeps start reached
  have given : s.given.length ≤ 5 * s.call := by
    have sent : (s.sent.countP fun x => !x.cmd.write) ≤ 5 * s.call := by
      apply countP_le_of_keys s.sent _ Sent.call
      · intro x member read
        exact ⟨budget.called x member (by simpa using read), linked.sent_le x member⟩
      · exact budget.asks
    calc
      s.given.length ≤ (s.sent.take s.handled).countP fun x => !x.cmd.write := budget.answered
      _ ≤ s.sent.countP fun x => !x.cmd.write := (List.take_sublist _ _).countP_le
      _ ≤ 5 * s.call := sent
  refine ⟨budget.asks, given, own_enabled s, ?_⟩
  have paid := Transition.run_count_le step Action.own State.earned State.potential _ keeps
    (fun s a s' inv done => step_pays inv.1 a s' inv.2 done) start reached
  have earned : State.earned (State.init regs) + s.potential + actions.countP Action.own ≤
      16 * s.call + 3 * s.given.length + State.potential (State.init regs) := paid
  simp only [State.earned, State.potential, State.init, List.length_nil, Option.elim_none] at earned
  omega

/-- Two calls; the second finds the second answer to the first, and ignores it. -/
theorem reads_end_stale :
    ∃ s : State, Transition.run step (State.init fun _ => 7)
        (readTwice ++ [.readRegister 8, .loop true] ++ response ++ [.regain, .loop true]) = some s ∧
      s.asks 1 = 2 ∧ s.asks 2 = 1 ∧ s.given.length ≤ 10 := by
  have computed : (Transition.run step (State.init fun _ => 7)
      (readTwice ++ [.readRegister 8, .loop true] ++ response ++ [.regain, .loop true])).map
        (fun s => (s.asks 1, s.asks 2, s.call)) = some (2, 1, 2) := by decide +kernel
  obtain ⟨s, reached, counts⟩ := Option.map_eq_some_iff.mp computed
  injection counts with first rest
  injection rest with second calls
  have few := (reads_end _ _ s reached).2.1
  rw [calls] at few
  exact ⟨s, reached, first, second, few⟩

end Ipimb.Register
