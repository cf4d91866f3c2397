import Ipimb.Queue.Responses

/-!
Does a register read fail only when no answer came? `ReadRegister` waits on the condition variable
before it looks at the queue, and after a timeout does not look at all.
-/

namespace Ipimb.Register
open Ipimb.Chunk Ipimb.BoardData Ipimb.Acquire Ipimb.Command

/-- BAD_VALUE is returned only if no answer for the register was delivered, provided all commands were
sent; and no wait begun with a response unread, after another had been ignored, has timed out. -/
def HeardReturn (ret : Return) : Prop :=
  (ret.result = badValue → ret.sent = true → ∀ a ∈ ret.got, a.addr ≠ ret.regAddr) ∧ ret.late = false

/-- For the call under way: what has been taken was not for it, what is to come is honest, and a response is
unread only between a wakeup and the mutex, with no other behind it unless it is the answer. -/
structure HeardCall (s : State) (c : Call) : Prop where
  passed : ∀ k, c.flush ≤ k → k < s.crd → ∀ a ∈ s.given[k]?, a.addr ≠ c.regAddr
  honest : ∀ k, c.flush ≤ k → k < s.board.cwr → ∀ a ∈ s.given[k]?, a.addr = c.regAddr → a.data ≠ badValue
  unread : s.crd ≠ s.board.cwr →
    c.place = .woken ∧ (s.board.cwr = s.crd + 1 ∨ ∀ a ∈ s.given[s.crd]?, a.addr = c.regAddr)
  began : c.queued = false
  in_time : c.late = false

structure Heard (s : State) : Prop where
  call : ∀ c ∈ s.reading, HeardCall s c
  returned : ∀ ret ∈ s.returned, HeardReturn ret

theorem Heard.init (regs : BitVec 8 → BitVec 32) : Heard (State.init regs) where
  call := by intro c now; cases now
  returned := by intro ret now; cases now

/-- No response is delivered to a call whose wait has timed out, nor behind an unread one for another
register. -/
def Prompt (s : State) (a : Action) : Prop :=
  a = .deliver → ∀ c ∈ s.reading, c.place ≠ .expired ∧
    (s.crd ≠ s.board.cwr → ∀ first ∈ s.given[s.crd]?, first.addr = c.regAddr)

/-- No answer for the register being read says BAD_VALUE. -/
def Honest (s : State) (a : Action) : Prop :=
  a = .deliver → ∀ c ∈ s.reading, ∀ ans ∈ s.given[s.board.cwr]?, ans.addr = c.regAddr → ans.data ≠ badValue

theorem mem_between {given : List Answer} {m n : Nat} {a : Answer} (member : a ∈ (given.take n).drop m) :
    ∃ k, m ≤ k ∧ k < n ∧ given[k]? = some a := by
  obtain ⟨i, found⟩ := List.mem_iff_getElem?.mp member
  rw [List.getElem?_drop, List.getElem?_take] at found
  split_ifs at found with bound
  exact ⟨m + i, Nat.le_add_right m i, bound, found⟩

theorem HeardCall.empty {s : State} {c : Call} (heard : HeardCall s c) {place : Place} (here : c.place = place)
    (asleep : place ≠ .woken) : s.crd = s.board.cwr := by
  by_contra some_left
  exact asleep (here.symm.trans (heard.unread some_left).1)

theorem HeardCall.gaveUp {s : State} {c : Call} (heard : HeardCall s c) (empty : s.crd = s.board.cwr)
    (source : Option Answer) :
    HeardReturn ⟨s.call, c.regAddr, badValue, c.contents, source, c.sent,
      (s.given.take s.board.cwr).drop c.flush, c.late⟩ := by
  refine ⟨fun _ _ a member => ?_, heard.in_time⟩
  obtain ⟨k, low, high, found⟩ := mem_between member
  exact heard.passed k low (by omega) a found

theorem Heard.ret {s : State} (inv : Heard s) (crd : Nat) (c : Call) (result : BitVec 32)
    (source : Option Answer)
    (new : HeardReturn ⟨s.call, c.regAddr, result, c.contents, source, c.sent,
      (s.given.take s.board.cwr).drop c.flush, c.late⟩) :
    Heard ({ s with crd := crd }.ret c result source) := by
  refine ⟨nofun, fun ret member => ?_⟩
  rcases List.mem_append.mp member with old | last
  · exact inv.returned ret old
  · rw [List.mem_singleton.mp last]
    exact new

section Heard
variable {s s' : State} (inv : Heard s)
include inv

theorem wait_heard {c : Call} (under : s.reading = some c) (head : c.place = .head) (sent : List Sent) :
    Heard { s with
      reading := some { c with place := .waiting, queued := decide (s.crd ≠ s.board.cwr) }
      sent := sent } := by
  have heard := inv.call c under
  have empty := heard.empty head (by decide)
  refine ⟨?_, inv.returned⟩
  intro c' now
  cases now
  exact ⟨heard.passed, heard.honest, fun some_left => absurd empty some_left, by simp [empty], heard.in_time⟩

theorem loop_heard (ok : Bool) (done : loop s ok = some s') : Heard s' := by
  unfold loop at done
  split at done
  next c under =>
    have heard := inv.call c under
    split_ifs at done with head more write sent <;> cases done
    · exact wait_heard inv under head _
    · exact inv.ret s.crd _ _ _ ⟨nofun, heard.in_time⟩
    · exact wait_heard inv under head s.sent
    · exact inv.ret s.crd c _ _ (heard.gaveUp (heard.empty head (by decide)) none)
  next => cases done

theorem nothing_heard {c : Call} (under : s.reading = some c) (empty : s.crd = s.board.cwr) (i : Nat)
    (doWrite late : Bool) (in_time : late = false) :
    Heard { s with reading := some { c with i, doWrite, place := .head, late } } := by
  have heard := inv.call c under
  refine ⟨?_, inv.returned⟩
  intro c' now
  cases now
  exact ⟨heard.passed, heard.honest, fun some_left => absurd empty some_left, heard.began, in_time⟩

theorem regain_heard (linked : Linked s) (intact : Intact s) (done : regain s = some s') : Heard s' := by
  have le := linked.crd_le
  unfold regain at done
  split at done
  next c under =>
    have heard := inv.call c under
    split_ifs at done with expired woken empty <;> cases done
    · refine nothing_heard inv under (heard.empty expired (by decide)) _ _ _ ?_
      rw [heard.in_time, heard.began, Bool.and_false, Bool.or_false]
    · exact nothing_heard inv under empty.symm _ _ _ heard.in_time
    · obtain ⟨a, found, addr, data⟩ := oldest_unread linked intact under empty
      have flush_le := (linked.own c under).flush_le
      unfold State.take
      split
      next same =>
        refine inv.ret (s.crd + 1) c _ _ ⟨fun bad => ?_, heard.in_time⟩
        rw [data] at bad
        exact absurd bad (heard.honest s.crd flush_le (by omega) a found (addr.mp same))
      next other =>
        -- It was not the answer, so it was the only one.
        have last : s.board.cwr = s.crd + 1 := by
          refine (heard.unread (Ne.symm empty)).2.resolve_right fun answer => ?_
          exact other (addr.mpr (answer a found))
        refine ⟨?_, inv.returned⟩
        intro c' now
        cases now
        refine ⟨fun k low high a' found' => ?_, heard.honest, fun some_left => absurd last.symm some_left,
          heard.began, heard.in_time⟩
        by_cases newest : k = s.crd
        · rw [newest, found] at found'
          cases found'
          exact fun same => other (addr.mpr same)
        · have bound : k < s.crd + 1 := high
          exact heard.passed k low (by omega) a' found'
  next => cases done

theorem deliver_heard (prompt : Prompt s .deliver) (honest : Honest s .deliver) (done : deliver s = some s') :
    Heard s' := by
  unfold deliver at done
  split_ifs at done with ready
  cases done
  refine ⟨fun c' under => ?_, inv.returned⟩
  obtain ⟨c, before, rfl⟩ := Option.map_eq_some_iff.mp under
  have heard := inv.call c before
  obtain ⟨in_wait, answer⟩ := prompt rfl c before
  have upcoming : ∀ k, c.flush ≤ k → k < s.board.cwr + 1 →
      ∀ a ∈ s.given[k]?, a.addr = c.regAddr → a.data ≠ badValue := by
    intro k low high
    by_cases newest : k = s.board.cwr
    · rw [newest]
      exact honest rfl c before
    · exact heard.honest k low (by omega)
  have single : s.board.cwr + 1 = s.crd + 1 ∨ ∀ a ∈ s.given[s.crd]?, a.addr = c.regAddr := by
    by_cases empty : s.crd = s.board.cwr
    · exact .inl (by rw [empty])
    · exact .inr (answer empty)
  split_ifs with waiting
  · exact ⟨heard.passed, upcoming, fun _ => ⟨rfl, single⟩, heard.began, heard.in_time⟩
  · have woken : c.place = .woken := by
      cases place : c.place with
      | head => exact absurd place (ready.2 c before)
      | waiting => exact absurd place waiting
      | expired => exact absurd place in_wait
      | woken => rfl
    exact ⟨heard.passed, upcoming, fun _ => ⟨woken, single⟩, heard.began, heard.in_time⟩

theorem setReg_heard (addr : BitVec 8) (data : BitVec 32) : Heard (s.setReg addr data) := by
  refine ⟨fun c' under => ?_, inv.returned⟩
  obtain ⟨c, before, rfl⟩ := Option.map_eq_some_iff.mp under
  have heard := inv.call c before
  exact ⟨heard.passed, heard.honest, heard.unread, heard.began, heard.in_time⟩

theorem answer_heard (linked : Linked s) (new : Answer) : Heard { s with given := s.given ++ [new] } := by
  refine ⟨fun c under => ?_, inv.returned⟩
  have heard := inv.call c under
  have older : ∀ k < s.board.cwr, (s.given ++ [new])[k]? = s.given[k]? :=
    fun k bound => List.getElem?_append_left (Nat.lt_of_lt_of_le bound linked.cwr_le)
  refine ⟨fun k low high => ?_, fun k low high => ?_, fun some_left => ?_, heard.began, heard.in_time⟩
  · have bound : k < s.board.cwr := Nat.lt_of_lt_of_le high linked.crd_le
    simp only [older k bound]
    exact heard.passed k low high
  · simp only [older k high]
    exact heard.honest k low high
  · simp only [older s.crd (lt_of_le_of_ne linked.crd_le some_left)]
    exact heard.unread some_left

theorem handled_heard (n : Nat) : Heard { s with handled := n } := by
  refine ⟨fun c under => ?_, inv.returned⟩
  have heard := inv.call c under
  exact ⟨heard.passed, heard.honest, heard.unread, heard.began, heard.in_time⟩

theorem handle_heard (linked : Linked s) (answer : Bool) (done : handle s answer = some s') :
    Heard s' := by
  unfold handle at done
  split at done
  next x found =>
    split_ifs at done <;> cases done
    · exact setReg_heard (handled_heard inv _) _ _
    · exact handled_heard (answer_heard inv linked _) _
    · exact handled_heard inv _
  next => cases done

theorem leave_heard {c : Call} (under : s.reading = some c) (waiting : c.place = .waiting) (place : Place) :
    Heard { s with reading := some { c with place := place } } := by
  have heard := inv.call c under
  have empty := heard.empty waiting (by decide)
  refine ⟨?_, inv.returned⟩
  intro c' now
  cases now
  exact ⟨heard.passed, heard.honest, fun some_left => absurd empty some_left, heard.began, heard.in_time⟩

end Heard

theorem step_heard (s : State) (a : Action) (s' : State) (linked : Linked s) (intact : Intact s)
    (prompt : Prompt s a) (honest : Honest s a) (inv : Heard s) (done : step s a = some s') :
    Heard s' := by
  have of_same : ∀ s', s'.crd = s.crd → s'.board.cwr = s.board.cwr → s'.given = s.given →
      s'.returned = s.returned → s'.reading = s.reading → Heard s' := by
    intro s' crd cwr given returned reading
    refine ⟨fun c under => ?_, by rw [returned]; exact inv.returned⟩
    rw [reading] at under
    have heard := inv.call c under
    constructor
    · rw [crd, given]
      exact heard.passed
    · rw [cwr, given]
      exact heard.honest
    · rw [crd, cwr, given]
      exact heard.unread
    · exact heard.began
    · exact heard.in_time
  cases a with
  | readRegister regAddr =>
    simp only [step, readRegister] at done
    split at done <;> cases done
    refine ⟨?_, inv.returned⟩
    intro c now
    cases now
    exact ⟨fun k low high => absurd (Nat.lt_of_le_of_lt low high) (lt_irrefl _),
      fun k low high => absurd (Nat.lt_of_le_of_lt low high) (lt_irrefl _),
      fun some_left => absurd rfl some_left, rfl, rfl⟩
  | writeRegister regAddr regValue ok =>
    simp only [step, writeRegister] at done
    split at done
    · split_ifs at done <;> cases done
      · exact of_same _ rfl rfl rfl rfl rfl
      · exact inv
    · cases done
  | loop ok => exact loop_heard inv ok done
  | expire =>
    simp only [step, expire] at done
    split at done
    next c under =>
      split_ifs at done with waiting
      cases done
      exact leave_heard inv under waiting _
    next => cases done
  | spurious =>
    simp only [step, spurious] at done
    split at done
    next c under =>
      split_ifs at done with waiting
      cases done
      exact leave_heard inv under waiting _
    next => cases done
  | regain => exact regain_heard inv linked intact done
  | handle answer => exact handle_heard inv linked answer done
  | change addr data =>
    cases done
    exact setReg_heard inv addr data
  | receive =>
    simp only [step, receive] at done
    split at done
    · split_ifs at done
      cases done
      exact of_same _ rfl rfl rfl rfl rfl
    · cases done
  | storeWord =>
    simp only [step, storeWord] at done
    split at done
    · split_ifs at done
      cases done
      exact of_same _ rfl (putBuffer_cwr _ _ _) rfl rfl rfl
    · cases done
  | junk i w =>
    simp only [step, junk] at done
    split at done <;> cases done
    exact of_same _ rfl (putBuffer_cwr _ _ _) rfl rfl rfl
  | deliver => exact deliver_heard inv prompt honest done

/-- In every run in which no response is delivered to a call between the timeout of its wait and the mutex,
nor behind an unread one for another register, no answer for the register says BAD_VALUE, and the reader
thread does not come round to unread responses, a read fails only when no answer came, and after a response
has been ignored no wait times out that began with a response unread. -/
theorem readRegister_heard (regs : BitVec 8 → BitVec 32) (actions : List Action) (s : State)
    (reached : Transition.run step (State.init regs) actions = some s)
    (along : Transition.Along step (fun s a => Roomy s a ∧ Prompt s a ∧ Honest s a) (State.init regs)
      actions) :
    (∀ ret ∈ s.returned, HeardReturn ret) ∧ ∀ c ∈ s.reading, c.late = false := by
  have inv := Transition.run_invariant_along step (fun s a => Roomy s a ∧ Prompt s a ∧ Honest s a)
    (fun s => Linked s ∧ Intact s ∧ Heard s)
    (fun s a s' inv good done => ⟨step_linked s a s' inv.1 done,
      step_intact s a s' inv.1 good.1 inv.2.1 done,
      step_heard s a s' inv.1 inv.2.1 good.2.1 good.2.2 inv.2.2 done⟩)
    ⟨Linked.init regs, Intact.init regs, Heard.init regs⟩ along reached
  exact ⟨inv.2.2.returned, fun c under => (inv.2.2.call c under).in_time⟩

instance (s : State) (a : Action) : Decidable (Prompt s a) :=
  inferInstanceAs (Decidable (a = .deliver → ∀ c ∈ s.reading, c.place ≠ .expired ∧
    (s.crd ≠ s.board.cwr → ∀ first ∈ s.given[s.crd]?, first.addr = c.regAddr)))

instance (s : State) (a : Action) : Decidable (Honest s a) :=
  inferInstanceAs (Decidable (a = .deliver → ∀ c ∈ s.reading, ∀ ans ∈ s.given[s.board.cwr]?,
    ans.addr = c.regAddr → ans.data ≠ badValue))

/-- The first command gets no answer in time, the second one does, after a leftover for another
register. -/
def secondTry : List Action :=
  readTwice ++ [.readRegister 5, .loop true, .expire, .regain, .loop true] ++ response ++
    [.regain, .loop true, .handle false, .handle true] ++ response ++ [.regain]

theorem readRegister_heard_secondTry :
    ∃ s, Transition.run step (State.init fun _ => 1#32) secondTry = some s ∧
      s.returned[1]? = some ⟨2, 5, 1#32, [1#32], some ⟨5, 1#32, 2⟩, true,
        [⟨9, 1#32, 1⟩, ⟨5, 1#32, 2⟩], false⟩ ∧
      ∀ ret ∈ s.returned, HeardReturn ret := by
  have along : Transition.Along step (fun s a => Roomy s a ∧ Prompt s a ∧ Honest s a)
      (State.init fun _ => 1#32) secondTry := by decide +kernel
  have computed : (Transition.run step (State.init fun _ => 1#32) secondTry).map
      (fun s => s.returned[1]?) = some (some ⟨2, 5, 1#32, [1#32], some ⟨5, 1#32, 2⟩, true,
        [⟨9, 1#32, 1⟩, ⟨5, 1#32, 2⟩], false⟩) := by decide +kernel
  obtain ⟨s, reached, returned⟩ := Option.map_eq_some_iff.mp computed
  exact ⟨s, reached, returned, (readRegister_heard (fun _ => 1#32) _ s reached along).1⟩

/-- The leftover of an earlier read and the answer come within one wakeup. The leftover is ignored, the
wait times out over the answer, and no further command is answered. -/
def folded : List Action :=
  readTwice ++ [.readRegister 5, .loop true, .handle true] ++ response ++ response ++
    [.regain, .loop true, .expire, .regain] ++
    (List.replicate 4 [.loop true, .expire, .regain]).flatten ++ [.loop true]

/-- The read fails over an answer that has been delivered. -/
theorem readRegister_deaf :
    ¬∀ (actions : List Action) (s : State),
      Transition.run step (State.init fun _ => 1#32) actions = some s →
        (∀ ret ∈ s.returned, HeardReturn ret) ∧ ∀ c ∈ s.reading, c.late = false := by
  intro always
  have computed : (Transition.run step (State.init fun _ => 1#32) folded).map
      (fun s => s.returned[1]?) = some (some ⟨2, 5, badValue, [1#32], none, true,
        [⟨9, 1#32, 1⟩, ⟨5, 1#32, 2⟩], true⟩) := by decide +kernel
  obtain ⟨s, reached, returned⟩ := Option.map_eq_some_iff.mp computed
  have heard := (always folded s reached).1 _ (List.mem_of_getElem? returned)
  exact heard.1 rfl rfl ⟨5, 1#32, 2⟩ (by decide) rfl

end Ipimb.Register
