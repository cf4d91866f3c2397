import Ipimb.Queue.Responses

/-!
Is a register read fresh? `ReadRegister` sends its command again after a timeout, so more than one
answer may come; a later call flushes what has been delivered by then, but tells what comes after from
its own answers by the address alone.
-/

namespace Ipimb.Register
open Ipimb.Chunk Ipimb.BoardData Ipimb.Acquire Ipimb.Command

/-- A result other than BAD_VALUE is a content the register had during the call, and comes from the
answer to a command of this call. -/
def FreshReturn (ret : Return) : Prop :=
  ret.result ≠ badValue → ret.result ∈ ret.contents ∧ ∃ a ∈ ret.source, a.call = ret.call

structure Fresh (s : State) : Prop where
  pending : ∀ c ∈ s.reading, ∀ k, s.crd ≤ k → k < s.board.cwr →
    ∀ a ∈ s.given[k]?, a.addr = c.regAddr → a.call = s.call
  returned : ∀ ret ∈ s.returned, FreshReturn ret

theorem Fresh.init (regs : BitVec 8 → BitVec 32) : Fresh (State.init regs) where
  pending := by intro c now; cases now
  returned := by intro ret now; cases now

/-- While a register is being read, no answer to an earlier read of it is delivered. -/
def NoLeftover (s : State) (a : Action) : Prop :=
  a = .deliver → ∀ c ∈ s.reading, ∀ ans ∈ s.given[s.board.cwr]?, ans.addr = c.regAddr → ans.call = s.call

theorem step_fresh (s : State) (a : Action) (s' : State) (linked : Linked s) (intact : Intact s)
    (current : NoLeftover s a) (inv : Fresh s) (done : step s a = some s') : Fresh s' := by
  have of_kept : Kept s s' → Fresh s' := by
    intro kept
    constructor
    · intro c' under
      obtain ⟨c, before, addr, -⟩ := kept.under c' under
      rw [kept.crd_eq, kept.cwr_eq, kept.given_eq, kept.call_eq, addr]
      exact inv.pending c before
    · rw [kept.returned_eq]
      exact inv.returned
  cases effect_of_step s a s' done with
  | kept kept board_eq => exact of_kept kept
  | stored stores kept slot board_eq => exact of_kept kept
  | called regAddr crd_eq returned_eq =>
    refine ⟨fun c under k low high => ?_, by rw [returned_eq]; exact inv.returned⟩
    omega
  | gaveUp c c' under same =>
    refine ⟨nofun, fun ret member => ?_⟩
    rcases List.mem_append.mp member with old | new
    · exact inv.returned ret old
    · rw [List.mem_singleton.mp new]
      exact fun good => absurd rfl good
  | took c under woken unread =>
    obtain ⟨ans, found, addr, data⟩ := oldest_unread linked intact under unread
    have le := linked.crd_le
    unfold State.take
    split
    next same =>
      refine ⟨nofun, fun ret member => ?_⟩
      rcases List.mem_append.mp member with old | new
      · exact inv.returned ret old
      · rw [List.mem_singleton.mp new]
        intro good
        have call := inv.pending c under s.crd le_rfl (by omega) ans found (addr.mp same)
        have shown := ((linked.own c under).answered ans (List.mem_of_getElem? found) call).2
        exact ⟨by simpa only [data] using shown, ans, found, call⟩
    next other =>
      refine ⟨?_, inv.returned⟩
      intro c' now k low high
      cases now
      exact inv.pending c under k (Nat.le_of_succ_le low) high
  | answered n new =>
    refine ⟨fun c under k low high => ?_, inv.returned⟩
    have older : k < s.given.length := Nat.lt_of_lt_of_le high linked.cwr_le
    simp only [List.getElem?_append_left older]
    exact inv.pending c under k low high
  | delivered ready crd_eq board_eq given_eq call_eq returned_eq under =>
    refine ⟨fun c' under' k low high => ?_, by rw [returned_eq]; exact inv.returned⟩
    obtain ⟨c, before, addr, -⟩ := under c' under'
    rw [board_eq] at high
    rw [crd_eq] at low
    rw [given_eq, call_eq, addr]
    by_cases newest : k = s.board.cwr
    · rw [newest]
      exact current rfl c before
    · have bound : k < s.board.cwr + 1 := high
      exact inv.pending c before k low (by omega)

/-- In every run in which no leftover of an earlier read of the register is delivered while it is being
read, and the reader thread does not come round to unread responses, every result is fresh. -/
theorem readRegister_fresh (regs : BitVec 8 → BitVec 32) (actions : List Action) (s : State)
    (reached : Transition.run step (State.init regs) actions = some s)
    (along : Transition.Along step (fun s a => Roomy s a ∧ NoLeftover s a) (State.init regs) actions) :
    ∀ ret ∈ s.returned, FreshReturn ret := by
  have inv := Transition.run_invariant_along step (fun s a => Roomy s a ∧ NoLeftover s a)
    (fun s => Linked s ∧ Intact s ∧ Fresh s)
    (fun s a s' inv good done => ⟨step_linked s a s' inv.1 done,
      step_intact s a s' inv.1 good.1 inv.2.1 done,
      step_fresh s a s' inv.1 inv.2.1 good.2 inv.2.2 done⟩)
    ⟨Linked.init regs, Intact.init regs, Fresh.init regs⟩ along reached
  exact inv.2.2.returned

instance (s : State) (a : Action) : Decidable (NoLeftover s a) :=
  inferInstanceAs (Decidable (a = .deliver → ∀ c ∈ s.reading, ∀ ans ∈ s.given[s.board.cwr]?,
    ans.addr = c.regAddr → ans.call = s.call))

/-- After a read that was sent twice another register is written and read; the second answer to the first read
comes before the answer. -/
def otherRegister : List Action :=
  readTwice ++ [.writeRegister 5 3#32 true, .handle true, .readRegister 5, .loop true] ++ response ++
    [.regain, .loop true, .handle true] ++ response ++ [.regain]

theorem readRegister_fresh_other :
    ∃ s, Transition.run step (State.init fun _ => 7#32) otherRegister = some s ∧
      s.returned = [⟨1, 9, 7#32, [7#32], some ⟨9, 7#32, 1⟩, true, [⟨9, 7#32, 1⟩], false⟩,
        ⟨2, 5, 3#32, [3#32], some ⟨5, 3#32, 2⟩, true, [⟨9, 7#32, 1⟩, ⟨5, 3#32, 2⟩], false⟩] ∧
      ∀ ret ∈ s.returned, FreshReturn ret := by
  have along : Transition.Along step (fun s a => Roomy s a ∧ NoLeftover s a) (State.init fun _ => 7#32)
      otherRegister := by decide +kernel
  have computed : (Transition.run step (State.init fun _ => 7#32) otherRegister).map State.returned =
      some [⟨1, 9, 7#32, [7#32], some ⟨9, 7#32, 1⟩, true, [⟨9, 7#32, 1⟩], false⟩,
        ⟨2, 5, 3#32, [3#32], some ⟨5, 3#32, 2⟩, true, [⟨9, 7#32, 1⟩, ⟨5, 3#32, 2⟩], false⟩] := by
    decide +kernel
  obtain ⟨s, reached, returned⟩ := Option.map_eq_some_iff.mp computed
  exact ⟨s, reached, returned, readRegister_fresh (fun _ => 7#32) otherRegister s reached along⟩

/-- The register of the first read itself is written and read again; the second answer comes only now. -/
def leftover : List Action :=
  readTwice ++ [.writeRegister 9 2#32 true, .handle true, .readRegister 9, .loop true] ++
    response ++ [.regain]

/-- The result is what the register held before it was written. -/
theorem readRegister_stale :
    ¬∀ (actions : List Action) (s : State),
      Transition.run step (State.init fun _ => 1#32) actions = some s →
        ∀ ret ∈ s.returned, FreshReturn ret := by
  intro always
  have computed : (Transition.run step (State.init fun _ => 1#32) leftover).map
      (fun s => s.returned[1]?) =
        some (some ⟨2, 9, 1#32, [2#32], some ⟨9, 1#32, 1⟩, true, [⟨9, 1#32, 1⟩], false⟩) := by
    decide +kernel
  obtain ⟨s, reached, returned⟩ := Option.map_eq_some_iff.mp computed
  have fresh := always leftover s reached _ (List.mem_of_getElem? returned) (by decide)
  exact absurd fresh.1 (by decide)

end Ipimb.Register
