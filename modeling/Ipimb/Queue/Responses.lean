import Ipimb.Library.Ring
import Ipimb.Queue.Register

/-!
What holds of the responses in every run. They carry the call of the command they answer, and the
answers to the call under way show contents the register has had since it began. What a step can do to
the queue is said once; unread responses stay in their slots unless the reader thread comes round.
-/

namespace Ipimb.Register
open Ipimb.Chunk Ipimb.BoardData Ipimb.Acquire Ipimb.Command

/-- The commands and responses of the call under way. -/
structure Own (s : State) (c : Call) : Prop where
  flush_le : c.flush ≤ s.crd
  now : s.regs c.regAddr ∈ c.contents
  asked : ∀ x ∈ s.sent, x.call = s.call → x.cmd = ⟨false, c.regAddr.setWidth 32, 0#32⟩
  answered : ∀ a ∈ s.given, a.call = s.call → a.addr = c.regAddr ∧ a.data ∈ c.contents

structure Linked (s : State) : Prop where
  crd_le : s.crd ≤ s.board.cwr
  cwr_le : s.board.cwr ≤ s.given.length
  storing : ∀ i ∈ s.storing, s.board.cwr < s.given.length ∧ i ≤ len true ∧
    ∀ a ∈ s.given[s.board.cwr]?, ∀ j < i, s.board.getBuffer true j = a.words.getD j 0#16
  sent_le : ∀ x ∈ s.sent, x.call ≤ s.call
  given_le : ∀ a ∈ s.given, a.call ≤ s.call
  own : ∀ c ∈ s.reading, Own s c

theorem Linked.init (regs : BitVec 8 → BitVec 32) : Linked (State.init regs) where
  crd_le := le_rfl
  cwr_le := le_rfl
  storing := by simp [State.init]
  sent_le := by simp [State.init]
  given_le := by simp [State.init]
  own := by simp [State.init]

section Linked
variable {s s' : State} (inv : Linked s)
include inv

theorem readRegister_linked (regAddr : BitVec 8) (done : readRegister s regAddr = some s') : Linked s' := by
  unfold readRegister at done
  split at done
  next =>
    cases done
    refine { inv with crd_le := le_rfl, sent_le := ?_, given_le := ?_, own := ?_ }
    · exact fun x member => (inv.sent_le x member).trans (Nat.le_succ _)
    · exact fun a member => (inv.given_le a member).trans (Nat.le_succ _)
    · intro c now
      cases now
      refine ⟨le_rfl, List.mem_singleton_self _, fun x member new => ?_, fun a member new => ?_⟩
      · have older := inv.sent_le x member
        simp only at new
        omega
      · have older := inv.given_le a member
        simp only at new
        omega
  next => cases done

theorem writeRegister_linked (regAddr : BitVec 8) (regValue : BitVec 32) (ok : Bool)
    (done : writeRegister s regAddr regValue ok = some s') : Linked s' := by
  unfold writeRegister at done
  split at done
  next idle =>
    split at done
    · cases done
      refine { inv with sent_le := ?_, own := ?_ }
      · intro x member
        rcases List.mem_append.mp member with old | new
        · exact inv.sent_le x old
        · rw [List.mem_singleton.mp new]
      · intro c under
        rw [idle] at under
        cases under
    · cases done
      exact inv
  next => cases done

theorem place_linked {c : Call} (under : s.reading = some c) (c' : Call) (regAddr : c'.regAddr = c.regAddr)
    (flush : c'.flush = c.flush) (contents : c'.contents = c.contents) :
    Linked { s with reading := some c' } := by
  have own := inv.own c under
  refine { inv with own := ?_ }
  intro c'' now
  cases now
  constructor
  · rw [flush]
    exact own.flush_le
  · rw [regAddr, contents]
    exact own.now
  · rw [regAddr]
    exact own.asked
  · rw [regAddr, contents]
    exact own.answered

theorem ret_linked (c : Call) (result : BitVec 32) (source : Option Answer) :
    Linked (s.ret c result source) :=
  { inv with own := by intro c' now; cases now }

theorem loop_linked (ok : Bool) (done : loop s ok = some s') : Linked s' := by
  unfold loop at done
  split at done
  next c under =>
    have own := inv.own c under
    split_ifs at done <;> cases done
    · refine { inv with sent_le := ?_, own := ?_ }
      · intro x member
        rcases List.mem_append.mp member with old | new
        · exact inv.sent_le x old
        · rw [List.mem_singleton.mp new]
      · intro c' now
        cases now
        refine ⟨own.flush_le, own.now, ?_, own.answered⟩
        intro x member same
        rcases List.mem_append.mp member with old | new
        · exact own.asked x old same
        · rw [List.mem_singleton.mp new]
    · exact ret_linked inv _ _ _
    · exact place_linked inv under _ rfl rfl rfl
    · exact ret_linked inv _ _ _
  next => cases done

theorem expire_linked (done : expire s = some s') : Linked s' := by
  unfold expire at done
  split at done
  next c under =>
    split_ifs at done
    cases done
    exact place_linked inv under _ rfl rfl rfl
  next => cases done

theorem spurious_linked (done : spurious s = some s') : Linked s' := by
  unfold spurious at done
  split at done
  next c under =>
    split_ifs at done
    cases done
    exact place_linked inv under _ rfl rfl rfl
  next => cases done

theorem take_linked (c : Call) (under : s.reading = some c) (unread : s.crd < s.board.cwr)
    (resp : IpimBoardResponse) : Linked (s.take c resp) := by
  have own := inv.own c under
  unfold State.take
  split
  · exact { inv with crd_le := unread, own := by intro c' now; cases now }
  · refine { inv with crd_le := unread, own := ?_ }
    intro c' now
    cases now
    exact ⟨own.flush_le.trans (Nat.le_succ _), own.now, own.asked, own.answered⟩

theorem regain_linked (done : regain s = some s') : Linked s' := by
  unfold regain at done
  split at done
  next c under =>
    have le := inv.crd_le
    split_ifs at done with expired woken empty <;> cases done
    · exact place_linked inv under _ rfl rfl rfl
    · exact place_linked inv under _ rfl rfl rfl
    · exact take_linked inv c under (by omega) _
  next => cases done

theorem setReg_linked (addr : BitVec 8) (data : BitVec 32) : Linked (s.setReg addr data) := by
  refine { inv with own := ?_ }
  intro c' under
  obtain ⟨c, before, rfl⟩ := Option.map_eq_some_iff.mp under
  have own := inv.own c before
  refine ⟨own.flush_le, List.mem_cons_self, own.asked, fun a member same => ?_⟩
  obtain ⟨addr_eq, shown⟩ := own.answered a member same
  exact ⟨addr_eq, List.mem_cons_of_mem _ shown⟩

theorem answer_linked (x : Sent) (member : x ∈ s.sent) :
    Linked { s with given := s.given ++
      [⟨x.cmd.address.setWidth 8, s.regs (x.cmd.address.setWidth 8), x.call⟩] } := by
  refine { inv with cwr_le := ?_, storing := ?_, given_le := ?_, own := ?_ }
  · rw [List.length_append]
    exact inv.cwr_le.trans (Nat.le_add_right _ _)
  · intro i begun
    obtain ⟨more, bound, words⟩ := inv.storing i begun
    rw [List.length_append]
    refine ⟨Nat.lt_add_right _ more, bound, ?_⟩
    rw [List.getElem?_append_left more]
    exact words
  · intro a given
    rcases List.mem_append.mp given with old | new
    · exact inv.given_le a old
    · rw [List.mem_singleton.mp new]
      exact inv.sent_le x member
  · intro c under
    have own := inv.own c under
    refine ⟨own.flush_le, own.now, own.asked, fun a given same => ?_⟩
    rcases List.mem_append.mp given with old | new
    · exact own.answered a old same
    · rw [List.mem_singleton.mp new] at same ⊢
      have cmd := own.asked x member same
      have addr : x.cmd.address.setWidth 8 = c.regAddr := by
        rw [cmd]
        simp
      rw [addr]
      exact ⟨rfl, own.now⟩

theorem handle_linked (answer : Bool) (done : handle s answer = some s') : Linked s' := by
  have counted : Linked { s with handled := s.handled + 1 } :=
    { inv with own := fun c under =>
        ⟨(inv.own c under).flush_le, (inv.own c under).now, (inv.own c under).asked,
          (inv.own c under).answered⟩ }
  unfold handle at done
  split at done
  next x found =>
    have member : x ∈ s.sent := List.mem_of_getElem? found
    split_ifs at done <;> cases done
    · exact setReg_linked counted _ _
    · exact answer_linked counted x member
    · exact counted
  next => cases done

theorem receive_linked (done : receive s = some s') : Linked s' := by
  unfold receive at done
  split at done
  next =>
    split_ifs at done with more
    cases done
    refine { inv with storing := ?_, own := ?_ }
    · intro i now
      cases now
      exact ⟨more, Nat.zero_le _, fun a found j none => absurd none (Nat.not_lt_zero j)⟩
    · intro c under
      have own := inv.own c under
      exact ⟨own.flush_le, own.now, own.asked, own.answered⟩
  next => cases done

theorem storeWord_linked (done : storeWord s = some s') : Linked s' := by
  unfold storeWord at done
  split at done
  next i a begun found =>
    obtain ⟨more, bound, words⟩ := inv.storing i begun
    split_ifs at done with inside
    cases done
    refine { inv with storing := ?_, own := ?_ }
    · intro i' now
      cases now
      refine ⟨more, inside, fun a' found' j below => ?_⟩
      simp only [putBuffer_cwr] at found'
      rw [found] at found'
      cases found'
      rw [getBuffer_putBuffer]
      by_cases here : j = i
      · rw [here, Function.update_self]
      · rw [Function.update_of_ne here]
        exact words a found j (by omega)
    · intro c under
      have own := inv.own c under
      exact ⟨own.flush_le, own.now, own.asked, own.answered⟩
  next => cases done

theorem junk_linked (i : Nat) (w : Word) (done : junk s i w = some s') : Linked s' := by
  unfold junk at done
  split at done
  next idle =>
    cases done
    refine { inv with storing := ?_, own := ?_ }
    · intro i' begun
      rw [idle] at begun
      cases begun
    · intro c under
      have own := inv.own c under
      exact ⟨own.flush_le, own.now, own.asked, own.answered⟩
  next => cases done

theorem deliver_linked (done : deliver s = some s') : Linked s' := by
  unfold deliver at done
  split_ifs at done with ready
  cases done
  obtain ⟨more, -, -⟩ := inv.storing _ ready.1
  refine { inv with crd_le := inv.crd_le.trans (Nat.le_succ _), cwr_le := more, storing := ?_, own := ?_ }
  · intro i now
    cases now
  · intro c' under
    obtain ⟨c, before, rfl⟩ := Option.map_eq_some_iff.mp under
    have own := inv.own c before
    split_ifs <;> exact ⟨own.flush_le, own.now, own.asked, own.answered⟩

end Linked

theorem step_linked (s : State) (a : Action) (s' : State) (inv : Linked s) (done : step s a = some s') :
    Linked s' := by
  cases a with
  | readRegister regAddr => exact readRegister_linked inv regAddr done
  | writeRegister regAddr regValue ok => exact writeRegister_linked inv regAddr regValue ok done
  | loop ok => exact loop_linked inv ok done
  | expire => exact expire_linked inv done
  | spurious => exact spurious_linked inv done
  | regain => exact regain_linked inv done
  | handle answer => exact handle_linked inv answer done
  | change addr data =>
    cases done
    exact setReg_linked inv addr data
  | receive => exact receive_linked inv done
  | storeWord => exact storeWord_linked inv done
  | junk i w => exact junk_linked inv i w done
  | deliver => exact deliver_linked inv done

/-! What a step can do to the queue and the calls. -/

/-- The queue has not moved and nothing has been returned; the call under way, if any, is the same. -/
structure Kept (s s' : State) : Prop where
  crd_eq : s'.crd = s.crd
  cwr_eq : s'.board.cwr = s.board.cwr
  given_eq : s'.given = s.given
  call_eq : s'.call = s.call
  returned_eq : s'.returned = s.returned
  under : ∀ c' ∈ s'.reading, ∃ c ∈ s.reading, c'.regAddr = c.regAddr ∧ c'.flush = c.flush

def Action.stores : Action → Bool
  | .storeWord => true
  | .junk _ _ => true
  | _ => false

inductive Effect (s : State) : Action → State → Prop where
  | kept {a : Action} {s' : State} (kept : Kept s s') (board_eq : s'.board = s.board) : Effect s a s'
  | stored {a : Action} {s' : State} (stores : a.stores = true) (kept : Kept s s') (slot : Slot)
      (board_eq : s'.board = s.board.putBuffer true slot) : Effect s a s'
  | called (regAddr : BitVec 8) {s' : State} (crd_eq : s'.crd = s'.board.cwr)
      (returned_eq : s'.returned = s.returned) : Effect s (.readRegister regAddr) s'
  | gaveUp {a : Action} (c c' : Call) (under : s.reading = some c) (same : c' = { c with sent := c'.sent }) :
      Effect s a (s.ret c' badValue none)
  | took (c : Call) (under : s.reading = some c) (woken : c.place = .woken)
      (unread : s.board.cwr ≠ s.crd) :
      Effect s .regain (s.take c (ipimBoardResponse (s.board.cmd (s.crd &&& qMask))))
  | answered {a : Action} (n : Nat) (new : Answer) :
      Effect s a { s with handled := n, given := s.given ++ [new] }
  | delivered {s' : State} (ready : s.storing = some (len true)) (crd_eq : s'.crd = s.crd)
      (board_eq : s'.board = s.board.sendCommandResponse) (given_eq : s'.given = s.given)
      (call_eq : s'.call = s.call) (returned_eq : s'.returned = s.returned)
      (under : ∀ c' ∈ s'.reading, ∃ c ∈ s.reading, c'.regAddr = c.regAddr ∧ c'.flush = c.flush) :
      Effect s .deliver s'

theorem kept_refl (s : State) : Kept s s :=
  ⟨rfl, rfl, rfl, rfl, rfl, fun c under => ⟨c, under, rfl, rfl⟩⟩

theorem kept_move {s : State} {c : Call} (under : s.reading = some c) (c' : Call)
    (regAddr : c'.regAddr = c.regAddr) (flush : c'.flush = c.flush) :
    Kept s { s with reading := some c' } :=
  ⟨rfl, rfl, rfl, rfl, rfl, fun _ now => by cases now; exact ⟨c, under, regAddr, flush⟩⟩

theorem effect_of_step (s : State) (a : Action) (s' : State) (done : step s a = some s') :
    Effect s a s' := by
  cases a with
  | readRegister regAddr =>
    simp only [step, readRegister] at done
    split at done <;> cases done
    exact .called regAddr rfl rfl
  | writeRegister regAddr regValue ok =>
    simp only [step, writeRegister] at done
    split at done
    · split_ifs at done <;> cases done
      · exact .kept ⟨rfl, rfl, rfl, rfl, rfl, fun c under => ⟨c, under, rfl, rfl⟩⟩ rfl
      · exact .kept (kept_refl s) rfl
    · cases done
  | loop ok =>
    simp only [step, loop] at done
    split at done
    next c under =>
      split_ifs at done <;> cases done
      · exact .kept ⟨rfl, rfl, rfl, rfl, rfl, fun _ now => by cases now; exact ⟨c, under, rfl, rfl⟩⟩ rfl
      · exact .gaveUp c _ under rfl
      · exact .kept (kept_move under _ rfl rfl) rfl
      · exact .gaveUp c c under rfl
    next => cases done
  | expire =>
    simp only [step, expire] at done
    split at done
    next c under =>
      split_ifs at done
      cases done
      exact .kept (kept_move under _ rfl rfl) rfl
    next => cases done
  | spurious =>
    simp only [step, spurious] at done
    split at done
    next c under =>
      split_ifs at done
      cases done
      exact .kept (kept_move under _ rfl rfl) rfl
    next => cases done
  | regain =>
    simp only [step, regain] at done
    split at done
    next c under =>
      split_ifs at done with expired woken empty <;> cases done
      · exact .kept (kept_move under _ rfl rfl) rfl
      · exact .kept (kept_move under _ rfl rfl) rfl
      · exact .took c under woken empty
    next => cases done
  | handle answer =>
    simp only [step, handle] at done
    split at done
    next x found =>
      split_ifs at done <;> cases done
      · refine .kept ⟨rfl, rfl, rfl, rfl, rfl, fun c' under => ?_⟩ rfl
        obtain ⟨c, before, rfl⟩ := Option.map_eq_some_iff.mp under
        exact ⟨c, before, rfl, rfl⟩
      · exact .answered _ _
      · exact .kept ⟨rfl, rfl, rfl, rfl, rfl, fun c under => ⟨c, under, rfl, rfl⟩⟩ rfl
    next => cases done
  | change addr data =>
    cases done
    refine .kept ⟨rfl, rfl, rfl, rfl, rfl, fun c' under => ?_⟩ rfl
    obtain ⟨c, before, rfl⟩ := Option.map_eq_some_iff.mp under
    exact ⟨c, before, rfl, rfl⟩
  | receive =>
    simp only [step, receive] at done
    split at done
    · split_ifs at done
      cases done
      exact .kept ⟨rfl, rfl, rfl, rfl, rfl, fun c under => ⟨c, under, rfl, rfl⟩⟩ rfl
    · cases done
  | storeWord =>
    simp only [step, storeWord] at done
    split at done
    · split_ifs at done
      cases done
      exact .stored rfl ⟨rfl, putBuffer_cwr _ _ _, rfl, rfl, rfl, fun c under => ⟨c, under, rfl, rfl⟩⟩
        _ rfl
    · cases done
  | junk i w =>
    simp only [step, junk] at done
    split at done <;> cases done
    exact .stored rfl ⟨rfl, putBuffer_cwr _ _ _, rfl, rfl, rfl, fun c under => ⟨c, under, rfl, rfl⟩⟩
      _ rfl
  | deliver =>
    simp only [step, deliver] at done
    split_ifs at done with ready
    cases done
    refine .delivered ready.1 rfl rfl rfl rfl rfl fun c' under => ?_
    obtain ⟨c, before, rfl⟩ := Option.map_eq_some_iff.mp under
    refine ⟨c, before, ?_⟩
    split_ifs <;> exact ⟨rfl, rfl⟩

/-! Responses stay in their slots while they are unread, unless the reader thread comes round to them. -/

def Entry (given : List Answer) (k : Nat) (p : Slot) : Prop :=
  ∃ a, given[k]? = some a ∧ words p (len true) = a.words

/-- The unread responses of the call under way are in their slots. -/
def Intact (s : State) : Prop :=
  ∀ c ∈ s.reading, Ring.Backed 8 s.board.cmd (Entry s.given) s.crd s.board.cwr

/-- The reader thread stores only while fewer than eight responses are unread. -/
def Roomy (s : State) (a : Action) : Prop :=
  a.stores = true → ∀ c ∈ s.reading, s.board.cwr < s.crd + 8

instance (s : State) (a : Action) : Decidable (Roomy s a) :=
  inferInstanceAs (Decidable (a.stores = true → ∀ c ∈ s.reading, s.board.cwr < s.crd + 8))

theorem Intact.init (regs : BitVec 8 → BitVec 32) : Intact (State.init regs) := by
  intro c now
  cases now

theorem answer_words (a : Answer) : a.words = (List.range (len true)).map fun j => a.words.getD j 0#16 := by
  apply List.ext_getElem
  · simp [Answer.words, IpimBoardCommand.commandList, IpimBoardCommand.body]
  · intro j low high
    simp [low]

theorem step_intact (s : State) (a : Action) (s' : State) (linked : Linked s) (roomy : Roomy s a)
    (inv : Intact s) (done : step s a = some s') : Intact s' := by
  cases effect_of_step s a s' done with
  | kept kept board_eq =>
    intro c' under
    obtain ⟨c, before, -⟩ := kept.under c' under
    rw [board_eq, kept.crd_eq, kept.given_eq]
    exact inv c before
  | stored stores kept slot board_eq =>
    intro c' under
    obtain ⟨c, before, -⟩ := kept.under c' under
    have room := roomy stores c before
    have cmd : s'.board.cmd = Function.update s.board.cmd (s.board.cwr % 8) slot := by
      rw [board_eq, ← and_qMask]
      rfl
    rw [cmd, kept.cwr_eq, kept.crd_eq, kept.given_eq]
    exact (inv c before).store le_rfl room slot
  | called regAddr crd_eq =>
    intro c' under
    rw [crd_eq]
    exact Ring.Backed.of_empty le_rfl
  | gaveUp c c' under same =>
    intro c'' under'
    cases under'
  | took c under woken unread =>
    intro c' under'
    unfold State.take at under' ⊢
    split
    next same =>
      rw [if_pos same] at under'
      cases under'
    next => exact (inv c under).drop (Nat.le_succ _)
  | answered n new =>
    intro c under
    refine (inv c under).mono fun k bound p entry => ?_
    obtain ⟨answer, found, rest⟩ := entry
    have older : k < s.given.length := Nat.lt_of_lt_of_le bound linked.cwr_le
    exact ⟨answer, by rw [List.getElem?_append_left older, found], rest⟩
  | delivered ready crd_eq board_eq given_eq call_eq returned_eq under =>
    intro c' under'
    obtain ⟨c, before, -⟩ := under c' under'
    obtain ⟨more, -, stored⟩ := linked.storing _ ready
    rw [board_eq, crd_eq, given_eq]
    apply (inv c before).push
    have found : s.given[s.board.cwr]? = some s.given[s.board.cwr] := List.getElem?_eq_getElem more
    refine ⟨_, found, ?_⟩
    rw [answer_words, ← and_qMask]
    exact List.map_congr_left fun j member => stored _ found j (List.mem_range.mp member)

/-- The oldest unread response, as `ReadRegister` sees it. -/
theorem oldest_unread {s : State} {c : Call} (linked : Linked s) (inv : Intact s)
    (under : s.reading = some c) (unread : s.board.cwr ≠ s.crd) :
    let resp := ipimBoardResponse (s.board.cmd (s.crd &&& qMask))
    ∃ a, s.given[s.crd]? = some a ∧ (resp.addr = c.regAddr.setWidth 32 ↔ a.addr = c.regAddr) ∧
      resp.data = a.data := by
  intro resp
  have le := linked.crd_le
  obtain ⟨a, found, words⟩ := inv c under s.crd le_rfl (by omega)
  rw [← and_qMask] at words
  obtain ⟨addr, data⟩ := response_of_command _ _ words
  refine ⟨a, found, ?_, data⟩
  have low : a.addr.setWidth 32 &&& 0xff#32 = a.addr.setWidth 32 := by
    apply BitVec.eq_of_getLsbD_eq
    intro i bound
    interval_cases i <;> simp
  rw [show resp.addr = a.addr.setWidth 32 from addr.trans low]
  constructor
  · intro same
    have narrow := congrArg (BitVec.setWidth 8) same
    simpa using narrow
  · intro same
    rw [same]

end Ipimb.Register
