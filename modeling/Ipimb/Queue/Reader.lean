import Ipimb.Queue.Data

/-!
The steps of the reader thread are those of `Acquire`: left alone it takes a packet to the board that
`endOfPacket` computes, whether the synchroniser queues the packet or not.
-/

namespace Ipimb.DataQueue
open Ipimb.Chunk Ipimb.Crc Ipimb.BoardData Ipimb.Acquire

variable {T : Type}

/-- Nothing has happened on the record side. -/
structure Aside (s s' : State T) : Prop where
  drd_eq : s'.drd = s.drd
  record_eq : s'.record = s.record
  published_eq : s'.published = s.published

theorem Aside.trans {s s' s'' : State T} (first : Aside s s') (later : Aside s' s'') : Aside s s'' :=
  ⟨later.drd_eq.trans first.drd_eq, later.record_eq.trans first.record_eq,
    later.published_eq.trans first.published_eq⟩

theorem reaches_decode (rdbuf : List Byte) (left i : Nat) (total : i + left = len false) (s : State T)
    (at_word : s.reader = .decoding rdbuf i) :
    ∃ s', Transition.Reaches step s s' ∧ Aside s s' ∧
      s'.board = s.board.putBuffer false (decode false rdbuf left i s.slot).1 ∧
      s'.reader = if (decode false rdbuf left i s.slot).2 = len false then .decoding rdbuf (len false)
        else .reading := by
  induction left generalizing i s with
  | zero =>
    refine ⟨s, .refl s, ⟨rfl, rfl, rfl⟩, (putBuffer_getBuffer s.board false).symm, ?_⟩
    have last : i = len false := by omega
    rw [at_word, decode, if_pos last, last]
  | succ left ih =>
    have more : i < len false := by omega
    rw [decode]
    by_cases good : goodChunk false rdbuf i = true
    · obtain ⟨s', reached, aside, board, reader⟩ := ih (i + 1) (by omega)
        (s.store (Function.update s.slot i (wordAt rdbuf i)) (.decoding rdbuf (i + 1))) rfl
      rw [slot_store] at board reader
      have first : step s .storeWord =
          some (s.store (Function.update s.slot i (wordAt rdbuf i)) (.decoding rdbuf (i + 1))) := by
        rw [step, storeWord, at_word]
        simp only [if_pos more, if_pos good]
      rw [if_pos good]
      exact ⟨s', (Transition.Reaches.single _ first).trans reached,
        ⟨aside.drd_eq, aside.record_eq, aside.published_eq⟩,
        board.trans (putBuffer_putBuffer _ _ _ _), reader⟩
    · have first : step s .storeWord = some { s with reader := .reading } := by
        rw [step, storeWord, at_word]
        simp only [if_pos more, if_neg good]
      rw [if_neg good, if_neg (by omega)]
      exact ⟨_, .single _ first, ⟨rfl, rfl, rfl⟩, (putBuffer_getBuffer s.board false).symm, rfl⟩

theorem reaches_adjust (rdbuf : List Byte) (d : Slot) (left c : Nat) (total : c + left = 4) (s : State T)
    (on : s.board.polarity ≠ 0) (at_channel : s.reader = .adjusting rdbuf c)
    (slot : s.slot = adjustTo s.board.polarity d c) :
    ∃ s', Transition.Reaches step s s' ∧ Aside s s' ∧
      s'.board = s.board.putBuffer false (adjustTo s.board.polarity d 4) ∧
      s'.reader = .adjusting rdbuf 4 := by
  induction left generalizing c s with
  | zero =>
    have last : c = 4 := by omega
    subst last
    rw [← slot]
    exact ⟨s, .refl s, ⟨rfl, rfl, rfl⟩, (putBuffer_getBuffer s.board false).symm, at_channel⟩
  | succ left ih =>
    have more : c < 4 := by omega
    obtain ⟨s', reached, aside, board, reader⟩ := ih (c + 1) (by omega)
      (s.store (adjustChannel s.board.polarity s.slot ⟨c, more⟩) (.adjusting rdbuf (c + 1))) on rfl
      (by rw [slot_store, slot]; exact (adjustTo_succ _ _ _ more).symm)
    have first : step s .adjust = some
        (s.store (adjustChannel s.board.polarity s.slot ⟨c, more⟩) (.adjusting rdbuf (c + 1))) := by
      rw [step, adjust, at_channel]
      simp only [dif_pos (And.intro more on)]
    exact ⟨s', (Transition.Reaches.single _ first).trans reached,
      ⟨aside.drd_eq, aside.record_eq, aside.published_eq⟩,
      board.trans (putBuffer_putBuffer _ _ _ _), reader⟩

theorem reaches_takeData (rdbuf : List Byte) (s : State T) (start : s.reader = .adjusting rdbuf 0) :
    ∃ s', Transition.Reaches step s s' ∧ Aside s s' ∧ s'.board = s.board.takeData ∧
      s'.reader = .acquired rdbuf := by
  have last : ∀ (c : Nat) (s₁ : State T), s₁.reader = .adjusting rdbuf c →
      ¬(c < 4 ∧ s₁.board.polarity ≠ 0) →
      s₁.board = s.board.putBuffer false (adjustdata s.board.polarity s.slot) →
      Transition.Reaches step s₁ (s₁.returned rdbuf) ∧ (s₁.returned rdbuf).board = s.board.takeData := by
    intro c s₁ at_channel stop board
    constructor
    · apply Transition.Reaches.single .adjust
      rw [step, adjust, at_channel]
      exact dif_neg stop
    · have slot : s₁.slot = adjustdata s.board.polarity s.slot := by
        rw [State.slot, board, getBuffer_putBuffer]
      simp only [State.returned, slot, board]
      rfl
  by_cases off : s.board.polarity = 0
  · obtain ⟨reached, board⟩ := last 0 s start (by simp [off])
      (by rw [adjustdata, if_pos off]; exact (putBuffer_getBuffer s.board false).symm)
    exact ⟨_, reached, ⟨rfl, rfl, rfl⟩, board, rfl⟩
  · obtain ⟨s₁, adjusted, aside, board, at_channel⟩ := reaches_adjust rdbuf s.slot 4 0 rfl s off start rfl
    obtain ⟨reached, taken⟩ := last 4 s₁ at_channel (by simp)
      (by rw [adjustdata_eq _ _ 4 le_rfl (fun zero => absurd zero off) (by simp), board])
    exact ⟨_, adjusted.trans reached, ⟨aside.drd_eq, aside.record_eq, aside.published_eq⟩, taken, rfl⟩

theorem reaches_sendData (queueing : Bool) (t : T) (rdbuf : List Byte) (s : State T)
    (returned : s.reader = .acquired rdbuf) :
    ∃ s', Transition.Reaches step s s' ∧ Aside s s' ∧ s'.reader = .reading ∧
      s'.board = if queueing then s.board.sendData else s.board := by
  cases queueing with
  | false =>
    have again : step s .acquireAgain = some { s with reader := .reading } := by
      rw [step, acquireAgain, returned]
    exact ⟨_, .single _ again, ⟨rfl, rfl, rfl⟩, rfl, rfl⟩
  | true =>
    have all : Transition.run step s [.queue t, .stamp, .scanIoRequest] = some { s with
        board := s.board.sendData
        ts := Function.update s.ts (s.board.dwr &&& qMask) t
        front := max s.front (s.board.dwr + 1)
        packets := s.packets ++ [(rdbuf, t)]
        reader := .reading } := by
      simp only [Transition.run, step, queue, returned, stamp, scanIoRequest]
    exact ⟨_, ⟨_, all⟩, ⟨rfl, rfl, rfl⟩, rfl, rfl⟩

/-- Left alone, the reader thread leaves the board as `Acquire` and the synchroniser do. -/
theorem reaches_endOfPacket [Inhabited T] (queued : Nat → Bool) (s : State T) (rdbuf : List Byte)
    (idle : s.reader = .reading) (whole : rdbuf.length = blen false)
    (data : command (byteAt rdbuf 0) = false) :
    ∃ s', Transition.Reaches step s s' ∧ Aside s s' ∧ s'.reader = .reading ∧
      s'.board = (endOfPacket queued s.board rdbuf).1 := by
  simp only [endOfPacket, data]
  split
  next eof =>
    have begun : step s (.packet rdbuf) = some { s with reader := .decoding rdbuf 0 } := by
      rw [step, packet, idle]
      simp only [if_pos (And.intro whole (And.intro data eof))]
    obtain ⟨s₁, decoded, aside, board, at_word⟩ :=
      reaches_decode rdbuf (len false) 0 (by simp) { s with reader := .decoding rdbuf 0 } rfl
    have reached := (Transition.Reaches.single _ begun).trans decoded
    change s₁.board = s.board.putBuffer false
      (decode false rdbuf (len false) 0 (s.board.getBuffer false)).1 at board
    change s₁.reader = if (decode false rdbuf (len false) 0 (s.board.getBuffer false)).2 = len false
      then .decoding rdbuf (len false) else .reading at at_word
    rw [← board]
    split
    next complete =>
      rw [if_pos complete] at at_word
      split
      next checksum =>
        have checked : step s₁ .checkCrc = some { s₁ with reader := .adjusting rdbuf 0 } := by
          rw [step, checkCrc, at_word]
          simp only [if_true]
          exact if_pos checksum
        obtain ⟨s₂, adjusted, aside', taken, returned⟩ :=
          reaches_takeData rdbuf { s₁ with reader := .adjusting rdbuf 0 } rfl
        obtain ⟨s₃, sent, aside'', idle', final⟩ :=
          reaches_sendData (queued s₁.board.handed) default rdbuf s₂ returned
        refine ⟨s₃, ((reached.trans (.single _ checked)).trans adjusted).trans sent, ?_, idle', ?_⟩
        · exact Aside.trans ⟨aside.drd_eq, aside.record_eq, aside.published_eq⟩
            (Aside.trans ⟨aside'.drd_eq, aside'.record_eq, aside'.published_eq⟩ aside'')
        · rw [final, taken]
          rfl
      next wrong =>
        have failed : step s₁ .checkCrc = some { s₁ with reader := .reading } := by
          rw [step, checkCrc, at_word]
          simp only [if_true]
          exact if_neg wrong
        exact ⟨_, reached.trans (.single _ failed),
          ⟨aside.drd_eq, aside.record_eq, aside.published_eq⟩, rfl, rfl⟩
    next broken =>
      rw [if_neg broken] at at_word
      exact ⟨s₁, reached, ⟨aside.drd_eq, aside.record_eq, aside.published_eq⟩, at_word, rfl⟩
  next => exact ⟨s, .refl s, ⟨rfl, rfl, rfl⟩, idle, rfl⟩

end Ipimb.DataQueue
