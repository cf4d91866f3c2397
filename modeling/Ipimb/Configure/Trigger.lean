import Ipimb.Configure.Generation
import Ipimb.Library.Holders

/-!
The trigger of the data acquisition. `configure` switches it off for the board, and `RestoreTrigger`
switches it on again when the last board sharing it is done. Whether a board is done is asked by the
WaitConfig record: `read_bi` puts it off with a delayed callback, and only the callback restores.
-/

namespace Ipimb.Trigger

variable {B T C : Type} [DecidableEq B] [DecidableEq T]

/-- For each board the two flags of `IpimBoard`, and its WaitConfig record: whether it is active,
whether a delayed callback is outstanding (the board has one `CALLBACK`, so another request meanwhile
is not another callback), whether a callback that has restored the trigger is about to process the
record. For each trigger its entry in `triggers` and the PV. For the record only: the
boards whose `configure` WaitConfig has not been processed after, the last value the driver wrote to
each PV, and how often each entry has been saved. -/
structure State (B T : Type) where
  confInProgress : B → Bool
  triggerUser : B → Bool
  pact : B → Bool
  pending : B → Bool
  finishing : B → Bool
  useCnt : T → Int
  savedTrigger : T → Int
  pv : T → Int
  due : B → Bool
  lastPut : T → Option Int
  saves : T → Nat

def State.init (pv : T → Int) : State B T where
  confInProgress := fun _ => false
  triggerUser := fun _ => false
  pact := fun _ => false
  pending := fun _ => false
  finishing := fun _ => false
  useCnt := fun _ => 0
  savedTrigger := fun _ => -1
  pv := pv
  due := fun _ => false
  lastPut := fun _ => none
  saves := fun _ => 0

def State.put (s : State B T) (t : T) (value : Int) : State B T :=
  { s with pv := Function.update s.pv t value, lastPut := Function.update s.lastPut t (some value) }

/-- The first one in saves the trigger state and turns it off. -/
def State.save (s : State B T) (t : T) : State B T :=
  { s with
    savedTrigger := Function.update s.savedTrigger t (s.pv t)
    saves := Function.update s.saves t (s.saves t + 1) }.put t 0

def State.use (s : State B T) (index : B → T) (b : B) : State B T :=
  { s with
    useCnt := Function.update s.useCnt (index b) (s.useCnt (index b) + 1)
    triggerUser := Function.update s.triggerUser b true }

/-- The part of `configure` that is done under the trigger mutex. -/
def takeTrigger (index : B → T) (s : State B T) (b : B) : State B T :=
  if s.triggerUser b then s
  else if s.useCnt (index b) = 0 then (s.save (index b)).use index b
  else s.use index b

def configure (index : B → T) (s : State B T) (b : B) : State B T :=
  { takeTrigger index s b with
    confInProgress := Function.update s.confInProgress b true
    due := Function.update s.due b true }

/-- `RestoreTrigger`. The last one out writes back what was saved. -/
def restoreTrigger (index : B → T) (s : State B T) (b : B) : State B T :=
  let left := { s with
    useCnt := Function.update s.useCnt (index b) (s.useCnt (index b) - 1)
    triggerUser := Function.update s.triggerUser b false }
  if s.useCnt (index b) - 1 = 0 then left.put (index b) (s.savedTrigger (index b)) else left

def readBi (s : State B T) (b : B) : State B T :=
  if s.confInProgress b then
    { s with pact := Function.update s.pact b true, pending := Function.update s.pending b true }
  else { s with pact := Function.update s.pact b false }

inductive Action (B T : Type) where
  | configure (b : B)
  /-- The pass is over and the configurer thread clears the flag. -/
  | passEnd (b : B)
  /-- WaitConfig is processed. -/
  | readBi (b : B)
  /-- WaitConfig is active, so processing it does nothing. -/
  | skip (b : B)
  /-- `ipimbConfigCallback`, as far as it holds the mutex. -/
  | callback (b : B)
  /-- The rest of `ipimbConfigCallback`: the record is processed to its end, and no longer active. -/
  | process (b : B)
  /-- Somebody else writes the PV. -/
  | putPv (t : T) (value : Int)

def step (index : B → T) (s : State B T) : Action B T → Option (State B T)
  | .configure b => some (configure index s b)
  | .passEnd b =>
    if s.confInProgress b then
      some { s with confInProgress := Function.update s.confInProgress b false }
    else none
  | .readBi b => some (readBi { s with due := Function.update s.due b false } b)
  | .skip b => if s.pact b then some { s with due := Function.update s.due b false } else none
  | .callback b =>
    if s.pending b then
      if s.confInProgress b then some s
      else
        some (restoreTrigger index { s with
          pending := Function.update s.pending b false, finishing := Function.update s.finishing b true } b)
    else none
  | .process b =>
    if s.finishing b then
      let read := readBi s b
      some { read with
        pact := Function.update read.pact b false, finishing := Function.update read.finishing b false }
    else none
  | .putPv t value => some { s with pv := Function.update s.pv t value }

/-- A flag that is up after an update was up before, or is the one that has been put up. -/
theorem update_up {f : B → Bool} {b c : B} {v : Bool} (up : Function.update f b v c = true) :
    (c = b ∧ v = true) ∨ (c ≠ b ∧ f c = true) := by
  by_cases same : c = b
  · subst same
    rw [Function.update_self] at up
    exact .inl ⟨rfl, up⟩
  · rw [Function.update_of_ne same] at up
    exact .inr ⟨same, up⟩

theorem update_stays {f : B → Bool} {b c : B} (up : f c = true) : Function.update f b true c = true := by
  by_cases same : c = b
  · rw [same, Function.update_self]
  · rw [Function.update_of_ne same, up]

omit [DecidableEq T] in
theorem readBi_same (s : State B T) (b : B) :
    (readBi s b).triggerUser = s.triggerUser ∧ (readBi s b).due = s.due ∧
      (readBi s b).finishing = s.finishing ∧ (readBi s b).useCnt = s.useCnt ∧
      (readBi s b).pv = s.pv ∧ (readBi s b).savedTrigger = s.savedTrigger := by
  unfold readBi
  split_ifs <;> exact ⟨rfl, rfl, rfl, rfl, rfl, rfl⟩

theorem takeTrigger_flags (index : B → T) (s : State B T) (b : B) :
    (takeTrigger index s b).confInProgress = s.confInProgress ∧
      (takeTrigger index s b).pact = s.pact ∧ (takeTrigger index s b).pending = s.pending ∧
      (takeTrigger index s b).finishing = s.finishing := by
  unfold takeTrigger
  split_ifs <;> exact ⟨rfl, rfl, rfl, rfl⟩

theorem takeTrigger_other (index : B → T) (s : State B T) (b c : B) (other : c ≠ b) :
    (takeTrigger index s b).triggerUser c = s.triggerUser c := by
  unfold takeTrigger
  split_ifs <;> simp [State.use, State.save, State.put, other]

/-! The trigger stays off while anybody is configuring. -/

/-- Counts, flags and what the driver has written fit together. -/
structure Off [Fintype B] (index : B → T) (s : State B T) : Prop where
  counted : Holders.Counted index s.triggerUser s.useCnt
  configuring : ∀ b, s.confInProgress b = true → s.triggerUser b = true
  pending : ∀ b, s.pending b = true → s.triggerUser b = true
  off : ∀ t, s.useCnt t ≠ 0 → s.lastPut t = some 0

section Off
variable [Fintype B] {index : B → T} {s : State B T}

omit [DecidableEq B] in
theorem Off.init (pv : T → Int) : Off index (State.init pv : State B T) where
  counted := by
    intro t
    have none : Holders.holders index (fun _ : B => false) t = ∅ :=
      Holders.holders_eq_empty (fun _ _ => rfl)
    simp [State.init, none]
  configuring := by intro b now; cases now
  pending := by intro b now; cases now
  off := fun t held => absurd rfl held

variable (inv : Off index s)
include inv

theorem use_off (b : B) (free : s.triggerUser b = false) (put : s.lastPut (index b) = some 0) :
    Off index (s.use index b) where
  counted := inv.counted.take b free
  configuring := fun c conf => update_stays (inv.configuring c conf)
  pending := fun c waits => update_stays (inv.pending c waits)
  off := by
    intro t held
    by_cases here : t = index b
    · rw [here]
      exact put
    · simp only [State.use, Function.update_of_ne here] at held
      exact inv.off t held

omit [DecidableEq B] in
theorem save_off (t : T) (unused : s.useCnt t = 0) : Off index (s.save t) := by
  refine { inv with off := ?_ }
  intro t' held
  have other : t' ≠ t := by
    intro here
    rw [here] at held
    exact held unused
  simp only [State.save, State.put, Function.update_of_ne other]
  exact inv.off t' held

theorem takeTrigger_off (b : B) :
    Off index (takeTrigger index s b) ∧ (takeTrigger index s b).triggerUser b = true := by
  unfold takeTrigger
  split_ifs with user unused
  · exact ⟨inv, user⟩
  · refine ⟨use_off (save_off inv (index b) unused) b ?_ ?_, Function.update_self _ _ _⟩
    · simpa [State.save, State.put] using user
    · exact Function.update_self _ _ _
  · exact ⟨use_off inv b (by simpa using user) (inv.off (index b) unused), Function.update_self _ _ _⟩

theorem configure_off (b : B) : Off index (configure index s b) := by
  obtain ⟨taken, has⟩ := takeTrigger_off inv b
  refine ⟨taken.counted, fun c up => ?_, taken.pending, taken.off⟩
  rcases update_up up with ⟨here, -⟩ | ⟨-, before⟩
  · rw [here]
    exact has
  · apply taken.configuring
    rw [(takeTrigger_flags index s b).1]
    exact before

theorem readBi_off (b : B) : Off index (readBi s b) := by
  unfold readBi
  split_ifs with conf
  · refine { inv with pending := fun c up => ?_ }
    rcases update_up up with ⟨here, -⟩ | ⟨-, before⟩
    · rw [here]
      exact inv.configuring b conf
    · exact inv.pending c before
  · exact { inv with }

theorem restoreTrigger_off (b : B) (waits : s.pending b = true) (idle : s.confInProgress b = false)
    (finishing : B → Bool) :
    Off index (restoreTrigger index { s with
      pending := Function.update s.pending b false, finishing := finishing } b) := by
  have has := inv.pending b waits
  have left : Off index { s with
      pending := Function.update s.pending b false, finishing := finishing
      useCnt := Function.update s.useCnt (index b) (s.useCnt (index b) - 1)
      triggerUser := Function.update s.triggerUser b false } := by
    refine ⟨inv.counted.release b has, fun c conf => ?_, fun c up => ?_, fun t held => ?_⟩
    · have other : c ≠ b := by
        intro here
        simp [here, idle] at conf
      simp only [Function.update_of_ne other]
      exact inv.configuring c conf
    · rcases update_up up with ⟨-, no⟩ | ⟨other, before⟩
      · cases no
      · simp only [Function.update_of_ne other]
        exact inv.pending c before
    · by_cases here : t = index b
      · subst here
        exact inv.off _ (ne_of_gt (inv.counted.pos has))
      · simp only [Function.update_of_ne here] at held
        exact inv.off t held
  unfold restoreTrigger
  split_ifs with last
  · refine { left with off := fun t held => ?_ }
    have other : t ≠ index b := by
      intro here
      exact held (by simpa [State.put, here] using last)
    simp only [State.put, Function.update_of_ne other]
    exact left.off t held
  · exact left

end Off

theorem step_off [Fintype B] (index : B → T) (s : State B T) (a : Action B T) (s' : State B T)
    (inv : Off index s) (done : step index s a = some s') : Off index s' := by
  cases a with
  | configure b =>
    cases done
    exact configure_off inv b
  | passEnd b =>
    simp only [step] at done
    split_ifs at done
    cases done
    refine { inv with configuring := fun c up => ?_ }
    rcases update_up up with ⟨-, no⟩ | ⟨-, before⟩
    · cases no
    · exact inv.configuring c before
  | readBi b =>
    cases done
    exact readBi_off (s := { s with due := Function.update s.due b false }) { inv with } b
  | skip b =>
    simp only [step] at done
    split_ifs at done
    cases done
    exact { inv with }
  | callback b =>
    simp only [step] at done
    split_ifs at done with waits conf <;> cases done
    · exact inv
    · exact restoreTrigger_off inv b waits (by simpa using conf) _
  | process b =>
    simp only [step] at done
    split_ifs at done
    cases done
    exact { readBi_off inv b with }
  | putPv t value =>
    cases done
    exact { inv with }

/-- An entry of the table is saved only by `configure`, when nobody uses the trigger. -/
theorem saved_unused (index : B → T) (s : State B T) (a : Action B T) (s' : State B T)
    (done : step index s a = some s') (t : T)
    (saved : s'.saves t ≠ s.saves t ∨ s'.savedTrigger t ≠ s.savedTrigger t) : s.useCnt t = 0 := by
  have same : s'.saves = s.saves → s'.savedTrigger = s.savedTrigger → s.useCnt t = 0 := by
    intro saves entries
    rw [saves, entries] at saved
    exact absurd saved (by simp)
  cases a with
  | configure b =>
    cases done
    by_cases user : s.triggerUser b = true
    · exact same (by simp [configure, takeTrigger, user]) (by simp [configure, takeTrigger, user])
    · by_cases unused : s.useCnt (index b) = 0
      · by_cases here : t = index b
        · rw [here, unused]
        · simp [configure, takeTrigger, user, unused, State.use, State.save, State.put,
            Function.update_of_ne here] at saved
      · exact same (by simp [configure, takeTrigger, user, unused, State.use])
          (by simp [configure, takeTrigger, user, unused, State.use])
  | passEnd b =>
    simp only [step] at done
    split_ifs at done
    cases done
    exact same rfl rfl
  | readBi b =>
    cases done
    apply same <;> simp only [readBi] <;> split_ifs <;> rfl
  | skip b =>
    simp only [step] at done
    split_ifs at done
    cases done
    exact same rfl rfl
  | callback b =>
    simp only [step] at done
    split_ifs at done <;> cases done
    · exact same rfl rfl
    · apply same <;> simp only [restoreTrigger] <;> split_ifs <;> rfl
  | process b =>
    simp only [step] at done
    split_ifs at done
    cases done
    apply same <;> simp only [readBi] <;> split_ifs <;> rfl
  | putPv t value =>
    cases done
    exact same rfl rfl

/-- In every reachable state each count is the number of boards using the trigger, a board that is
configuring or has a callback outstanding uses its trigger, the last value the driver wrote for a board
that is configuring is 0, and no step saves an entry some board is using. -/
theorem trigger_off [Fintype B] (index : B → T) (pv : T → Int) (actions : List (Action B T))
    (s : State B T) (reached : Transition.run (step index) (State.init pv) actions = some s) :
    (∀ t, s.useCnt t = (Finset.univ.filter fun b => index b = t ∧ s.triggerUser b = true).card ∧
        0 ≤ s.useCnt t) ∧
      (∀ b, s.confInProgress b = true ∨ s.pending b = true → s.triggerUser b = true) ∧
      (∀ b, s.confInProgress b = true → s.lastPut (index b) = some 0) ∧
      ∀ a s', step index s a = some s' →
        ∀ t, s'.saves t ≠ s.saves t ∨ s'.savedTrigger t ≠ s.savedTrigger t →
          ∀ b, index b = t → s.triggerUser b = false := by
  have inv := Transition.run_invariant (step index) (Off index) (step_off index) (Off.init pv) reached
  refine ⟨fun t => ⟨inv.counted t, inv.counted.nonneg t⟩, ?_, ?_, ?_⟩
  · intro b busy
    rcases busy with conf | waits
    · exact inv.configuring b conf
    · exact inv.pending b waits
  · intro b conf
    exact inv.off _ (ne_of_gt (inv.counted.pos (inv.configuring b conf)))
  · intro a s' done t saved b here
    exact inv.counted.free (saved_unused index s a s' done t saved) b here

theorem trigger_off_shared :
    ∃ s : State (Fin 2) Unit, Transition.run (step fun _ => ()) (State.init fun _ => 1)
        [.configure 0, .readBi 0, .configure 1, .readBi 1, .passEnd 0, .callback 0] = some s ∧
      s.confInProgress 1 = true ∧ s.triggerUser 0 = false ∧ s.lastPut () = some 0 := by
  have computed : (Transition.run (step fun _ : Fin 2 => ()) (State.init fun _ => 1)
      [.configure 0, .readBi 0, .configure 1, .readBi 1, .passEnd 0, .callback 0]).map
      (fun s => (s.confInProgress 1, s.triggerUser 0)) = some (true, false) := by decide
  obtain ⟨s, reached, seen⟩ := Option.map_eq_some_iff.mp computed
  injection seen with conf user
  exact ⟨s, reached, conf, user, (trigger_off _ _ _ s reached).2.2.1 1 conf⟩

/-! The flags are those of the configurer threads. -/

theorem generation_step (index : B → T) (boards : B → Generation.State C) (s : State B T)
    (flags : ∀ c, s.confInProgress c = (boards c).confInProgress) (b : B) (a : Generation.Action C)
    (g : Generation.State C) (done : Generation.step (boards b) a = some g) :
    ∃ s', Transition.Reaches (step index) s s' ∧
      ∀ c, s'.confInProgress c = (Function.update boards b g c).confInProgress := by
  have others : ∀ (conf : B → Bool), conf b = g.confInProgress →
      (∀ c, c ≠ b → conf c = s.confInProgress c) →
      ∀ c, conf c = (Function.update boards b g c).confInProgress := by
    intro conf here rest c
    by_cases same : c = b
    · rw [same, Function.update_self, here]
    · rw [Function.update_of_ne same, rest c same, flags]
  rcases Generation.step_flag _ a g done with same | ⟨-, up⟩ | ⟨-, down⟩
  · exact ⟨s, .refl s, others _ (by rw [flags, same]) fun _ _ => rfl⟩
  · refine ⟨configure index s b, .single (.configure b) rfl, others _ ?_ fun c other => ?_⟩
    · rw [up]
      exact Function.update_self _ _ _
    · exact Function.update_of_ne other _ _
  · by_cases conf : s.confInProgress b = true
    · refine ⟨_, .single (.passEnd b) (if_pos conf), others _ ?_ fun c other => ?_⟩
      · rw [down]
        exact Function.update_self _ _ _
      · exact Function.update_of_ne other _ _
    · exact ⟨s, .refl s, others _ (by rw [down]; simpa using conf) fun _ _ => rfl⟩

def boardStep (boards : B → Generation.State C) (a : B × Generation.Action C) :
    Option (B → Generation.State C) :=
  (Generation.step (boards a.1) a.2).map (Function.update boards a.1)

/-- Whatever all boards do, the flags run as here. -/
theorem generations_simulated (index : B → T) (boards boards' : B → Generation.State C) (s : State B T)
    (flags : ∀ c, s.confInProgress c = (boards c).confInProgress)
    (reached : Transition.Reaches boardStep boards boards') :
    ∃ s', Transition.Reaches (step index) s s' ∧
      ∀ c, s'.confInProgress c = (boards' c).confInProgress := by
  refine Transition.Reaches.simulates
    (fun boards (s : State B T) => ∀ c, s.confInProgress c = (boards c).confInProgress) ?_ flags reached
  intro boards s a boards' flags done
  obtain ⟨g, moved, rfl⟩ := Option.map_eq_some_iff.mp done
  exact generation_step index boards s flags a.1 a.2 g moved

end Ipimb.Trigger
