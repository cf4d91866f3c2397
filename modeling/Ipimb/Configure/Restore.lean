import Ipimb.Configure.Trigger

/-!
Does the trigger come back? A board that has its trigger gives it back only in a callback, and only
`read_bi` asks for one; when the pass is over before WaitConfig is processed it does not ask.
-/

namespace Ipimb.Trigger

variable {B T : Type} [DecidableEq B] [DecidableEq T]

/-- Whenever WaitConfig is processed for a board that has trigger t, the board is still configuring or a
callback is outstanding already; and nobody else writes the PV of t. -/
def Served (index : B → T) (t : T) (s : State B T) : Action B T → Prop
  | .readBi b | .process b =>
    index b = t → s.triggerUser b = true → s.confInProgress b = true ∨ s.pending b = true
  | .putPv t' _ => t' ≠ t
  | _ => True

/-- A board that has trigger t has something to come that will give it back, and the value to be written
back is the one from before. -/
structure Back (index : B → T) (t : T) (value : Int) (s : State B T) : Prop where
  coming : ∀ b, index b = t → s.triggerUser b = true →
    s.due b = true ∨ s.pending b = true ∨ s.finishing b = true
  active : ∀ b, s.pact b = true → s.pending b = true ∨ s.finishing b = true
  unused : s.useCnt t = 0 → s.pv t = value
  saved : s.useCnt t ≠ 0 → s.savedTrigger t = value

omit [DecidableEq B] [DecidableEq T] in
theorem Back.init (index : B → T) (t : T) (pv : T → Int) :
    Back index t (pv t) (State.init pv : State B T) where
  coming := nofun
  active := nofun
  unused := fun _ => rfl
  saved := fun held => absurd rfl held

section Back
variable [Fintype B] {index : B → T} {t : T} {value : Int} {s : State B T} (inv : Back index t value s)
include inv

/-- What is saved is the value from before, for it is saved only when nobody has the trigger. -/
theorem takeTrigger_values (b : B) (off : Off index s) :
    ((takeTrigger index s b).useCnt t = 0 → (takeTrigger index s b).pv t = value) ∧
      ((takeTrigger index s b).useCnt t ≠ 0 → (takeTrigger index s b).savedTrigger t = value) := by
  have nonneg := off.counted.nonneg (index b)
  unfold takeTrigger
  split_ifs with user unused
  · exact ⟨inv.unused, inv.saved⟩
  · by_cases here : t = index b
    · subst here
      constructor
      · intro zero
        simp [State.use, State.save, State.put, unused] at zero
      · intro _
        simp only [State.use, State.save, State.put, Function.update_self]
        exact inv.unused unused
    · simp only [State.use, State.save, State.put, Function.update_of_ne here]
      exact ⟨inv.unused, inv.saved⟩
  · by_cases here : t = index b
    · subst here
      constructor
      · intro zero
        simp only [State.use, Function.update_self] at zero
        omega
      · exact fun _ => inv.saved unused
    · simp only [State.use, Function.update_of_ne here]
      exact ⟨inv.unused, inv.saved⟩

theorem configure_back (b : B) (off : Off index s) : Back index t value (configure index s b) := by
  obtain ⟨unused, saved⟩ := takeTrigger_values inv b off
  obtain ⟨-, pact, pending, finishing⟩ := takeTrigger_flags index s b
  refine ⟨fun c at_t has => ?_, fun c active => ?_, unused, saved⟩
  · simp only [configure, pending, finishing] at has ⊢
    by_cases here : c = b
    · exact .inl (by rw [here, Function.update_self])
    · rw [takeTrigger_other index s b c here] at has
      rw [Function.update_of_ne here]
      exact inv.coming c at_t has
  · simp only [configure, pact, pending, finishing] at active ⊢
    exact inv.active c active

omit [Fintype B] [DecidableEq T] inv in
theorem readBi_pending (b : B) :
    (s.confInProgress b = true ∨ s.pending b = true → (readBi s b).pending b = true) ∧
      ∀ c, s.pending c = true → (readBi s b).pending c = true := by
  unfold readBi
  split_ifs with conf
  · exact ⟨fun _ => Function.update_self _ _ _, fun c waits => update_stays waits⟩
  · exact ⟨fun served => served.resolve_left conf, fun c waits => waits⟩

omit [Fintype B] [DecidableEq T] in
theorem readBi_active (b c : B) (active : (readBi s b).pact c = true) :
    (readBi s b).pending c = true ∨ s.finishing c = true := by
  unfold readBi at active ⊢
  split_ifs at active ⊢ with conf
  · rcases update_up active with ⟨here, -⟩ | ⟨other, before⟩
    · exact .inl (by rw [here]; exact Function.update_self _ _ _)
    · exact (inv.active c before).imp_left fun waits => update_stays waits
  · rcases update_up active with ⟨-, no⟩ | ⟨other, before⟩
    · cases no
    · exact inv.active c before

omit [Fintype B] [DecidableEq T] in
/-- `read_bi` of a board that is served, whatever becomes of the board's own flags besides. -/
theorem readBi_back (b : B)
    (served : index b = t → s.triggerUser b = true → s.confInProgress b = true ∨ s.pending b = true)
    (due pact finishing : B → Bool) (due_other : ∀ c, c ≠ b → due c = s.due c)
    (finishing_other : ∀ c, c ≠ b → finishing c = s.finishing c)
    (active : ∀ c, pact c = true → (readBi s b).pending c = true ∨ finishing c = true) :
    Back index t value { readBi s b with due := due, pact := pact, finishing := finishing } := by
  obtain ⟨waits, kept⟩ := readBi_pending (s := s) b
  obtain ⟨user, -, -, useCnt, held_value, saved⟩ := readBi_same s b
  refine ⟨fun c at_t has => ?_, active, ?_, ?_⟩
  · simp only [user] at has
    by_cases at_b : c = b
    · rw [at_b] at at_t has ⊢
      exact .inr (.inl (waits (served at_t has)))
    · simp only [due_other c at_b, finishing_other c at_b]
      exact (inv.coming c at_t has).imp_right fun rest => rest.imp_left (kept c)
  · simp only [useCnt, held_value]
    exact inv.unused
  · simp only [useCnt, saved]
    exact inv.saved

theorem restoreTrigger_back (b : B) (off : Off index s) (waits : s.pending b = true) :
    Back index t value (restoreTrigger index { s with
      pending := Function.update s.pending b false
      finishing := Function.update s.finishing b true } b) := by
  have used : s.useCnt (index b) ≠ 0 := ne_of_gt (off.counted.pos (off.pending b waits))
  have coming : ∀ c, index c = t → Function.update s.triggerUser b false c = true →
      s.due c = true ∨ Function.update s.pending b false c = true ∨
        Function.update s.finishing b true c = true := by
    intro c at_t has
    rcases update_up has with ⟨-, no⟩ | ⟨other, before⟩
    · cases no
    · rw [Function.update_of_ne other, Function.update_of_ne other]
      exact inv.coming c at_t before
  have active : ∀ c, s.pact c = true → Function.update s.pending b false c = true ∨
      Function.update s.finishing b true c = true := by
    intro c acts
    by_cases here : c = b
    · exact .inr (by rw [here, Function.update_self])
    · rw [Function.update_of_ne here, Function.update_of_ne here]
      exact inv.active c acts
  have saved : Function.update s.useCnt (index b) (s.useCnt (index b) - 1) t ≠ 0 →
      s.savedTrigger t = value := by
    intro held
    by_cases here : t = index b
    · subst here
      exact inv.saved used
    · rw [Function.update_of_ne here] at held
      exact inv.saved held
  unfold restoreTrigger
  split_ifs with last
  · refine ⟨coming, active, fun zero => ?_, saved⟩
    by_cases here : t = index b
    · subst here
      simp only [State.put, Function.update_self]
      exact inv.saved used
    · simp only [State.put, Function.update_of_ne here] at zero ⊢
      exact inv.unused zero
  · refine ⟨coming, active, fun zero => ?_, saved⟩
    by_cases here : t = index b
    · subst here
      exact absurd (by simpa using zero) last
    · simp only [Function.update_of_ne here] at zero
      exact inv.unused zero

end Back

theorem step_back [Fintype B] (index : B → T) (t : T) (value : Int) (s : State B T) (a : Action B T)
    (s' : State B T) (off : Off index s) (served : Served index t s a) (inv : Back index t value s)
    (done : step index s a = some s') : Back index t value s' := by
  cases a with
  | configure b =>
    cases done
    exact configure_back inv b off
  | passEnd b =>
    simp only [step] at done
    split_ifs at done
    cases done
    exact { inv with }
  | readBi b =>
    cases done
    obtain ⟨-, -, finishing, -, -, -⟩ := readBi_same s b
    have same : readBi { s with due := Function.update s.due b false } b =
        { readBi s b with due := Function.update s.due b false } := by
      unfold readBi
      split_ifs <;> rfl
    rw [same]
    apply readBi_back inv b served (Function.update s.due b false) (readBi s b).pact (readBi s b).finishing
    · exact fun c other => Function.update_of_ne other _ _
    · exact fun c _ => congrFun finishing c
    · rw [finishing]
      exact readBi_active inv b
  | skip b =>
    simp only [step] at done
    split_ifs at done with acts
    cases done
    refine { inv with coming := fun c at_t has => ?_ }
    by_cases here : c = b
    · rw [here]
      exact .inr (inv.active b acts)
    · simp only [Function.update_of_ne here]
      exact inv.coming c at_t has
  | callback b =>
    simp only [step] at done
    split_ifs at done with waits conf <;> cases done
    · exact inv
    · exact restoreTrigger_back inv b off waits
  | process b =>
    simp only [step] at done
    split_ifs at done
    cases done
    obtain ⟨-, due, finishing, -, -, -⟩ := readBi_same s b
    apply readBi_back inv b served
    · exact fun c _ => congrFun due c
    · intro c other
      rw [Function.update_of_ne other, finishing]
    · intro c acts
      rcases update_up acts with ⟨-, no⟩ | ⟨other, before⟩
      · cases no
      · rw [Function.update_of_ne other, finishing]
        exact readBi_active inv b c before
  | putPv t' v =>
    cases done
    refine { inv with unused := fun zero => ?_ }
    show Function.update s.pv t' v t = value
    rw [Function.update_of_ne (Ne.symm served)]
    exact inv.unused zero

theorem run_back [Fintype B] (index : B → T) (t : T) (pv : T → Int) {actions : List (Action B T)}
    {s : State B T} (along : Transition.Along (step index) (Served index t) (State.init pv) actions)
    (reached : Transition.run (step index) (State.init pv) actions = some s) :
    Off index s ∧ Back index t (pv t) s :=
  Transition.run_invariant_along (step index) (Served index t)
    (fun s => Off index s ∧ Back index t (pv t) s)
    (fun s a s' inv served done =>
      ⟨step_off index s a s' inv.1 done, step_back index t (pv t) s a s' inv.1 served inv.2 done⟩)
    ⟨Off.init pv, Back.init index t pv⟩ along reached

def Quiet (index : B → T) (t : T) (s : State B T) : Prop :=
  ∀ b, index b = t → s.due b = false ∧ s.confInProgress b = false ∧ s.pending b = false ∧
    s.finishing b = false

omit [DecidableEq B] in
theorem Back.of_quiet [Fintype B] {index : B → T} {t : T} {value : Int} {s : State B T}
    (back : Back index t value s) (off : Off index s) (quiet : Quiet index t s) :
    s.pv t = value ∧ s.useCnt t = 0 ∧ ∀ b, index b = t → s.triggerUser b = false := by
  have free : ∀ b, index b = t → s.triggerUser b = false := by
    intro b here
    obtain ⟨done, -, none, finished⟩ := quiet b here
    by_contra has
    have coming := back.coming b here (by simpa using has)
    rw [done, none, finished] at coming
    simp at coming
  have zero := off.counted.eq_zero free
  exact ⟨back.unused zero, zero, free⟩

/-- In every run in which WaitConfig, whenever it is processed for a board that has trigger t, finds the
board configuring or a callback outstanding, and nobody else writes the PV: once every `configure` for t has
been followed by its WaitConfig processing, no board of t is configuring and no callback is outstanding or
under way, the PV has its old value, its count is 0 and no board has it. -/
theorem trigger_comes_back [Fintype B] (index : B → T) (pv : T → Int) (actions : List (Action B T))
    (s : State B T) (reached : Transition.run (step index) (State.init pv) actions = some s)
    (t : T) (along : Transition.Along (step index) (Served index t) (State.init pv) actions)
    (quiet : ∀ b, index b = t → s.due b = false ∧ s.confInProgress b = false ∧ s.pending b = false ∧
      s.finishing b = false) :
    s.pv t = pv t ∧ s.useCnt t = 0 ∧ ∀ b, index b = t → s.triggerUser b = false := by
  obtain ⟨off, back⟩ := run_back index t pv along reached
  exact back.of_quiet off quiet

instance (index : B → T) (t : T) (s : State B T) : (a : Action B T) → Decidable (Served index t s a)
  | .readBi b => inferInstanceAs (Decidable (index b = t → s.triggerUser b = true → _ ∨ _))
  | .process b => inferInstanceAs (Decidable (index b = t → s.triggerUser b = true → _ ∨ _))
  | .putPv t' _ => inferInstanceAs (Decidable (t' ≠ t))
  | .configure _ => inferInstanceAs (Decidable True)
  | .passEnd _ => inferInstanceAs (Decidable True)
  | .skip _ => inferInstanceAs (Decidable True)
  | .callback _ => inferInstanceAs (Decidable True)

/-- Two boards share a trigger, and both are done. Meanwhile a third one loses another trigger, whose PV
somebody writes. -/
def shared : List (Action (Fin 3) Bool) :=
  [.configure 0, .readBi 0, .configure 2, .passEnd 2, .readBi 2, .configure 1, .readBi 1, .putPv true 5,
    .passEnd 0, .callback 0, .process 0, .passEnd 1, .callback 1, .process 1]

theorem trigger_comes_back_shared :
    ∃ s : State (Fin 3) Bool, Transition.run (step (· == 2)) (State.init fun _ => 1) shared = some s ∧
      s.triggerUser 2 = true ∧ s.pv false = 1 ∧ s.useCnt false = 0 := by
  have along : Transition.Along (step fun b : Fin 3 => b == 2) (Served (· == 2) false) (State.init fun _ => 1)
      shared := by decide
  have computed : (Transition.run (step fun b : Fin 3 => b == 2) (State.init fun _ => 1) shared).map
      (fun s => (s.triggerUser 2, decide (∀ b : Fin 3, (b == 2) = false → s.due b = false ∧
        s.confInProgress b = false ∧ s.pending b = false ∧ s.finishing b = false))) =
      some (true, true) := by decide
  obtain ⟨s, reached, seen⟩ := Option.map_eq_some_iff.mp computed
  injection seen with user quiet
  obtain ⟨value, zero, -⟩ := trigger_comes_back _ _ _ s reached false along (of_decide_eq_true quiet)
  exact ⟨s, reached, user, value, zero⟩

/-- A pass that is over before WaitConfig is processed: nothing will give the trigger back. -/
theorem trigger_lost :
    ¬∀ (actions : List (Action Unit Unit)) (s : State Unit Unit),
      Transition.run (step id) (State.init fun _ => 1) actions = some s →
        (∀ b, s.due b = false ∧ s.confInProgress b = false ∧ s.pending b = false ∧
          s.finishing b = false) →
        s.pv () = 1 ∧ s.useCnt () = 0 ∧ s.triggerUser () = false := by
  intro always
  have computed : (Transition.run (step id) (State.init fun _ => 1)
      [.configure (), .passEnd (), .readBi ()]).map
      (fun s => (decide (∀ b, s.due b = false ∧ s.confInProgress b = false ∧ s.pending b = false ∧
        s.finishing b = false), s.pv ())) = some (true, 0) := by decide
  obtain ⟨s, reached, seen⟩ := Option.map_eq_some_iff.mp computed
  injection seen with quiet value
  have back := (always _ s reached (of_decide_eq_true quiet)).1
  rw [value] at back
  cases back

end Ipimb.Trigger
