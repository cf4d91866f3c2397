import Ipimb.Library.Transition
import Mathlib.Logic.Function.Basic

/-!
The table of triggers all boards share. `SetTrigger` gives a board its place in the table after the name of
the trigger PV; `configure` and `RestoreTrigger` go to the place without asking whether the board has one.
The array is modelled with the memory around it, so that a use outside does something, and is seen.
-/

namespace Ipimb.Table

inductive Dblink where
  | dbLink (pvname : String)
  | caLink (pvname : String)
  | constant (value : String)
  deriving DecidableEq

/-- `struct trigger`; a PV is known by its name alone, which stands for its address. -/
structure Entry where
  name : String
  useCnt : Int
  savedTrigger : Int
  dbTrigger : String

/-- A use of `triggers[index]`, with the number of entries, one that is just being made included. -/
structure Access where
  index : Int
  triggerCount : Nat
  deriving DecidableEq

/-- The table, what each board knows of it, and the PVs. For the record only: the uses of the table, and the
name a board was given its place for. -/
structure State (B : Type) where
  triggers : Int → Entry
  triggerCount : Nat
  triggerIndex : B → Int
  triggerUser : B → Bool
  pv : String → Int
  accesses : List Access
  given : B → Option String

variable {B : Type} [DecidableEq B]

def State.init (triggers : Int → Entry) (pv : String → Int) : State B where
  triggers := triggers
  triggerCount := 0
  triggerIndex := fun _ => -1
  triggerUser := fun _ => false
  pv := pv
  accesses := []
  given := fun _ => none

/-- The loop over the table from entry i on. -/
def search (triggers : Int → Entry) (name : String) : (left i : Nat) → Nat
  | 0, i => i
  | left + 1, i => if (triggers i).name = name then i else search triggers name left (i + 1)

/-- The entries the loop has looked at when it stops at i. -/
def State.looked (s : State B) (i : Nat) : State B :=
  { s with
    accesses := s.accesses ++
      (List.range (min (i + 1) s.triggerCount)).map fun k => ⟨(k : Int), s.triggerCount⟩ }

/-- It's new. -/
def State.enter (s : State B) (name : String) : State B :=
  { s with
    triggers := Function.update s.triggers s.triggerCount ⟨name, 0, -1, name⟩
    triggerCount := s.triggerCount + 1
    accesses := s.accesses ++ [⟨s.triggerCount, s.triggerCount + 1⟩] }

def setTrigger (s : State B) (b : B) (trig : Dblink) : State B :=
  if s.triggerIndex b < 0 then
    match trig with
    | .dbLink name =>
      let i := search s.triggers name s.triggerCount 0
      let s := s.looked i
      let s := if i = s.triggerCount then s.enter name else s
      { s with
        triggerIndex := Function.update s.triggerIndex b i
        given := Function.update s.given b (some name) }
    | _ => s
  else s

def State.replace (s : State B) (i : Int) (entry : Entry) : State B :=
  { s with
    triggers := Function.update s.triggers i entry
    accesses := s.accesses ++ [⟨i, s.triggerCount⟩] }

def State.put (s : State B) (name : String) (value : Int) : State B :=
  { s with pv := Function.update s.pv name value }

/-- What `configure` does under the trigger mutex. -/
def configure (s : State B) (b : B) : State B :=
  if s.triggerUser b then s
  else
    let i := s.triggerIndex b
    let entry := s.triggers i
    let used := { entry with useCnt := entry.useCnt + 1 }
    let s :=
      if entry.useCnt = 0 then
        (s.replace i { used with savedTrigger := s.pv entry.dbTrigger }).put entry.dbTrigger 0
      else s.replace i used
    { s with triggerUser := Function.update s.triggerUser b true }

def restoreTrigger (s : State B) (b : B) : State B :=
  let i := s.triggerIndex b
  let entry := s.triggers i
  let left := s.replace i { entry with useCnt := entry.useCnt - 1 }
  let s := if entry.useCnt - 1 = 0 then left.put entry.dbTrigger entry.savedTrigger else left
  { s with triggerUser := Function.update s.triggerUser b false }

def ipimbConfigureByName (s : State B) (b : B) (trig : Dblink) : State B :=
  configure (setTrigger s b trig) b

inductive Action (B : Type) where
  | ipimbConfigureByName (b : B) (trig : Dblink)
  | restoreTrigger (b : B)

def step (s : State B) : Action B → Option (State B)
  | .ipimbConfigureByName b trig => some (ipimbConfigureByName s b trig)
  | .restoreTrigger b => some (restoreTrigger s b)

/-! What is asked of the table, and what of its users. -/

def Access.Inside (access : Access) : Prop :=
  0 ≤ access.index ∧ access.index < access.triggerCount ∧ access.triggerCount ≤ 32

structure Contained (start : State B) (actions : List (Action B)) (s : State B) : Prop where
  inside : ∀ access ∈ s.accesses, access.Inside
  kept : ∀ before after t, actions = before ++ after → Transition.run step start before = some t →
    ∀ b, 0 ≤ t.triggerIndex b → s.triggerIndex b = t.triggerIndex b
  shared : ∀ b c, 0 ≤ s.triggerIndex b → 0 ≤ s.triggerIndex c →
    (s.triggerIndex b = s.triggerIndex c ↔ s.given b = s.given c)

/-- The name has an entry, or there is room for one. -/
def HasRoom (s : State B) (name : String) : Prop :=
  s.triggerCount < 32 ∨ ∃ k < s.triggerCount, (s.triggers k).name = name

/-- A board without a place is configured with a link to a PV of this database that fits into the table, and
no trigger is restored for it. -/
def Proper (s : State B) : Action B → Prop
  | .ipimbConfigureByName b trig => 0 ≤ s.triggerIndex b ∨ ∃ name, trig = .dbLink name ∧ HasRoom s name
  | .restoreTrigger b => 0 ≤ s.triggerIndex b

/-! The loop. -/

theorem search_spec (triggers : Int → Entry) (name : String) (left i : Nat) :
    i ≤ search triggers name left i ∧ search triggers name left i ≤ i + left ∧
      (search triggers name left i < i + left → (triggers (search triggers name left i)).name = name) ∧
      ∀ k : Nat, i ≤ k → k < search triggers name left i → (triggers k).name ≠ name := by
  induction left generalizing i with
  | zero =>
    refine ⟨Nat.le_refl i, Nat.le_refl i, fun less => absurd less (Nat.lt_irrefl i), ?_⟩
    intro k low high
    rw [search] at high
    omega
  | succ left ih =>
    by_cases here : (triggers i).name = name
    · rw [search, if_pos here]
      refine ⟨Nat.le_refl i, by omega, fun _ => here, ?_⟩
      intro k low high
      omega
    · rw [search, if_neg here]
      obtain ⟨low, high, found, others⟩ := ih (i + 1)
      refine ⟨by omega, by omega, fun less => found (by omega), ?_⟩
      intro k from_i before
      by_cases first : k = i
      · rw [first]
        exact here
      · exact others k (by omega) before

/-! What the functions do to the table. -/

/-- A board that had no place has got the place of its name, an old one or the next. -/
inductive Placed (s : State B) (b : B) (name : String) : State B → Prop where
  | found (i : Nat) (low : i < s.triggerCount) (same : (s.triggers i).name = name) :
      Placed s b name { s.looked i with
        triggerIndex := Function.update s.triggerIndex b i
        given := Function.update s.given b (some name) }
  | entered (new : ∀ k : Nat, k < s.triggerCount → (s.triggers k).name ≠ name) :
      Placed s b name { (s.looked s.triggerCount).enter name with
        triggerIndex := Function.update s.triggerIndex b s.triggerCount
        given := Function.update s.given b (some name) }

theorem setTrigger_spec (s : State B) (b : B) (trig : Dblink) :
    (setTrigger s b trig = s ∧ (0 ≤ s.triggerIndex b ∨ ∀ name, trig ≠ .dbLink name)) ∨
      ∃ name, trig = .dbLink name ∧ s.triggerIndex b < 0 ∧ Placed s b name (setTrigger s b trig) := by
  by_cases none : s.triggerIndex b < 0
  · cases trig with
    | caLink name => exact Or.inl ⟨by rw [setTrigger, if_pos none]; nofun, Or.inr nofun⟩
    | constant value => exact Or.inl ⟨by rw [setTrigger, if_pos none]; nofun, Or.inr nofun⟩
    | dbLink name =>
      refine Or.inr ⟨name, rfl, none, ?_⟩
      obtain ⟨-, high, found, others⟩ := search_spec s.triggers name s.triggerCount 0
      rw [setTrigger, if_pos none]
      simp only
      generalize search s.triggers name s.triggerCount 0 = i at high found others
      by_cases last : i = s.triggerCount
      · rw [if_pos (show i = (s.looked i).triggerCount from last), last]
        exact .entered fun k low => others k (Nat.zero_le k) (by rw [last]; exact low)
      · rw [if_neg (show ¬i = (s.looked i).triggerCount from last)]
        exact .found i (by omega) (found (by omega))
  · refine Or.inl ⟨?_, Or.inl (Int.not_lt.mp none)⟩
    unfold setTrigger
    rw [if_neg none]

/-- The entry of a board has been used. It keeps its name. -/
structure Used (s : State B) (b : B) (s' : State B) : Prop where
  triggers : ∃ entry, s'.triggers = Function.update s.triggers (s.triggerIndex b) entry ∧
    entry.name = (s.triggers (s.triggerIndex b)).name
  triggerCount : s'.triggerCount = s.triggerCount
  triggerIndex : s'.triggerIndex = s.triggerIndex
  triggerUser : ∀ c, c ≠ b → s'.triggerUser c = s.triggerUser c
  accesses : s'.accesses = s.accesses ++ [⟨s.triggerIndex b, s.triggerCount⟩]
  given : s'.given = s.given

/-- A board that uses its trigger already leaves the table alone. -/
theorem configure_spec (s : State B) (b : B) :
    (s.triggerUser b = true ∧ configure s b = s) ∨ (s.triggerUser b = false ∧ Used s b (configure s b)) := by
  unfold configure
  cases user : s.triggerUser b with
  | true => exact Or.inl ⟨rfl, rfl⟩
  | false =>
    have other (c : B) (apart : c ≠ b) : Function.update s.triggerUser b true c = s.triggerUser c :=
      Function.update_of_ne apart _ _
    rw [if_neg Bool.false_ne_true]
    dsimp only
    split <;> exact Or.inr ⟨rfl, ⟨_, rfl, rfl⟩, rfl, rfl, other, rfl, rfl⟩

theorem restoreTrigger_spec (s : State B) (b : B) : Used s b (restoreTrigger s b) := by
  have other (c : B) (apart : c ≠ b) : Function.update s.triggerUser b false c = s.triggerUser c :=
    Function.update_of_ne apart _ _
  unfold restoreTrigger
  dsimp only
  split <;> exact ⟨⟨_, rfl, rfl⟩, rfl, rfl, other, rfl, rfl⟩

/-! Entries are made once and stay. -/

/-- Places are those of the table, and names tell entries apart. -/
structure Inv (s : State B) : Prop where
  inside : ∀ access ∈ s.accesses, access.Inside
  bounded : s.triggerCount ≤ 32
  below : ∀ b, s.triggerIndex b < s.triggerCount
  unset : ∀ b, s.triggerIndex b < 0 → s.triggerUser b = false
  distinct : ∀ i j : Nat, i < s.triggerCount → j < s.triggerCount →
    (s.triggers i).name = (s.triggers j).name → i = j
  given : ∀ b, 0 ≤ s.triggerIndex b → s.given b = some (s.triggers (s.triggerIndex b)).name

omit [DecidableEq B] in
theorem Inv.init (triggers : Int → Entry) (pv : String → Int) : Inv (State.init triggers pv : State B) where
  inside := nofun
  bounded := Nat.zero_le 32
  below _ := show (-1 : Int) < 0 by decide
  unset _ _ := rfl
  distinct _ _ low := absurd low (Nat.not_lt_zero _)
  given _ set := absurd (show (0 : Int) ≤ -1 from set) (by decide)

omit [DecidableEq B] in
theorem Inv.shared {s : State B} (inv : Inv s) (b c : B) (set : 0 ≤ s.triggerIndex b)
    (set' : 0 ≤ s.triggerIndex c) : s.triggerIndex b = s.triggerIndex c ↔ s.given b = s.given c := by
  rw [inv.given b set, inv.given c set']
  constructor
  · intro same
    rw [same]
  · intro same
    have below := inv.below b
    have below' := inv.below c
    obtain ⟨i, place⟩ := Int.eq_ofNat_of_zero_le set
    obtain ⟨j, place'⟩ := Int.eq_ofNat_of_zero_le set'
    rw [place, place'] at same ⊢
    have equal := inv.distinct i j (by omega) (by omega) (Option.some.inj same)
    rw [equal]

section Steps
variable {s : State B} (inv : Inv s)
include inv

omit [DecidableEq B] in
theorem looked_inv (i : Nat) : Inv (s.looked i) := by
  refine { inv with inside := ?_ }
  intro access member
  rcases List.mem_append.mp member with old | new
  · exact inv.inside access old
  · obtain ⟨k, looked, rfl⟩ := List.mem_map.mp new
    have low : k < s.triggerCount := by
      rw [List.mem_range] at looked
      omega
    have room := inv.bounded
    exact ⟨Int.natCast_nonneg k, Int.ofNat_lt.mpr low, room⟩

omit [DecidableEq B] in
theorem enter_inv (name : String) (room : s.triggerCount < 32)
    (new : ∀ k : Nat, k < s.triggerCount → (s.triggers k).name ≠ name) : Inv (s.enter name) where
  inside := by
    rw [State.enter, List.forall_mem_append, List.forall_mem_singleton]
    refine ⟨inv.inside, Int.natCast_nonneg _, ?_, room⟩
    simp only
    omega
  bounded := room
  below b := Int.lt_trans (inv.below b) (Int.ofNat_lt.mpr (Nat.lt_succ_self _))
  unset := inv.unset
  distinct := by
    intro i j low low' same
    simp only [State.enter] at low low' same
    have old (k : Nat) (less : k < s.triggerCount) : (k : Int) ≠ s.triggerCount := by omega
    by_cases last : i = s.triggerCount
    · by_cases last' : j = s.triggerCount
      · rw [last, last']
      · rw [last, Function.update_self, Function.update_of_ne (old j (by omega))] at same
        exact absurd same.symm (new j (by omega))
    · by_cases last' : j = s.triggerCount
      · rw [last', Function.update_self, Function.update_of_ne (old i (by omega))] at same
        exact absurd same (new i (by omega))
      · rw [Function.update_of_ne (old i (by omega)), Function.update_of_ne (old j (by omega))] at same
        exact inv.distinct i j (by omega) (by omega) same
  given := by
    intro b set
    have below := inv.below b
    simp only [State.enter]
    rw [Function.update_of_ne (by omega)]
    exact inv.given b set

theorem place_inv (b : B) (name : String) (i : Nat) (low : i < s.triggerCount)
    (found : (s.triggers i).name = name) :
    Inv { s with
      triggerIndex := Function.update s.triggerIndex b i
      given := Function.update s.given b (some name) } where
  inside := inv.inside
  bounded := inv.bounded
  below := by
    intro c
    by_cases same : c = b
    · rw [same]
      simpa using low
    · simp only [Function.update_of_ne same]
      exact inv.below c
  unset := by
    intro c none
    by_cases same : c = b
    · simp only [same, Function.update_self] at none
      omega
    · simp only [Function.update_of_ne same] at none
      exact inv.unset c none
  distinct := inv.distinct
  given := by
    intro c set
    by_cases same : c = b
    · simp only [same, Function.update_self, found]
    · simp only [Function.update_of_ne same] at set ⊢
      exact inv.given c set

theorem placed_inv {s' : State B} (b : B) (name : String) (room : HasRoom s name) (placed : Placed s b name s') :
    Inv s' ∧ 0 ≤ s'.triggerIndex b := by
  cases placed with
  | found i low same => exact ⟨place_inv (looked_inv inv i) b name i low same, by simp⟩
  | entered new =>
    have less : s.triggerCount < 32 := by
      rcases room with less | ⟨k, low, same⟩
      · exact less
      · exact absurd same (new k low)
    have entered := enter_inv (looked_inv inv s.triggerCount) name less new
    refine ⟨place_inv entered b name s.triggerCount (Nat.lt_succ_self _) ?_, by simp⟩
    show (Function.update s.triggers s.triggerCount ⟨name, 0, -1, name⟩ s.triggerCount).name = name
    rw [Function.update_self]

theorem setTrigger_inv (b : B) (trig : Dblink)
    (proper : 0 ≤ s.triggerIndex b ∨ ∃ name, trig = .dbLink name ∧ HasRoom s name) :
    Inv (setTrigger s b trig) ∧ 0 ≤ (setTrigger s b trig).triggerIndex b := by
  rcases setTrigger_spec s b trig with ⟨same, free⟩ | ⟨name, link, none, placed⟩
  · rw [same]
    refine ⟨inv, ?_⟩
    rcases proper with set | ⟨name, link, -⟩
    · exact set
    · exact free.resolve_right fun other => other name link
  · obtain ⟨name', link', room⟩ := proper.resolve_left (by omega)
    rw [link] at link'
    cases link'
    exact placed_inv inv b name room placed

omit [DecidableEq B] in
theorem used_inv {s' : State B} (b : B) (set : 0 ≤ s.triggerIndex b) (used : Used s b s') : Inv s' := by
  obtain ⟨entry, triggers, same⟩ := used.triggers
  have names (i : Int) : (s'.triggers i).name = (s.triggers i).name := by
    rw [triggers]
    by_cases here : i = s.triggerIndex b
    · rw [here, Function.update_self, same]
    · rw [Function.update_of_ne here]
  constructor
  · rw [used.accesses, List.forall_mem_append, List.forall_mem_singleton]
    exact ⟨inv.inside, set, inv.below b, inv.bounded⟩
  · rw [used.triggerCount]
    exact inv.bounded
  · rw [used.triggerCount, used.triggerIndex]
    exact inv.below
  · intro c none
    rw [used.triggerIndex] at none
    have other : c ≠ b := by
      intro equal
      rw [equal] at none
      omega
    rw [used.triggerUser c other]
    exact inv.unset c none
  · intro i j low low' equal
    rw [used.triggerCount] at low low'
    rw [names, names] at equal
    exact inv.distinct i j low low' equal
  · rw [used.triggerIndex, used.given]
    intro c set'
    rw [names]
    exact inv.given c set'

theorem configure_inv (b : B) (set : 0 ≤ s.triggerIndex b) : Inv (configure s b) := by
  rcases configure_spec s b with ⟨-, same⟩ | ⟨-, used⟩
  · rw [same]
    exact inv
  · exact used_inv inv b set used

end Steps

theorem step_inv (s : State B) (a : Action B) (s' : State B) (inv : Inv s) (proper : Proper s a)
    (done : step s a = some s') : Inv s' := by
  cases a with
  | ipimbConfigureByName b trig =>
    cases done
    obtain ⟨placed, set⟩ := setTrigger_inv inv b trig proper
    exact configure_inv placed b set
  | restoreTrigger b =>
    cases done
    exact used_inv inv b proper (restoreTrigger_spec s b)

/-! Nothing is undone: a place that is set stays, and so does a use outside the table. -/

theorem configure_triggerIndex (s : State B) (b : B) : (configure s b).triggerIndex = s.triggerIndex := by
  rcases configure_spec s b with ⟨-, same⟩ | ⟨-, used⟩
  · rw [same]
  · exact used.triggerIndex

theorem placed_kept {s s' : State B} {b : B} {name : String} (placed : Placed s b name s') (c : B)
    (other : c ≠ b) : s'.triggerIndex c = s.triggerIndex c := by
  cases placed with
  | found => exact Function.update_of_ne other _ _
  | entered => exact Function.update_of_ne other _ _

theorem setTrigger_kept (s : State B) (b : B) (trig : Dblink) (c : B) (set : 0 ≤ s.triggerIndex c) :
    (setTrigger s b trig).triggerIndex c = s.triggerIndex c := by
  rcases setTrigger_spec s b trig with ⟨same, -⟩ | ⟨name, -, none, placed⟩
  · rw [same]
  · have other : c ≠ b := by
      intro same
      rw [same] at set
      omega
    exact placed_kept placed c other

theorem step_kept (s : State B) (a : Action B) (s' : State B) (done : step s a = some s') (c : B)
    (set : 0 ≤ s.triggerIndex c) : s'.triggerIndex c = s.triggerIndex c := by
  cases a with
  | ipimbConfigureByName b trig =>
    cases done
    rw [ipimbConfigureByName, configure_triggerIndex, setTrigger_kept s b trig c set]
  | restoreTrigger b =>
    cases done
    rw [(restoreTrigger_spec s b).triggerIndex]

omit [DecidableEq B] in
theorem used_accesses {s s' : State B} {b : B} (used : Used s b s') (access : Access)
    (seen : access ∈ s.accesses) : access ∈ s'.accesses := by
  rw [used.accesses]
  exact List.mem_append_left _ seen

theorem configure_accesses (s : State B) (b : B) (access : Access) (seen : access ∈ s.accesses) :
    access ∈ (configure s b).accesses := by
  rcases configure_spec s b with ⟨-, same⟩ | ⟨-, used⟩
  · rw [same]
    exact seen
  · exact used_accesses used access seen

theorem placed_accesses {s s' : State B} {b : B} {name : String} (placed : Placed s b name s') (access : Access)
    (seen : access ∈ s.accesses) : access ∈ s'.accesses := by
  cases placed with
  | found => exact List.mem_append_left _ seen
  | entered => exact List.mem_append_left _ (List.mem_append_left _ seen)

theorem setTrigger_accesses (s : State B) (b : B) (trig : Dblink) (access : Access)
    (seen : access ∈ s.accesses) : access ∈ (setTrigger s b trig).accesses := by
  rcases setTrigger_spec s b trig with ⟨same, -⟩ | ⟨name, -, -, placed⟩
  · rw [same]
    exact seen
  · exact placed_accesses placed access seen

theorem step_accesses (s : State B) (a : Action B) (s' : State B) (done : step s a = some s')
    (access : Access) (seen : access ∈ s.accesses) : access ∈ s'.accesses := by
  cases a with
  | ipimbConfigureByName b trig =>
    cases done
    exact configure_accesses _ b access (setTrigger_accesses s b trig access seen)
  | restoreTrigger b =>
    cases done
    exact used_accesses (restoreTrigger_spec s b) access seen

/-! A step that is not proper uses the table outside its entries. -/

omit [DecidableEq B] in
theorem used_outside {s s' : State B} {b : B} (none : s.triggerIndex b < 0) (used : Used s b s') :
    ∃ access ∈ s'.accesses, ¬access.Inside := by
  refine ⟨⟨s.triggerIndex b, s.triggerCount⟩, ?_, fun inside => ?_⟩
  · rw [used.accesses]
    exact List.mem_append_right _ (List.mem_singleton_self _)
  · have low : 0 ≤ s.triggerIndex b := inside.1
    omega

/-- The 33rd name is written behind the array. -/
theorem placed_outside {s s' : State B} {b : B} {name : String} (full : ¬HasRoom s name)
    (placed : Placed s b name s') : ∃ access ∈ s'.accesses, ¬access.Inside := by
  obtain ⟨many, new⟩ := not_or.mp full
  cases placed with
  | found i low same => exact absurd ⟨i, low, same⟩ new
  | entered =>
    refine ⟨⟨s.triggerCount, s.triggerCount + 1⟩, ?_, fun inside => ?_⟩
    · exact List.mem_append_right _ (List.mem_singleton_self _)
    · have room : s.triggerCount + 1 ≤ 32 := inside.2.2
      omega

section Improper
variable {s : State B} (inv : Inv s)
include inv

theorem step_outside (a : Action B) (s' : State B) (improper : ¬Proper s a) (done : step s a = some s') :
    ∃ access ∈ s'.accesses, ¬access.Inside := by
  cases a with
  | ipimbConfigureByName b trig =>
    cases done
    obtain ⟨unset, unfit⟩ := not_or.mp improper
    have none : s.triggerIndex b < 0 := Int.not_le.mp unset
    rcases setTrigger_spec s b trig with ⟨same, -⟩ | ⟨name, link, -, placed⟩
    · rw [ipimbConfigureByName, same]
      rcases configure_spec s b with ⟨user, -⟩ | ⟨-, used⟩
      · exact absurd user (by rw [inv.unset b none]; exact Bool.false_ne_true)
      · exact used_outside none used
    · obtain ⟨access, seen, outside⟩ := placed_outside (fun room => unfit ⟨name, link, room⟩) placed
      exact ⟨access, configure_accesses _ b access seen, outside⟩
  | restoreTrigger b =>
    cases done
    exact used_outside (Int.not_le.mp improper) (restoreTrigger_spec s b)

end Improper

theorem along_of_inside {s t : State B} {actions : List (Action B)} (inv : Inv s)
    (done : Transition.run step s actions = some t) (inside : ∀ access ∈ t.accesses, access.Inside) :
    Transition.Along step Proper s actions := by
  induction actions generalizing s with
  | nil => trivial
  | cons a rest ih =>
    obtain ⟨s', first, later⟩ := Transition.run_cons_eq_some step done
    have proper : Proper s a := by
      by_contra improper
      obtain ⟨access, seen, outside⟩ := step_outside inv a s' improper first
      have still := Transition.run_invariant step (fun u => access ∈ u.accesses)
        (fun u b u' before next => step_accesses u b u' next access before) seen later
      exact outside (inside access still)
    refine ⟨proper, ?_⟩
    intro next taken
    rw [first] at taken
    cases taken
    exact ih (step_inv s a s' inv proper first) later

/-- In every run: the table is used inside its entries only, places stay, and boards share a place when they
share a name, exactly when every board that has no place yet is configured with a link to a PV of this
database for which there is an entry or room, and no trigger is restored for such a board. -/
theorem contained_iff (triggers : Int → Entry) (pv : String → Int) (actions : List (Action B)) (s : State B)
    (reached : Transition.run step (State.init triggers pv) actions = some s) :
    Contained (State.init triggers pv) actions s ↔
      Transition.Along step Proper (State.init triggers pv) actions := by
  have start : Inv (State.init triggers pv : State B) := Inv.init triggers pv
  constructor
  · intro contained
    exact along_of_inside start reached contained.inside
  · intro along
    have inv := Transition.run_invariant_along step Proper Inv step_inv start along reached
    refine ⟨inv.inside, ?_, inv.shared⟩
    intro before after t split first b set
    rw [split, Transition.run_append, first] at reached
    exact (Transition.run_invariant step
      (fun u => 0 ≤ u.triggerIndex b ∧ u.triggerIndex b = t.triggerIndex b)
      (fun u a u' held next => by
        have kept := step_kept u a u' next b held.1
        exact ⟨by omega, by omega⟩) ⟨set, rfl⟩ reached).2

/-! A table of zeros, and PVs that are 1, for the runs below. -/

def zeros : Int → Entry := fun _ => ⟨"", 0, 0, ""⟩

theorem contained_shared :
    ∃ s : State Bool, Transition.run step (State.init zeros fun _ => 1)
        [.ipimbConfigureByName true (.dbLink "TRIG"), .ipimbConfigureByName false (.dbLink "TRIG"),
          .restoreTrigger true] = some s ∧
      Contained (State.init zeros fun _ => 1)
        [.ipimbConfigureByName true (.dbLink "TRIG"), .ipimbConfigureByName false (.dbLink "TRIG"),
          .restoreTrigger true] s := by
  refine ⟨_, rfl, (contained_iff zeros (fun _ => 1) _ _ rfl).mpr ⟨?_, ?_⟩⟩
  · exact .inr ⟨"TRIG", rfl, .inl (by decide)⟩
  · intro s first
    cases first
    refine ⟨.inr ⟨"TRIG", rfl, .inl (by decide)⟩, ?_⟩
    intro s second
    cases second
    exact ⟨show (0 : Int) ≤ _ by decide, fun _ _ => trivial⟩

/-- A board whose trigger link is a constant. -/
theorem unplaced_used :
    ¬∀ (triggers : Int → Entry) (pv : String → Int) (actions : List (Action Unit)) (s : State Unit),
      Transition.run step (State.init triggers pv) actions = some s →
        Contained (State.init triggers pv) actions s := by
  intro always
  have contained := always zeros (fun _ => 1) [.ipimbConfigureByName () (.constant "0")] _ rfl
  have inside : (⟨-1, 0⟩ : Access).Inside := contained.inside ⟨-1, 0⟩ (by decide)
  exact absurd inside.1 (by decide)

end Ipimb.Table
