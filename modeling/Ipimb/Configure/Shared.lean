import Ipimb.Configure.Restore
import Ipimb.Configure.Table

/-!
The table of triggers and the flags of the boards together. The boards find their entries by the name of the
trigger PV; with room in the table for all names this is the same as an entry for each PV, as the trigger has
been modelled, and what holds there holds of the table.
-/

namespace Ipimb.Shared
open Ipimb.Table (Dblink Entry Access HasRoom)
open Ipimb.Trigger (Action)

/-- The table, and for each board its flag and its WaitConfig record. For the record only: the boards whose
`configure` WaitConfig has not been processed after. -/
structure State (B : Type) where
  table : Table.State B
  confInProgress : B → Bool
  pact : B → Bool
  pending : B → Bool
  finishing : B → Bool
  due : B → Bool

variable {B : Type} [DecidableEq B]

def State.init (triggers : Int → Entry) (pv : String → Int) : State B where
  table := Table.State.init triggers pv
  confInProgress := fun _ => false
  pact := fun _ => false
  pending := fun _ => false
  finishing := fun _ => false
  due := fun _ => false

section Code
variable (link : B → String)

def configure (s : State B) (b : B) : State B :=
  { s with
    table := Table.ipimbConfigureByName s.table b (.dbLink (link b))
    confInProgress := Function.update s.confInProgress b true
    due := Function.update s.due b true }

def restoreTrigger (s : State B) (b : B) : State B := { s with table := Table.restoreTrigger s.table b }

def readBi (s : State B) (b : B) : State B :=
  if s.confInProgress b then
    { s with pact := Function.update s.pact b true, pending := Function.update s.pending b true }
  else { s with pact := Function.update s.pact b false }

def step (s : State B) : Action B String → Option (State B)
  | .configure b => some (configure link s b)
  | .passEnd b =>
    if s.confInProgress b then
      some { s with confInProgress := Function.update s.confInProgress b false }
    else none
  | .readBi b => some (readBi { s with due := Function.update s.due b false } b)
  | .skip b => if s.pact b then some { s with due := Function.update s.due b false } else none
  | .callback b =>
    if s.pending b then
      if s.confInProgress b then some s
      else
        some (restoreTrigger { s with
          pending := Function.update s.pending b false, finishing := Function.update s.finishing b true } b)
    else none
  | .process b =>
    if s.finishing b then
      let read := readBi s b
      some { read with
        pact := Function.update read.pact b false, finishing := Function.update read.finishing b false }
    else none
  | .putPv name value => some { s with table := s.table.put name value }

end Code

/-! The entries of the table against an entry for each PV. -/

structure Entries (link : B → String) (table : Table.State B) (useCnt savedTrigger : String → Int) : Prop where
  inv : Table.Inv table
  known : ∀ k : Nat, k < table.triggerCount → ∃ b, (table.triggers k).name = link b
  address : ∀ k : Nat, k < table.triggerCount → (table.triggers k).dbTrigger = (table.triggers k).name
  place : ∀ b, 0 ≤ table.triggerIndex b → (table.triggers (table.triggerIndex b)).name = link b
  counts : ∀ k : Nat, k < table.triggerCount →
    (table.triggers k).useCnt = useCnt (table.triggers k).name ∧
      (table.triggers k).savedTrigger = savedTrigger (table.triggers k).name
  absent : ∀ name, (∀ k : Nat, k < table.triggerCount → (table.triggers k).name ≠ name) →
    useCnt name = 0 ∧ savedTrigger name = -1

section Entries
variable {link : B → String} {table : Table.State B} {useCnt savedTrigger : String → Int}

omit [DecidableEq B] in
theorem Entries.init (triggers : Int → Entry) (pv : String → Int) :
    Entries link (Table.State.init triggers pv : Table.State B) (fun _ => 0) fun _ => -1 where
  inv := Table.Inv.init triggers pv
  known _ low := absurd low (Nat.not_lt_zero _)
  address _ low := absurd low (Nat.not_lt_zero _)
  place _ set := absurd (show (0 : Int) ≤ -1 from set) (by decide)
  counts _ low := absurd low (Nat.not_lt_zero _)
  absent _ _ := ⟨rfl, rfl⟩

variable (entries : Entries link table useCnt savedTrigger)
include entries

omit [DecidableEq B] in
theorem Entries.room [Fintype B] (few : (Finset.univ.image link).card ≤ 32) (b : B) : HasRoom table (link b) := by
  by_contra full
  obtain ⟨many, new⟩ := not_or.mp full
  let names := (Finset.range table.triggerCount).image fun k : Nat => (table.triggers k).name
  have size : names.card = table.triggerCount := by
    rw [Finset.card_image_of_injOn, Finset.card_range]
    intro i low j low' same
    exact entries.inv.distinct i j (by simpa using low) (by simpa using low') same
  have other : link b ∉ names := by
    intro member
    obtain ⟨k, low, same⟩ := Finset.mem_image.mp member
    exact new ⟨k, Finset.mem_range.mp low, same⟩
  have all : insert (link b) names ⊆ Finset.univ.image link := by
    refine Finset.insert_subset (Finset.mem_image_of_mem _ (Finset.mem_univ b)) ?_
    intro name member
    obtain ⟨k, low, rfl⟩ := Finset.mem_image.mp member
    obtain ⟨c, same⟩ := entries.known k (Finset.mem_range.mp low)
    rw [same]
    exact Finset.mem_image_of_mem _ (Finset.mem_univ c)
  have counted := Finset.card_le_card all
  rw [Finset.card_insert_of_notMem other, size] at counted
  omega

omit [DecidableEq B] in
theorem Entries.index {b : B} (set : 0 ≤ table.triggerIndex b) :
    ∃ k : Nat, k < table.triggerCount ∧ table.triggerIndex b = k ∧ (table.triggers k).name = link b := by
  obtain ⟨k, here⟩ := Int.eq_ofNat_of_zero_le set
  have below := entries.inv.below b
  have name := entries.place b set
  rw [here] at name
  exact ⟨k, by omega, here, name⟩

omit [DecidableEq B] in
theorem Entries.own {b : B} (set : 0 ≤ table.triggerIndex b) :
    table.triggers (table.triggerIndex b) = ⟨link b, useCnt (link b), savedTrigger (link b), link b⟩ := by
  obtain ⟨k, low, here, name⟩ := entries.index set
  obtain ⟨count, saved⟩ := entries.counts k low
  have address := entries.address k low
  rw [name] at count saved address
  calc
    table.triggers (table.triggerIndex b) = table.triggers k := by rw [here]
    _ = ⟨(table.triggers k).name, (table.triggers k).useCnt, (table.triggers k).savedTrigger,
        (table.triggers k).dbTrigger⟩ := rfl
    _ = ⟨link b, useCnt (link b), savedTrigger (link b), link b⟩ := by rw [name, count, saved, address]

omit [DecidableEq B] in
theorem Entries.replace {b : B} {table' : Table.State B} (set : 0 ≤ table.triggerIndex b) (entry : Entry)
    (name : entry.name = link b) (address : entry.dbTrigger = link b) (inv : Table.Inv table')
    (triggers : table'.triggers = Function.update table.triggers (table.triggerIndex b) entry)
    (count : table'.triggerCount = table.triggerCount) (index : table'.triggerIndex = table.triggerIndex) :
    Entries link table' (Function.update useCnt (link b) entry.useCnt)
      (Function.update savedTrigger (link b) entry.savedTrigger) := by
  obtain ⟨k, low, here, own⟩ := entries.index set
  rw [here] at triggers
  have at_k : table'.triggers k = entry := by rw [triggers, Function.update_self]
  have others (i : Nat) (other : i ≠ k) : table'.triggers i = table.triggers i := by
    rw [triggers, Function.update_of_ne (by omega)]
  have names (i : Nat) : (table'.triggers i).name = (table.triggers i).name := by
    by_cases same : i = k
    · rw [same, at_k, name, own]
    · rw [others i same]
  constructor
  · exact inv
  · intro i low'
    rw [names i]
    exact entries.known i (count ▸ low')
  · intro i low'
    by_cases same : i = k
    · rw [same, at_k, name, address]
    · rw [others i same]
      exact entries.address i (count ▸ low')
  · intro c set'
    rw [index] at set' ⊢
    obtain ⟨j, -, there, named⟩ := entries.index set'
    rw [there, names j, named]
  · intro i low'
    rw [count] at low'
    by_cases same : i = k
    · rw [same, at_k, name, Function.update_self, Function.update_self]
      exact ⟨rfl, rfl⟩
    · have apart : (table.triggers i).name ≠ link b := by
        intro equal
        exact same (entries.inv.distinct i k low' low (equal.trans own.symm))
      rw [others i same, Function.update_of_ne apart, Function.update_of_ne apart]
      exact entries.counts i low'
  · intro other none
    have apart : other ≠ link b := by
      intro equal
      exact none k (count ▸ low) (by rw [names k, own, equal])
    rw [Function.update_of_ne apart, Function.update_of_ne apart]
    exact entries.absent other fun i low' => by
      rw [← names i]
      exact none i (count ▸ low')

theorem Entries.found {b : B} (i : Nat) (same : (table.triggers i).name = link b)
    (inv : Table.Inv { table.looked i with
      triggerIndex := Function.update table.triggerIndex b i
      given := Function.update table.given b (some (link b)) }) :
    Entries link { table.looked i with
      triggerIndex := Function.update table.triggerIndex b i
      given := Function.update table.given b (some (link b)) } useCnt savedTrigger where
  inv := inv
  known := entries.known
  address := entries.address
  place := by
    intro c set
    show (table.triggers (Function.update table.triggerIndex b i c)).name = link c
    have set' : 0 ≤ Function.update table.triggerIndex b i c := set
    by_cases here : c = b
    · rw [here, Function.update_self, same]
    · rw [Function.update_of_ne here] at set' ⊢
      exact entries.place c set'
  counts := entries.counts
  absent := entries.absent

theorem Entries.entered {b : B}
    (new : ∀ k : Nat, k < table.triggerCount → (table.triggers k).name ≠ link b)
    (inv : Table.Inv { (table.looked table.triggerCount).enter (link b) with
      triggerIndex := Function.update table.triggerIndex b table.triggerCount
      given := Function.update table.given b (some (link b)) }) :
    Entries link { (table.looked table.triggerCount).enter (link b) with
      triggerIndex := Function.update table.triggerIndex b table.triggerCount
      given := Function.update table.given b (some (link b)) } useCnt savedTrigger := by
  let triggers := Function.update table.triggers table.triggerCount ⟨link b, 0, -1, link b⟩
  have last : triggers table.triggerCount = ⟨link b, 0, -1, link b⟩ := Function.update_self _ _ _
  have others (i : Int) (low : i < table.triggerCount) : triggers i = table.triggers i :=
    Function.update_of_ne (by omega) _ _
  have old (k : Nat) (low : k < table.triggerCount + 1) : k = table.triggerCount ∨ (k : Int) < table.triggerCount := by
    omega
  obtain ⟨unused, unsaved⟩ := entries.absent (link b) new
  constructor
  · exact inv
  · intro k low
    show ∃ c, (triggers k).name = link c
    rcases old k low with rfl | less
    · exact ⟨b, by rw [last]⟩
    · rw [others k less]
      exact entries.known k (by omega)
  · intro k low
    show (triggers k).dbTrigger = (triggers k).name
    rcases old k low with rfl | less
    · rw [last]
    · rw [others k less]
      exact entries.address k (by omega)
  · intro c set
    show (triggers (Function.update table.triggerIndex b table.triggerCount c)).name = link c
    have set' : 0 ≤ Function.update table.triggerIndex b table.triggerCount c := set
    by_cases here : c = b
    · rw [here, Function.update_self, last]
    · rw [Function.update_of_ne here] at set' ⊢
      rw [others _ (entries.inv.below c)]
      exact entries.place c set'
  · intro k low
    show (triggers k).useCnt = useCnt (triggers k).name ∧ (triggers k).savedTrigger = savedTrigger (triggers k).name
    rcases old k low with rfl | less
    · rw [last, unused, unsaved]
      exact ⟨rfl, rfl⟩
    · rw [others k less]
      exact entries.counts k (by omega)
  · intro name none
    refine entries.absent name fun k low => ?_
    have other : (triggers k).name ≠ name := none k (Nat.lt_succ_of_lt low)
    rw [others k (by omega)] at other
    exact other

theorem Entries.setTrigger [Fintype B] (few : (Finset.univ.image link).card ≤ 32) (b : B) :
    Entries link (Table.setTrigger table b (.dbLink (link b))) useCnt savedTrigger ∧
      0 ≤ (Table.setTrigger table b (.dbLink (link b))).triggerIndex b := by
  have proper : 0 ≤ table.triggerIndex b ∨ ∃ name, Dblink.dbLink (link b) = .dbLink name ∧ HasRoom table name :=
    Or.inr ⟨link b, rfl, entries.room few b⟩
  obtain ⟨inv, set⟩ := Table.setTrigger_inv entries.inv b _ proper
  refine ⟨?_, set⟩
  rcases Table.setTrigger_spec table b (.dbLink (link b)) with ⟨same, -⟩ | ⟨name, linked, -, placed⟩
  · rw [same]
    exact entries
  · cases linked
    generalize Table.setTrigger table b (.dbLink (link b)) = table' at inv placed
    cases placed with
    | found i low same => exact entries.found i same inv
    | entered new => exact entries.entered new inv

omit [DecidableEq B] in
theorem Entries.put (name : String) (value : Int) : Entries link (table.put name value) useCnt savedTrigger :=
  { entries with inv := { entries.inv with } }

end Entries

/-! The two machines side by side. -/

structure Shows (link : B → String) (s : State B) (t : Trigger.State B String) : Prop where
  entries : Entries link s.table t.useCnt t.savedTrigger
  user : s.table.triggerUser = t.triggerUser
  pv : s.table.pv = t.pv
  confInProgress : s.confInProgress = t.confInProgress
  pact : s.pact = t.pact
  pending : s.pending = t.pending
  finishing : s.finishing = t.finishing
  due : s.due = t.due

theorem setTrigger_same (table : Table.State B) (b : B) (trig : Dblink) :
    (Table.setTrigger table b trig).triggerUser = table.triggerUser ∧
      (Table.setTrigger table b trig).pv = table.pv := by
  rcases Table.setTrigger_spec table b trig with ⟨same, -⟩ | ⟨name, -, -, placed⟩
  · rw [same]
    exact ⟨rfl, rfl⟩
  · generalize Table.setTrigger table b trig = table' at placed
    cases placed <;> exact ⟨rfl, rfl⟩

section Values
variable {link : B → String} {table : Table.State B} {t : Trigger.State B String}
  (entries : Entries link table t.useCnt t.savedTrigger) (user : table.triggerUser = t.triggerUser)
  (pv : table.pv = t.pv)
include entries user pv

theorem takeTrigger_shows (b : B) (set : 0 ≤ table.triggerIndex b) :
    Entries link (Table.configure table b) (Trigger.takeTrigger link t b).useCnt
        (Trigger.takeTrigger link t b).savedTrigger ∧
      (Table.configure table b).triggerUser = (Trigger.takeTrigger link t b).triggerUser ∧
      (Table.configure table b).pv = (Trigger.takeTrigger link t b).pv := by
  have inv := Table.configure_inv entries.inv b set
  have own := entries.own set
  by_cases has : t.triggerUser b = true
  · rw [Trigger.takeTrigger, if_pos has, Table.configure, if_pos (by rw [user, has])]
    exact ⟨entries, user, pv⟩
  have free : ¬table.triggerUser b = true := by rwa [user]
  by_cases unused : t.useCnt (link b) = 0
  · let entry : Entry := ⟨link b, t.useCnt (link b) + 1, t.pv (link b), link b⟩
    have first : Table.configure table b = { (table.replace (table.triggerIndex b) entry).put (link b) 0 with
        triggerUser := Function.update table.triggerUser b true } := by
      rw [Table.configure, if_neg free]
      simp only [own]
      rw [if_pos unused, pv]
      rfl
    rw [Trigger.takeTrigger, if_neg has, if_pos unused]
    refine ⟨?_, ?_, ?_⟩
    · exact entries.replace set entry rfl rfl inv (by rw [first]; rfl) (by rw [first]; rfl) (by rw [first]; rfl)
    · rw [first, user]
      rfl
    · rw [first]
      show Function.update table.pv (link b) 0 = Function.update t.pv (link b) 0
      rw [pv]
  · let entry : Entry := ⟨link b, t.useCnt (link b) + 1, t.savedTrigger (link b), link b⟩
    have more : Table.configure table b = { table.replace (table.triggerIndex b) entry with
        triggerUser := Function.update table.triggerUser b true } := by
      rw [Table.configure, if_neg free]
      simp only [own]
      rw [if_neg unused]
      rfl
    have replaced := entries.replace set entry rfl rfl inv (by rw [more]; rfl) (by rw [more]; rfl)
      (by rw [more]; rfl)
    rw [Function.update_eq_self] at replaced
    rw [Trigger.takeTrigger, if_neg has, if_neg unused]
    refine ⟨replaced, ?_, ?_⟩
    · rw [more, user]
      rfl
    · rw [more]
      exact pv

theorem restoreTrigger_shows (b : B) (set : 0 ≤ table.triggerIndex b) :
    Entries link (Table.restoreTrigger table b) (Trigger.restoreTrigger link t b).useCnt
        (Trigger.restoreTrigger link t b).savedTrigger ∧
      (Table.restoreTrigger table b).triggerUser = (Trigger.restoreTrigger link t b).triggerUser ∧
      (Table.restoreTrigger table b).pv = (Trigger.restoreTrigger link t b).pv := by
  have inv := Table.used_inv entries.inv b set (Table.restoreTrigger_spec table b)
  have own := entries.own set
  let entry : Entry := ⟨link b, t.useCnt (link b) - 1, t.savedTrigger (link b), link b⟩
  by_cases last : t.useCnt (link b) - 1 = 0
  · have out : Table.restoreTrigger table b =
        { (table.replace (table.triggerIndex b) entry).put (link b) (t.savedTrigger (link b)) with
          triggerUser := Function.update table.triggerUser b false } := by
      rw [Table.restoreTrigger]
      simp only [own]
      rw [if_pos last]
      rfl
    have replaced := entries.replace set entry rfl rfl inv (by rw [out]; rfl) (by rw [out]; rfl) (by rw [out]; rfl)
    rw [Function.update_eq_self] at replaced
    rw [Trigger.restoreTrigger, if_pos last]
    refine ⟨replaced, ?_, ?_⟩
    · rw [out, user]
      rfl
    · rw [out]
      show Function.update table.pv (link b) _ = Function.update t.pv (link b) _
      rw [pv]
  · have out : Table.restoreTrigger table b = { table.replace (table.triggerIndex b) entry with
        triggerUser := Function.update table.triggerUser b false } := by
      rw [Table.restoreTrigger]
      simp only [own]
      rw [if_neg last]
      rfl
    have replaced := entries.replace set entry rfl rfl inv (by rw [out]; rfl) (by rw [out]; rfl) (by rw [out]; rfl)
    rw [Function.update_eq_self] at replaced
    rw [Trigger.restoreTrigger, if_neg last]
    refine ⟨replaced, ?_, ?_⟩
    · rw [out, user]
    · rw [out]
      exact pv

end Values

section Steps
variable {link : B → String} {s : State B} {t : Trigger.State B String} (shown : Shows link s t)
include shown

theorem configure_shows [Fintype B] (few : (Finset.univ.image link).card ≤ 32) (b : B) :
    Shows link (configure link s b) (Trigger.configure link t b) := by
  obtain ⟨entries, set⟩ := shown.entries.setTrigger few b
  obtain ⟨sameUser, samePv⟩ := setTrigger_same s.table b (.dbLink (link b))
  obtain ⟨taken, user, pv⟩ := takeTrigger_shows entries (sameUser.trans shown.user) (samePv.trans shown.pv) b set
  obtain ⟨-, pact, pending, finishing⟩ := Trigger.takeTrigger_flags link t b
  refine ⟨taken, user, pv, ?_, ?_, ?_, ?_, ?_⟩
  · show Function.update s.confInProgress b true = Function.update t.confInProgress b true
    rw [shown.confInProgress]
  · exact shown.pact.trans pact.symm
  · exact shown.pending.trans pending.symm
  · exact shown.finishing.trans finishing.symm
  · show Function.update s.due b true = Function.update t.due b true
    rw [shown.due]

theorem readBi_shows (b : B) : Shows link (readBi s b) (Trigger.readBi t b) := by
  by_cases conf : t.confInProgress b = true
  · have conf' : s.confInProgress b = true := by rwa [shown.confInProgress]
    rw [readBi, Trigger.readBi, if_pos conf, if_pos conf']
    refine { shown with pact := ?_, pending := ?_ }
    · rw [shown.pact]
    · rw [shown.pending]
  · have conf' : ¬s.confInProgress b = true := by rwa [shown.confInProgress]
    rw [readBi, Trigger.readBi, if_neg conf, if_neg conf']
    refine { shown with pact := ?_ }
    rw [shown.pact]

theorem callback_shows [Fintype B] (off : Trigger.Off link t) (b : B) (waits : t.pending b = true) :
    Shows link
      (restoreTrigger { s with
        pending := Function.update s.pending b false, finishing := Function.update s.finishing b true } b)
      (Trigger.restoreTrigger link { t with
        pending := Function.update t.pending b false, finishing := Function.update t.finishing b true } b) := by
  have set : 0 ≤ s.table.triggerIndex b := by
    by_contra unset
    have free := shown.entries.inv.unset b (Int.not_le.mp unset)
    rw [shown.user, off.pending b waits] at free
    cases free
  let t' := { t with
    pending := Function.update t.pending b false, finishing := Function.update t.finishing b true }
  obtain ⟨left, user, pv⟩ := restoreTrigger_shows (t := t') shown.entries shown.user shown.pv b set
  have same : (Trigger.restoreTrigger link t' b).confInProgress = t.confInProgress ∧
      (Trigger.restoreTrigger link t' b).pact = t.pact ∧
      (Trigger.restoreTrigger link t' b).pending = t'.pending ∧
      (Trigger.restoreTrigger link t' b).finishing = t'.finishing ∧
      (Trigger.restoreTrigger link t' b).due = t.due := by
    unfold Trigger.restoreTrigger
    split <;> exact ⟨rfl, rfl, rfl, rfl, rfl⟩
  obtain ⟨confInProgress, pact, pending, finishing, due⟩ := same
  refine ⟨left, user, pv, ?_, ?_, ?_, ?_, ?_⟩
  · exact shown.confInProgress.trans confInProgress.symm
  · exact shown.pact.trans pact.symm
  · rw [pending]
    show Function.update s.pending b false = Function.update t.pending b false
    rw [shown.pending]
  · rw [finishing]
    show Function.update s.finishing b true = Function.update t.finishing b true
    rw [shown.finishing]
  · exact shown.due.trans due.symm

end Steps

/-- A step of the one is the same step of the other. -/
theorem step_shows [Fintype B] {link : B → String} (few : (Finset.univ.image link).card ≤ 32) (s : State B)
    (t : Trigger.State B String) (a : Action B String) (s' : State B) (rel : Shows link s t ∧ Trigger.Off link t)
    (done : step link s a = some s') :
    ∃ t', Trigger.step link t a = some t' ∧ Shows link s' t' ∧ Trigger.Off link t' := by
  obtain ⟨shown, off⟩ := rel
  have matched (t' : Trigger.State B String) (taken : Trigger.step link t a = some t') (next : Shows link s' t') :
      ∃ t', Trigger.step link t a = some t' ∧ Shows link s' t' ∧ Trigger.Off link t' :=
    ⟨t', taken, next, Trigger.step_off link t a t' off taken⟩
  cases a with
  | configure b =>
    cases done
    exact matched _ rfl (configure_shows shown few b)
  | passEnd b =>
    simp only [step] at done
    split_ifs at done with conf
    cases done
    rw [shown.confInProgress] at conf
    refine matched _ (if_pos conf) { shown with confInProgress := ?_ }
    rw [shown.confInProgress]
  | readBi b =>
    cases done
    have cleared : Shows link { s with due := Function.update s.due b false }
        { t with due := Function.update t.due b false } := { shown with due := by rw [shown.due] }
    exact matched _ rfl (readBi_shows cleared b)
  | skip b =>
    simp only [step] at done
    split_ifs at done with active
    cases done
    rw [shown.pact] at active
    refine matched _ (if_pos active) { shown with due := ?_ }
    rw [shown.due]
  | callback b =>
    simp only [step] at done
    split_ifs at done with waits conf <;> cases done
    · rw [shown.pending] at waits
      rw [shown.confInProgress] at conf
      exact matched t (by rw [Trigger.step, if_pos waits, if_pos conf]) shown
    · rw [shown.pending] at waits
      rw [shown.confInProgress] at conf
      exact matched _ (by rw [Trigger.step, if_pos waits, if_neg conf]) (callback_shows shown off b waits)
  | process b =>
    simp only [step] at done
    split_ifs at done with finishing
    cases done
    rw [shown.finishing] at finishing
    have read := readBi_shows shown b
    refine matched _ (if_pos finishing) { read with pact := ?_, finishing := ?_ }
    · rw [read.pact]
    · rw [read.finishing]
  | putPv name value =>
    cases done
    refine matched _ rfl { shown with entries := shown.entries.put name value, pv := ?_ }
    show Function.update s.table.pv name value = Function.update t.pv name value
    rw [shown.pv]

omit [DecidableEq B] in
theorem init_shows (link : B → String) (triggers : Int → Entry) (pv : String → Int) :
    Shows link (State.init triggers pv) (Trigger.State.init pv) where
  entries := Entries.init triggers pv
  user := rfl
  pv := rfl
  confInProgress := rfl
  pact := rfl
  pending := rfl
  finishing := rfl
  due := rfl

/-- In every run of boards with at most 32 triggers between them: the table is used inside its entries only,
and the run is one of the machine with an entry for each PV, with the same flags and PVs and each board's
entry that of its PV; so the count in the entry is that of the boards with the same trigger that use it. -/
theorem refines [Fintype B] (link : B → String) (few : (Finset.univ.image link).card ≤ 32)
    (triggers : Int → Entry) (pv : String → Int) (actions : List (Action B String)) (s : State B)
    (reached : Transition.run (step link) (State.init triggers pv) actions = some s) :
    (∀ access ∈ s.table.accesses, access.Inside) ∧
      ∃ t, Transition.run (Trigger.step link) (Trigger.State.init pv) actions = some t ∧ Shows link s t ∧
        ∀ b, 0 ≤ s.table.triggerIndex b →
          s.table.triggers (s.table.triggerIndex b) =
              ⟨link b, t.useCnt (link b), t.savedTrigger (link b), link b⟩ ∧
            t.useCnt (link b) =
              (Finset.univ.filter fun c => link c = link b ∧ s.table.triggerUser c = true).card := by
  obtain ⟨t, matched, shown, off⟩ := Transition.run_simulates
    (fun s t => Shows link s t ∧ Trigger.Off link t) (step_shows few)
    ⟨init_shows link triggers pv, Trigger.Off.init pv⟩ reached
  refine ⟨shown.entries.inv.inside, t, matched, shown, fun b set => ⟨shown.entries.own set, ?_⟩⟩
  rw [shown.user]
  exact off.counted (link b)

def oneDone : List (Action Bool String) :=
  [.configure true, .readBi true, .configure false, .readBi false, .passEnd true, .callback true]

theorem refines_once :
    ∃ s : State Bool, Transition.run (step fun _ => "TRIG") (State.init Table.zeros fun _ => 1) oneDone = some s ∧
      (s.table.triggers 0).useCnt = 1 ∧ s.table.pv "TRIG" = 0 ∧ ∀ access ∈ s.table.accesses, access.Inside := by
  have computed : (Transition.run (step fun _ : Bool => "TRIG") (State.init Table.zeros fun _ => 1) oneDone).map
      (fun s => ((s.table.triggers 0).useCnt, s.table.pv "TRIG")) = some (1, 0) := by decide +kernel
  obtain ⟨s, reached, seen⟩ := Option.map_eq_some_iff.mp computed
  injection seen with count value
  exact ⟨s, reached, count, value, (refines (fun _ => "TRIG") (by decide) Table.zeros (fun _ => 1) oneDone s reached).1⟩

/-! The trigger comes back. -/

/-- Whenever WaitConfig is processed for a board with this trigger that has it, the board is still configuring
or a callback is outstanding already; and nobody else writes the PV. -/
def Served (link : B → String) (name : String) (s : State B) : Action B String → Prop
  | .readBi b | .process b =>
    link b = name → s.table.triggerUser b = true → s.confInProgress b = true ∨ s.pending b = true
  | .putPv other _ => other ≠ name
  | _ => True

omit [DecidableEq B] in
theorem served_shows {link : B → String} {name : String} {s : State B} {t : Trigger.State B String}
    (shown : Shows link s t) (a : Action B String) (served : Served link name s a) :
    Trigger.Served link name t a := by
  have same (b : B)
      (served : link b = name → s.table.triggerUser b = true → s.confInProgress b = true ∨ s.pending b = true) :
      link b = name → t.triggerUser b = true → t.confInProgress b = true ∨ t.pending b = true := by
    rwa [← shown.user, ← shown.confInProgress, ← shown.pending]
  cases a with
  | readBi b => exact same b served
  | process b => exact same b served
  | putPv => exact served
  | _ => trivial

/-- In such a run, once every `configure` for a trigger has been followed by its WaitConfig processing, no
board on it is configuring and no callback is outstanding or under way, the PV has its old value, no board has
it, and the entries of its boards count none. -/
theorem table_comes_back [Fintype B] (link : B → String) (few : (Finset.univ.image link).card ≤ 32)
    (triggers : Int → Entry) (pv : String → Int) (actions : List (Action B String)) (s : State B)
    (reached : Transition.run (step link) (State.init triggers pv) actions = some s)
    (name : String) (along : Transition.Along (step link) (Served link name) (State.init triggers pv) actions)
    (quiet : ∀ b, link b = name → s.due b = false ∧ s.confInProgress b = false ∧ s.pending b = false ∧
      s.finishing b = false) :
    s.table.pv name = pv name ∧ ∀ b, link b = name → s.table.triggerUser b = false ∧
      (0 ≤ s.table.triggerIndex b → (s.table.triggers (s.table.triggerIndex b)).useCnt = 0) := by
  have start : Shows link (State.init triggers pv) (Trigger.State.init pv) ∧
      Trigger.Off link (Trigger.State.init pv) := ⟨init_shows link triggers pv, Trigger.Off.init pv⟩
  obtain ⟨t, matched, shown, off⟩ := Transition.run_simulates
    (fun s t => Shows link s t ∧ Trigger.Off link t) (step_shows few) start reached
  have along' := Transition.along_simulates
    (fun s t => Shows link s t ∧ Trigger.Off link t) (step_shows few)
    (fun s t a rel served => served_shows rel.1 a served) start reached along
  have quiet' : Trigger.Quiet link name t := by
    intro b here
    obtain ⟨due, conf, pending, finishing⟩ := quiet b here
    rw [shown.due] at due
    rw [shown.confInProgress] at conf
    rw [shown.pending] at pending
    rw [shown.finishing] at finishing
    exact ⟨due, conf, pending, finishing⟩
  obtain ⟨value, zero, free⟩ := (Trigger.run_back link name pv along' matched).2.of_quiet off quiet'
  refine ⟨?_, fun b here => ⟨?_, fun set => ?_⟩⟩
  · rw [shown.pv]
    exact value
  · rw [shown.user]
    exact free b here
  · rw [shown.entries.own set, here]
    exact zero

instance (link : B → String) (name : String) (s : State B) :
    (a : Action B String) → Decidable (Served link name s a)
  | .readBi b => inferInstanceAs (Decidable (link b = name → s.table.triggerUser b = true → _ ∨ _))
  | .process b => inferInstanceAs (Decidable (link b = name → s.table.triggerUser b = true → _ ∨ _))
  | .putPv other _ => inferInstanceAs (Decidable (other ≠ name))
  | .configure _ => inferInstanceAs (Decidable True)
  | .passEnd _ => inferInstanceAs (Decidable True)
  | .skip _ => inferInstanceAs (Decidable True)
  | .callback _ => inferInstanceAs (Decidable True)

/-- Both are done. Meanwhile somebody writes another PV. -/
def bothDone : List (Action Bool String) :=
  oneDone ++ [.process true, .putPv "OTHER" 3, .passEnd false, .callback false, .process false]

theorem table_comes_back_once :
    ∃ s : State Bool, Transition.run (step fun _ => "TRIG") (State.init Table.zeros fun _ => 1) bothDone = some s ∧
      s.table.pv "TRIG" = 1 ∧ s.table.triggerUser true = false := by
  have along : Transition.Along (step fun _ : Bool => "TRIG") (Served (fun _ => "TRIG") "TRIG")
      (State.init Table.zeros fun _ => 1) bothDone := by decide +kernel
  have computed : (Transition.run (step fun _ : Bool => "TRIG") (State.init Table.zeros fun _ => 1) bothDone).map
      (fun s => decide (∀ b, s.due b = false ∧ s.confInProgress b = false ∧ s.pending b = false ∧
        s.finishing b = false)) = some true := by decide +kernel
  obtain ⟨s, reached, quiet⟩ := Option.map_eq_some_iff.mp computed
  obtain ⟨value, free⟩ := table_comes_back (fun _ => "TRIG") (by decide) Table.zeros (fun _ => 1) bothDone s reached
    "TRIG" along fun b _ => of_decide_eq_true quiet b
  exact ⟨s, reached, value, (free true rfl).1⟩

end Ipimb.Shared
