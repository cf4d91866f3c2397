import Ipimb.Library.Transition
import Ipimb.Records.BigselFields
import Mathlib.Data.List.Induction
import Mathlib.Logic.Function.Basic

/-!
The bigsel record, which picks one of its inputs. Sixteen inputs are declared and twelve are looked at. The
arithmetic on doubles and the deadband check are parameters.
-/

namespace Ipimb.Bigsel
open Ipimb.BigselFields

def selMax : Nat := 12

/-- What the record does with doubles, and whether the change between two values exceeds a deadband. -/
structure Double (V : Type) where
  nan : V
  inf : V
  minusInf : V
  isnan : V → Bool
  lt : V → V → Bool
  le : V → V → Bool
  eq : V → V → Bool
  add : V → V → V
  sub : V → V → V
  exceeds : V → V → V → Bool

inductive Selm where
  | specified
  | highSignal
  | lowSignal
  | medianSignal
  deriving DecidableEq

inductive Severity where
  | noAlarm
  | minor
  | major
  | invalid
  deriving DecidableEq

def Severity.rank : Severity → Nat
  | .noAlarm => 0
  | .minor => 1
  | .major => 2
  | .invalid => 3

inductive Alarm where
  | noAlarm
  | hihi
  | high
  | lolo
  | low
  | link
  | soft
  | udf
  deriving DecidableEq

/-- An input link: a constant, which may be missing, or a field of another record. -/
inductive Link (α : Type) where
  | constant (value : Option α)
  | db (pv : String)

/-- What there is to be read behind the links; nothing when a read fails. -/
structure Env (V : Type) where
  ushort : String → Option (BitVec 16)
  double : String → Option V

inductive Post where
  | val
  | seln
  | input (i : Nat)

/-- The links of the inputs and their values, present and previous, are counted from the first. -/
structure BigselRecord (V : Type) where
  stat : Alarm
  sevr : Severity
  nsta : Alarm
  nsev : Severity
  udf : Bool
  udfs : Severity
  val : V
  selm : Selm
  seln : BitVec 16
  nvl : Link (BitVec 16)
  inp : Nat → Link V
  hihi : V
  lolo : V
  high : V
  low : V
  hhsv : Severity
  llsv : Severity
  hsv : Severity
  lsv : Severity
  hyst : V
  adel : V
  mdel : V
  value : Nat → V
  prev : Nat → V
  lalm : V
  alst : V
  mlst : V
  nlst : BitVec 16
  posted : List Post

section Code
variable {V : Type} (fp : Double V)

/-- The link fields of the database, stored by their offsets. -/
def loadLinks (given : Fin 16 → Link V) : Nat → Link V :=
  (List.finRange 16).foldl (fun links n => Function.update links (slot n) (given n)) fun _ => .constant none

/-- `recGblInitConstantLink` -/
def Link.init {α : Type} (link : Link α) (old : α) : α :=
  match link with
  | .constant (some value) => value
  | _ => old

/-- `dbGetLink`: whether it succeeds, and what is in the field then. -/
def Link.get {α : Type} (link : Link α) (read : String → Option α) (old : α) : Bool × α :=
  match link with
  | .constant _ => (true, old)
  | .db pv =>
    match read pv with
    | some value => (true, value)
    | none => (false, old)

/-- `recGblSetSevr`: the worst alarm stays. -/
def setSevr (prec : BigselRecord V) (stat : Alarm) (sevr : Severity) : BigselRecord V × Bool :=
  if prec.nsev.rank < sevr.rank then ({ prec with nsta := stat, nsev := sevr }, true) else (prec, false)

/-- The second pass. -/
def initRecord (prec : BigselRecord V) : BigselRecord V :=
  { prec with
    seln := prec.nvl.init prec.seln
    value := fun i => if i < selMax then (prec.inp i).init fp.nan else prec.value i }

def linkAlarm (prec : BigselRecord V) (status : Bool) : BigselRecord V :=
  if status then prec else (setSevr prec .link .invalid).1

def fetchValue (env : Env V) (prec : BigselRecord V) (i : Nat) : BigselRecord V × Bool :=
  let (status, value) := (prec.inp i).get env.double (prec.value i)
  (linkAlarm { prec with value := Function.update prec.value i value } status, status)

def fetchValues (env : Env V) (prec : BigselRecord V) : BigselRecord V × Bool :=
  if prec.selm = .specified then
    let (status, seln) := prec.nvl.get env.ushort prec.seln
    let prec := linkAlarm { prec with seln := seln } status
    if !status || prec.seln.toNat ≥ selMax then (prec, status)
    else fetchValue env prec prec.seln.toNat
  else
    (List.range selMax).foldl (fun done i => fetchValue env done.1 i) (prec, true)

/-- One turn of the loops for the highest and the lowest input. -/
def better (value : Nat → V) (beats : V → V → Bool) (best : V × BitVec 16) (i : Nat) : V × BitVec 16 :=
  if !fp.isnan (value i) && beats (value i) best.1 then (value i, BitVec.ofNat 16 i) else best

/-- One turn of the insertion sort: the value goes before those that are greater. -/
def insert (value : V) : List V → List V
  | [] => [value]
  | v :: rest => if fp.lt value v then value :: v :: rest else v :: insert value rest

def selection (prec : BigselRecord V) : V × BitVec 16 :=
  match prec.selm with
  | .specified => (prec.value prec.seln.toNat, prec.seln)
  | .highSignal =>
    (List.range selMax).foldl (better fp prec.value fun v best => fp.lt best v) (fp.minusInf, prec.seln)
  | .lowSignal =>
    (List.range selMax).foldl (better fp prec.value fun v best => fp.lt v best) (fp.inf, prec.seln)
  | .medianSignal =>
    let present := ((List.range selMax).map prec.value).filter fun v => !fp.isnan v
    let order := present.foldl (fun order v => insert fp v order) []
    (order.getD (order.length / 2) fp.nan, BitVec.ofNat 16 order.length)

def doSel (prec : BigselRecord V) : BigselRecord V :=
  if prec.selm = .specified ∧ prec.seln.toNat ≥ selMax then (setSevr prec .soft .invalid).1
  else
    let (val, seln) := selection fp prec
    { prec with val := val, seln := seln, udf := fp.isnan val }

/-- One of the four limit checks; nothing when it does not apply. -/
def checkLimit (prec : BigselRecord V) (stat : Alarm) (asev : Severity) (alev : V) (beyond : V → Bool)
    (back : V) : Option (BigselRecord V) :=
  if asev ≠ .noAlarm ∧ (beyond alev || fp.eq prec.lalm alev && beyond back) then
    let (prec, raised) := setSevr prec stat asev
    some (if raised then { prec with lalm := alev } else prec)
  else none

def checkAlarms (prec : BigselRecord V) : BigselRecord V :=
  if prec.udf then (setSevr prec .udf prec.udfs).1
  else
    let above := fun limit => fp.le limit prec.val
    let below := fun limit => fp.le prec.val limit
    ((checkLimit fp prec .hihi prec.hhsv prec.hihi above (fp.sub prec.hihi prec.hyst)).or <|
      (checkLimit fp prec .lolo prec.llsv prec.lolo below (fp.add prec.lolo prec.hyst)).or <|
      (checkLimit fp prec .high prec.hsv prec.high above (fp.sub prec.high prec.hyst)).or <|
      checkLimit fp prec .low prec.lsv prec.low below (fp.add prec.low prec.hyst)).getD
        { prec with lalm := prec.val }

/-- `recGblResetAlarms`: the new alarm becomes the current one. -/
def resetAlarms (prec : BigselRecord V) : BigselRecord V × Bool :=
  ({ prec with stat := prec.nsta, sevr := prec.nsev, nsta := .noAlarm, nsev := .noAlarm },
    prec.stat ≠ prec.nsta || prec.sevr ≠ prec.nsev)

def postInput (prec : BigselRecord V) (i : Nat) : BigselRecord V :=
  if fp.eq (prec.value i) (prec.prev i) then prec
  else
    { prec with
      posted := prec.posted ++ [.input i]
      prev := Function.update prec.prev i (prec.value i) }

def monitor (prec : BigselRecord V) : BigselRecord V :=
  let (prec, alarm) := resetAlarms prec
  let changed := fp.exceeds prec.mlst prec.val prec.mdel
  let archived := fp.exceeds prec.alst prec.val prec.adel
  let prec := { prec with
    mlst := if changed then prec.val else prec.mlst
    alst := if archived then prec.val else prec.alst
    posted := if alarm || changed || archived then prec.posted ++ [.val] else prec.posted }
  let prec :=
    if prec.nlst ≠ prec.seln then { prec with nlst := prec.seln, posted := prec.posted ++ [.seln] } else prec
  (List.range selMax).foldl (postInput fp) prec

def process (prec : BigselRecord V) (env : Env V) : BigselRecord V :=
  let (prec, status) := fetchValues env prec
  let prec := if status then doSel fp prec else prec
  monitor fp (checkAlarms fp prec)

/-- The record as it is loaded for SELM = Specified, and initialised. -/
def load (prec : BigselRecord V) (nvl : Link (BitVec 16)) (given : Fin 16 → Link V) : BigselRecord V :=
  initRecord fp { prec with
    selm := .specified, nvl := nvl, inp := loadLinks given, nsta := .noAlarm, nsev := .noAlarm }

def step (prec : BigselRecord V) (env : Env V) : Option (BigselRecord V) := some (process fp prec env)

/-! What is asked of the record. -/

/-- The value a link stands for. -/
def Link.supplied {α : Type} (link : Link α) (read : String → Option α) : Option α :=
  match link with
  | .constant value => value
  | .db pv => read pv

/-- The n-th declared input is picked; where there is none, an alarm is raised. -/
def Follows (given : Fin 16 → Link V) (prec : BigselRecord V) (env : Env V) : Prop :=
  ∀ n ∈ prec.nvl.supplied env.ushort,
    (∀ inside : n.toNat < 16, ∀ v ∈ (given ⟨n.toNat, inside⟩).supplied env.double,
      (process fp prec env).val = v ∧ (fp.isnan v = false → (process fp prec env).udf = false) ∧
        (process fp prec env).stat ≠ .soft) ∧
    (16 ≤ n.toNat → (process fp prec env).val = prec.val ∧ (process fp prec env).stat = .soft ∧
      (process fp prec env).sevr = .invalid)

/-- None of the last four inputs is asked for, or it has no value to give. -/
def Early (given : Fin 16 → Link V) (prec : BigselRecord V) (env : Env V) : Prop :=
  ∀ n ∈ prec.nvl.supplied env.ushort, 12 ≤ n.toNat →
    ∀ inside : n.toNat < 16, (given ⟨n.toNat, inside⟩).supplied env.double = none

end Code

/-! The links. -/

section Links
variable {V : Type} (given : Fin 16 → Link V)

theorem update_slots (links : Nat → Link V) (ns : List (Fin 16)) (n : Fin 16) (member : n ∈ ns) :
    ns.foldl (fun links n => Function.update links (slot n) (given n)) links (slot n) = given n := by
  induction ns using List.reverseRecOn with
  | nil => cases member
  | append_singleton ns last ih =>
    rw [List.foldl_append, List.foldl_cons, List.foldl_nil]
    by_cases same : n = last
    · rw [same, Function.update_self]
    · rw [Function.update_of_ne fun equal => same (slot_injective equal)]
      exact ih ((List.mem_append.mp member).resolve_right (by simpa using same))

theorem loadLinks_early (n : Nat) (early : n < selMax) :
    loadLinks given n = given ⟨n, Nat.lt_of_lt_of_le early (by decide)⟩ := by
  have inside : n < 16 := Nat.lt_of_lt_of_le early (by decide)
  have own : slot ⟨n, inside⟩ = n := by
    have less : n < 12 := early
    rw [slot_eq, if_neg (by simp only; omega), if_neg (by simp only; omega)]
  have stored := update_slots given (fun _ => .constant none) (List.finRange 16) ⟨n, inside⟩
    (List.mem_finRange _)
  rw [own] at stored
  exact stored

variable {α : Type}

theorem get_of_supplied (link : Link α) (read : String → Option α) (old v : α)
    (loaded : ∀ c, link = .constant (some c) → old = c) (supplied : link.supplied read = some v) :
    link.get read old = (true, v) := by
  cases link with
  | constant value =>
    rw [Link.supplied] at supplied
    rw [Link.get, loaded v (by rw [supplied])]
  | db pv =>
    rw [Link.supplied] at supplied
    rw [Link.get, supplied]

theorem get_constant (link : Link α) (read : String → Option α) (old c : α)
    (constant : link = .constant (some c)) : link.get read old = (true, old) := by
  rw [constant]
  rfl

end Links

/-! What the parts of `process` leave alone. -/

section Parts
variable {V : Type} {prec prec' prec'' : BigselRecord V}

structure SameInputs (prec prec' : BigselRecord V) : Prop where
  selm : prec'.selm = prec.selm
  nvl : prec'.nvl = prec.nvl
  inp : prec'.inp = prec.inp
  seln : prec'.seln = prec.seln
  value : prec'.value = prec.value

theorem SameInputs.trans (first : SameInputs prec prec') (second : SameInputs prec' prec'') :
    SameInputs prec prec'' where
  selm := second.selm.trans first.selm
  nvl := second.nvl.trans first.nvl
  inp := second.inp.trans first.inp
  seln := second.seln.trans first.seln
  value := second.value.trans first.value

/-- An alarm may be raised, other than for the selection, and the worst one stays. -/
structure Alarmed (prec prec' : BigselRecord V) : Prop extends SameInputs prec prec' where
  val : prec'.val = prec.val
  udf : prec'.udf = prec.udf
  soft : prec'.nsta = .soft → prec.nsta = .soft
  worst : prec.nsev = .invalid → prec'.nsta = prec.nsta ∧ prec'.nsev = prec.nsev

theorem Alarmed.refl (prec : BigselRecord V) : Alarmed prec prec :=
  ⟨⟨rfl, rfl, rfl, rfl, rfl⟩, rfl, rfl, id, fun _ => ⟨rfl, rfl⟩⟩

theorem rank_le (sevr : Severity) : sevr.rank ≤ Severity.invalid.rank := by cases sevr <;> decide

theorem setSevr_alarmed (prec : BigselRecord V) (stat : Alarm) (sevr : Severity) (other : stat ≠ .soft) :
    Alarmed prec (setSevr prec stat sevr).1 := by
  unfold setSevr
  split
  next worse =>
    refine ⟨⟨rfl, rfl, rfl, rfl, rfl⟩, rfl, rfl, fun soft => absurd soft other, fun worst => ?_⟩
    have bound := rank_le sevr
    rw [worst] at worse
    omega
  next => exact .refl prec

theorem linkAlarm_alarmed (prec : BigselRecord V) (status : Bool) : Alarmed prec (linkAlarm prec status) := by
  cases status with
  | true => exact .refl prec
  | false => exact setSevr_alarmed prec .link .invalid (by decide)

variable (fp : Double V)

theorem checkLimit_alarmed (stat : Alarm) (asev : Severity) (alev : V) (beyond : V → Bool) (back : V)
    (other : stat ≠ .soft) :
    ∀ done ∈ checkLimit fp prec stat asev alev beyond back, Alarmed prec done := by
  intro done applies
  unfold checkLimit at applies
  split at applies
  · cases applies
    have raised := setSevr_alarmed prec stat asev other
    dsimp only
    split
    · exact { raised with }
    · exact raised
  · cases applies

theorem checkAlarms_alarmed (prec : BigselRecord V) : Alarmed prec (checkAlarms fp prec) := by
  unfold checkAlarms
  split
  · exact setSevr_alarmed prec .udf prec.udfs (by decide)
  · dsimp only
    generalize first : checkLimit fp prec .hihi _ _ _ _ = hihi
    generalize second : checkLimit fp prec .lolo _ _ _ _ = lolo
    generalize third : checkLimit fp prec .high _ _ _ _ = high
    generalize fourth : checkLimit fp prec .low _ _ _ _ = low
    cases hihi with
    | some done => exact checkLimit_alarmed fp .hihi _ _ _ _ (by decide) done first
    | none =>
      cases lolo with
      | some done => exact checkLimit_alarmed fp .lolo _ _ _ _ (by decide) done second
      | none =>
        cases high with
        | some done => exact checkLimit_alarmed fp .high _ _ _ _ (by decide) done third
        | none =>
          cases low with
          | some done => exact checkLimit_alarmed fp .low _ _ _ _ (by decide) done fourth
          | none => exact { Alarmed.refl prec with }

structure Monitored (prec prec' : BigselRecord V) : Prop extends SameInputs prec prec' where
  val : prec'.val = prec.val
  udf : prec'.udf = prec.udf
  stat : prec'.stat = prec.nsta
  sevr : prec'.sevr = prec.nsev
  quiet : prec'.nsta = .noAlarm ∧ prec'.nsev = .noAlarm

theorem postInput_monitored (i : Nat) (monitored : Monitored prec prec') :
    Monitored prec (postInput fp prec' i) := by
  unfold postInput
  split
  · exact monitored
  · exact { monitored with }

theorem monitor_monitored (prec : BigselRecord V) : Monitored prec (monitor fp prec) := by
  have posted (is : List Nat) (prec' : BigselRecord V) (monitored : Monitored prec prec') :
      Monitored prec (is.foldl (postInput fp) prec') := by
    induction is generalizing prec' with
    | nil => exact monitored
    | cons i is ih => exact ih _ (postInput_monitored fp i monitored)
  unfold monitor
  apply posted
  dsimp only
  split <;> exact ⟨⟨rfl, rfl, rfl, rfl, rfl⟩, rfl, rfl, rfl, rfl, rfl, rfl⟩

/-- What `process` does after the selection. -/
structure Finished (prec prec' : BigselRecord V) : Prop extends SameInputs prec prec' where
  val : prec'.val = prec.val
  udf : prec'.udf = prec.udf
  soft : prec'.stat = .soft → prec.nsta = .soft
  worst : prec.nsev = .invalid → prec'.stat = prec.nsta ∧ prec'.sevr = prec.nsev
  quiet : prec'.nsta = .noAlarm ∧ prec'.nsev = .noAlarm

theorem finish_spec (prec : BigselRecord V) : Finished prec (monitor fp (checkAlarms fp prec)) := by
  have alarmed := checkAlarms_alarmed fp prec
  have monitored := monitor_monitored fp (checkAlarms fp prec)
  refine ⟨alarmed.toSameInputs.trans monitored.toSameInputs, monitored.val.trans alarmed.val,
    monitored.udf.trans alarmed.udf, ?_, ?_, monitored.quiet⟩
  · intro soft
    exact alarmed.soft (monitored.stat.symm.trans soft)
  · intro worst
    obtain ⟨nsta, nsev⟩ := alarmed.worst worst
    exact ⟨monitored.stat.trans nsta, monitored.sevr.trans nsev⟩

end Parts

/-! A processing. -/

section Processing
variable {V : Type} (fp : Double V) (given : Fin 16 → Link V)

/-- As it was loaded, with the constants in place and no alarm pending. -/
structure Inv (prec : BigselRecord V) : Prop where
  selm : prec.selm = .specified
  inp : prec.inp = loadLinks given
  index : ∀ c, prec.nvl = .constant (some c) → prec.seln = c
  constants : ∀ i < selMax, ∀ v, prec.inp i = .constant (some v) → prec.value i = v
  quiet : prec.nsta = .noAlarm ∧ prec.nsev = .noAlarm

theorem load_inv (prec : BigselRecord V) (nvl : Link (BitVec 16)) : Inv given (load fp prec nvl given) where
  selm := rfl
  inp := rfl
  index c constant := by
    have same : nvl = .constant (some c) := constant
    show nvl.init prec.seln = c
    rw [same]
    rfl
  constants i low v constant := by
    have same : loadLinks given i = .constant (some v) := constant
    show (if i < selMax then (loadLinks given i).init fp.nan else prec.value i) = v
    rw [if_pos low, same]
    rfl
  quiet := ⟨rfl, rfl⟩

variable {given} {prec : BigselRecord V} (inv : Inv given prec) (env : Env V)
include inv

theorem finish_inv {prec' : BigselRecord V} (same : SameInputs prec prec') :
    Inv given (monitor fp (checkAlarms fp prec')) := by
  have finished := finish_spec fp prec'
  have kept := same.trans finished.toSameInputs
  refine ⟨kept.selm.trans inv.selm, kept.inp.trans inv.inp, ?_, ?_, finished.quiet⟩
  · rw [kept.nvl, kept.seln]
    exact inv.index
  · rw [kept.inp, kept.value]
    exact inv.constants

theorem index_inv (n : BitVec 16) (fetched : prec.nvl.get env.ushort prec.seln = (true, n)) :
    Inv given { prec with seln := n } := by
  refine { inv with index := ?_ }
  intro c constant
  rw [get_constant _ _ _ c constant] at fetched
  have same : prec.seln = n := congrArg Prod.snd fetched
  rw [← same]
  exact inv.index c constant

theorem value_inv (i : Nat) :
    Inv given { prec with
      value := Function.update prec.value i ((prec.inp i).get env.double (prec.value i)).2 } := by
  refine { inv with constants := ?_ }
  intro j low v constant
  show Function.update prec.value i ((prec.inp i).get env.double (prec.value i)).2 j = v
  by_cases here : j = i
  · subst here
    rw [Function.update_self, get_constant _ _ _ v constant]
    exact inv.constants j low v constant
  · rw [Function.update_of_ne here]
    exact inv.constants j low v constant

theorem fetchValues_failed (seln : BitVec 16) (failed : prec.nvl.get env.ushort prec.seln = (false, seln)) :
    fetchValues env prec = (linkAlarm { prec with seln := seln } false, false) := by
  rw [fetchValues, if_pos inv.selm, failed]
  rfl

theorem fetchValues_late (n : BitVec 16) (fetched : prec.nvl.get env.ushort prec.seln = (true, n))
    (late : selMax ≤ n.toNat) : fetchValues env prec = ({ prec with seln := n }, true) := by
  rw [fetchValues, if_pos inv.selm, fetched]
  simp [linkAlarm, late]

theorem fetchValues_early (n : BitVec 16) (fetched : prec.nvl.get env.ushort prec.seln = (true, n))
    (early : n.toNat < selMax) :
    fetchValues env prec = fetchValue env { prec with seln := n } n.toNat := by
  rw [fetchValues, if_pos inv.selm, fetched]
  simp [linkAlarm, Nat.not_le.mpr early]

/-- From the thirteenth input on there is an alarm and no value. -/
theorem process_late (n : BitVec 16) (fetched : prec.nvl.get env.ushort prec.seln = (true, n))
    (late : selMax ≤ n.toNat) :
    Inv given (process fp prec env) ∧ (process fp prec env).val = prec.val ∧
      (process fp prec env).stat = .soft ∧ (process fp prec env).sevr = .invalid := by
  let raised : BigselRecord V := { prec with seln := n, nsta := .soft, nsev := .invalid }
  have selected : doSel fp { prec with seln := n } = raised := by
    have worse : prec.nsev.rank < Severity.invalid.rank := by
      rw [inv.quiet.2]
      decide
    rw [doSel, if_pos ⟨inv.selm, late⟩, setSevr, if_pos worse]
  have done : process fp prec env = monitor fp (checkAlarms fp raised) := by
    rw [process, fetchValues_late inv env n fetched late, ← selected]
    rfl
  have finished := finish_spec fp raised
  rw [done]
  refine ⟨?_, finished.val, finished.worst rfl⟩
  exact finish_inv fp (index_inv inv env n fetched) ⟨rfl, rfl, rfl, rfl, rfl⟩

theorem process_unread (n : BitVec 16) (fetched : prec.nvl.get env.ushort prec.seln = (true, n))
    (early : n.toNat < selMax) (unread : ((prec.inp n.toNat).get env.double (prec.value n.toNat)).1 = false) :
    Inv given (process fp prec env) := by
  have stored := value_inv (index_inv inv env n fetched) env n.toNat
  have alarmed := linkAlarm_alarmed { prec with
    seln := n
    value := Function.update prec.value n.toNat
      ((prec.inp n.toNat).get env.double (prec.value n.toNat)).2 } false
  have done : process fp prec env = monitor fp (checkAlarms fp (linkAlarm { prec with
      seln := n
      value := Function.update prec.value n.toNat
        ((prec.inp n.toNat).get env.double (prec.value n.toNat)).2 } false)) := by
    rw [process, fetchValues_early inv env n fetched early]
    simp [fetchValue, unread]
  rw [done]
  exact finish_inv fp stored alarmed.toSameInputs

theorem process_early (n : BitVec 16) (fetched : prec.nvl.get env.ushort prec.seln = (true, n))
    (early : n.toNat < selMax) (v : V)
    (read : (prec.inp n.toNat).get env.double (prec.value n.toNat) = (true, v)) :
    Inv given (process fp prec env) ∧ (process fp prec env).val = v ∧
      (process fp prec env).udf = fp.isnan v ∧ (process fp prec env).stat ≠ .soft := by
  let picked : BigselRecord V := { prec with
    seln := n, value := Function.update prec.value n.toNat v, val := v, udf := fp.isnan v }
  have selected : doSel fp { prec with seln := n, value := Function.update prec.value n.toNat v } = picked := by
    rw [doSel, if_neg fun beyond => Nat.not_le.mpr early beyond.2]
    simp [selection, inv.selm, picked]
  have done : process fp prec env = monitor fp (checkAlarms fp picked) := by
    rw [process, fetchValues_early inv env n fetched early, ← selected]
    simp [fetchValue, read, linkAlarm]
  have stored := value_inv (index_inv inv env n fetched) env n.toNat
  rw [show (Prod.snd ((BigselRecord.inp { prec with seln := n } n.toNat).get env.double
    (prec.value n.toNat))) = v from congrArg Prod.snd read] at stored
  have same : SameInputs { prec with seln := n, value := Function.update prec.value n.toNat v } picked :=
    ⟨rfl, rfl, rfl, rfl, rfl⟩
  have finished := finish_spec fp picked
  rw [done]
  refine ⟨finish_inv fp stored same, finished.val, finished.udf, ?_⟩
  intro soft
  have pending : prec.nsta = .soft := finished.soft soft
  rw [inv.quiet.1] at pending
  cases pending

theorem process_inv : Inv given (process fp prec env) := by
  rcases index : prec.nvl.get env.ushort prec.seln with ⟨status, n⟩
  cases status with
  | false =>
    have alarmed := linkAlarm_alarmed { prec with seln := n } false
    have kept : n = prec.seln := by
      unfold Link.get at index
      split at index
      · cases index
      · split at index <;> cases index
        rfl
    have done : process fp prec env = monitor fp (checkAlarms fp (linkAlarm { prec with seln := n } false)) := by
      rw [process, fetchValues_failed inv env n index]
      rfl
    rw [done]
    subst kept
    exact finish_inv fp inv alarmed.toSameInputs
  | true =>
    by_cases early : n.toNat < selMax
    · rcases read : (prec.inp n.toNat).get env.double (prec.value n.toNat) with ⟨got, v⟩
      cases got with
      | false => exact process_unread fp inv env n index early (by rw [read])
      | true => exact (process_early fp inv env n index early v read).1
    · exact (process_late fp inv env n index (Nat.not_lt.mp early)).1

/-- A processing does what is asked exactly when none of the last four inputs is asked for. -/
theorem follows_iff : Follows fp given prec env ↔ Early given prec env := by
  have fetched (n : BitVec 16) (supplied : prec.nvl.supplied env.ushort = some n) :=
    get_of_supplied prec.nvl env.ushort prec.seln n inv.index supplied
  constructor
  · intro follows n supplied late inside
    by_contra given_value
    obtain ⟨v, value⟩ := Option.ne_none_iff_exists'.mp given_value
    have alarm := (process_late fp inv env n (fetched n supplied) late).2.2.1
    exact ((follows n supplied).1 inside v value).2.2 alarm
  · intro early n supplied
    refine ⟨fun inside v value => ?_, fun beyond => ?_⟩
    · by_cases late : 12 ≤ n.toNat
      · rw [early n supplied late inside] at value
        cases value
      · have low : n.toNat < selMax := Nat.not_le.mp late
        have own : prec.inp n.toNat = given ⟨n.toNat, inside⟩ := by rw [inv.inp, loadLinks_early given _ low]
        have read := get_of_supplied (prec.inp n.toNat) env.double (prec.value n.toNat) v
          (inv.constants _ low) (by rw [own]; exact value)
        obtain ⟨-, val, udf, alarm⟩ := process_early fp inv env n (fetched n supplied) low v read
        exact ⟨val, fun number => udf.trans number, alarm⟩
    · have late : selMax ≤ n.toNat := Nat.le_trans (by decide) beyond
      exact (process_late fp inv env n (fetched n supplied) late).2

end Processing

/-- In every run of processings, whatever the links give: all of them do what is asked exactly when none of
them asks for an input from the thirteenth to the sixteenth that has a value to give. -/
theorem selected_iff {V : Type} (fp : Double V) (prec : BigselRecord V) (nvl : Link (BitVec 16))
    (given : Fin 16 → Link V) (envs : List (Env V)) :
    Transition.Along (step fp) (Follows fp given) (load fp prec nvl given) envs ↔
      Transition.Along (step fp) (Early given) (load fp prec nvl given) envs := by
  apply Transition.along_congr (step fp) (Inv given)
  · intro s env s' inv done
    cases done
    exact process_inv fp inv env
  · exact fun s env inv => follows_iff fp inv env
  · exact load_inv fp given prec nvl

/-! A record with whole numbers for doubles. -/

def wholes : Double (Option Int) where
  nan := none
  inf := some (Int.ofNat (1 <<< 1024))
  minusInf := some (Int.negOfNat (1 <<< 1024))
  isnan v := v.isNone
  lt v w := (v.bind fun v => w.map fun w => decide (v < w)).getD false
  le v w := (v.bind fun v => w.map fun w => decide (v ≤ w)).getD false
  eq v w := (v.bind fun v => w.map fun w => decide (v = w)).getD false
  add v w := v.bind fun v => w.map fun w => v + w
  sub v w := v.bind fun v => w.map fun w => v - w
  exceeds old new deadband :=
    (old.bind fun old => new.bind fun new => deadband.map fun d => decide (d < ((new - old).natAbs : Int))).getD true

def blank : BigselRecord (Option Int) where
  stat := .noAlarm
  sevr := .noAlarm
  nsta := .noAlarm
  nsev := .noAlarm
  udf := false
  udfs := .invalid
  val := some 5
  selm := .specified
  seln := 0#16
  nvl := .constant none
  inp := fun _ => .constant none
  hihi := some 0
  lolo := some 0
  high := some 0
  low := some 0
  hhsv := .noAlarm
  llsv := .noAlarm
  hsv := .noAlarm
  lsv := .noAlarm
  hyst := some 0
  adel := some 0
  mdel := some 0
  value := fun _ => some 0
  prev := fun _ => some 0
  lalm := some 0
  alst := some 0
  mlst := some 0
  nlst := 0#16
  posted := []

/-- Constants in all inputs, and the thirteenth is asked for. -/
theorem input_refused :
    ¬∀ (V : Type) (fp : Double V) (prec : BigselRecord V) (nvl : Link (BitVec 16))
        (given : Fin 16 → Link V) (envs : List (Env V)),
      Transition.Along (step fp) (Follows fp given) (load fp prec nvl given) envs := by
  intro always
  have follows := always (Option Int) wholes blank (.db "ChargeAmpRange")
    (fun n => .constant (some (some n.val))) [⟨fun _ => some 12#16, fun _ => none⟩]
  obtain ⟨picked, -⟩ := follows.1 12#16 rfl
  exact (picked (by decide) (some 12) rfl).2.2 (by decide)

end Ipimb.Bigsel
