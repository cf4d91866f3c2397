import Ipimb.Library.Insertion
import Ipimb.Records.Bigsel
import Mathlib.Data.List.MinMax

/-!
The other ways in which a bigsel record selects: the highest, the lowest or the median of its inputs. For the
median the inputs are sorted in an array, by insertion.
-/

namespace Ipimb.Selection
open Ipimb.Bigsel

/-! Comparisons of doubles, as far as they are numbers. -/

section Order
variable {V K : Type} [LinearOrder K]

/-- Numbers compare as their keys do, and the infinities are the ends. -/
structure Ordered (fp : Double V) (key : V → K) : Prop where
  lt : ∀ v w, fp.isnan v = false → fp.isnan w = false → (fp.lt v w = true ↔ key v < key w)
  nan : fp.isnan fp.nan = true
  inf : fp.isnan fp.inf = false
  minusInf : fp.isnan fp.minusInf = false
  le_inf : ∀ v, fp.isnan v = false → key v ≤ key fp.inf
  minusInf_le : ∀ v, fp.isnan v = false → key fp.minusInf ≤ key v

end Order

/-! The median, with the array of the source. -/

section Median
variable {V : Type} (fp : Double V)

/-- One turn of the loop; entries from the count on are whatever they are. -/
def insertInput (value : Nat → V) (order : (Nat → V) × Nat) (i : Nat) : (Nat → V) × Nat :=
  if fp.isnan (value i) then order
  else (Insertion.slide (fun v w => fp.lt w v) (value i) order.1 order.2, order.2 + 1)

/-- The value and the index for the median; before the loop, the array has been given its first entry only. -/
def median (value junk : Nat → V) : V × BitVec 16 :=
  let order := (List.range selMax).foldl (insertInput fp value) (Function.update junk 0 fp.nan, 0)
  (order.1 (order.2 / 2), BitVec.ofNat 16 order.2)

end Median

section Sorted
variable {V K : Type} [LinearOrder K] {fp : Double V} {key : V → K} (ordered : Ordered fp key)
include ordered

theorem insert_eq_place (value : V) (number : fp.isnan value = false) (entries : List V)
    (sorted : entries.Pairwise fun a b => key a ≤ key b) (numbers : ∀ v ∈ entries, fp.isnan v = false) :
    Bigsel.insert fp value entries = Insertion.place (fun v w => fp.lt w v) value entries := by
  induction entries with
  | nil => rfl
  | cons v rest ih =>
    obtain ⟨above, later⟩ := List.pairwise_cons.mp sorted
    have own := ordered.lt value v number (numbers v List.mem_cons_self)
    rw [Bigsel.insert]
    split
    next less =>
      rw [Insertion.place_of_forall]
      intro w member
      have above_v : key v ≤ key w := by
        rcases List.mem_cons.mp member with same | after
        · rw [same]
        · exact above w after
      exact (ordered.lt value w number (numbers w member)).mpr (lt_of_lt_of_le (own.mp less) above_v)
    next stays =>
      rw [ih later fun w member => numbers w (List.mem_cons_of_mem v member)]
      exact (Insertion.place_cons_of_not (fun v w => fp.lt w v) value v rest (Bool.eq_false_iff.mpr stays)).symm

omit [LinearOrder K] ordered in
def present (fp : Double V) (value : Nat → V) (n : Nat) : List V :=
  ((List.range n).map value).filter fun v => !fp.isnan v

structure Sorting (fp : Double V) (key : V → K) (value : Nat → V) (n : Nat) (order : (Nat → V) × Nat) : Prop where
  perm : (Insertion.filled order.1 order.2).Perm (present fp value n)
  sorted : (Insertion.filled order.1 order.2).Pairwise fun a b => key a ≤ key b
  list : Insertion.filled order.1 order.2 =
    (present fp value n).foldl (fun order v => Bigsel.insert fp v order) []
  empty : order.2 = 0 → order.1 0 = fp.nan

omit [LinearOrder K] ordered in
theorem present_succ (value : Nat → V) (n : Nat) :
    present fp value (n + 1) =
      if fp.isnan (value n) then present fp value n else present fp value n ++ [value n] := by
  rw [present, List.range_succ, List.map_append, List.filter_append]
  cases number : fp.isnan (value n) <;> simp [present, number]

theorem insertInput_sorting (value : Nat → V) (n : Nat) (order : (Nat → V) × Nat)
    (before : Sorting fp key value n order) : Sorting fp key value (n + 1) (insertInput fp value order n) := by
  rw [insertInput]
  split
  next nan =>
    have same : present fp value (n + 1) = present fp value n := by rw [present_succ, if_pos nan]
    refine ⟨?_, before.sorted, ?_, before.empty⟩
    · rw [same]
      exact before.perm
    · rw [same]
      exact before.list
  next real =>
    have number : fp.isnan (value n) = false := Bool.eq_false_iff.mpr real
    have more : present fp value (n + 1) = present fp value n ++ [value n] := by rw [present_succ, if_neg real]
    have numbers : ∀ v ∈ Insertion.filled order.1 order.2, fp.isnan v = false := by
      intro v member
      have inside := (List.mem_filter.mp (before.perm.mem_iff.mp member)).2
      simpa using inside
    have placed := Insertion.filled_slide (fun v w => fp.lt w v) (value n) order.1 order.2
    refine ⟨?_, ?_, ?_, ?_⟩
    · rw [placed, more]
      apply (Insertion.place_perm _ _ _).trans
      exact (before.perm.cons _).trans (List.perm_append_singleton _ _).symm
    · rw [placed]
      apply Insertion.place_sorted _ _ key _ before.sorted
      intro v member
      exact ordered.lt (value n) v number (numbers v member)
    · rw [placed, more, List.foldl_append, ← before.list]
      exact (insert_eq_place ordered (value n) number _ before.sorted numbers).symm
    · intro none
      cases none

theorem sorting (value junk : Nat → V) (n : Nat) :
    Sorting fp key value n
      ((List.range n).foldl (insertInput fp value) (Function.update junk 0 fp.nan, 0)) := by
  induction n with
  | zero =>
    refine ⟨.refl _, .nil, rfl, ?_⟩
    intro _
    exact Function.update_self 0 fp.nan junk
  | succ n ih =>
    rw [List.range_succ, List.foldl_append]
    exact insertInput_sorting ordered value n _ ih

/-- The array and the list of the record's model give the same. -/
theorem median_eq (prec : BigselRecord V) (junk : Nat → V) (median_signal : prec.selm = .medianSignal) :
    selection fp prec = median fp prec.value junk := by
  have done := sorting ordered prec.value junk selMax
  have selected : selection fp prec =
      (((present fp prec.value selMax).foldl (fun order v => Bigsel.insert fp v order) []).getD
        (((present fp prec.value selMax).foldl (fun order v => Bigsel.insert fp v order) []).length / 2) fp.nan,
      BitVec.ofNat 16 ((present fp prec.value selMax).foldl (fun order v => Bigsel.insert fp v order) []).length) := by
    rw [selection, median_signal]
    rfl
  rw [selected, ← done.list, Insertion.length_filled, median]
  generalize (List.range selMax).foldl (insertInput fp prec.value) (Function.update junk 0 fp.nan, 0) = order
    at done
  refine Prod.ext ?_ rfl
  rw [List.getD_eq_getElem?_getD]
  by_cases some : order.2 = 0
  · rw [some, done.empty some]
    rfl
  · rw [Insertion.getElem?_filled order.1 (show order.2 / 2 < order.2 by omega), Option.getD_some]

/-- The value with number k of n, in the order of their keys. -/
structure Ranked (key : V → K) (values : List V) (k : Nat) (v : V) : Prop where
  member : v ∈ values
  below : values.countP (fun w => key w < key v) ≤ k
  upto : k < values.countP fun w => key w ≤ key v

/-- The median is the upper one of the two in the middle, and NaN if there are no numbers. -/
theorem median_spec (value junk : Nat → V) :
    (median fp value junk).2 = BitVec.ofNat 16 (present fp value selMax).length ∧
      (present fp value selMax = [] → (median fp value junk).1 = fp.nan) ∧
      (present fp value selMax ≠ [] → Ranked key (present fp value selMax)
        ((present fp value selMax).length / 2) (median fp value junk).1) := by
  have done := sorting ordered value junk selMax
  rw [median]
  generalize (List.range selMax).foldl (insertInput fp value) (Function.update junk 0 fp.nan, 0) = order at done
  have count : order.2 = (present fp value selMax).length := by
    rw [← done.perm.length_eq, Insertion.length_filled]
  rw [← count]
  refine ⟨rfl, ?_, ?_⟩
  · intro none
    have zero : order.2 = 0 := by rw [count, none, List.length_nil]
    rw [zero]
    exact done.empty zero
  · intro some
    have positive : order.2 ≠ 0 := by
      rw [count]
      exact fun zero => some (List.length_eq_zero_iff.mp zero)
    have found := Insertion.getElem?_filled order.1 (show order.2 / 2 < order.2 by omega)
    obtain ⟨below, upto⟩ := Insertion.countP_rank key _ done.sorted (order.2 / 2) _ found
    rw [done.perm.countP_eq] at below upto
    exact ⟨done.perm.mem_iff.mp (List.mem_of_getElem? found), below, upto⟩

end Sorted

/-! The highest and the lowest. -/

section Extremes
variable {V : Type} (fp : Double V)

def beating {L : Type} [LinearOrder L] (rank : V → L) (value : Nat → V) (start : V) (n : Nat) : List Nat :=
  (List.range n).filter fun i => !fp.isnan (value i) && decide (rank start < rank (value i))

def pick (value : Nat → V) (start : V × BitVec 16) : Option Nat → V × BitVec 16
  | some i => (value i, BitVec.ofNat 16 i)
  | none => start

variable {fp} {L : Type} [LinearOrder L] (rank : V → L) (beats : V → V → Bool) (value : Nat → V)
  (start : V × BitVec 16)

theorem beating_succ (n : Nat) :
    beating fp rank value start.1 (n + 1) =
      if fp.isnan (value n) = false ∧ rank start.1 < rank (value n) then beating fp rank value start.1 n ++ [n]
      else beating fp rank value start.1 n := by
  rw [beating, List.range_succ, List.filter_append, beating]
  cases nan : fp.isnan (value n) <;> by_cases less : rank start.1 < rank (value n) <;> simp [nan, less]

/-- The loop ends with the first of the best inputs, if there is one that beats its start. -/
theorem better_argmax (number : fp.isnan start.1 = false)
    (agrees : ∀ v best, fp.isnan v = false → fp.isnan best = false → (beats v best = true ↔ rank best < rank v))
    (n : Nat) :
    (List.range n).foldl (better fp value beats) start =
      pick value start ((beating fp rank value start.1 n).argmax (rank ∘ value)) := by
  induction n with
  | zero => rfl
  | succ n ih =>
    rw [List.range_succ, List.foldl_append, ih, beating_succ, List.foldl_cons, List.foldl_nil, better]
    cases nan : fp.isnan (value n) with
    | true => simp
    | false =>
      have own (best : V) (real : fp.isnan best = false) := agrees (value n) best nan real
      cases best : (beating fp rank value start.1 n).argmax (rank ∘ value) with
      | none =>
        have against := own start.1 number
        by_cases less : rank start.1 < rank (value n)
        · simp [pick, less, against.mpr less, List.argmax_concat, best]
        · simp [pick, less, mt against.mp less, best]
      | some c =>
        have among := List.mem_filter.mp (List.argmax_mem best)
        have c_number : fp.isnan (value c) = false ∧ rank start.1 < rank (value c) := by simpa using among.2
        have against := own (value c) c_number.1
        by_cases less : rank start.1 < rank (value n)
        · by_cases more : rank (value c) < rank (value n)
          · simp [pick, less, more, against.mpr more, List.argmax_concat, best]
          · simp [pick, less, more, mt against.mp more, List.argmax_concat, best]
        · have not_more : ¬rank (value c) < rank (value n) :=
            fun more => less (c_number.2.trans more)
          simp [pick, less, mt against.mp not_more, best]

end Extremes

/-! A processing. -/

section Processing
variable {V K : Type} [LinearOrder K] (fp : Double V) (key : V → K)

/-- Input i after the links have been read: one that cannot be read keeps its value. -/
def got (prec : BigselRecord V) (env : Env V) (i : Nat) : V :=
  if i < selMax then ((prec.inp i).get env.double (prec.value i)).2 else prec.value i

/-- Whether the last link could be read, which is all that counts. -/
def lastRead (prec : BigselRecord V) (env : Env V) : Bool :=
  ((prec.inp (selMax - 1)).get env.double (prec.value (selMax - 1))).1

def Selected (selm : Selm) (value : Nat → V) (seln : BitVec 16) (selected : V × BitVec 16) : Prop :=
  match selm with
  | .specified => selected = (value seln.toNat, seln)
  | .highSignal => selected = pick value (fp.minusInf, seln)
      (((List.range selMax).filter fun i => !fp.isnan (value i) && decide (key fp.minusInf < key (value i))).argmax
        (key ∘ value))
  | .lowSignal => selected = pick value (fp.inf, seln)
      (((List.range selMax).filter fun i => !fp.isnan (value i) && decide (key (value i) < key fp.inf)).argmin
        (key ∘ value))
  | .medianSignal => selected.2 = BitVec.ofNat 16 (present fp value selMax).length ∧
      (present fp value selMax = [] → selected.1 = fp.nan) ∧
      (present fp value selMax ≠ [] → Ranked key (present fp value selMax)
        ((present fp value selMax).length / 2) selected.1)

variable {fp key} (ordered : Ordered fp key)

include ordered in
theorem selection_selected (prec : BigselRecord V) :
    Selected fp key prec.selm prec.value prec.seln (selection fp prec) := by
  cases selm : prec.selm with
  | specified =>
    rw [selection, selm]
    rfl
  | highSignal =>
    rw [selection, selm]
    exact better_argmax key (fun v best => fp.lt best v) prec.value (fp.minusInf, prec.seln) ordered.minusInf
      (fun v best number real => ordered.lt best v real number) selMax
  | lowSignal =>
    rw [selection, selm]
    exact better_argmax (OrderDual.toDual ∘ key) (fun v best => fp.lt v best) prec.value (fp.inf, prec.seln)
      ordered.inf (fun v best number real => ordered.lt v best number real) selMax
  | medianSignal =>
    rw [median_eq ordered prec prec.value selm]
    exact median_spec ordered prec.value prec.value

structure Fetched (prec : BigselRecord V) (env : Env V) (n : Nat) (done : BigselRecord V × Bool) : Prop where
  selm : done.1.selm = prec.selm
  inp : done.1.inp = prec.inp
  seln : done.1.seln = prec.seln
  val : done.1.val = prec.val
  udf : done.1.udf = prec.udf
  value : ∀ i, done.1.value i = if i < n then ((prec.inp i).get env.double (prec.value i)).2 else prec.value i
  status : ∀ m, n = m + 1 → done.2 = ((prec.inp m).get env.double (prec.value m)).1

theorem fetchValue_fetched (prec : BigselRecord V) (env : Env V) (n : Nat) (done : BigselRecord V × Bool)
    (before : Fetched prec env n done) : Fetched prec env (n + 1) (fetchValue env done.1 n) := by
  have own : (done.1.inp n).get env.double (done.1.value n) = (prec.inp n).get env.double (prec.value n) := by
    rw [before.inp, before.value n, if_neg (Nat.lt_irrefl n)]
  have alarmed := linkAlarm_alarmed
    { done.1 with value := Function.update done.1.value n ((prec.inp n).get env.double (prec.value n)).2 }
    ((prec.inp n).get env.double (prec.value n)).1
  rw [fetchValue, own]
  refine ⟨alarmed.selm.trans before.selm, alarmed.inp.trans before.inp, alarmed.seln.trans before.seln,
    alarmed.val.trans before.val, alarmed.udf.trans before.udf, ?_, ?_⟩
  · intro i
    rw [alarmed.value]
    show Function.update done.1.value n ((prec.inp n).get env.double (prec.value n)).2 i = _
    by_cases here : i = n
    · rw [here, Function.update_self, if_pos (Nat.lt_succ_self n)]
    · rw [Function.update_of_ne here, before.value i]
      by_cases low : i < n
      · rw [if_pos low, if_pos (Nat.lt_succ_of_lt low)]
      · rw [if_neg low, if_neg (by omega)]
  · intro m same
    cases same
    rfl

theorem fetchValues_fetched (prec : BigselRecord V) (env : Env V) (other : prec.selm ≠ .specified) :
    Fetched prec env selMax (fetchValues env prec) := by
  have along (n : Nat) : Fetched prec env n
      ((List.range n).foldl (fun done i => fetchValue env done.1 i) (prec, true)) := by
    induction n with
    | zero => exact ⟨rfl, rfl, rfl, rfl, rfl, fun i => (if_neg (Nat.not_lt_zero i)).symm, fun m none => by cases none⟩
    | succ n ih =>
      rw [List.range_succ, List.foldl_append]
      exact fetchValue_fetched prec env n _ ih
  rw [fetchValues, if_neg other]
  exact along selMax

include ordered in
/-- A record that selects the highest, the lowest or the median reads all its links, and selects from the values
it has then, old ones among them, if the last link could be read; otherwise nothing is selected. -/
theorem process_selects (prec : BigselRecord V) (env : Env V) (other : prec.selm ≠ .specified) :
    (process fp prec env).value = got prec env ∧
      (lastRead prec env = true →
        Selected fp key prec.selm (got prec env) prec.seln ((process fp prec env).val, (process fp prec env).seln) ∧
          (process fp prec env).udf = fp.isnan (process fp prec env).val) ∧
      (lastRead prec env = false →
        (process fp prec env).val = prec.val ∧ (process fp prec env).seln = prec.seln ∧
          (process fp prec env).udf = prec.udf) := by
  have fetched := fetchValues_fetched prec env other
  have status : (fetchValues env prec).2 = lastRead prec env := fetched.status (selMax - 1) rfl
  have values : (fetchValues env prec).1.value = got prec env := funext fetched.value
  cases read : lastRead prec env with
  | false =>
    have done : process fp prec env = monitor fp (checkAlarms fp (fetchValues env prec).1) := by
      rw [process]
      simp only [status, read]
      rfl
    have finished := finish_spec fp (fetchValues env prec).1
    rw [done]
    refine ⟨finished.value.trans values, fun now => absurd now Bool.false_ne_true, fun _ => ?_⟩
    exact ⟨finished.val.trans fetched.val, finished.seln.trans fetched.seln, finished.udf.trans fetched.udf⟩
  | true =>
    let selected := selection fp (fetchValues env prec).1
    let picked : BigselRecord V := { (fetchValues env prec).1 with
      val := selected.1, seln := selected.2, udf := fp.isnan selected.1 }
    have chosen : doSel fp (fetchValues env prec).1 = picked := by
      rw [doSel, if_neg fun both => other (fetched.selm ▸ both.1)]
    have done : process fp prec env = monitor fp (checkAlarms fp picked) := by
      rw [process]
      simp only [status, read, ← chosen]
      rfl
    have finished := finish_spec fp picked
    have spec := selection_selected ordered (fetchValues env prec).1
    rw [fetched.selm, fetched.seln, values] at spec
    rw [done]
    refine ⟨finished.value.trans values, fun _ => ?_, fun now => absurd now.symm Bool.false_ne_true⟩
    rw [finished.val, finished.seln, finished.udf]
    exact ⟨spec, rfl⟩

end Processing

/-! Doubles with eight bits, the ends of which are the infinities. -/

def bytes : Double (Option (BitVec 8)) where
  nan := none
  inf := some 255#8
  minusInf := some 0#8
  isnan v := v.isNone
  lt v w := (v.bind fun v => w.map fun w => decide (v.toNat < w.toNat)).getD false
  le v w := (v.bind fun v => w.map fun w => decide (v.toNat ≤ w.toNat)).getD false
  eq v w := decide (v = w) && v.isSome
  add v w := v.bind fun v => w.map fun w => v + w
  sub v w := v.bind fun v => w.map fun w => v - w
  exceeds old new _ := decide (old ≠ new)

def byteKey (v : Option (BitVec 8)) : Nat := (v.map BitVec.toNat).getD 0

theorem bytes_ordered : Ordered bytes byteKey where
  lt v w number real := by
    obtain ⟨v, rfl⟩ := Option.isSome_iff_exists.mp (Option.isNone_eq_false_iff.mp number)
    obtain ⟨w, rfl⟩ := Option.isSome_iff_exists.mp (Option.isNone_eq_false_iff.mp real)
    exact decide_eq_true_iff
  nan := rfl
  inf := rfl
  minusInf := rfl
  le_inf v number := by
    obtain ⟨v, rfl⟩ := Option.isSome_iff_exists.mp (Option.isNone_eq_false_iff.mp number)
    exact Nat.le_of_lt_succ v.isLt
  minusInf_le _ _ := Nat.zero_le _

def five (selm : Selm) : BigselRecord (Option (BitVec 8)) where
  stat := .noAlarm
  sevr := .noAlarm
  nsta := .noAlarm
  nsev := .noAlarm
  udf := true
  udfs := .invalid
  val := none
  selm := selm
  seln := 0#16
  nvl := .constant none
  inp _ := .constant none
  hihi := none
  lolo := none
  high := none
  low := none
  hhsv := .noAlarm
  llsv := .noAlarm
  hsv := .noAlarm
  lsv := .noAlarm
  hyst := none
  adel := none
  mdel := none
  value i := ([some 7#8, none, some 3#8, some 9#8, some 9#8][i]?).getD none
  prev _ := none
  lalm := none
  alst := none
  mlst := none
  nlst := 0#16
  posted := []

def silent : Env (Option (BitVec 8)) := ⟨fun _ => none, fun _ => none⟩

/-- The highest is the first of the two 9s, and the index of the median counts the four numbers. -/
theorem process_selects_five :
    (process bytes (five .highSignal) silent).val = some 9#8 ∧
      (process bytes (five .highSignal) silent).seln = 3#16 ∧
      (process bytes (five .medianSignal) silent).seln = 4#16 := by
  obtain ⟨-, high, -⟩ := process_selects bytes_ordered (five .highSignal) silent (by decide)
  obtain ⟨-, middle, -⟩ := process_selects bytes_ordered (five .medianSignal) silent (by decide)
  have highest := (high rfl).1
  have counted : Selected bytes byteKey .medianSignal (got (five .medianSignal) silent) 0#16 _ := (middle rfl).1
  have first : (((List.range selMax).filter fun i => !bytes.isnan (got (five .highSignal) silent i) &&
      decide (byteKey bytes.minusInf < byteKey (got (five .highSignal) silent i))).argmax
        (byteKey ∘ got (five .highSignal) silent)) = some 3 := by
    decide
  change _ = pick (got (five .highSignal) silent) (bytes.minusInf, 0#16) _ at highest
  have nine : pick (got (five .highSignal) silent) (bytes.minusInf, 0#16) (some 3) = (some 9#8, 3#16) := by decide
  rw [first, nine] at highest
  have four : (present bytes (got (five .medianSignal) silent) selMax).length = 4 := by decide
  have count := counted.1
  dsimp only at count
  rw [four] at count
  obtain ⟨val, seln⟩ := Prod.mk.inj highest
  exact ⟨val, seln, count⟩

end Ipimb.Selection
