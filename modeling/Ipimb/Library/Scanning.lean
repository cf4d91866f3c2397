import Mathlib.Data.List.TakeWhile
import Mathlib.Data.Nat.Digits.Defs

/-! Formatted input by scan sets, integers in any of the notations of C, and ordinary characters. A scan stops at
the first directive that does not match and keeps what has been stored by then. -/

namespace Scanning

def bytes (text : List Char) : Nat := (text.map Char.utf8Size).sum

/-! Runs. -/

/-- A run goes no further. -/
def Ends (p : Char → Bool) (rest : List Char) : Prop := ∀ c ∈ rest.head?, p c = false

theorem ends_dropWhile (p : Char → Bool) (input : List Char) : Ends p (input.dropWhile p) := by
  intro c first
  have stopped := List.head?_dropWhile_not p input
  rw [Option.mem_def.mp first] at stopped
  simpa using stopped

theorem takeWhile_of_ends {p : Char → Bool} {rest : List Char} (ends : Ends p rest) : rest.takeWhile p = [] := by
  cases rest with
  | nil => rfl
  | cons c rest => exact List.takeWhile_cons_of_neg (by simp [ends c rfl])

theorem dropWhile_of_ends {p : Char → Bool} {rest : List Char} (ends : Ends p rest) : rest.dropWhile p = rest := by
  cases rest with
  | nil => rfl
  | cons c rest => exact List.dropWhile_cons_of_neg (by simp [ends c rfl])

theorem run_iff (p : Char → Bool) (input word rest : List Char) :
    input.takeWhile p = word ∧ input.dropWhile p = rest ↔
      input = word ++ rest ∧ (∀ c ∈ word, p c = true) ∧ Ends p rest := by
  constructor
  · intro run
    refine ⟨?_, ?_, ?_⟩
    · rw [← run.1, ← run.2, List.takeWhile_append_dropWhile]
    · intro c member
      rw [← run.1] at member
      exact List.mem_takeWhile_imp member
    · rw [← run.2]
      exact ends_dropWhile p input
  · intro split
    obtain ⟨rfl, all, ends⟩ := split
    rw [List.takeWhile_append_of_pos all, List.dropWhile_append_of_pos all, takeWhile_of_ends ends,
      dropWhile_of_ends ends, List.append_nil]
    exact ⟨rfl, rfl⟩

/-! Integers. -/

def isspace (c : Char) : Bool := c.toNat = 32 || (9 ≤ c.toNat && c.toNat ≤ 13)

def digit (c : Char) : Option Nat :=
  if 48 ≤ c.toNat ∧ c.toNat ≤ 57 then some (c.toNat - 48)
  else if 65 ≤ c.toNat ∧ c.toNat ≤ 70 then some (c.toNat - 55)
  else if 97 ≤ c.toNat ∧ c.toNat ≤ 102 then some (c.toNat - 87)
  else none

def isDigit (base : Nat) (c : Char) : Bool := (digit c).any (· < base)

def value (base : Nat) (digits : List Char) : Nat := Nat.ofDigits base (digits.filterMap digit).reverse

/-- The base, and where the digits begin. -/
def prefixed : List Char → Nat × List Char
  | '0' :: 'x' :: rest => (16, rest)
  | '0' :: 'X' :: rest => (16, rest)
  | '0' :: rest => (8, '0' :: rest)
  | input => (10, input)

/-- Libraries differ in what they make of 0x without a digit behind it: no number, or zero. -/
def scanMagnitude (bare : Bool) (input : List Char) : Option (Nat × List Char) :=
  let base := (prefixed input).1
  let digits := (prefixed input).2
  if digits.takeWhile (isDigit base) = [] ∧ ¬(base = 16 ∧ bare = true) then none
  else some (value base (digits.takeWhile (isDigit base)), digits.dropWhile (isDigit base))

/-- The directive %i. -/
def scanInt (bare : Bool) (input : List Char) : Option (Int × List Char) :=
  match input.dropWhile isspace with
  | '-' :: rest => (scanMagnitude bare rest).map fun read => (-read.1, read.2)
  | '+' :: rest => (scanMagnitude bare rest).map fun read => (read.1, read.2)
  | rest => (scanMagnitude bare rest).map fun read => (read.1, read.2)

/-! What is written there. -/

inductive Magnitude (bare : Bool) : List Char → Nat → Prop where
  | decimal (digits : List Char) (present : digits ≠ []) (first : digits.head? ≠ some '0')
      (all : ∀ c ∈ digits, isDigit 10 c = true) : Magnitude bare digits (value 10 digits)
  | octal (digits : List Char) (all : ∀ c ∈ digits, isDigit 8 c = true) :
      Magnitude bare ('0' :: digits) (value 8 ('0' :: digits))
  | hex (x : Char) (digits : List Char) (mark : x = 'x' ∨ x = 'X') (present : digits ≠ [] ∨ bare = true)
      (all : ∀ c ∈ digits, isDigit 16 c = true) : Magnitude bare ('0' :: x :: digits) (value 16 digits)

inductive Numeral (bare : Bool) : List Char → Int → Prop where
  | plain (spaces body : List Char) (magnitude : Nat) (blank : ∀ c ∈ spaces, isspace c = true)
      (number : Magnitude bare body magnitude) : Numeral bare (spaces ++ body) magnitude
  | plus (spaces body : List Char) (magnitude : Nat) (blank : ∀ c ∈ spaces, isspace c = true)
      (number : Magnitude bare body magnitude) : Numeral bare (spaces ++ '+' :: body) magnitude
  | minus (spaces body : List Char) (magnitude : Nat) (blank : ∀ c ∈ spaces, isspace c = true)
      (number : Magnitude bare body magnitude) : Numeral bare (spaces ++ '-' :: body) (-magnitude)

/-- No number goes on with it. -/
def Apart (rest : List Char) : Prop := ∀ c ∈ rest.head?, isDigit 16 c = false ∧ c ≠ 'x' ∧ c ≠ 'X'

theorem digit_of_isDigit_ten {c : Char} (decimal : isDigit 10 c = true) : 48 ≤ c.toNat ∧ c.toNat ≤ 57 := by
  unfold isDigit digit at decimal
  split at decimal
  · assumption
  · split at decimal
    · have small : c.toNat - 55 < 10 := by simpa using decimal
      omega
    · split at decimal
      · have small : c.toNat - 87 < 10 := by simpa using decimal
        omega
      · cases decimal

theorem isDigit_mono {base wider : Nat} (wide : base ≤ wider) {c : Char} (inside : isDigit base c = true) :
    isDigit wider c = true := by
  rw [isDigit, Option.any_eq_true] at inside ⊢
  obtain ⟨d, here, small⟩ := inside
  exact ⟨d, here, decide_eq_true (lt_of_lt_of_le (of_decide_eq_true small) wide)⟩

theorem plain_of_digit {c : Char} (decimal : isDigit 10 c = true) : isspace c = false ∧ c ≠ '-' ∧ c ≠ '+' := by
  have range := digit_of_isDigit_ten decimal
  refine ⟨?_, ?_, ?_⟩
  · unfold isspace
    have notBlank : c.toNat ≠ 32 := by omega
    have above : ¬ c.toNat ≤ 13 := by omega
    simp [notBlank, above]
  · rintro rfl
    revert range
    decide
  · rintro rfl
    revert range
    decide

theorem Apart.ends {rest : List Char} (apart : Apart rest) {base : Nat} (small : base ≤ 16) :
    Ends (isDigit base) rest := by
  intro c first
  by_contra inside
  have wide := isDigit_mono small (by simpa using inside)
  rw [(apart c first).1] at wide
  cases wide

theorem Magnitude.first {bare : Bool} {body : List Char} {n : Nat} (number : Magnitude bare body n) :
    ∃ c rest, body = c :: rest ∧ isDigit 10 c = true := by
  cases number with
  | decimal digits present first all =>
    obtain ⟨c, rest, rfl⟩ := List.exists_cons_of_ne_nil present
    exact ⟨c, rest, rfl, all c List.mem_cons_self⟩
  | octal digits all => exact ⟨'0', digits, rfl, rfl⟩
  | hex x digits mark present all => exact ⟨'0', x :: digits, rfl, rfl⟩

theorem prefixed_decimal {input : List Char} (first : input.head? ≠ some '0') : prefixed input = (10, input) := by
  unfold prefixed
  split
  · exact absurd rfl first
  · exact absurd rfl first
  · exact absurd rfl first
  · rfl

theorem prefixed_octal {digits : List Char} (noMark : ∀ c ∈ digits.head?, c ≠ 'x' ∧ c ≠ 'X') :
    prefixed ('0' :: digits) = (8, '0' :: digits) := by
  unfold prefixed
  split
  · rename_i same
    cases same
    exact absurd rfl (noMark _ rfl).1
  · rename_i same
    cases same
    exact absurd rfl (noMark _ rfl).2
  · rename_i same
    cases same
    rfl
  · rename_i other
    exact absurd rfl (other _)

theorem prefixed_hex {x : Char} (mark : x = 'x' ∨ x = 'X') (digits : List Char) :
    prefixed ('0' :: x :: digits) = (16, digits) := by
  rcases mark with rfl | rfl <;> rfl

theorem prefixed_cases (input : List Char) :
    (∃ x digits, (x = 'x' ∨ x = 'X') ∧ input = '0' :: x :: digits) ∨
      (∃ digits, (∀ c ∈ digits.head?, c ≠ 'x' ∧ c ≠ 'X') ∧ input = '0' :: digits) ∨ input.head? ≠ some '0' := by
  cases input with
  | nil => exact .inr (.inr (by simp))
  | cons c rest =>
    by_cases zero : c = '0'
    · subst zero
      by_cases marked : ∃ x digits, (x = 'x' ∨ x = 'X') ∧ rest = x :: digits
      · obtain ⟨x, digits, mark, rfl⟩ := marked
        exact .inl ⟨x, digits, mark, rfl⟩
      · refine .inr (.inl ⟨rest, ?_, rfl⟩)
        intro c first
        obtain ⟨digits, rfl⟩ := List.head?_eq_some_iff.mp first
        refine ⟨?_, ?_⟩
        · exact fun small => marked ⟨c, digits, .inl small, rfl⟩
        · exact fun large => marked ⟨c, digits, .inr large, rfl⟩
    · exact .inr (.inr (by simpa using zero))

theorem scanMagnitude_iff_run {bare : Bool} {input start rest : List Char} {base n : Nat}
    (read : prefixed input = (base, start)) :
    scanMagnitude bare input = some (n, rest) ↔
      ∃ digits, start = digits ++ rest ∧ (∀ c ∈ digits, isDigit base c = true) ∧ Ends (isDigit base) rest ∧
        (digits ≠ [] ∨ (base = 16 ∧ bare = true)) ∧ n = value base digits := by
  rw [scanMagnitude, read]
  constructor
  · intro scanned
    dsimp only at scanned
    split at scanned
    · cases scanned
    · rename_i something
      obtain ⟨rfl, rfl⟩ := Prod.mk.inj (Option.some.inj scanned)
      have run := (run_iff (isDigit base) start _ _).mp ⟨rfl, rfl⟩
      refine ⟨_, run.1, run.2.1, run.2.2, ?_, rfl⟩
      by_contra nothing
      rw [not_or, not_not] at nothing
      exact something nothing
  · intro there
    obtain ⟨digits, split, all, ends, present, rfl⟩ := there
    have run := (run_iff (isDigit base) start digits rest).mpr ⟨split, all, ends⟩
    dsimp only
    rw [run.1, run.2]
    refine if_neg fun nothing => ?_
    rcases present with present | zero
    · exact present nothing.1
    · exact nothing.2 zero

theorem scanMagnitude_of_magnitude {bare : Bool} {body rest : List Char} {n : Nat} (number : Magnitude bare body n)
    (apart : Apart rest) : scanMagnitude bare (body ++ rest) = some (n, rest) := by
  cases number with
  | decimal digits present first all =>
    obtain ⟨c, digits, rfl⟩ := List.exists_cons_of_ne_nil present
    have front : (c :: digits ++ rest).head? ≠ some '0' := first
    exact (scanMagnitude_iff_run (prefixed_decimal front)).mpr
      ⟨_, rfl, all, apart.ends (by decide), .inl present, rfl⟩
  | octal digits all =>
    have noMark : ∀ c ∈ (digits ++ rest).head?, c ≠ 'x' ∧ c ≠ 'X' := by
      intro c first
      cases digits with
      | nil => exact (apart c first).2
      | cons d digits =>
        cases first
        have inside := digit_of_isDigit_ten (isDigit_mono (by decide) (all _ List.mem_cons_self))
        refine ⟨?_, ?_⟩ <;>
        · rintro rfl
          revert inside
          decide
    refine (scanMagnitude_iff_run (prefixed_octal noMark)).mpr
      ⟨'0' :: digits, rfl, ?_, apart.ends (by decide), .inl (List.cons_ne_nil _ _), rfl⟩
    exact List.forall_mem_cons.mpr ⟨rfl, all⟩
  | hex x digits mark present all =>
    exact (scanMagnitude_iff_run (prefixed_hex mark _)).mpr
      ⟨digits, rfl, all, apart.ends (by decide), present.imp_right fun zero => ⟨rfl, zero⟩, rfl⟩

theorem magnitude_of_scanMagnitude {bare : Bool} {input rest : List Char} {n : Nat}
    (scanned : scanMagnitude bare input = some (n, rest)) :
    ∃ body, input = body ++ rest ∧ Magnitude bare body n := by
  rcases prefixed_cases input with hex | octal | decimal
  · obtain ⟨x, digits, mark, rfl⟩ := hex
    obtain ⟨word, rfl, all, -, present, rfl⟩ := (scanMagnitude_iff_run (prefixed_hex mark digits)).mp scanned
    exact ⟨'0' :: x :: word, rfl, .hex x word mark (present.imp_right And.right) all⟩
  · obtain ⟨digits, noMark, rfl⟩ := octal
    obtain ⟨word, split, all, -, present, rfl⟩ := (scanMagnitude_iff_run (prefixed_octal noMark)).mp scanned
    cases word with
    | nil => exact absurd present (by simp)
    | cons c word =>
      obtain ⟨rfl, rfl⟩ := List.cons.inj split
      exact ⟨'0' :: word, rfl, .octal word fun c member => all c (List.mem_cons_of_mem _ member)⟩
  · obtain ⟨word, rfl, all, -, present, rfl⟩ := (scanMagnitude_iff_run (prefixed_decimal decimal)).mp scanned
    have present : word ≠ [] := present.resolve_right (by simp)
    refine ⟨word, rfl, .decimal word present ?_ all⟩
    obtain ⟨c, word, rfl⟩ := List.exists_cons_of_ne_nil present
    exact decimal

/-- The directive %i reads a number where one is written. -/
theorem scanInt_iff {bare : Bool} {input rest : List Char} {v : Int} (apart : Apart rest) :
    scanInt bare input = some (v, rest) ↔ ∃ numeral, input = numeral ++ rest ∧ Numeral bare numeral v := by
  constructor
  · intro scanned
    have blank := (run_iff isspace input _ _).mp ⟨rfl, rfl⟩
    unfold scanInt at scanned
    split at scanned
    · rename_i start here
      obtain ⟨⟨n, rest⟩, read, same⟩ := Option.map_eq_some_iff.mp scanned
      obtain ⟨rfl, rfl⟩ := Prod.mk.inj same
      obtain ⟨body, rfl, number⟩ := magnitude_of_scanMagnitude read
      rw [here] at blank
      refine ⟨input.takeWhile isspace ++ '-' :: body, ?_, .minus _ body n blank.2.1 number⟩
      rw [List.append_assoc, List.cons_append]
      exact blank.1
    · rename_i start here
      obtain ⟨⟨n, rest⟩, read, same⟩ := Option.map_eq_some_iff.mp scanned
      obtain ⟨rfl, rfl⟩ := Prod.mk.inj same
      obtain ⟨body, rfl, number⟩ := magnitude_of_scanMagnitude read
      rw [here] at blank
      refine ⟨input.takeWhile isspace ++ '+' :: body, ?_, .plus _ body n blank.2.1 number⟩
      rw [List.append_assoc, List.cons_append]
      exact blank.1
    · obtain ⟨⟨n, rest⟩, read, same⟩ := Option.map_eq_some_iff.mp scanned
      obtain ⟨rfl, rfl⟩ := Prod.mk.inj same
      obtain ⟨body, split, number⟩ := magnitude_of_scanMagnitude read
      rw [split] at blank
      refine ⟨input.takeWhile isspace ++ body, ?_, .plain _ body n blank.2.1 number⟩
      rw [List.append_assoc]
      exact blank.1
  · intro there
    obtain ⟨numeral, rfl, written⟩ := there
    cases written with
    | plain spaces body n blank number =>
      obtain ⟨c, body, rfl, decimal⟩ := number.first
      have plain := plain_of_digit decimal
      have start : (spaces ++ (c :: body) ++ rest).dropWhile isspace = c :: body ++ rest :=
        ((run_iff isspace _ spaces _).mpr ⟨List.append_assoc _ _ _, blank, fun d first => by
          cases first
          exact plain.1⟩).2
      rw [scanInt, start]
      split
      · rename_i same
        cases same
        exact absurd rfl plain.2.1
      · rename_i same
        cases same
        exact absurd rfl plain.2.2
      · rw [scanMagnitude_of_magnitude number apart]
        rfl
    | plus spaces body n blank number =>
      have start : (spaces ++ ('+' :: body) ++ rest).dropWhile isspace = '+' :: (body ++ rest) :=
        ((run_iff isspace _ spaces _).mpr ⟨List.append_assoc _ _ _, blank, fun d first => by
          cases first
          rfl⟩).2
      rw [scanInt, start]
      simp only [scanMagnitude_of_magnitude number apart]
      rfl
    | minus spaces body n blank number =>
      have start : (spaces ++ ('-' :: body) ++ rest).dropWhile isspace = '-' :: (body ++ rest) :=
        ((run_iff isspace _ spaces _).mpr ⟨List.append_assoc _ _ _, blank, fun d first => by
          cases first
          rfl⟩).2
      rw [scanInt, start]
      simp only [scanMagnitude_of_magnitude number apart]
      rfl

/-! Formats. -/

inductive Directive where
  /-- A scan set into an array of so many bytes. -/
  | set (p : Char → Bool) (size : Nat)
  /-- An integer into an int. -/
  | int
  | char (c : Char)

inductive Stored where
  | text (word : List Char)
  | int (v : Int)

def Fits (v : Int) : Prop := -2 ^ 31 ≤ v ∧ v < 2 ^ 31

instance (v : Int) : Decidable (Fits v) := inferInstanceAs (Decidable (_ ∧ _))

/-- What is stored; none where a text does not fit into its array or a number into an int. -/
def scan (bare : Bool) : List Directive → List Char → Option (List Stored)
  | [], _ => some []
  | .set p size :: format, input =>
      if input.takeWhile p = [] then some []
      else if size ≤ bytes (input.takeWhile p) then none
      else (scan bare format (input.dropWhile p)).map (.text (input.takeWhile p) :: ·)
  | .int :: format, input =>
      match scanInt bare input with
      | none => some []
      | some (v, rest) => if Fits v then (scan bare format rest).map (.int v :: ·) else none
  | .char c :: format, input =>
      match input with
      | [] => some []
      | d :: rest => if d = c then scan bare format rest else some []

section Scan
variable {bare : Bool} {format : List Directive} {input : List Char} {first : Stored} {stored : List Stored}

theorem scan_char_iff {c : Char} :
    scan bare (.char c :: format) input = some (first :: stored) ↔
      ∃ rest, input = c :: rest ∧ scan bare format rest = some (first :: stored) := by
  cases input with
  | nil => simp [scan]
  | cons d rest =>
    by_cases same : d = c
    · subst same
      simp [scan]
    · simp [scan, same]

theorem scan_set_iff {p : Char → Bool} {size : Nat} :
    scan bare (.set p size :: format) input = some (first :: stored) ↔
      ∃ word rest, input = word ++ rest ∧ (∀ c ∈ word, p c = true) ∧ Ends p rest ∧ word ≠ [] ∧ bytes word < size ∧
        first = .text word ∧ scan bare format rest = some stored := by
  constructor
  · intro scanned
    have run := (run_iff p input _ _).mp ⟨rfl, rfl⟩
    rw [scan] at scanned
    split at scanned
    · cases scanned
    · rename_i present
      split at scanned
      · cases scanned
      · rename_i small
        obtain ⟨rest, later, same⟩ := Option.map_eq_some_iff.mp scanned
        obtain ⟨rfl, rfl⟩ := List.cons.inj same
        exact ⟨_, _, run.1, run.2.1, run.2.2, present, not_le.mp small, rfl, later⟩
  · intro there
    obtain ⟨word, rest, split, all, ends, present, small, rfl, later⟩ := there
    have run := (run_iff p input word rest).mpr ⟨split, all, ends⟩
    rw [scan, run.1, run.2, if_neg present, if_neg (not_le.mpr small), later]
    rfl

theorem scan_int_iff :
    scan bare (.int :: format) input = some (first :: stored) ↔
      ∃ v rest, scanInt bare input = some (v, rest) ∧ Fits v ∧ first = .int v ∧
        scan bare format rest = some stored := by
  rw [scan]
  cases read : scanInt bare input with
  | none => simp
  | some found =>
    obtain ⟨v, rest⟩ := found
    constructor
    · intro scanned
      dsimp only at scanned
      split at scanned
      · rename_i fits
        obtain ⟨rest', later, same⟩ := Option.map_eq_some_iff.mp scanned
        obtain ⟨rfl, rfl⟩ := List.cons.inj same
        exact ⟨v, rest, rfl, fits, rfl, later⟩
      · cases scanned
    · intro there
      obtain ⟨v', rest', same, fits, rfl, later⟩ := there
      obtain ⟨rfl, rfl⟩ := Prod.mk.inj (Option.some.inj same)
      dsimp only
      rw [if_pos fits, later]
      rfl

/-- Nothing is stored for an ordinary character at the end. -/
theorem scan_concat_char (format : List Directive) (c : Char) :
    scan bare (format ++ [.char c]) input = scan bare format input := by
  induction format generalizing input with
  | nil =>
    cases input with
    | nil => rfl
    | cons d rest => exact ite_self _
  | cons directive format ih =>
    rw [List.cons_append]
    cases directive with
    | set p size => rw [scan, scan, ih]
    | int =>
      rw [scan, scan]
      cases scanInt bare input with
      | none => rfl
      | some found => simp only [ih]
    | char d =>
      cases input with
      | nil => rfl
      | cons e rest =>
        rw [scan, scan]
        simp only [ih]

end Scan

end Scanning
