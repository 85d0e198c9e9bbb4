import BraceTemplate.Settings.Reader
import Mathlib.Tactic.IntervalCases

/-!
# The numbers of a text

The numbers that a JSON text writes out are found without reading the text: outside of
strings they start with a sign or a digit. The digits of a whole number of 64 bits are
read as that number, and those of a negative zero as a zero with its sign.
-/
namespace BraceTemplate

/-- A whole number of 64 bits, or the zero with a sign. -/
def Number.IsWhole : Number → Prop
  | .int value => -(Nat.pow 2 63 : Int) ≤ value ∧ value < (Nat.pow 2 64 : Int)
  | .double negative magnitude => negative = true ∧ magnitude = .zero

namespace Double

theorem nearest?_zero (den : Nat) : nearest? 0 den = some zero := by
  simp [nearest?, inUnits, nearestQuotient, make?]

theorem scaleByTen?_zero (power : Int) : scaleByTen? zero power = some zero := by
  rw [scaleByTen?]
  simp [zero, mul?, div?, nearestScaled?, nearest?_zero]

/-- Zero stays zero at every power of ten. -/
theorem ofDecimal?_zero (power : Int) : ofDecimal? 0 power = some zero := by
  rw [ofDecimal?, nearest?_zero]
  exact scaleByTen?_zero power

end Double

namespace Settings

/-- Where a character of a JSON text stands, as far as numbers go. -/
inductive Place where
  | outside
  /-- In a number, of which this has been seen in reverse. -/
  | number (seen : Text)
  | string
  /-- After a backslash in a string. -/
  | escape
  deriving DecidableEq

namespace Place

def startsNumber (c : Char) : Bool := c = '-' || c.isDigit

def inNumber (c : Char) : Bool :=
  c = '-' || c.isDigit || c = '+' || c = '.' || c = 'e' || c = 'E'

/-- The place after a character that is in no number and no string. -/
def enter (c : Char) : Place :=
  if c = '"' then .string else if startsNumber c then .number [c] else .outside

def next : Place → Char → Place
  | .outside, c => enter c
  | .number seen, c => if inNumber c then .number (c :: seen) else enter c
  | .string, c => if c = '"' then .outside else if c = '\\' then .escape else .string
  | .escape, _ => .string

/-- The number that ends before the character. -/
def ended : Place → Char → List Text
  | .number seen, c => if inNumber c then [] else [seen.reverse]
  | _, _ => []

end Place

def numbersFrom : Place → Text → List Text
  | .number seen, [] => [seen.reverse]
  | _, [] => []
  | place, c :: rest => place.ended c ++ numbersFrom (place.next c) rest

/-- The numbers of a JSON text as they are written. -/
def numbers (text : Text) : List Text := numbersFrom .outside text

/-- The text of a whole number of 64 bits; a zero may have a sign. -/
def IsInteger (t : Text) : Prop :=
  t = ['-', '0'] ∨ ∃ value : Int, (Number.int value).IsWhole ∧ t = Number.intText value

namespace State

/-- Reads a text from a state on. -/
def run (st : State) (text : Text) : Except Fault State := text.foldlM step st

theorem run_cons (st : State) (c : Char) (rest : Text) :
    st.run (c :: rest) = st.step c >>= fun st' => st'.run rest := rfl

theorem run_cons_of_step {st st' : State} {c : Char} (h : st.step c = .ok st') (rest : Text) :
    st.run (c :: rest) = st'.run rest := by
  rw [run_cons, h]
  rfl

theorem run_append (st : State) (first rest : Text) :
    st.run (first ++ rest) = st.run first >>= fun st' => st'.run rest :=
  List.foldlM_append

theorem run_append_of_run {st st' : State} {first : Text} (h : st.run first = .ok st')
    (rest : Text) : st.run (first ++ rest) = st'.run rest := by
  rw [run_append, h]
  rfl

variable {stack : List Frame}

theorem step_value {c : Char} (mayClose : Bool) (visible : isSpace c = false) (inside : c ≠ ']') :
    step (.reading stack (.value mayClose)) c = beginValue stack c := by
  simp [step, stepReading, visible, inside]

/-- A numeral of digits alone. -/
def digitNumeral (negative : Bool) (n : Nat) : Json.Numeral :=
  ⟨if n = 0 then .zero else .whole, negative, n, false, 0, false, 0⟩

theorem digitOf_digitChar : ∀ d < 10, Json.Numeral.digitOf (Nat.digitChar d) = d := by
  decide

theorem isDigit_digitChar : ∀ d < 10, (Nat.digitChar d).isDigit = true := by
  decide

theorem step_digitNumeral (negative : Bool) {n d : Nat} (positive : 0 < n) (digit : d < 10)
    (room : n * 10 + d < Nat.pow 2 64) :
    (digitNumeral negative n).step (Nat.digitChar d) =
      .ok (some (digitNumeral negative (n * 10 + d))) := by
  have part : (digitNumeral negative n).part = .whole := if_neg (Nat.ne_of_gt positive)
  have fits : (digitNumeral negative n).hasRoom (Nat.digitChar d) = true := by
    rw [Json.Numeral.hasRoom, digitOf_digitChar d digit]
    exact decide_eq_true room
  have filled : n * 10 + d ≠ 0 := by omega
  simp only [Json.Numeral.step, part, isDigit_digitChar d digit, if_true, Json.Numeral.pushWhole,
    fits, digitOf_digitChar d digit]
  simp only [digitNumeral, if_neg filled]

/-- Digits are read one by one, from wherever the first of them is taken as a numeral. -/
theorem run_digits {st : State} {negative : Bool}
    (first : ∀ d < 10, st.step (Nat.digitChar d) =
      .ok (.reading stack (.number (digitNumeral negative d))))
    (n : Nat) (room : n < Nat.pow 2 64) :
    st.run (Nat.toDigits 10 n) = .ok (.reading stack (.number (digitNumeral negative n))) := by
  induction n using Nat.strongRecOn with
  | ind n ih =>
    by_cases small : n < 10
    · rw [Nat.toDigits_of_lt_base small]
      exact run_cons_of_step (first n small) []
    · rw [Nat.toDigits_of_base_le (by decide) (Nat.le_of_not_lt small),
        run_append_of_run (ih (n / 10) (by omega) (by omega))]
      refine run_cons_of_step ?_ []
      have split : n / 10 * 10 + n % 10 = n := Nat.div_add_mod' n 10
      have stepped := step_digitNumeral negative (n := n / 10) (d := n % 10) (by omega) (by omega)
        (by omega)
      rw [split] at stepped
      simp only [step, stepReading, stepped]
      rfl

/-- The numeral of a whole number. -/
def intNumeral : Int → Json.Numeral
  | .ofNat n => digitNumeral false n
  | .negSucc n => digitNumeral true (n + 1)

theorem step_sign (mayClose : Bool) : step (.reading stack (.value mayClose)) '-' =
    .ok (.reading stack (.number ⟨.sign, true, 0, false, 0, false, 0⟩)) :=
  step_value mayClose rfl (by decide)

section Whole
variable {value : Int} (whole : (Number.int value).IsWhole)
include whole

theorem run_intText (mayClose : Bool) :
    run (.reading stack (.value mayClose)) (Number.intText value) =
      .ok (.reading stack (.number (intNumeral value))) := by
  cases value with
  | ofNat n =>
    refine run_digits (fun d digit => ?_) n (Int.ofNat_lt.mp whole.2)
    interval_cases d
    all_goals exact step_value mayClose rfl (by decide)
  | negSucc n =>
    have room : n + 1 < Nat.pow 2 64 := by
      have lower : -(Nat.pow 2 63 : Int) ≤ .negSucc n := whole.1
      have smaller : Nat.pow 2 63 < Nat.pow 2 64 := by decide
      omega
    rw [Number.intText, run_cons_of_step (step_sign mayClose)]
    refine run_digits (fun d digit => ?_) (n + 1) room
    interval_cases d
    all_goals rfl

theorem value?_intNumeral : (intNumeral value).value? = some (.int value) := by
  cases value with
  | ofNat n =>
    cases n with
    | zero => rfl
    | succ n => rfl
  | negSucc n =>
    have small : n + 1 ≤ Nat.pow 2 63 := by
      have lower : -(Nat.pow 2 63 : Int) ≤ .negSucc n := whole.1
      omega
    have isWhole : (digitNumeral true (n + 1)).isWhole = true := rfl
    have negative : (digitNumeral true (n + 1)).negative = true := rfl
    have digits : (digitNumeral true (n + 1)).digits = n + 1 := rfl
    have filled : decide (n + 1 ≠ 0) = true := decide_eq_true (Nat.succ_ne_zero n)
    simp only [intNumeral, Json.Numeral.value?, isWhole, negative, digits, Bool.not_true,
      Bool.and_false, Bool.true_and, Bool.false_eq_true, if_false, filled, decide_eq_true small,
      if_true]
    rfl

end Whole

/-- A negative zero is no whole number for the reader, with or without a fraction. -/
theorem value?_negativeZero {n : Json.Numeral} (negative : n.negative = true)
    (zero : n.digits = 0) : n.value? = some (.double true .zero) := by
  simp [Json.Numeral.value?, negative, zero, Double.ofDecimal?_zero]

/-- Reading the text of an integer gives a whole number. -/
theorem isWhole_of_isInteger {t : Text} (integer : IsInteger t) {mayClose : Bool}
    {n : Json.Numeral} {v : Number}
    (read : run (.reading stack (.value mayClose)) t = .ok (.reading stack (.number n)))
    (value : n.value? = some v) : v.IsWhole := by
  rcases integer with rfl | ⟨i, whole, rfl⟩
  · have zero : run (.reading stack (.value mayClose)) ['-', '0'] =
        .ok (.reading stack (.number (digitNumeral true 0))) :=
      run_cons_of_step (step_sign mayClose) ['0']
    rw [zero] at read
    cases read
    rw [value?_negativeZero rfl rfl] at value
    cases value
    exact ⟨rfl, rfl⟩
  · rw [run_intText whole] at read
    cases read
    rw [value?_intNumeral whole] at value
    cases value
    exact whole

end State
end Settings
end BraceTemplate
