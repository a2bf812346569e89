import Mathlib.Data.List.Basic
import Mathlib.Data.Rat.Defs
import Mathlib.Tactic.IntervalCases

/-!
# Decimal numerals

The texts of whole numbers and of JSON numbers. A number that a program only
carries from one text to another (a double, a single, a decimal) is kept as
the numeral it is written with; its value is read off when it is compared.
-/

namespace TfuServer

set_option autoImplicit false

abbrev Text := List Char

namespace Numeral

/-- The decimal numeral of a whole number, with a leading minus when negative. -/
def intText : Int → Text
  | .ofNat n => Nat.toDigits 10 n
  | .negSucc n => '-' :: Nat.toDigits 10 (n + 1)

def readNat (text : Text) : Option Nat :=
  if text ≠ [] ∧ text.all Char.isDigit then some (Nat.ofDigitChars 10 text 0) else none

def readInt : Text → Option Int
  | '-' :: digits => (readNat digits).map fun n => -(n : Int)
  | digits => (readNat digits).map fun n => (n : Int)

theorem read_nat_to_digits (n : Nat) : readNat (Nat.toDigits 10 n) = some n := by
  have digits : (Nat.toDigits 10 n).all Char.isDigit = true :=
    List.all_eq_true.mpr fun _ member =>
      Nat.isDigit_of_mem_toDigits (by decide) (by decide) member
  simp only [readNat, digits, and_true, ne_eq, Nat.toDigits_ne_nil, not_false_eq_true, if_true,
    Nat.ofDigitChars_ten_toDigits]

theorem to_digits_head_ne_minus (n : Nat) (rest : Text) : Nat.toDigits 10 n ≠ '-' :: rest := by
  intro same
  have member : '-' ∈ Nat.toDigits 10 n := by rw [same]; exact List.mem_cons_self
  exact absurd (Nat.isDigit_of_mem_toDigits (by decide) (by decide) member) (by decide)

theorem read_int_text (n : Int) : readInt (intText n) = some n := by
  cases n with
  | ofNat n =>
      simp only [intText]
      cases shape : Nat.toDigits 10 n with
      | nil => exact absurd shape Nat.toDigits_ne_nil
      | cons head rest =>
          have notMinus : head ≠ '-' := fun same =>
            to_digits_head_ne_minus n rest (by rw [shape, same])
          unfold readInt
          split
          · rename_i tail eq
            exact absurd (List.cons.inj eq).1 notMinus
          · rw [← shape, read_nat_to_digits]
            rfl
  | negSucc n =>
      simp only [intText, readInt, read_nat_to_digits]
      rfl

theorem int_text_injective : Function.Injective intText := by
  intro left right same
  have read := read_int_text left
  rw [same, read_int_text right] at read
  exact (Option.some.inj read).symm

def toInt32 (n : Int) : Option Int32 :=
  if -2 ^ 31 ≤ n ∧ n < 2 ^ 31 then some (Int32.ofInt n) else none

def toInt64 (n : Int) : Option Int64 :=
  if -2 ^ 63 ≤ n ∧ n < 2 ^ 63 then some (Int64.ofInt n) else none

@[simp] theorem to_int32_to_int (n : Int32) : toInt32 n.toInt = some n := by
  rw [toInt32, if_pos ⟨Int32.le_toInt n, Int32.toInt_lt n⟩, Int32.ofInt_toInt]

@[simp] theorem to_int64_to_int (n : Int64) : toInt64 n.toInt = some n := by
  rw [toInt64, if_pos ⟨Int64.le_toInt n, Int64.toInt_lt n⟩, Int64.ofInt_toInt]

theorem to_int32_some (n : Int) (narrow : Int32) (fits : toInt32 n = some narrow) :
    narrow.toInt = n := by
  unfold toInt32 at fits
  split_ifs at fits with within
  rw [← Option.some.inj fits]
  exact Int32.toInt_ofInt_of_le within.1 within.2

theorem to_int64_some (n : Int) (narrow : Int64) (fits : toInt64 n = some narrow) :
    narrow.toInt = n := by
  unfold toInt64 at fits
  split_ifs at fits with within
  rw [← Option.some.inj fits]
  exact Int64.toInt_ofInt_of_le within.1 within.2

/-- Where a scan of `-? int frac? exp?` stands. -/
inductive NumberState where
  | start | minus | zero | digits | dot | fraction | exponent | exponentSign | exponentDigits
  deriving DecidableEq, Repr

def numberStep : NumberState → Char → Option NumberState
  | .start, c =>
      if c = '-' then some .minus else if c = '0' then some .zero
      else if c.isDigit then some .digits else none
  | .minus, c =>
      if c = '0' then some .zero else if c.isDigit then some .digits else none
  | .zero, c =>
      if c = '.' then some .dot else if c = 'e' ∨ c = 'E' then some .exponent else none
  | .digits, c =>
      if c.isDigit then some .digits else if c = '.' then some .dot
      else if c = 'e' ∨ c = 'E' then some .exponent else none
  | .dot, c => if c.isDigit then some .fraction else none
  | .fraction, c =>
      if c.isDigit then some .fraction
      else if c = 'e' ∨ c = 'E' then some .exponent else none
  | .exponent, c =>
      if c = '+' ∨ c = '-' then some .exponentSign
      else if c.isDigit then some .exponentDigits else none
  | .exponentSign, c => if c.isDigit then some .exponentDigits else none
  | .exponentDigits, c => if c.isDigit then some .exponentDigits else none

def NumberState.accepting : NumberState → Bool
  | .zero | .digits | .fraction | .exponentDigits => true
  | _ => false

def scanNumber : NumberState → Text → Option NumberState
  | state, [] => some state
  | state, c :: rest => (numberStep state c).bind fun next => scanNumber next rest

def isNumber (text : Text) : Bool :=
  match scanNumber .start text with
  | some state => state.accepting
  | none => false

def numberChar (c : Char) : Bool :=
  c.isDigit || c == '-' || c == '+' || c == '.' || c == 'e' || c == 'E'

theorem number_step_char (state next : NumberState) (c : Char)
    (stepped : numberStep state c = some next) : numberChar c = true := by
  by_cases zero : c = '0'
  · subst zero
    decide
  · cases state <;> simp only [numberStep] at stepped <;> grind [numberChar]

theorem scan_number_chars (state final : NumberState) (text : Text)
    (scanned : scanNumber state text = some final) : ∀ c ∈ text, numberChar c = true := by
  induction text generalizing state with
  | nil => simp
  | cons c rest ih =>
      simp only [scanNumber, Option.bind_eq_some_iff] at scanned
      obtain ⟨next, stepped, tail⟩ := scanned
      intro d member
      rcases List.mem_cons.mp member with rfl | later
      · exact number_step_char state next d stepped
      · exact ih next tail d later

theorem number_chars (text : Text) (number : isNumber text = true) :
    ∀ c ∈ text, numberChar c = true := by
  unfold isNumber at number
  cases scanned : scanNumber .start text with
  | none => simp [scanned] at number
  | some final => exact scan_number_chars .start final text scanned

theorem scan_number_append (state : NumberState) (left right : Text) :
    scanNumber state (left ++ right) =
      (scanNumber state left).bind fun next => scanNumber next right := by
  induction left generalizing state with
  | nil => rfl
  | cons c rest ih =>
      simp only [List.cons_append, scanNumber]
      cases numberStep state c with
      | none => rfl
      | some next => simp [ih]

/-- A digit run leaves the scan in `digits`, except for the lone zero. -/
theorem scan_to_digits (state : NumberState) (n : Nat)
    (early : state = .start ∨ state = .minus) :
    scanNumber state (Nat.toDigits 10 n) = some (if n = 0 then .zero else .digits) := by
  induction n using Nat.base_induction 10 (by decide) with
  | single m small =>
      rw [Nat.toDigits_of_lt_base small]
      rcases early with rfl | rfl <;> interval_cases m <;> rfl
  | digit m k last positive ih =>
      have below : k < 10 := last
      rw [← Nat.toDigits_append_toDigits (by decide) positive last, scan_number_append, ih,
        Nat.toDigits_of_lt_base last, if_neg (by omega), if_neg (by omega)]
      interval_cases k <;> rfl

theorem int_text_is_number (n : Int) : isNumber (intText n) = true := by
  cases n with
  | ofNat n =>
      simp only [intText, isNumber, scan_to_digits .start n (Or.inl rfl)]
      split_ifs <;> rfl
  | negSucc n =>
      have minus : numberStep .start '-' = some .minus := rfl
      simp only [intText, isNumber, scanNumber, minus, Option.bind_some,
        scan_to_digits .minus (n + 1) (Or.inr rfl), Nat.succ_ne_zero, if_false]
      rfl

/-- A number as the numeral it is written with. -/
structure JsonNumber where
  text : Text
  wellFormed : isNumber text = true
  deriving DecidableEq

def JsonNumber.ofInt (n : Int) : JsonNumber := ⟨intText n, int_text_is_number n⟩

@[simp] theorem json_number_of_int_text (n : Int) : (JsonNumber.ofInt n).text = intText n := rfl

instance : Repr JsonNumber := ⟨fun number _ => repr (String.ofList number.text)⟩

/-- A number as a program prints it, at most as long as its longest double or decimal. -/
structure PrintedNumber extends JsonNumber where
  short : text.length ≤ 40
  deriving DecidableEq

inductive NonFinite where
  | nan | infinity | negativeInfinity
  deriving DecidableEq, Repr

/-- A double or a single, by the text it is printed with. -/
inductive Floating where
  | finite (number : PrintedNumber)
  | nonFinite (kind : NonFinite)
  deriving DecidableEq

def NonFinite.text : NonFinite → Text
  | .nan => "NaN".toList
  | .infinity => "Infinity".toList
  | .negativeInfinity => "-Infinity".toList

def Floating.text : Floating → Text
  | .finite number => number.text
  | .nonFinite kind => kind.text

def Floating.isFinite : Floating → Bool
  | .finite _ => true
  | .nonFinite _ => false

theorem to_digits_length (n width : Nat) (small : n < 10 ^ width) (some_width : 0 < width) :
    (Nat.toDigits 10 n).length ≤ width := by
  induction width generalizing n with
  | zero => omega
  | succ width ih =>
      by_cases short : n < 10
      · rw [Nat.toDigits_of_lt_base short]
        simp
      · have positive : 0 < n / 10 := by omega
        have last : n % 10 < 10 := by omega
        have split : Nat.toDigits 10 (n / 10) ++ Nat.toDigits 10 (n % 10) = Nat.toDigits 10 n := by
          rw [Nat.toDigits_append_toDigits (by decide) positive last, Nat.div_add_mod]
        have wide : 0 < width := by
          rcases Nat.eq_zero_or_pos width with rfl | wide
          · omega
          · exact wide
        have head := ih (n / 10) (by rw [Nat.pow_succ] at small; omega) wide
        rw [← split, List.length_append, Nat.toDigits_of_lt_base last]
        simpa using head

theorem int_text_length (n : Int) (small : n.natAbs < 10 ^ 39) : (intText n).length ≤ 40 := by
  cases n with
  | ofNat n => exact Nat.le_succ_of_le (to_digits_length n 39 small (by decide))
  | negSucc n => exact Nat.succ_le_succ (to_digits_length (n + 1) 39 small (by decide))

def PrintedNumber.ofInt32 (n : Int32) : PrintedNumber where
  toJsonNumber := .ofInt n.toInt
  short := int_text_length n.toInt (by have low := n.le_toInt; have high := n.toInt_lt; omega)

def PrintedNumber.ofInt64 (n : Int64) : PrintedNumber where
  toJsonNumber := .ofInt n.toInt
  short := int_text_length n.toInt (by have low := n.le_toInt; have high := n.toInt_lt; omega)

/-- The number read so far: digits without the point, how many stand behind it. -/
structure Reading where
  negative : Bool
  mantissa : Nat
  scale : Nat
  exponentNegative : Bool
  exponent : Nat

def readDigits : NumberState → Reading → Text → Reading
  | _, reading, [] => reading
  | state, reading, c :: rest =>
      match numberStep state c with
      | none => reading
      | some next =>
          let digit := c.toNat - '0'.toNat
          let reading := match next with
            | .minus => { reading with negative := true }
            | .zero | .digits => { reading with mantissa := 10 * reading.mantissa + digit }
            | .fraction =>
                { reading with
                  mantissa := 10 * reading.mantissa + digit
                  scale := reading.scale + 1 }
            | .exponentSign => { reading with exponentNegative := c == '-' }
            | .exponentDigits => { reading with exponent := 10 * reading.exponent + digit }
            | _ => reading
          readDigits next reading rest

/-- The value of a numeral, exact. -/
def JsonNumber.value (number : JsonNumber) : ℚ :=
  let reading := readDigits .start ⟨false, 0, 0, false, 0⟩ number.text
  let magnitude : ℚ := (reading.mantissa : ℚ) / 10 ^ reading.scale
  let scaled := if reading.exponentNegative then magnitude / 10 ^ reading.exponent
    else magnitude * 10 ^ reading.exponent
  if reading.negative then -scaled else scaled

theorem read_digits_mantissa (state final : NumberState) (reading : Reading) (digits : Text)
    (early : state = .start ∨ state = .minus ∨ state = .zero ∨ state = .digits)
    (all : digits.all Char.isDigit = true) (scanned : scanNumber state digits = some final) :
    readDigits state reading digits =
      { reading with mantissa := Nat.ofDigitChars 10 digits reading.mantissa } := by
  induction digits generalizing state reading with
  | nil => simp [readDigits]
  | cons c digits ih =>
      obtain ⟨digit, rest⟩ := Bool.and_eq_true_iff.mp all
      simp only [scanNumber, Option.bind_eq_some_iff] at scanned
      obtain ⟨next, stepped, tail⟩ := scanned
      have differs (d : Char) (other : d.isDigit = false) : c ≠ d := by
        rintro rfl
        exact absurd digit (by simp [other])
      have minus := differs '-' (by decide)
      have dot := differs '.' (by decide)
      have small := differs 'e' (by decide)
      have large := differs 'E' (by decide)
      have reached : next = .zero ∨ next = .digits := by
        rcases early with rfl | rfl | rfl | rfl <;> grind [numberStep]
      rw [readDigits, stepped, Nat.ofDigitChars_cons]
      rcases reached with rfl | rfl <;> exact ih _ _ (by simp) rest tail

theorem value_of_read_int (number : JsonNumber) (n : Int) (read : readInt number.text = some n) :
    number.value = n := by
  obtain ⟨text, wellFormed⟩ := number
  unfold isNumber at wellFormed
  cases scanned : scanNumber .start text with
  | none => simp [scanned] at wellFormed
  | some final =>
      have natural (digits : Text) (m : Nat) (natural : readNat digits = some m) :
          digits.all Char.isDigit = true ∧ Nat.ofDigitChars 10 digits 0 = m := by
        unfold readNat at natural
        split_ifs at natural with all
        exact ⟨all.2, Option.some.inj natural⟩
      simp only at read
      unfold readInt at read
      split at read
      · rename_i digits
        cases shape : readNat digits with
        | none => simp [shape] at read
        | some m =>
            obtain ⟨all, mantissa⟩ := natural digits m shape
            obtain rfl : -(m : Int) = n := by simpa [shape] using read
            have tail : scanNumber .minus digits = some final := scanned
            have opened : readDigits .start ⟨false, 0, 0, false, 0⟩ ('-' :: digits) =
                readDigits .minus ⟨true, 0, 0, false, 0⟩ digits := rfl
            simp [JsonNumber.value, opened, mantissa,
              read_digits_mantissa .minus final _ digits (by simp) all tail]
      · cases shape : readNat text with
        | none => simp [shape] at read
        | some m =>
            obtain ⟨all, mantissa⟩ := natural text m shape
            obtain rfl : (m : Int) = n := by simpa [shape] using read
            simp [JsonNumber.value, mantissa,
              read_digits_mantissa .start final _ text (by simp) all scanned]

end Numeral
end TfuServer
