import TfuServer.Json.EncodedText

/-!
# Strings with the escapes they need

Most programs write quotes, backslashes and control characters of a string as
escapes and leave the rest as it is. Which of its escapes a character gets is not
said here.
-/

namespace TfuServer.Json

set_option autoImplicit false

/-- Cannot stand for itself in a string. -/
def mustEscape (c : Char) : Bool := c == '"' || c == '\\' || c.toNat < 0x20

/-- DEL and the control characters after it are written either way. -/
def mayEscape (c : Char) : Bool := mustEscape c || (0x7f ≤ c.toNat && c.toNat < 0xa0)

def hexNumber (digits : Text) : Option Nat :=
  digits.foldlM (fun n digit => (hexValue digit).map (16 * n + ·)) 0

inductive Escape (c : Char) : Text → Prop where
  | short (letter : Char) (named : simpleEscape .rfc8259 letter = some c) :
      Escape c ['\\', letter]
  | digits (first second third fourth : Char)
      (number : hexNumber [first, second, third, fourth] = some c.toNat) :
      Escape c ['\\', 'u', first, second, third, fourth]

/-- What stands between the quotes for a string. -/
inductive Escaped : Text → Text → Prop where
  | nil : Escaped [] []
  | kept {text body : Text} (c : Char) (raw : mustEscape c = false) (rest : Escaped text body) :
      Escaped (c :: text) (c :: body)
  | escaped {text body : Text} (c : Char) (spelling : Text) (special : mayEscape c = true)
      (escape : Escape c spelling) (rest : Escaped text body) :
      Escaped (c :: text) (spelling ++ body)

def escapeChar (c : Char) : Text :=
  if c = '"' ∨ c = '\\' then ['\\', c]
  else if c.toNat < 0x20 then '\\' :: 'u' :: hexDigits c.toNat else [c]

def escape (text : Text) : Text := text.flatMap escapeChar

theorem hex_number_digits (n : Nat) (small : n < 65536) : hexNumber (hexDigits n) = some n := by
  have digit (m : Nat) := hex_value_digit (m % 16) (Nat.mod_lt m (by decide))
  simp only [hexNumber, hexDigits, List.foldlM_cons, List.foldlM_nil, digit, Option.map_some,
    Option.bind_eq_bind, Option.bind_some, Option.pure_def]
  rw [hex_digits_sum n small]

theorem escaped_escape (text : Text) : Escaped text (escape text) := by
  induction text with
  | nil => exact .nil
  | cons c text ih =>
      rw [escape, List.flatMap_cons, escapeChar]
      split_ifs with named control
      · refine .escaped c _ ?_ (.short c ?_) ih
        · rcases named with rfl | rfl <;> rfl
        · rcases named with rfl | rfl <;> rfl
      · refine .escaped c _ ?_ (.digits _ _ _ _ (hex_number_digits c.toNat (by omega))) ih
        simp [mayEscape, mustEscape, control]
      · refine .kept c ?_ ih
        obtain ⟨quote, slash⟩ := not_or.mp named
        simp [mustEscape, quote, slash, Nat.le_of_not_lt control]

theorem short_not_unit (letter c : Char) (named : simpleEscape .rfc8259 letter = some c) :
    letter ≠ 'u' := by
  rintro rfl
  cases named

theorem short_any_dialect (dialect : Dialect) (letter c : Char)
    (named : simpleEscape .rfc8259 letter = some c) : simpleEscape dialect letter = some c := by
  cases dialect with
  | rfc8259 => exact named
  | newtonsoft =>
      unfold simpleEscape at named ⊢
      split_ifs at named ⊢ <;> first | exact named | simp_all

theorem hex_number_values (first second third fourth : Char) (n : Nat)
    (number : hexNumber [first, second, third, fourth] = some n) :
    ∃ one two three four, hexValue first = some one ∧ hexValue second = some two ∧
      hexValue third = some three ∧ hexValue fourth = some four ∧
      16 * (16 * (16 * (16 * 0 + one) + two) + three) + four = n := by
  simp only [hexNumber, List.foldlM_cons, List.foldlM_nil, Option.bind_eq_bind,
    Option.bind_eq_some_iff, Option.map_eq_some_iff, Option.pure_def, Option.some.injEq] at number
  obtain ⟨_, ⟨one, hasOne, rfl⟩, _, ⟨two, hasTwo, rfl⟩, _, ⟨three, hasThree, rfl⟩, _,
    ⟨four, hasFour, rfl⟩, rfl⟩ := number
  exact ⟨one, two, three, four, hasOne, hasTwo, hasThree, hasFour, rfl⟩

theorem run_str_escape (dialect : Dialect) (read : Text) (c : Char) (spelling : Text)
    (escape : Escape c spelling) :
    runStr dialect (.plain read) spelling = some (.plain (read ++ [c])) := by
  cases escape with
  | short letter named =>
      have stepped : escapeStep dialect read letter = .more (.plain (read ++ [c])) := by
        rw [escapeStep, if_neg (short_not_unit letter c named),
          short_any_dialect dialect letter c named]
      simp only [runStr, strStep, plainStep, Char.reduceEq, if_false, if_true, stepped]
  | digits first second third fourth number =>
      obtain ⟨one, two, three, four, hasOne, hasTwo, hasThree, hasFour, sum⟩ :=
        hex_number_values first second third fourth _ number
      obtain ⟨notHigh, notLow⟩ := char_not_surrogate c
      have finished : finishUnit read none c.toNat = .plain (read ++ [c]) := by
        simp [finishUnit, notHigh, notLow, Char.ofNat_toNat]
      rw [run_str_open]
      simp only [runStr, strStep, hasOne, hasTwo, hasThree, hasFour, show (0 : Nat) < 3 by decide,
        show (0 : Nat) + 1 < 3 by decide, show (0 : Nat) + 1 + 1 < 3 by decide,
        show ¬(0 : Nat) + 1 + 1 + 1 < 3 by decide, if_true, if_false]
      rw [sum, finished]

theorem run_str_raw (dialect : Dialect) (read rest : Text) (c : Char)
    (raw : mustEscape c = false) :
    runStr dialect (.plain read) (c :: rest) = runStr dialect (.plain (read ++ [c])) rest := by
  simp only [mustEscape, Bool.or_eq_false_iff, beq_eq_false_iff_ne, decide_eq_false_iff_not]
    at raw
  obtain ⟨⟨quote, slash⟩, control⟩ := raw
  have allowed : rawAllowed dialect c = true := by
    cases dialect with
    | rfc8259 => exact decide_eq_true (Nat.le_of_not_lt control)
    | newtonsoft => rfl
  simp only [runStr, strStep, plainStep, quote, slash, allowed, if_true, if_false]

theorem run_of_run_str (dialect : Dialect) (isKey : Bool) (stack : List Frame) (body : Text)
    (mode final : StrMode) (ran : runStr dialect mode body = some final) :
    run dialect ⟨.str isKey mode, stack⟩ body = ⟨.str isKey final, stack⟩ := by
  induction body generalizing mode with
  | nil => rw [← Option.some.inj ran]; rfl
  | cons c body ih =>
      unfold runStr at ran
      cases stepped : strStep dialect mode c with
      | more next =>
          rw [stepped] at ran
          simpa only [run_cons, step, stepped] using ih next ran
      | close text => simp [stepped] at ran
      | bad => simp [stepped] at ran

end TfuServer.Json
