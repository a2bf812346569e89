import TfuServer.Json.ReadBack

/-!
# An encoded string is read as the string

One character at a time: a short escape, one code unit or a pair of them gives
back the character it was written for, in both dialects.
-/

namespace TfuServer.Json

set_option autoImplicit false

theorem run_str_append (dialect : Dialect) (mode : StrMode) (left right : Text) :
    runStr dialect mode (left ++ right) =
      match runStr dialect mode left with
      | some next => runStr dialect next right
      | none => none := by
  induction left generalizing mode with
  | nil => rfl
  | cons c left ih =>
      simp only [List.cons_append, runStr]
      cases strStep dialect mode c with
      | more next => exact ih next
      | close text => rfl
      | bad => rfl

theorem hex_value_digit (n : Nat) (small : n < 16) : hexValue (hexDigit n) = some n := by
  interval_cases n <;> decide

theorem hex_digit_injective (left right : Nat) (leftSmall : left < 16) (rightSmall : right < 16)
    (same : hexDigit left = hexDigit right) : left = right := by
  have values := congrArg hexValue same
  rw [hex_value_digit left leftSmall, hex_value_digit right rightSmall] at values
  exact Option.some.inj values

theorem hex_digits_injective (left right : Nat) (leftSmall : left < 65536)
    (rightSmall : right < 65536) (same : hexDigits left = hexDigits right) : left = right := by
  simp only [hexDigits, List.cons.injEq, and_true] at same
  have mods (n m : Nat) := hex_digit_injective (n % 16) (m % 16) (Nat.mod_lt _ (by decide))
    (Nat.mod_lt _ (by decide))
  have first := mods _ _ same.1
  have second := mods _ _ same.2.1
  have third := mods _ _ same.2.2.1
  have fourth := mods _ _ same.2.2.2
  omega

theorem hex_digits_sum (unit : Nat) (small : unit < 65536) :
    16 * (16 * (16 * (16 * 0 + unit / 4096 % 16) + unit / 256 % 16) + unit / 16 % 16) + unit % 16 =
      unit := by
  omega

theorem run_str_unit (dialect : Dialect) (text : Text) (high : Option Nat) (unit : Nat)
    (small : unit < 65536) :
    runStr dialect (.hex text high 0 0) (hexDigits unit) = some (finishUnit text high unit) := by
  have digit (n : Nat) := hex_value_digit (n % 16) (Nat.mod_lt n (by decide))
  simp only [hexDigits, runStr, strStep, digit, show (0 : Nat) < 3 by decide,
    show (0 : Nat) + 1 < 3 by decide, show (0 : Nat) + 1 + 1 < 3 by decide,
    show ¬(0 : Nat) + 1 + 1 + 1 < 3 by decide, if_true, if_false]
  rw [hex_digits_sum unit small]

theorem char_not_surrogate (c : Char) : isHighUnit c.toNat = false ∧ isLowUnit c.toNat = false := by
  have valid := c.valid
  simp only [UInt32.isValidChar, Nat.isValidChar] at valid
  simp only [isHighUnit, isLowUnit, Bool.and_eq_false_iff, decide_eq_false_iff_not, Char.toNat]
  omega

theorem high_unit_is_high (c : Char) (astral : 0xFFFF < c.toNat) :
    isHighUnit (0xD800 + (c.toNat - 0x10000) / 0x400) = true := by
  have valid := c.valid
  simp only [UInt32.isValidChar, Nat.isValidChar] at valid
  simp only [isHighUnit, Bool.and_eq_true, decide_eq_true_eq, Char.toNat] at astral ⊢
  omega

theorem low_unit_is_low (c : Char) : isLowUnit (0xDC00 + (c.toNat - 0x10000) % 0x400) = true := by
  simp only [isLowUnit, Bool.and_eq_true, decide_eq_true_eq]
  omega

theorem run_str_open (dialect : Dialect) (text rest : Text) :
    runStr dialect (.plain text) ('\\' :: 'u' :: rest) =
      runStr dialect (.hex text none 0 0) rest := rfl

theorem run_str_open_low (dialect : Dialect) (text rest : Text) (unit : Nat) :
    runStr dialect (.high text unit) ('\\' :: 'u' :: rest) =
      runStr dialect (.hex text (some unit) 0 0) rest := rfl

theorem run_str_single (dialect : Dialect) (text : Text) (c : Char) (unit : Nat)
    (small : unit < 65536) (finished : finishUnit text none unit = .plain (text ++ [c])) :
    runStr dialect (.plain text) ([unit].flatMap fun unit => '\\' :: 'u' :: hexDigits unit) =
      some (.plain (text ++ [c])) := by
  simp only [List.flatMap_cons, List.flatMap_nil, List.append_nil]
  rw [run_str_open, run_str_unit dialect text none unit small, finished]

theorem run_str_pair (dialect : Dialect) (text : Text) (c : Char) (high low : Nat)
    (highSmall : high < 65536) (lowSmall : low < 65536)
    (first : finishUnit text none high = .high text high)
    (second : finishUnit text (some high) low = .plain (text ++ [c])) :
    runStr dialect (.plain text) ([high, low].flatMap fun unit => '\\' :: 'u' :: hexDigits unit) =
      some (.plain (text ++ [c])) := by
  simp only [List.flatMap_cons, List.flatMap_nil, List.append_nil]
  rw [run_str_append, run_str_open, run_str_unit dialect text none high highSmall, first]
  simp only [run_str_open_low]
  rw [run_str_unit dialect text _ low lowSmall, second]

theorem pair_code (n : Nat) (astral : 0xFFFF < n) :
    0x10000 + (0xD800 + (n - 0x10000) / 0x400 - 0xD800) * 0x400 +
      (0xDC00 + (n - 0x10000) % 0x400 - 0xDC00) = n := by
  omega

theorem char_bound (c : Char) : c.toNat < 0x110000 := by
  have valid := c.valid
  simp only [UInt32.isValidChar, Nat.isValidChar] at valid
  simp only [Char.toNat]
  omega

theorem high_unit_bounds (n : Nat) (bound : n < 0x110000) :
    0xD800 + (n - 0x10000) / 0x400 < 65536 ∧ 128 ≤ 0xD800 + (n - 0x10000) / 0x400 := by
  omega

theorem low_unit_bounds (n : Nat) :
    0xDC00 + (n - 0x10000) % 0x400 < 65536 ∧ 128 ≤ 0xDC00 + (n - 0x10000) % 0x400 := by
  omega

theorem units_small (c : Char) (unit : Nat) (member : unit ∈ units c) :
    unit < 65536 ∧ (unit < 128 → c = Char.ofNat unit) := by
  unfold units at member
  split at member
  · rename_i basic
    obtain rfl := List.mem_singleton.mp member
    exact ⟨Nat.lt_succ_of_le basic, fun _ => (Char.ofNat_toNat c).symm⟩
  · simp only [List.mem_cons, List.not_mem_nil, or_false] at member
    rcases member with same | same
    · obtain ⟨small, large⟩ := high_unit_bounds c.toNat (char_bound c)
      rw [← same] at small large
      exact ⟨small, fun ascii => absurd ascii (Nat.not_lt.mpr large)⟩
    · obtain ⟨small, large⟩ := low_unit_bounds c.toNat
      rw [← same] at small large
      exact ⟨small, fun ascii => absurd ascii (Nat.not_lt.mpr large)⟩

theorem run_str_units (dialect : Dialect) (text : Text) (c : Char) :
    runStr dialect (.plain text) ((units c).flatMap fun unit => '\\' :: 'u' :: hexDigits unit) =
      some (.plain (text ++ [c])) := by
  have bound := char_bound c
  unfold units
  split
  · obtain ⟨notHigh, notLow⟩ := char_not_surrogate c
    exact run_str_single dialect text c c.toNat (by omega)
      (by simp [finishUnit, notHigh, notLow, Char.ofNat_toNat])
  · rename_i astral
    have astral : 0xFFFF < c.toNat := Nat.lt_of_not_le astral
    exact run_str_pair dialect text c _ _ (by omega) (by omega)
      (by simp [finishUnit, high_unit_is_high c astral])
      (by simp only [finishUnit, low_unit_is_low c, if_true, pair_code c.toNat astral,
        Char.ofNat_toNat])

theorem not_escaped_raw (encoder : JavaScriptEncoder) (dialect : Dialect) (c : Char)
    (kept : encoder.escapes c = false) : c ≠ '"' ∧ c ≠ '\\' ∧ rawAllowed dialect c = true := by
  simp only [JavaScriptEncoder.escapes, alwaysEscaped, Bool.or_eq_false_iff,
    beq_eq_false_iff_ne, decide_eq_false_iff_not] at kept
  obtain ⟨⟨⟨⟨⟨⟨⟨⟨⟨⟨⟨quote, -⟩, -⟩, -⟩, -⟩, -⟩, -⟩, slash⟩, control⟩, -⟩, -⟩, -⟩ := kept
  refine ⟨quote, slash, ?_⟩
  cases dialect
  · simpa [rawAllowed] using control
  · rfl

theorem run_str_encoded_char (encoder : JavaScriptEncoder) (dialect : Dialect) (text : Text)
    (c : Char) :
    runStr dialect (.plain text) (encoder.encodeChar c) = some (.plain (text ++ [c])) := by
  unfold JavaScriptEncoder.encodeChar
  split
  · cases short : shortEscape c with
    | some d =>
        unfold shortEscape at short
        split_ifs at short with back tab line feed carriage slash <;>
          (obtain rfl := Option.some.inj short
           subst_vars
           rfl)
    | none => exact run_str_units dialect text c
  · rename_i kept
    obtain ⟨quote, slash, raw⟩ := not_escaped_raw encoder dialect c (by simpa using kept)
    simp [runStr, strStep, plainStep, quote, slash, raw]

end TfuServer.Json
