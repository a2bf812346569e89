import TfuServer.Json.EncodedText
import TfuServer.Json.StoredText

/-!
# One string in two spellings

A string that two encoders spell differently is not read back as the same one:
each character that only one of them escapes makes the other reading shorter.
Whether a stored string can be read at all depends on what follows its
backslashes.
-/

namespace TfuServer.Json

set_option autoImplicit false

def StrMode.after (front : Text) : StrMode → StrMode
  | .plain text => .plain (front ++ text)
  | .escape text => .escape (front ++ text)
  | .hex text first digits value => .hex (front ++ text) first digits value
  | .high text unit => .high (front ++ text) unit
  | .highEscape text unit => .highEscape (front ++ text) unit

def StrStep.after (front : Text) : StrStep → StrStep
  | .more mode => .more (mode.after front)
  | .close text => .close (front ++ text)
  | .bad => .bad

section
variable (dialect : Dialect) (front : Text)

theorem finish_unit_after (text : Text) (high : Option Nat) (unit : Nat) :
    finishUnit (front ++ text) high unit = (finishUnit text high unit).after front := by
  cases high with
  | none =>
      simp only [finishUnit]
      split_ifs <;> simp [StrMode.after]
  | some first =>
      simp only [finishUnit]
      split_ifs <;> simp [StrMode.after]

theorem plain_step_after (text : Text) (c : Char) :
    plainStep dialect (front ++ text) c = (plainStep dialect text c).after front := by
  unfold plainStep
  split_ifs <;> simp [StrStep.after, StrMode.after]

theorem escape_step_after (text : Text) (c : Char) :
    escapeStep dialect (front ++ text) c = (escapeStep dialect text c).after front := by
  unfold escapeStep
  split_ifs
  · rfl
  · cases simpleEscape dialect c <;> simp [StrStep.after, StrMode.after]

theorem str_step_after (mode : StrMode) (c : Char) :
    strStep dialect (mode.after front) c = (strStep dialect mode c).after front := by
  cases mode with
  | plain text => exact plain_step_after dialect front text c
  | escape text => exact escape_step_after dialect front text c
  | hex text high digits value =>
      simp only [StrMode.after, strStep]
      cases hexValue c with
      | none => rfl
      | some digit =>
          simp only
          split_ifs
          · rfl
          · rw [finish_unit_after]
            rfl
  | high text unit =>
      simp only [StrMode.after, strStep]
      split_ifs
      · rfl
      · rw [List.append_assoc, plain_step_after]
  | highEscape text unit =>
      simp only [StrMode.after, strStep]
      split_ifs
      · rfl
      · rw [List.append_assoc, escape_step_after]

theorem run_str_after (mode : StrMode) (body : Text) :
    runStr dialect (mode.after front) body =
      (runStr dialect mode body).map (StrMode.after front) := by
  induction body generalizing mode with
  | nil => rfl
  | cons c rest ih =>
      simp only [runStr, str_step_after]
      cases strStep dialect mode c with
      | more next => exact ih next
      | close text => rfl
      | bad => rfl

end

section
variable (encoder : JavaScriptEncoder)

/-- The default encoder escapes the character, this one does not. -/
def twoSpellings (c : Char) : Bool := !encoder.escapes c && JavaScriptEncoder.default.escapes c

theorem escapes_default (c : Char) (escaped : encoder.escapes c = true) :
    JavaScriptEncoder.default.escapes c = true := by
  simp only [JavaScriptEncoder.escapes, JavaScriptEncoder.default, Bool.or_eq_true,
    Bool.and_eq_true, decide_eq_true_eq, and_true] at escaped ⊢
  exact escaped.imp_right And.left

theorem stored_char_same (c : Char) (same : twoSpellings encoder c = false) :
    storedChar encoder c = storedChar .default c := by
  have agree : encoder.escapes c = JavaScriptEncoder.default.escapes c := by
    cases escaped : encoder.escapes c with
    | true => exact (escapes_default encoder c escaped).symm
    | false => simpa [twoSpellings, escaped] using same.symm
  simp only [storedChar, agree]

theorem stored_same (text : Text) (same : ∀ c ∈ text, twoSpellings encoder c = false) :
    stored encoder text = stored .default text := by
  simp only [stored]
  exact List.flatMap_congr fun c member => stored_char_same encoder c (same c member)

theorem two_spellings_code (c : Char) (two : twoSpellings encoder c = true) :
    0x7f < c.toNat ∧ c.toNat ≤ 0xFFFF ∧ alwaysEscaped c = false := by
  simp only [twoSpellings, JavaScriptEncoder.escapes, JavaScriptEncoder.default,
    Bool.and_eq_true, Bool.not_eq_true', Bool.or_eq_false_iff, Bool.or_eq_true,
    decide_eq_true_eq, and_true] at two
  obtain ⟨⟨ordinary, -⟩, always | beyond⟩ := two
  · rw [ordinary] at always
    cases always
  · refine ⟨beyond, ?_, ordinary⟩
    simp only [alwaysEscaped, Bool.or_eq_false_iff, decide_eq_false_iff_not] at ordinary
    omega

theorem two_spellings_stored (c : Char) (two : twoSpellings encoder c = true) :
    storedChar encoder c = [c] ∧ storedChar .default c = 'u' :: hexDigits c.toNat := by
  obtain ⟨beyond, basic, -⟩ := two_spellings_code encoder c two
  obtain ⟨kept, escaped⟩ := Bool.and_eq_true_iff.mp two
  have short : shortEscape c = none := by
    unfold shortEscape
    split_ifs with back tab line feed carriage slash <;>
      first
        | rfl
        | (subst_vars; exact absurd beyond (by decide))
  constructor
  · simp only [storedChar, Bool.not_eq_true'] at kept ⊢
    rw [kept]
    rfl
  · rw [storedChar, escaped, if_pos rfl, short]
    simp [units, basic]

theorem beyond_ne (c d : Char) (beyond : 0x7f < c.toNat) (ascii : d.toNat ≤ 0x7f) : c ≠ d := by
  rintro rfl
  omega

theorem beyond_hex (c : Char) (beyond : 0x7f < c.toNat) : hexValue c = none := by
  have above (d : Char) (ascii : d.toNat ≤ 0x7f) : ¬c ≤ d := fun low => by
    have : c.toNat ≤ d.toNat := low
    omega
  have digit : c.isDigit = false := by
    cases shape : c.isDigit with
    | false => rfl
    | true =>
        simp only [Char.isDigit, Bool.and_eq_true, decide_eq_true_eq] at shape
        exact absurd shape.2 (above '9' (by decide))
  simp [hexValue, digit, above 'f' (by decide), above 'F' (by decide)]

theorem beyond_escape (c : Char) (beyond : 0x7f < c.toNat) :
    simpleEscape .newtonsoft c = none := by
  have other (d : Char) (ascii : d.toNat ≤ 0x7f) := beyond_ne c d beyond ascii
  simp [simpleEscape, other '"' (by decide), other '\\' (by decide), other '/' (by decide),
    other 'b' (by decide), other 'f' (by decide), other 'n' (by decide), other 'r' (by decide),
    other 't' (by decide), other '\'' (by decide)]

def StrMode.settled : StrMode → Option Text
  | .plain text => some text
  | .high text _ => some (text ++ [replacement])
  | _ => none

theorem settled_after (front : Text) (mode : StrMode) :
    (mode.after front).settled = mode.settled.map (front ++ ·) := by
  cases mode <;> simp [StrMode.after, StrMode.settled]

/-- A letter beyond ASCII is read as itself or stops the reader. -/
theorem run_beyond (mode final : StrMode) (c : Char) (beyond : 0x7f < c.toNat)
    (ran : runStr .newtonsoft mode [c] = some final) :
    ∃ text, mode.settled = some text ∧ final = .plain (text ++ [c]) := by
  have notQuote := beyond_ne c '"' beyond (by decide)
  have notSlash := beyond_ne c '\\' beyond (by decide)
  have notU := beyond_ne c 'u' beyond (by decide)
  cases mode with
  | plain text =>
      simp only [runStr, strStep, plainStep, if_neg notQuote, if_neg notSlash, rawAllowed, if_true,
        Option.some.injEq] at ran
      exact ⟨text, rfl, ran.symm⟩
  | escape text =>
      simp [runStr, strStep, escapeStep, if_neg notU, beyond_escape c beyond] at ran
  | hex text first digits value =>
      simp [runStr, strStep, beyond_hex c beyond] at ran
  | high text unit =>
      simp only [runStr, strStep, plainStep, if_neg notQuote, if_neg notSlash, rawAllowed, if_true,
        Option.some.injEq] at ran
      exact ⟨text ++ [replacement], rfl, ran.symm⟩
  | highEscape text unit =>
      simp [runStr, strStep, escapeStep, if_neg notU, beyond_escape c beyond] at ran

theorem run_settled (mode : StrMode) (text : Text) (body : Text)
    (settled : mode.settled = some text) (some_char : body ≠ [])
    (quoteless : '"' ∉ body) (slashless : '\\' ∉ body) :
    runStr .newtonsoft mode body = some (.plain (text ++ body)) := by
  cases mode with
  | plain own =>
      cases settled
      exact run_str_plain text body quoteless slashless
  | high own unit =>
      cases settled
      cases body with
      | nil => exact absurd rfl some_char
      | cons c rest =>
          have notSlash : c ≠ '\\' := fun same => slashless (by simp [same])
          rw [← run_str_plain _ _ quoteless slashless]
          simp only [runStr, strStep, if_neg notSlash]
  | escape own => cases settled
  | hex own first digits value => cases settled
  | highEscape own unit => cases settled

theorem digits_plain (unit : Nat) :
    '"' ∉ 'u' :: hexDigits unit ∧ '\\' ∉ 'u' :: hexDigits unit := by
  have alphanum : ∀ d ∈ 'u' :: hexDigits unit, d.isAlphanum = true := by
    intro d member
    rcases List.mem_cons.mp member with rfl | digit
    · rfl
    · exact hex_digits_alphanum unit d digit
  exact ⟨fun member => absurd (alphanum _ member) (by decide),
    fun member => absurd (alphanum _ member) (by decide)⟩

/-- The same string in both spellings, read from modes that differ in their text: the
modes after it differ in theirs, by four more characters for each with two spellings. -/
theorem run_two (text : Text) (mode : StrMode) (left right : Text) (leftFinal rightFinal : StrMode)
    (ranLeft : runStr .newtonsoft (mode.after left) (stored encoder text) = some leftFinal)
    (ranRight : runStr .newtonsoft (mode.after right) (stored .default text) = some rightFinal) :
    ∃ (final : StrMode) (moreLeft moreRight : Text), leftFinal = final.after moreLeft ∧
      rightFinal = final.after moreRight ∧
      moreRight.length + left.length =
        moreLeft.length + right.length + 4 * text.countP (twoSpellings encoder) := by
  induction text generalizing mode left right with
  | nil =>
      cases ranLeft
      cases ranRight
      exact ⟨mode, left, right, rfl, rfl, by simp [Nat.add_comm]⟩
  | cons c rest ih =>
      simp only [stored, List.flatMap_cons, run_str_append] at ranLeft ranRight ih
      cases headLeft : runStr .newtonsoft (mode.after left) (storedChar encoder c) with
      | none => simp [headLeft] at ranLeft
      | some nextLeft =>
          cases headRight : runStr .newtonsoft (mode.after right) (storedChar .default c) with
          | none => simp [headRight] at ranRight
          | some nextRight =>
              simp only [headLeft] at ranLeft
              simp only [headRight] at ranRight
              cases two : twoSpellings encoder c with
              | false =>
                  rw [stored_char_same encoder c two, run_str_after] at headLeft
                  rw [run_str_after] at headRight
                  obtain ⟨next, ran, rfl⟩ := Option.map_eq_some_iff.mp headLeft
                  rw [ran] at headRight
                  cases headRight
                  obtain ⟨final, moreLeft, moreRight, sameLeft, sameRight, lengths⟩ :=
                    ih next left right ranLeft ranRight
                  refine ⟨final, moreLeft, moreRight, sameLeft, sameRight, ?_⟩
                  simpa [List.countP_cons, two] using lengths
              | true =>
                  obtain ⟨beyond, -, -⟩ := two_spellings_code encoder c two
                  obtain ⟨keptSpelling, escapedSpelling⟩ := two_spellings_stored encoder c two
                  rw [keptSpelling] at headLeft
                  rw [escapedSpelling] at headRight
                  obtain ⟨textLeft, settledLeft, rfl⟩ := run_beyond _ _ c beyond headLeft
                  rw [settled_after] at settledLeft
                  obtain ⟨own, settled, rfl⟩ := Option.map_eq_some_iff.mp settledLeft
                  obtain ⟨quoteless, slashless⟩ := digits_plain c.toNat
                  rw [run_settled (mode.after right) (right ++ own) ('u' :: hexDigits c.toNat)
                    (by rw [settled_after, settled]; rfl)
                    (by simp) quoteless slashless] at headRight
                  cases headRight
                  obtain ⟨final, moreLeft, moreRight, sameLeft, sameRight, lengths⟩ :=
                    ih (.plain []) (left ++ own ++ [c]) (right ++ own ++ 'u' :: hexDigits c.toNat)
                      (by simpa [StrMode.after] using ranLeft)
                      (by simpa [StrMode.after] using ranRight)
                  refine ⟨final, moreLeft, moreRight, sameLeft, sameRight, ?_⟩
                  have four : (hexDigits c.toNat).length = 4 := rfl
                  simp only [List.length_append, List.length_cons, List.length_nil, four] at lengths
                  rw [List.countP_cons_of_pos two]
                  omega

/-- Read back the same way from both spellings, a string has no character with two. -/
theorem two_spellings_differ (text read : Text)
    (left : readBody .newtonsoft (stored encoder text) = some read)
    (right : readBody .newtonsoft (stored .default text) = some read) (c : Char)
    (member : c ∈ text) : twoSpellings encoder c = false := by
  unfold readBody at left right
  cases ranLeft : runStr .newtonsoft (.plain []) (stored encoder text) with
  | none => simp [ranLeft] at left
  | some leftFinal =>
      cases ranRight : runStr .newtonsoft (.plain []) (stored .default text) with
      | none => simp [ranRight] at right
      | some rightFinal =>
          obtain ⟨final, moreLeft, moreRight, rfl, rfl, lengths⟩ :=
            run_two encoder text (.plain []) [] [] leftFinal rightFinal ranLeft ranRight
          simp only [ranLeft, str_step_after] at left
          simp only [ranRight, str_step_after] at right
          cases closed : strStep .newtonsoft final '"' with
          | more next => simp [closed, StrStep.after] at left
          | bad => simp [closed, StrStep.after] at left
          | close last =>
              simp only [closed, StrStep.after, Option.some.injEq] at left right
              have sizes := congrArg List.length (left.trans right.symm)
              simp only [List.length_append, List.length_nil] at sizes lengths
              have none_two : text.countP (twoSpellings encoder) = 0 := by omega
              simpa using List.countP_eq_zero.mp none_two c member

end

/-- Where the reader stands in a string: in its text, after a backslash, or in the digits
after `\u`, with so many to come after the next. -/
inductive Place where
  | text | escape
  | digits (left : Nat)
  deriving DecidableEq, Repr

section
variable (encoder : JavaScriptEncoder)

/-- The characters that make an escape with a backslash before them: a form feed is stored
as `f`, and what the encoder writes with digits as `u` and those. -/
def completesEscape (c : Char) : Bool :=
  c == '\\' || c == '/' || c == 'b' || c == 'f' || c == 'n' || c == 'r' || c == 't' ||
    c == '\x0c' || (encoder.escapes c && (shortEscape c).isNone)

/-- The place after a character of the string; `none` when the reader stops there. -/
def Place.next : Place → Char → Option Place
  | .text, c => some (if c = '\\' then .escape else .text)
  | .escape, c =>
      if c = 'u' then some (.digits 3)
      else if completesEscape encoder c then some .text else none
  | .digits left, c =>
      if (hexValue c).isSome || c == '\x0c' then
        some (if left = 0 then .text else .digits (left - 1))
      else none

def legibleFrom : Place → Text → Bool
  | place, [] => place == .text
  | place, c :: rest =>
      match place.next encoder c with
      | some next => legibleFrom next rest
      | none => false

/-- Every backslash of the string begins an escape. -/
def legible (text : Text) : Bool := legibleFrom encoder .text text

def StrMode.place : StrMode → Place
  | .plain _ => .text
  | .high _ _ => .text
  | .escape _ => .escape
  | .highEscape _ _ => .escape
  | .hex _ _ digits _ => .digits (3 - digits)

theorem finish_unit_place (text : Text) (first : Option Nat) (unit : Nat) :
    (finishUnit text first unit).place = .text := by
  cases first with
  | none =>
      simp only [finishUnit]
      split_ifs <;> rfl
  | some high =>
      simp only [finishUnit]
      split_ifs <;> rfl

/-- What the reader does with one stored character is told by the place. -/
def StepsTo (mode : StrMode) (body : Text) : Option Place → Prop
  | some next => ∃ after, runStr .newtonsoft mode body = some after ∧ after.place = next
  | none => runStr .newtonsoft mode body = none

def StrStep.place : StrStep → Option Place
  | .more next => some next.place
  | _ => none

theorem steps_to_single (mode : StrMode) (c : Char) :
    StepsTo mode [c] (strStep .newtonsoft mode c).place := by
  cases stepped : strStep .newtonsoft mode c with
  | more next => exact ⟨next, by simp [runStr, stepped], rfl⟩
  | close text => simp [StepsTo, StrStep.place, runStr, stepped]
  | bad => simp [StepsTo, StrStep.place, runStr, stepped]

def Place.raw : Place → Char → Option Place
  | .text, c => some (if c = '\\' then .escape else .text)
  | .escape, c =>
      if c = 'u' then some (.digits 3)
      else if (simpleEscape .newtonsoft c).isSome then some .text else none
  | .digits left, c =>
      if (hexValue c).isSome then some (if left = 0 then .text else .digits (left - 1)) else none

theorem raw_place (mode : StrMode) (c : Char) (quote : c ≠ '"') :
    (strStep .newtonsoft mode c).place = mode.place.raw c := by
  cases mode with
  | plain text =>
      simp only [strStep, plainStep, if_neg quote, rawAllowed, if_true, StrMode.place, Place.raw]
      split_ifs <;> rfl
  | high text unit =>
      simp only [strStep, plainStep, if_neg quote, rawAllowed, if_true, StrMode.place, Place.raw]
      split_ifs <;> rfl
  | escape text =>
      simp only [strStep, escapeStep, StrMode.place, Place.raw]
      cases simpleEscape .newtonsoft c <;>
        simp only [Option.isSome_none, Option.isSome_some, if_true, Bool.false_eq_true,
          if_false] <;>
        split_ifs <;> rfl
  | highEscape text unit =>
      simp only [strStep, escapeStep, StrMode.place, Place.raw]
      cases simpleEscape .newtonsoft c <;>
        simp only [Option.isSome_none, Option.isSome_some, if_true, Bool.false_eq_true,
          if_false] <;>
        split_ifs <;> rfl
  | hex text first digits value =>
      simp only [strStep, StrMode.place, Place.raw]
      cases hexValue c with
      | none => rfl
      | some d =>
          simp only [Option.isSome_some, if_true]
          split_ifs with more last last
          · omega
          · have next : 3 - (digits + 1) = 3 - digits - 1 := by omega
            simp [StrStep.place, StrMode.place, next]
          · simp [StrStep.place, finish_unit_place]
          · omega

theorem place_settled (mode : StrMode) (text : mode.place = .text) :
    ∃ settled, mode.settled = some settled := by
  cases mode with
  | plain own => exact ⟨_, rfl⟩
  | high own unit => exact ⟨_, rfl⟩
  | escape own => cases text
  | highEscape own unit => cases text
  | hex own first digits value => cases text

theorem units_text (mode : StrMode) (text : mode.place = .text) (units : List Nat) :
    StepsTo mode (units.flatMap fun unit => 'u' :: hexDigits unit) (some .text) := by
  induction units generalizing mode with
  | nil => exact ⟨mode, rfl, text⟩
  | cons unit units ih =>
      obtain ⟨settled, shape⟩ := place_settled mode text
      obtain ⟨quoteless, slashless⟩ := digits_plain unit
      obtain ⟨after, ran, place⟩ := ih (.plain (settled ++ 'u' :: hexDigits unit)) rfl
      refine ⟨after, ?_, place⟩
      rw [List.flatMap_cons, run_str_append,
        run_settled mode settled ('u' :: hexDigits unit) shape (by simp) quoteless slashless]
      exact ran

theorem units_cons (c : Char) : ∃ unit more, units c = unit :: more := by
  unfold units
  split_ifs <;> exact ⟨_, _, rfl⟩

theorem units_escape (mode : StrMode) (escape : mode.place = .escape) (c : Char) :
    StepsTo mode ((units c).flatMap fun unit => 'u' :: hexDigits unit) (some .text) := by
  have opened : ∃ text first, strStep .newtonsoft mode 'u' = .more (.hex text first 0 0) := by
    cases mode with
    | escape own => exact ⟨own, none, rfl⟩
    | highEscape own unit => exact ⟨own, some unit, rfl⟩
    | plain own => cases escape
    | high own unit => cases escape
    | hex own first digits value => cases escape
  obtain ⟨text, first, stepped⟩ := opened
  obtain ⟨unit, more, shape⟩ := units_cons c
  have small := units_small c unit (by simp [shape])
  obtain ⟨after, ran, place⟩ :=
    units_text (finishUnit text first unit) (finish_unit_place text first unit) more
  refine ⟨after, ?_, place⟩
  rw [shape, List.flatMap_cons, run_str_append, runStr, stepped]
  simp only [run_str_unit .newtonsoft text first unit small.1, ran]

theorem units_digits (mode : StrMode) (left : Nat) (digits : mode.place = .digits left) (c : Char) :
    runStr .newtonsoft mode ((units c).flatMap fun unit => 'u' :: hexDigits unit) = none := by
  obtain ⟨unit, more, shape⟩ := units_cons c
  have notHex : hexValue 'u' = none := rfl
  rw [shape]
  cases mode with
  | hex own first read value => simp [runStr, strStep, notHex]
  | plain own => cases digits
  | high own unit => cases digits
  | escape own => cases digits
  | highEscape own unit => cases digits

theorem hex_value_alphanum (c : Char) (n : Nat) (digit : hexValue c = some n) :
    c.isAlphanum = true := by
  have code : 48 ≤ c.toNat ∧ c.toNat ≤ 57 ∨ 97 ≤ c.toNat ∧ c.toNat ≤ 102 ∨
      65 ≤ c.toNat ∧ c.toNat ≤ 70 := by
    unfold hexValue at digit
    split_ifs at digit with decimal lower upper
    · simp only [Char.isDigit, Bool.and_eq_true, decide_eq_true_eq] at decimal
      exact Or.inl decimal
    · exact Or.inr (Or.inl lower)
    · exact Or.inr (Or.inr upper)
  rw [← Char.ofNat_toNat c]
  generalize c.toNat = code at *
  rcases code with ⟨low, high⟩ | ⟨low, high⟩ | ⟨low, high⟩ <;> interval_cases code <;> rfl

theorem escaped_not_alphanum (c : Char) (escaped : encoder.escapes c = true) :
    c ≠ 'u' ∧ hexValue c = none := by
  have other : c.isAlphanum = false := by
    cases alphanum : c.isAlphanum with
    | false => rfl
    | true => rw [alphanum_not_escaped encoder c alphanum] at escaped; cases escaped
  constructor
  · rintro rfl
    cases other
  · cases digit : hexValue c with
    | none => rfl
    | some n => rw [hex_value_alphanum c n digit] at other; cases other

theorem raw_of_kept (place : Place) (c : Char) (kept : encoder.escapes c = false) :
    place.raw c = place.next encoder c := by
  have ordinary : alwaysEscaped c = false := (Bool.or_eq_false_iff.mp kept).1
  simp only [alwaysEscaped, Bool.or_eq_false_iff, beq_eq_false_iff_ne,
    decide_eq_false_iff_not] at ordinary
  have feed : c ≠ '\x0c' := by
    rintro rfl
    exact absurd ordinary.1.1.2 (by decide)
  cases place with
  | text => rfl
  | escape =>
      have same : (simpleEscape .newtonsoft c).isSome = completesEscape encoder c := by
        simp only [completesEscape, kept, simpleEscape]
        split_ifs <;> simp_all
      simp only [Place.raw, Place.next, same]
  | digits left => simp [Place.raw, Place.next, feed]

/-- The reader takes the characters of a stored string place by place. -/
theorem stored_char_place (mode : StrMode) (c : Char) :
    StepsTo mode (storedChar encoder c) (mode.place.next encoder c) := by
  have single (d : Char) (quote : d ≠ '"') (same : mode.place.raw d = mode.place.next encoder c) :
      StepsTo mode [d] (mode.place.next encoder c) := by
    rw [← same, ← raw_place mode d quote]
    exact steps_to_single mode d
  unfold storedChar
  split
  · rename_i escaped
    cases short : shortEscape c with
    | some d =>
        simp only
        unfold shortEscape at short
        split_ifs at short <;>
          (cases short
           subst_vars
           refine single _ (by decide) ?_
           cases mode.place <;> simp [Place.raw, Place.next, completesEscape, shortEscape] <;>
             first | rfl | decide)
    | none =>
        obtain ⟨notU, notHex⟩ := escaped_not_alphanum encoder c escaped
        cases place : mode.place with
        | text =>
            have slash : c ≠ '\\' := by
              rintro rfl
              cases short
            simp only [Place.next, if_neg slash]
            exact units_text mode place (units c)
        | escape =>
            have complete : completesEscape encoder c = true := by
              simp [completesEscape, escaped, short]
            simp only [Place.next, if_neg notU, complete, if_true]
            exact units_escape mode place c
        | digits left =>
            have feed : (c == '\x0c') = false := by
              rw [beq_eq_false_iff_ne]
              rintro rfl
              cases short
            simp only [Place.next, notHex, feed]
            exact units_digits mode left place c
  · rename_i kept
    have kept : encoder.escapes c = false := Bool.not_eq_true _ ▸ kept
    refine single c ?_ (raw_of_kept encoder mode.place c kept)
    rintro rfl
    simp [JavaScriptEncoder.escapes, alwaysEscaped] at kept

theorem legible_from_read (text : Text) (mode : StrMode) :
    legibleFrom encoder mode.place text = true ↔
      ∃ final, runStr .newtonsoft mode (stored encoder text) = some final ∧
        final.place = .text := by
  induction text generalizing mode with
  | nil => simp [legibleFrom, stored, runStr]
  | cons c rest ih =>
      have step := stored_char_place encoder mode c
      simp only [legibleFrom, stored, List.flatMap_cons, run_str_append] at ih ⊢
      cases next : mode.place.next encoder c with
      | none =>
          rw [next] at step
          have stops : runStr .newtonsoft mode (storedChar encoder c) = none := step
          simp [stops]
      | some place =>
          rw [next] at step
          obtain ⟨after, ran, rfl⟩ := step
          simp only [ran]
          exact ih after

/-- A stored string can be read exactly when every backslash of it begins an escape. -/
theorem stored_readable_iff (text : Text) :
    (readBody .newtonsoft (stored encoder text)).isSome = true ↔ legible encoder text = true := by
  have places := legible_from_read encoder text (.plain [])
  rw [legible, show Place.text = (StrMode.plain []).place from rfl, places, readBody]
  cases runStr .newtonsoft (.plain []) (stored encoder text) with
  | none => simp
  | some mode =>
      have quote : hexValue '"' = none := rfl
      cases mode <;>
        simp [strStep, plainStep, escapeStep, StrMode.place, simpleEscape, quote]

end

end TfuServer.Json
