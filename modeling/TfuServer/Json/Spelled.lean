import TfuServer.Json.Masked

/-!
# Strings as they are spelled

The reader that leaves the string values of a document as they are written. Beside
it the text is read, and the text with its apostrophes masked: each string comes
out as its spelling is decoded, or as the masked spelling is. An apostrophe escapes
the masking exactly when an escape stands for it.
-/

namespace TfuServer.Json

set_option autoImplicit false

/-- Only the end of the string is looked for. -/
def spelledStr : StrMode → Char → StrStep
  | .plain text, c =>
      if c = '"' then .close text
      else if c = '\\' then .more (.escape (text ++ [c])) else .more (.plain (text ++ [c]))
  | .escape text, c => .more (.plain (text ++ [c]))
  | _, _ => .bad

/-- The names are decoded, the strings among the values are not. -/
def spelledStep : State → Char → State
  | ⟨.str false mode, stack⟩, c => strResult false stack (spelledStr mode c)
  | state, c => step .newtonsoft state c

def runSpelled : State → Text → State := List.foldl spelledStep

/-- The document of a text with each string value as it is spelled there. -/
def readSpelled (text : Text) : Reading := finish .newtonsoft (runSpelled ⟨.value, []⟩ text)

/-- No apostrophe of the string is written as an escape. -/
def apostrophesRaw : Text → Bool
  | c :: d :: rest =>
      if c = '\\' then d != '\'' && !"u0027".toList.isPrefixOf (d :: rest) && apostrophesRaw rest
      else apostrophesRaw (d :: rest)
  | _ => true

def inEscape : StrMode → Bool
  | .escape _ | .highEscape _ _ => true
  | _ => false

theorem finish_unit_open (text : Text) (first : Option Nat) (unit : Nat) :
    inEscape (finishUnit text first unit) = false := by
  cases first <;> unfold finishUnit <;> simp only <;> split_ifs <;> rfl

theorem plain_step_open_next (text : Text) (c : Char) :
    (c = '"' ∧ plainStep .newtonsoft text c = .close text) ∨
      c ≠ '"' ∧ ∃ next, plainStep .newtonsoft text c = .more next ∧
        inEscape next = decide (c = '\\') := by
  unfold plainStep
  split_ifs with quote slash raw
  · exact Or.inl ⟨quote, rfl⟩
  · exact Or.inr ⟨quote, _, rfl, by simp [inEscape, slash]⟩
  · exact Or.inr ⟨quote, _, rfl, by simp [inEscape, slash]⟩
  · exact absurd rfl raw

theorem escape_step_next (text : Text) (c : Char) :
    escapeStep .newtonsoft text c = .bad ∨
      ∃ next, escapeStep .newtonsoft text c = .more next ∧ inEscape next = false := by
  unfold escapeStep
  split_ifs
  · exact Or.inr ⟨_, rfl, rfl⟩
  · cases simpleEscape .newtonsoft c with
    | none => exact Or.inl rfl
    | some d => exact Or.inr ⟨_, rfl, rfl⟩

theorem open_step (mode : StrMode) (c : Char) (outside : inEscape mode = false) :
    strStep .newtonsoft mode c = .bad ∨
      (c = '"' ∧ ∃ text, strStep .newtonsoft mode c = .close text) ∨
      c ≠ '"' ∧ ∃ next, strStep .newtonsoft mode c = .more next ∧
        inEscape next = decide (c = '\\') := by
  cases mode with
  | plain text =>
      exact Or.inr ((plain_step_open_next text c).imp (fun closed => ⟨closed.1, _, closed.2⟩) id)
  | hex text high digits value =>
      simp only [strStep]
      cases digit : hexValue c with
      | none => exact Or.inl rfl
      | some n =>
          have quote : c ≠ '"' := by rintro rfl; cases digit
          have slash : c ≠ '\\' := by rintro rfl; cases digit
          refine Or.inr (Or.inr ⟨quote, ?_⟩)
          simp only
          split_ifs
          · exact ⟨_, rfl, by simp [inEscape, slash]⟩
          · exact ⟨_, rfl, by simp [finish_unit_open, slash]⟩
  | high text unit =>
      simp only [strStep]
      split_ifs with slash
      · exact Or.inr (Or.inr ⟨by simp [slash], _, rfl, by simp [inEscape, slash]⟩)
      · exact Or.inr ((plain_step_open_next _ c).imp (fun closed => ⟨closed.1, _, closed.2⟩) id)
  | escape | highEscape => cases outside

theorem escaped_step (mode : StrMode) (c : Char) (inside : inEscape mode = true) :
    strStep .newtonsoft mode c = .bad ∨
      ∃ next, strStep .newtonsoft mode c = .more next ∧ inEscape next = false := by
  cases mode with
  | escape text => exact escape_step_next text c
  | highEscape text unit =>
      simp only [strStep]
      split_ifs
      · exact Or.inr ⟨_, rfl, rfl⟩
      · exact escape_step_next _ c
  | plain | hex | high => cases inside

/-- The reader has decoded what the other one holds, written in this way. -/
inductive SpelledStr (written : Text → Text) : StrMode → StrMode → Prop where
  | plain {mode : StrMode} {raw : Text}
      (ran : runStr .newtonsoft (.plain []) (written raw) = some mode)
      (outside : inEscape mode = false) : SpelledStr written mode (.plain raw)
  | escape {mode : StrMode} {raw : Text}
      (ran : runStr .newtonsoft (.plain []) (written raw) = some mode)
      (inside : inEscape mode = true) : SpelledStr written mode (.escape raw)

def spellingModes (written : Text → Text) (keys : StrMode → StrMode → Prop) :
    Bool → StrMode → StrMode → Prop
  | true, mode, other => keys mode other
  | false, mode, other => SpelledStr written mode other

def spelling : Likeness where
  names name other := name = other
  strings text body := readBody .newtonsoft body = some text
  modes := spellingModes id fun mode other => mode = other
  opened isKey := by cases isKey <;> [exact .plain rfl rfl; rfl]

/-- A document that was masked before it was read, and its spelling before. -/
def maskedSpelling : Likeness where
  names masked name := Masked name masked
  strings masked body := readBody .newtonsoft (maskText body) = some masked
  modes := spellingModes maskText fun masked mode => MaskedStr mode masked
  opened isKey := by cases isKey <;> [exact .plain rfl rfl; exact .plain .nil]

theorem run_str_snoc (mode next : StrMode) (body : Text) (c : Char)
    (ran : runStr .newtonsoft (.plain []) body = some mode)
    (stepped : strStep .newtonsoft mode c = .more next) :
    runStr .newtonsoft (.plain []) (body ++ [c]) = some next := by
  rw [run_str_append, ran]
  simp [runStr, stepped]

theorem read_body_closed (mode : StrMode) (body text : Text)
    (ran : runStr .newtonsoft (.plain []) body = some mode)
    (closed : strStep .newtonsoft mode '"' = .close text) :
    readBody .newtonsoft body = some text := by
  simp [readBody, ran, closed]

theorem spelled_str_follows {like : Likeness} (written : Text → Text)
    (modes : like.modes false = SpelledStr written)
    (strings : ∀ text body, readBody .newtonsoft (written body) = some text →
      like.strings text body)
    {mode other : StrMode} (same : SpelledStr written mode other) (c : Char)
    (itself : ∀ raw, written (raw ++ [c]) = written raw ++ [c]) :
    FollowsStr like false (strStep .newtonsoft mode c) (spelledStr other c) := by
  cases same with
  | @plain raw ran outside =>
      rcases open_step mode c outside with
        bad | ⟨rfl, text, closed⟩ | ⟨quote, next, stepped, slash⟩
      · rw [bad]
        exact .bad _
      · rw [closed]
        exact .close (fun name => by cases name)
          fun _ => strings text raw (read_body_closed mode _ text ran closed)
      · have longer : runStr .newtonsoft (.plain []) (written (raw ++ [c])) = some next := by
          rw [itself]
          exact run_str_snoc mode next _ c ran stepped
        rw [stepped]
        simp only [spelledStr, if_neg quote]
        split_ifs with back
        · refine .more ?_
          rw [modes]
          exact .escape longer (by simp [slash, back])
        · refine .more ?_
          rw [modes]
          exact .plain longer (by simp [slash, back])
  | @escape raw ran inside =>
      rcases escaped_step mode c inside with bad | ⟨next, stepped, outside⟩
      · rw [bad]
        exact .bad _
      · rw [stepped]
        refine .more ?_
        rw [modes]
        refine .plain ?_ outside
        rw [itself]
        exact run_str_snoc mode next _ c ran stepped

theorem spelled_step_outside (state : State) (outside : ∀ isKey mode,
    state.mode ≠ .str isKey mode) (c : Char) : spelledStep state c = step .newtonsoft state c := by
  obtain ⟨mode, stack⟩ := state
  cases mode with
  | str isKey mode => exact absurd rfl (outside isKey mode)
  | _ => rfl

theorem related_outside {like : Likeness} {mode other : Mode}
    (related : RelatedMode like mode other)
    (outside : ∀ isKey str, mode ≠ .str isKey str) (isKey : Bool) (str : StrMode) :
    other ≠ .str isKey str := by
  cases related with
  | str isKey same => exact absurd rfl (outside isKey _)
  | _ => simp

theorem spelled_step_follows {state other : State} (related : RelatedState spelling state other)
    (c : Char) : Shadows spelling (step .newtonsoft state c) (spelledStep other c) := by
  by_cases outside : ∀ isKey mode, state.mode ≠ .str isKey mode
  · rw [spelled_step_outside other (related_outside related.mode outside)]
    exact step_outside_follows .newtonsoft related outside c
  · obtain ⟨mode, stack⟩ := state
    obtain ⟨otherMode, others⟩ := other
    obtain ⟨modes, frames⟩ := related
    simp only at modes frames
    cases modes with
    | @str isKey mode other same =>
        rw [step_str]
        cases isKey with
        | true =>
            obtain rfl : mode = other := same
            rw [show spelledStep ⟨.str true mode, others⟩ c = _ from step_str .newtonsoft _ _ _ c]
            refine result_follows frames true ?_
            cases strStep .newtonsoft mode c with
            | more next => exact .more rfl
            | close text => exact .close (fun _ => rfl) (fun value => by cases value)
            | bad => exact .bad _
        | false =>
            exact result_follows frames false
              (spelled_str_follows id rfl (fun _ _ read => read) same c fun _ => rfl)
    | value | firstItem | firstKey | key | colon | after | bare | finished => simp at outside

theorem spelled_lost (state : State) (lost : Lost state) (c : Char) :
    Lost (spelledStep state c) := by
  rw [spelled_step_outside state (by rcases lost with lost | lost <;> simp [lost]) c]
  exact lost_step .newtonsoft state lost c

theorem run_spelled_follows (text : Text) {state other : State}
    (related : Shadows spelling state other) :
    Shadows spelling (run .newtonsoft state text) (runSpelled other text) := by
  induction text generalizing state other with
  | nil => exact related
  | cons c text ih =>
      rcases related with lost | related
      · exact Or.inl (lost_run .newtonsoft state lost (c :: text))
      · exact ih (spelled_step_follows related c)

/-- A text that holds a document holds its spelling. -/
theorem read_spelled (text : Text) (value : Json) (held : read .newtonsoft text = .value value) :
    ∃ spelled, readSpelled text = .value spelled ∧ RelatedJson spelling value spelled := by
  have begins : RelatedState spelling ⟨.value, []⟩ ⟨.value, []⟩ := ⟨.value, .nil⟩
  rcases run_spelled_follows text (Or.inr begins) with lost | related
  · exact absurd held (finish_lost .newtonsoft _ lost value)
  · exact finish_follows .newtonsoft related value held

/-- Both readers find a document, or they are in corresponding states. -/
def Meets (state other : State) : Prop :=
  Lost state ∨ Lost other ∨ RelatedState maskedSpelling state other

theorem Shadows.meets {state other : State} (related : Shadows maskedSpelling state other) :
    Meets state other := related.imp id Or.inr

theorem mask_text_snoc (c : Char) (other : c ≠ '\'') (raw : Text) :
    maskText (raw ++ [c]) = maskText raw ++ [c] := by
  rw [mask_text_append, mask_text_other c other]

theorem spelled_meets {state other : State} (related : RelatedState maskedSpelling state other)
    (c : Char) (ordinary : c ≠ '\'') : Meets (step .newtonsoft state c) (spelledStep other c) := by
  by_cases outside : ∀ isKey mode, state.mode ≠ .str isKey mode
  · rw [spelled_step_outside other (related_outside related.mode outside)]
    exact (step_outside_follows .newtonsoft related outside c).meets
  · obtain ⟨mode, stack⟩ := state
    obtain ⟨otherMode, others⟩ := other
    obtain ⟨modes, frames⟩ := related
    simp only at modes frames
    cases modes with
    | @str isKey mode other same =>
        rw [step_str]
        cases isKey with
        | true =>
            rw [show spelledStep ⟨.str true other, others⟩ c = _ from step_str .newtonsoft _ _ _ c]
            have steps := str_step_follows .newtonsoft true (show MaskedStr other mode from same) c
            generalize strStep .newtonsoft other c = first at steps ⊢
            generalize strStep .newtonsoft mode c = second at steps ⊢
            cases steps with
            | more same => exact Or.inr (Or.inr ⟨.str true same, frames⟩)
            | close name string => exact Or.inr (Or.inr ⟨.colon (name rfl), frames⟩)
            | bad => exact Or.inr (Or.inl (Or.inl rfl))
        | false =>
            exact (result_follows frames false (spelled_str_follows maskText rfl
              (fun _ _ read => read) same c (mask_text_snoc c ordinary))).meets
    | value | firstItem | firstKey | key | colon | after | bare | finished => simp at outside

theorem quote_spelled {mode other : StrMode} (same : SpelledStr maskText mode other) :
    runStr .newtonsoft mode "u0027".toList = none ∨
      ∃ next raw, runStr .newtonsoft mode "u0027".toList = some next ∧
        spelledStr other '\'' = .more raw ∧ SpelledStr maskText next raw := by
  have longer (raw : Text) (next : StrMode)
      (ran : runStr .newtonsoft (.plain []) (maskText raw) = some mode)
      (marked : runStr .newtonsoft mode "u0027".toList = some next) :
      runStr .newtonsoft (.plain []) (maskText (raw ++ ['\''])) = some next := by
    have split : maskText (raw ++ ['\'']) = maskText raw ++ "u0027".toList :=
      mask_text_append raw ['\'']
    rw [split, run_str_append, ran]
    exact marked
  cases same with
  | @plain raw ran outside =>
      cases mode with
      | plain text =>
          have marked := run_mark_plain .newtonsoft text
          exact Or.inr ⟨_, _, marked, rfl, .plain (longer raw _ ran marked) rfl⟩
      | hex text high digits value => exact Or.inl rfl
      | high text unit =>
          have marked := run_mark_plain .newtonsoft (text ++ [replacement])
          exact Or.inr ⟨_, _, marked, rfl, .plain (longer raw _ ran marked) rfl⟩
      | escape | highEscape => cases outside
  | @escape raw ran inside =>
      cases mode with
      | escape text => exact Or.inr ⟨_, _, rfl, rfl, .plain (longer raw _ ran rfl) rfl⟩
      | highEscape text unit => exact Or.inr ⟨_, _, rfl, rfl, .plain (longer raw _ ran rfl) rfl⟩
      | plain | hex | high => cases inside

theorem mark_meets {state other : State} (related : RelatedState maskedSpelling state other) :
    Meets (run .newtonsoft state "u0027".toList) (spelledStep other '\'') := by
  obtain ⟨mode, stack⟩ := state
  obtain ⟨otherMode, others⟩ := other
  obtain ⟨modes, frames⟩ := related
  simp only at modes frames
  cases modes with
  | @str isKey mode other same =>
      cases isKey with
      | true =>
          rw [show spelledStep ⟨.str true other, others⟩ '\'' = _ from step_str .newtonsoft _ _ _ _]
          rcases quote_in_string .newtonsoft (show MaskedStr other mode from same) with
            bad | ⟨next, marked, stepped, ran, same⟩
          · rw [bad]
            exact Or.inr (Or.inl (Or.inl rfl))
          · rw [stepped, run_of_run_str .newtonsoft true stack _ _ marked ran]
            exact Or.inr (Or.inr ⟨.str true same, frames⟩)
      | false =>
          rw [run_str_body .newtonsoft false mode stack _ (by decide)]
          rcases quote_spelled same with lost | ⟨next, raw, ran, stepped, same⟩
          · rw [lost]
            exact Or.inl (Or.inl rfl)
          · simp only [ran, spelledStep, stepped]
            exact Or.inr (Or.inr ⟨.str false same, frames⟩)
  | value | firstItem | firstKey | key | colon | after | bare | finished =>
      rw [spelled_step_outside _ (by simp)]
      exact Or.inr (Or.inl (quote_lost .newtonsoft _ (by simp)))

theorem lost_run_spelled (state : State) (lost : Lost state) (text : Text) :
    Lost (runSpelled state text) := by
  induction text generalizing state with
  | nil => exact lost
  | cons c text ih => exact ih _ (spelled_lost state lost c)

theorem run_meets (text : Text) {state other : State} (related : Meets state other) :
    Meets (run .newtonsoft state (maskText text)) (runSpelled other text) := by
  induction text generalizing state other with
  | nil => exact related
  | cons c text ih =>
      rcases related with lost | lost | related
      · exact Or.inl (lost_run .newtonsoft state lost _)
      · exact Or.inr (Or.inl (lost_run_spelled other lost (c :: text)))
      · have split : maskText (c :: text) = maskText [c] ++ maskText text :=
          mask_text_append [c] text
        rw [split, run_append]
        refine ih ?_
        by_cases quote : c = '\''
        · subst quote
          exact mark_meets related
        · rw [mask_text_other c quote]
          exact spelled_meets related c quote

/-- The masked text holds what the masked spellings of its strings are decoded to. -/
theorem read_masked_spelled (text : Text) (value masked : Json)
    (held : read .newtonsoft text = .value value)
    (heldMasked : read .newtonsoft (maskText text) = .value masked) :
    ∃ spelled, readSpelled text = .value spelled ∧ RelatedJson spelling value spelled ∧
      RelatedJson maskedSpelling masked spelled := by
  obtain ⟨spelled, heldSpelled, related⟩ := read_spelled text value held
  refine ⟨spelled, heldSpelled, related, ?_⟩
  have begins : RelatedState maskedSpelling ⟨.value, []⟩ ⟨.value, []⟩ := ⟨.value, .nil⟩
  rcases run_meets text (Or.inr (Or.inr begins)) with lost | lost | both
  · exact absurd heldMasked (finish_lost .newtonsoft _ lost masked)
  · exact absurd heldSpelled (finish_lost .newtonsoft _ lost spelled)
  · obtain ⟨other, same, pair⟩ := finish_follows .newtonsoft both masked heldMasked
    obtain rfl := Reading.value.inj (heldSpelled.symm.trans same)
    exact pair

def StrMode.text : StrMode → Text
  | .plain text | .escape text | .hex text _ _ _ | .high text _ | .highEscape text _ => text

theorem of_nat_quote (n : Nat) : Char.ofNat n = '\'' ↔ n = 0x27 := by
  constructor
  · intro quote
    have code : (Char.ofNat n).toNat = 0x27 := by rw [quote]; rfl
    by_cases valid : n.isValidChar
    · rw [Char.ofNat, dif_pos valid] at code
      exact code
    · rw [Char.ofNat, dif_neg valid] at code
      cases code
  · rintro rfl
    rfl

theorem hex_value_bound (c : Char) (n : Nat) (digit : hexValue c = some n) : n < 16 := by
  unfold hexValue at digit
  split_ifs at digit with decimal lower upper
  · simp only [Char.isDigit, Bool.and_eq_true, decide_eq_true_eq] at decimal
    have below : c.toNat ≤ '9'.toNat := decimal.2
    have code : '9'.toNat = 57 ∧ '0'.toNat = 48 := ⟨rfl, rfl⟩
    cases digit
    omega
  · have below : c.toNat ≤ 'f'.toNat := lower.2
    have code : 'f'.toNat = 102 ∧ 'a'.toNat = 97 := ⟨rfl, rfl⟩
    cases digit
    omega
  · have below : c.toNat ≤ 'F'.toNat := upper.2
    have code : 'F'.toNat = 70 ∧ 'A'.toNat = 65 := ⟨rfl, rfl⟩
    cases digit
    omega

theorem hex_value_decimal (c : Char) (n : Nat) (digit : hexValue c = some n) (small : n < 10) :
    c = Char.ofNat (48 + n) := by
  unfold hexValue at digit
  split_ifs at digit with decimal lower upper
  · simp only [Char.isDigit, Bool.and_eq_true, decide_eq_true_eq] at decimal
    have above : '0'.toNat ≤ c.toNat := decimal.1
    have code : '0'.toNat = 48 := rfl
    cases digit
    rw [show 48 + (c.toNat - '0'.toNat) = c.toNat by omega, Char.ofNat_toNat]
  · cases digit
    omega
  · cases digit
    omega

theorem finish_unit_quote (text : Text) (first : Option Nat) (unit : Nat) :
    '\'' ∈ (finishUnit text first unit).text ↔ '\'' ∈ text ∨ unit = 0x27 := by
  have other : '\'' ≠ replacement := by decide
  have own (n : Nat) : '\'' = Char.ofNat n ↔ n = 0x27 := eq_comm.trans (of_nat_quote n)
  cases first with
  | none =>
      simp only [finishUnit]
      split_ifs with high low
      · simp only [isHighUnit, Bool.and_eq_true, decide_eq_true_eq] at high
        simp only [StrMode.text]
        exact (or_iff_left (by omega)).symm
      · simp only [isLowUnit, Bool.and_eq_true, decide_eq_true_eq] at low
        simp only [StrMode.text, List.mem_append, List.mem_singleton, other, or_false]
        exact (or_iff_left (by omega)).symm
      · simp only [StrMode.text, List.mem_append, List.mem_singleton, own]
  | some first =>
      simp only [finishUnit]
      split_ifs with low high
      · simp only [isLowUnit, Bool.and_eq_true, decide_eq_true_eq] at low
        simp only [StrMode.text, List.mem_append, List.mem_singleton, own]
        exact or_congr_right (by omega)
      · simp only [isHighUnit, Bool.and_eq_true, decide_eq_true_eq] at high
        simp only [StrMode.text, List.mem_append, List.mem_singleton, other, or_false]
        exact (or_iff_left (by omega)).symm
      · simp only [StrMode.text, List.mem_append, List.mem_cons, List.not_mem_nil, other, own,
          false_or, or_false]

theorem raw_cons (c : Char) (rest : Text) (slash : c ≠ '\\') :
    apostrophesRaw (c :: rest) = apostrophesRaw rest := by
  cases rest with
  | nil => rfl
  | cons d rest => simp [apostrophesRaw, slash]

theorem mask_text_cons (c : Char) (rest : Text) (other : c ≠ '\'') :
    maskText (c :: rest) = c :: maskText rest := by
  rw [← List.singleton_append, mask_text_append, mask_text_other c other]
  rfl

section
variable {next : StrMode} {closed : Text} (ends : strStep .newtonsoft next '"' = .close closed)
include ends

theorem next_digit {text : Text} {first : Option Nat} {digits value : Nat} {rest : Text}
    (ran : runStr .newtonsoft (.hex text first digits value) (maskText rest) = some next) :
    ∃ d n after, rest = d :: after ∧ hexValue d = some n ∧
      runStr .newtonsoft (if digits < 3 then .hex text first (digits + 1) (16 * value + n)
        else finishUnit text first (16 * value + n)) (maskText after) = some next := by
  cases rest with
  | nil =>
      cases ran
      cases ends
  | cons d after =>
      by_cases quote : d = '\''
      · subst quote
        cases ran
      · rw [mask_text_cons d after quote] at ran
        simp only [runStr, strStep] at ran
        cases digit : hexValue d with
        | none => simp [digit] at ran
        | some n =>
            refine ⟨d, n, after, rfl, digit, ?_⟩
            simp only [digit] at ran
            split_ifs at ran ⊢ <;> exact ran

theorem four_digits {text : Text} {first : Option Nat} {rest : Text}
    (ran : runStr .newtonsoft (.hex text first 0 0) (maskText rest) = some next) :
    ∃ unit after, runStr .newtonsoft (finishUnit text first unit) (maskText after) = some next ∧
      after.length < rest.length ∧ apostrophesRaw rest = apostrophesRaw after ∧
      (unit = 0x27 ↔ "0027".toList.isPrefixOf rest = true) := by
  obtain ⟨a, one, rest, rfl, hasOne, ran⟩ := next_digit ends ran
  obtain ⟨b, two, rest, rfl, hasTwo, ran⟩ := next_digit ends ran
  obtain ⟨c, three, rest, rfl, hasThree, ran⟩ := next_digit ends ran
  obtain ⟨d, four, after, rfl, hasFour, ran⟩ := next_digit ends ran
  have slash (e : Char) (n : Nat) (digit : hexValue e = some n) : e ≠ '\\' := by
    rintro rfl
    cases digit
  have same (e own : Char) (n m : Nat) (digit : hexValue e = some n) (small : m < 10)
      (named : Char.ofNat (48 + m) = own) (value : hexValue own = some m) : n = m ↔ own = e := by
    constructor
    · rintro rfl
      rw [← named, hex_value_decimal e n digit small]
    · rintro rfl
      exact Option.some.inj (digit.symm.trans value)
  have bounds := And.intro (hex_value_bound a one hasOne) (And.intro (hex_value_bound b two hasTwo)
    (And.intro (hex_value_bound c three hasThree) (hex_value_bound d four hasFour)))
  refine ⟨_, after, ran, by simp only [List.length_cons]; omega, ?_, ?_⟩
  · rw [raw_cons a _ (slash a one hasOne), raw_cons b _ (slash b two hasTwo),
      raw_cons c _ (slash c three hasThree), raw_cons d _ (slash d four hasFour)]
  · have digits : "0027".toList = ['0', '0', '2', '7'] := rfl
    have parts : 16 * (16 * (16 * (16 * 0 + one) + two) + three) + four = 0x27 ↔
        one = 0 ∧ two = 0 ∧ three = 2 ∧ four = 7 := by omega
    rw [parts, same a '0' one 0 hasOne (by decide) rfl rfl,
      same b '0' two 0 hasTwo (by decide) rfl rfl, same c '2' three 2 hasThree (by decide) rfl rfl,
      same d '7' four 7 hasFour (by decide) rfl rfl, List.isPrefixOf_iff_prefix, digits]
    simp only [List.cons_prefix_cons, List.nil_prefix, and_true]

end

def Ready (mode : StrMode) : Prop :=
  (∃ text, mode = .plain text) ∨ ∃ text unit, mode = .high text unit

theorem finish_unit_ready (text : Text) (first : Option Nat) (unit : Nat) :
    Ready (finishUnit text first unit) := by
  cases first <;> unfold finishUnit <;> simp only <;> split_ifs <;> simp [Ready]

theorem quote_not_replacement : '\'' ≠ replacement := by decide

theorem short_quote (d : Char) (short : simpleEscape .newtonsoft d = some '\'') : d = '\'' := by
  unfold simpleEscape at short
  split_ifs at short <;>
    first
      | exact Option.some.inj short
      | exact absurd (Option.some.inj short) (by decide)

theorem ready_backslash (mode : StrMode) (ready : Ready mode) :
    ∃ next, strStep .newtonsoft mode '\\' = .more next ∧
      (∃ first, strStep .newtonsoft next 'u' = .more (.hex mode.text first 0 0)) ∧
      (∃ text, runStr .newtonsoft next "u0027".toList = some (.plain text) ∧ '\'' ∈ text) ∧
      ∀ d, d ≠ 'u' → d ≠ '\'' → strStep .newtonsoft next d = .bad ∨
        ∃ text, strStep .newtonsoft next d = .more (.plain text) ∧
          ('\'' ∈ text ↔ '\'' ∈ mode.text) := by
  have named (text : Text) (d : Char) (unit : d ≠ 'u') (quote : d ≠ '\'') :
      escapeStep .newtonsoft text d = .bad ∨
        ∃ more, escapeStep .newtonsoft text d = .more (.plain more) ∧
          ('\'' ∈ more ↔ '\'' ∈ text) := by
    unfold escapeStep
    rw [if_neg unit]
    cases short : simpleEscape .newtonsoft d with
    | none => exact Or.inl rfl
    | some e =>
        have other : '\'' ≠ e := by
          rintro rfl
          exact quote (short_quote d short)
        exact Or.inr ⟨_, rfl, by simp [other]⟩
  rcases ready with ⟨text, rfl⟩ | ⟨text, unit, rfl⟩
  · refine ⟨.escape text, rfl, ⟨none, rfl⟩, ⟨text ++ ['\''], rfl, by simp⟩, fun d unit quote => ?_⟩
    exact named text d unit quote
  · refine ⟨.highEscape text unit, rfl, ⟨some unit, rfl⟩,
      ⟨text ++ [replacement, '\''], rfl, by simp⟩, fun d other quote => ?_⟩
    have step : strStep .newtonsoft (.highEscape text unit) d =
        escapeStep .newtonsoft (text ++ [replacement]) d := if_neg other
    rw [step]
    simpa [quote_not_replacement, StrMode.text] using named (text ++ [replacement]) d other quote

theorem ready_ordinary (mode : StrMode) (ready : Ready mode) (c : Char) (quote : c ≠ '"')
    (slash : c ≠ '\\') :
    ∃ text, runStr .newtonsoft mode (maskText [c]) = some (.plain text) ∧
      ('\'' ∈ text ↔ '\'' ∈ mode.text) := by
  have plain (text : Text) :
      ∃ more, runStr .newtonsoft (.plain text) (maskText [c]) = some (.plain more) ∧
        ('\'' ∈ more ↔ '\'' ∈ text) := by
    by_cases apostrophe : c = '\''
    · subst apostrophe
      exact ⟨_, run_mark_plain .newtonsoft text, by simp⟩
    · refine ⟨text ++ [c], ?_, by simp [Ne.symm apostrophe]⟩
      simp [mask_text_other c apostrophe, runStr, strStep, plainStep, quote, slash, rawAllowed]
  rcases ready with ⟨text, rfl⟩ | ⟨text, unit, rfl⟩
  · exact plain text
  · obtain ⟨more, ran, same⟩ := plain (text ++ [replacement])
    refine ⟨more, ?_, by simpa [quote_not_replacement, StrMode.text] using same⟩
    rw [← ran]
    by_cases apostrophe : c = '\''
    · subst apostrophe
      rfl
    · simp [mask_text_other c apostrophe, runStr, strStep, slash]

theorem ready_close (mode : StrMode) (ready : Ready mode) (closed : Text)
    (ends : strStep .newtonsoft mode '"' = .close closed) :
    '\'' ∈ closed ↔ '\'' ∈ mode.text := by
  rcases ready with ⟨text, rfl⟩ | ⟨text, unit, rfl⟩
  · cases ends
    rfl
  · cases ends
    simp [StrMode.text, quote_not_replacement]

/-- Behind a backslash stands a mark of the code point, a mark that the masking has made, or a
short escape. -/
theorem quotes_escaped {next : StrMode} {closed : Text} (mode : StrMode) (ready : Ready mode)
    (rest : Text) (ran : runStr .newtonsoft mode (maskText ('\\' :: rest)) = some next)
    (ends : strStep .newtonsoft next '"' = .close closed)
    (later : ∀ (after : Text) (mode : StrMode), after.length < rest.length → Ready mode →
      runStr .newtonsoft mode (maskText after) = some next →
      ('\'' ∈ closed ↔ '\'' ∈ mode.text ∨ apostrophesRaw after = false)) :
    '\'' ∈ closed ↔ '\'' ∈ mode.text ∨ apostrophesRaw ('\\' :: rest) = false := by
  obtain ⟨escaped, stepped, ⟨first, unit⟩, ⟨quoted, marked, holds⟩, others⟩ :=
    ready_backslash mode ready
  rw [mask_text_cons '\\' rest (by decide), runStr, stepped] at ran
  simp only at ran
  cases rest with
  | nil =>
      cases ran
      rcases others '"' (by decide) (by decide) with bad | ⟨text, more, -⟩
      · rw [bad] at ends
        cases ends
      · rw [more] at ends
        cases ends
  | cons d after =>
      have shorter : after.length < (d :: after).length := Nat.lt_succ_self after.length
      have raw : apostrophesRaw ('\\' :: d :: after) = (d != '\'' &&
          !"u0027".toList.isPrefixOf (d :: after) && apostrophesRaw after) := rfl
      by_cases letter : d = 'u'
      · subst letter
        rw [mask_text_cons 'u' after (by decide), runStr, unit] at ran
        obtain ⟨code, tail, ran, less, same, apostrophe⟩ := four_digits ends ran
        have prefixes : "u0027".toList.isPrefixOf ('u' :: after) =
            "0027".toList.isPrefixOf after := rfl
        rw [later tail _ (less.trans shorter) (finish_unit_ready _ first code) ran,
          finish_unit_quote, raw, prefixes, same, apostrophe]
        cases "0027".toList.isPrefixOf after <;> simp
      · by_cases quote : d = '\''
        · subst quote
          have again : maskText ('\'' :: after) = "u0027".toList ++ maskText after :=
            mask_text_append ['\''] after
          rw [again, run_str_append, marked] at ran
          rw [later after (.plain quoted) shorter (Or.inl ⟨quoted, rfl⟩) ran, raw]
          exact ⟨fun _ => Or.inr rfl, fun _ => Or.inl holds⟩
        · rw [mask_text_cons d after quote, runStr] at ran
          rcases others d letter quote with bad | ⟨text, more, kept⟩
          · simp [bad] at ran
          · rw [more] at ran
            have prefixes : "u0027".toList.isPrefixOf (d :: after) = false := by
              simp [List.isPrefixOf, Ne.symm letter]
            rw [later after (.plain text) shorter (Or.inl ⟨text, rfl⟩) ran, raw, prefixes]
            simpa [quote, StrMode.text] using or_congr_left kept

/-- What a masked string still has of apostrophes, it has from escapes. -/
theorem quotes_of_run (body : Text) (mode next : StrMode) (ready : Ready mode) (closed : Text)
    (ran : runStr .newtonsoft mode (maskText body) = some next)
    (ends : strStep .newtonsoft next '"' = .close closed) :
    '\'' ∈ closed ↔ '\'' ∈ mode.text ∨ apostrophesRaw body = false := by
  induction size : body.length using Nat.strong_induction_on generalizing body mode with
  | _ length ih =>
      cases body with
      | nil =>
          cases ran
          simpa [apostrophesRaw] using ready_close next ready closed ends
      | cons c rest =>
          have later (after : Text) (mode : StrMode) (shorter : after.length ≤ rest.length)
              (ready : Ready mode) (ran : runStr .newtonsoft mode (maskText after) = some next) :
              '\'' ∈ closed ↔ '\'' ∈ mode.text ∨ apostrophesRaw after = false :=
            ih after.length (by simp only [← size, List.length_cons]; omega) after mode ready ran
              rfl
          by_cases slash : c = '\\'
          · subst slash
            exact quotes_escaped mode ready rest ran ends fun after mode shorter =>
              later after mode shorter.le
          · have quote : c ≠ '"' := by
              rintro rfl
              rcases ready with ⟨text, rfl⟩ | ⟨text, unit, rfl⟩ <;> cases ran
            have split : maskText (c :: rest) = maskText [c] ++ maskText rest :=
              mask_text_append [c] rest
            obtain ⟨text, stepped, same⟩ := ready_ordinary mode ready c quote slash
            rw [split, run_str_append, stepped] at ran
            rw [later rest (.plain text) (Nat.le_refl _) (Or.inl ⟨text, rfl⟩) ran,
              raw_cons c rest slash]
            exact or_congr_left same

/-- The masked spelling is decoded without an apostrophe exactly when none of those of the
string is written as an escape. -/
theorem unquoted_iff_raw (body masked : Text)
    (read : readBody .newtonsoft (maskText body) = some masked) :
    '\'' ∉ masked ↔ apostrophesRaw body = true := by
  unfold readBody at read
  cases ran : runStr .newtonsoft (.plain []) (maskText body) with
  | none => simp [ran] at read
  | some next =>
      simp only [ran] at read
      split at read
      · rename_i text closed
        cases read
        rw [quotes_of_run body (.plain []) next (Or.inl ⟨[], rfl⟩) masked ran closed]
        simp [StrMode.text]
      · cases read

end TfuServer.Json
