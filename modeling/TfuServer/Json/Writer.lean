import TfuServer.Json.Reader

/-!
# Writing JSON

A serializer writes a document as a list of pieces, fixed text and the strings
in it. How the strings are spelled is kept apart from where they stand, so that
a change of the finished text that leaves its quotes alone is a change of the
spelling.
-/

namespace TfuServer

set_option autoImplicit false

open Numeral (JsonNumber)

inductive Document where
  | number (value : JsonNumber)
  | str (value : Text)
  | arr (items : List Document)
  | obj (members : List (Text × Document))

inductive Piece where
  | raw (text : Text)
  | quoted (text : Text)

inductive Layout where
  | compact | indented
  deriving DecidableEq, Repr

namespace Json

def newline : Layout → Nat → Text
  | .compact, _ => []
  | .indented, depth => '\n' :: List.replicate (2 * depth) ' '

def colon : Layout → Text
  | .compact => [':']
  | .indented => [':', ' ']

mutual

def write (layout : Layout) (depth : Nat) : Document → List Piece
  | .number value => [.raw value.text]
  | .str value => [.quoted value]
  | .arr items =>
      if items.isEmpty then [.raw ['[', ']']]
      else writeItems layout (depth + 1) '[' items ++ [.raw (newline layout depth ++ [']'])]
  | .obj members =>
      if members.isEmpty then [.raw ['\x7b', '\x7d']]
      else writeMembers layout (depth + 1) '\x7b' members ++
        [.raw (newline layout depth ++ ['\x7d'])]

/-- The items with the mark before the first one; commas stand before the others. -/
def writeItems (layout : Layout) (depth : Nat) (mark : Char) : List Document → List Piece
  | [] => []
  | item :: items =>
      .raw (mark :: newline layout depth) :: write layout depth item ++
        writeItems layout depth ',' items

def writeMembers (layout : Layout) (depth : Nat) (mark : Char) :
    List (Text × Document) → List Piece
  | [] => []
  | (name, value) :: members =>
      .raw (mark :: newline layout depth) :: .quoted name :: .raw (colon layout) ::
        write layout depth value ++ writeMembers layout depth ',' members

end

/-- How the strings of a document are spelled between their quotes. -/
structure Spelling where
  body : Text → Text
  quoteless : ∀ text, '"' ∉ body text
  letters : ∀ name : Text, name.all Char.isAlpha = true → body name = name

def textOf (spelling : Spelling) : List Piece → Text
  | [] => []
  | .raw text :: rest => text ++ textOf spelling rest
  | .quoted text :: rest => '"' :: (spelling.body text ++ '"' :: textOf spelling rest)

@[simp] theorem text_of_append (spelling : Spelling) (left right : List Piece) :
    textOf spelling (left ++ right) = textOf spelling left ++ textOf spelling right := by
  induction left with
  | nil => rfl
  | cons piece left ih => cases piece <;> simp [textOf, ih]

def layoutChar (c : Char) : Bool :=
  Numeral.numberChar c || c == '[' || c == ']' || c == '\x7b' || c == '\x7d' || c == ',' ||
    c == ':' || c == ' ' || c == '\n'

/-- Between its strings a document has only marks, blanks and numbers. -/
def Shaped (pieces : List Piece) : Prop :=
  ∀ text, .raw text ∈ pieces → text.all layoutChar = true

theorem shaped_append (left right : List Piece) (leftShaped : Shaped left)
    (rightShaped : Shaped right) : Shaped (left ++ right) := by
  intro text member
  rcases List.mem_append.mp member with inLeft | inRight
  · exact leftShaped text inLeft
  · exact rightShaped text inRight

theorem shaped_raw (text : Text) (rest : List Piece) (clean : text.all layoutChar = true)
    (restShaped : Shaped rest) : Shaped (.raw text :: rest) := by
  intro other member
  rcases List.mem_cons.mp member with same | later
  · cases same
    exact clean
  · exact restShaped other later

theorem shaped_quoted (text : Text) (rest : List Piece) (restShaped : Shaped rest) :
    Shaped (.quoted text :: rest) := by
  intro other member
  rcases List.mem_cons.mp member with same | later
  · cases same
  · exact restShaped other later

theorem shaped_nil : Shaped [] := by
  intro text member
  simp at member

theorem newline_layout (layout : Layout) (depth : Nat) :
    (newline layout depth).all layoutChar = true := by
  cases layout with
  | compact => rfl
  | indented =>
      simp only [newline, List.all_cons, List.all_eq_true, Bool.and_eq_true]
      exact ⟨by decide, fun c member => by rw [List.eq_of_mem_replicate member]; decide⟩

mutual

theorem write_shaped (layout : Layout) (depth : Nat) (document : Document) :
    Shaped (write layout depth document) := by
  cases document with
  | number value =>
      refine shaped_raw _ _ (List.all_eq_true.mpr fun c member => ?_) shaped_nil
      simp [layoutChar, Numeral.number_chars value.text value.wellFormed c member]
  | str value => exact shaped_quoted _ _ shaped_nil
  | arr items =>
      simp only [write]
      split
      · exact shaped_raw _ _ (by decide) shaped_nil
      · refine shaped_append _ _ (write_items_shaped layout _ '[' items (by decide))
          (shaped_raw _ _ ?_ shaped_nil)
        simp [newline_layout, layoutChar]
  | obj members =>
      simp only [write]
      split
      · exact shaped_raw _ _ (by decide) shaped_nil
      · refine shaped_append _ _ (write_members_shaped layout _ '\x7b' members (by decide))
          (shaped_raw _ _ ?_ shaped_nil)
        simp [newline_layout, layoutChar]

theorem write_items_shaped (layout : Layout) (depth : Nat) (mark : Char) (items : List Document)
    (clean : layoutChar mark = true) : Shaped (writeItems layout depth mark items) := by
  cases items with
  | nil => exact shaped_nil
  | cons item items =>
      simp only [writeItems, List.cons_append]
      refine shaped_raw _ _ (by simp [clean, newline_layout]) (shaped_append _ _ ?_ ?_)
      · exact write_shaped layout depth item
      · exact write_items_shaped layout depth ',' items (by decide)

theorem write_members_shaped (layout : Layout) (depth : Nat) (mark : Char)
    (members : List (Text × Document)) (clean : layoutChar mark = true) :
    Shaped (writeMembers layout depth mark members) := by
  cases members with
  | nil => exact shaped_nil
  | cons member members =>
      obtain ⟨name, value⟩ := member
      simp only [writeMembers, List.cons_append]
      refine shaped_raw _ _ (by simp [clean, newline_layout]) (shaped_quoted _ _
        (shaped_raw _ _ (by cases layout <;> decide) (shaped_append _ _ ?_ ?_)))
      · exact write_shaped layout depth value
      · exact write_members_shaped layout depth ',' members (by decide)

end

/-- `blocks` says which characters beyond ASCII are escaped, of those that need not be. -/
structure JavaScriptEncoder where
  blocks : Char → Bool

/-- What every encoder escapes: HTML-sensitive characters, the backslash, control
characters and everything outside the basic plane. -/
def alwaysEscaped (c : Char) : Bool :=
  c == '"' || c == '\'' || c == '<' || c == '>' || c == '&' || c == '+' || c == '\x60' ||
    c == '\\' || c.toNat < 0x20 || c.toNat == 0x7f || 0xFFFF < c.toNat

def JavaScriptEncoder.escapes (encoder : JavaScriptEncoder) (c : Char) : Bool :=
  alwaysEscaped c || (0x7f < c.toNat && encoder.blocks c)

/-- The encoder that `JsonSerializer` uses by default. -/
def JavaScriptEncoder.default : JavaScriptEncoder := ⟨fun _ => true⟩

def shortEscape (c : Char) : Option Char :=
  if c = '\x08' then some 'b' else if c = '\t' then some 't' else if c = '\n' then some 'n'
  else if c = '\x0c' then some 'f' else if c = '\r' then some 'r'
  else if c = '\\' then some '\\' else none

def hexDigit (n : Nat) : Char :=
  if n < 10 then Char.ofNat ('0'.toNat + n) else Char.ofNat ('A'.toNat + (n - 10))

def hexDigits (unit : Nat) : Text :=
  [hexDigit (unit / 4096 % 16), hexDigit (unit / 256 % 16), hexDigit (unit / 16 % 16),
    hexDigit (unit % 16)]

def units (c : Char) : List Nat :=
  if c.toNat ≤ 0xFFFF then [c.toNat]
  else [0xD800 + (c.toNat - 0x10000) / 0x400, 0xDC00 + (c.toNat - 0x10000) % 0x400]

def JavaScriptEncoder.encodeChar (encoder : JavaScriptEncoder) (c : Char) : Text :=
  if encoder.escapes c then
    match shortEscape c with
    | some d => ['\\', d]
    | none => (units c).flatMap fun unit => '\\' :: 'u' :: hexDigits unit
  else [c]

def JavaScriptEncoder.encode (encoder : JavaScriptEncoder) (text : Text) : Text :=
  text.flatMap encoder.encodeChar

theorem alphanum_code (c : Char) (alphanum : c.isAlphanum = true) :
    48 ≤ c.toNat ∧ c.toNat ≤ 57 ∨ 65 ≤ c.toNat ∧ c.toNat ≤ 90 ∨
      97 ≤ c.toNat ∧ c.toNat ≤ 122 := by
  have ranges : c.isAlphanum = ((decide (65 ≤ c.val ∧ c.val ≤ 90) ||
      decide (97 ≤ c.val) && decide (c.val ≤ 122)) ||
        decide (48 ≤ c.val) && decide (c.val ≤ 57)) := rfl
  simp only [ranges, Bool.or_eq_true, Bool.and_eq_true, decide_eq_true_eq,
    UInt32.le_iff_toNat_le] at alphanum
  simp only [Char.toNat]
  rcases alphanum with (upper | lower) | digit
  · exact Or.inr (Or.inl upper)
  · exact Or.inr (Or.inr lower)
  · exact Or.inl digit

theorem alpha_alphanum (c : Char) (alpha : c.isAlpha = true) : c.isAlphanum = true := by
  simp [Char.isAlphanum, alpha]

theorem alphanum_ne (c d : Char) (alphanum : c.isAlphanum = true) (other : d.isAlphanum = false) :
    c ≠ d := by
  rintro rfl
  exact absurd alphanum (by simp [other])

theorem alphanum_not_escaped (encoder : JavaScriptEncoder) (c : Char)
    (alphanum : c.isAlphanum = true) : encoder.escapes c = false := by
  have code := alphanum_code c alphanum
  have ordinary : alwaysEscaped c = false := by
    simp only [alwaysEscaped, Bool.or_eq_false_iff, beq_eq_false_iff_ne, decide_eq_false_iff_not]
    refine ⟨⟨⟨⟨⟨⟨⟨⟨⟨⟨?_, ?_⟩, ?_⟩, ?_⟩, ?_⟩, ?_⟩, ?_⟩, ?_⟩, by omega⟩, by omega⟩, by omega⟩ <;>
      exact alphanum_ne c _ alphanum (by decide)
  simp only [JavaScriptEncoder.escapes, ordinary, Bool.false_or, Bool.and_eq_false_iff,
    decide_eq_false_iff_not]
  exact Or.inl (by omega)

theorem encode_char_of_not_escaped (encoder : JavaScriptEncoder) (c : Char)
    (kept : encoder.escapes c = false) : encoder.encodeChar c = [c] := by
  simp [JavaScriptEncoder.encodeChar, kept]

theorem encode_kept (encoder : JavaScriptEncoder) (text : Text)
    (kept : ∀ c ∈ text, encoder.escapes c = false) : encoder.encode text = text := by
  induction text with
  | nil => rfl
  | cons c text ih =>
      have head := encode_char_of_not_escaped encoder c (kept c (by simp))
      have tail := ih fun d member => kept d (List.mem_cons_of_mem _ member)
      simp only [JavaScriptEncoder.encode, List.flatMap_cons, head] at tail ⊢
      simp [tail]

theorem hex_digit_alphanum (n : Nat) (small : n < 16) : (hexDigit n).isAlphanum = true := by
  interval_cases n <;> decide

theorem hex_digits_alphanum (unit : Nat) : ∀ c ∈ hexDigits unit, c.isAlphanum = true := by
  intro c member
  simp only [hexDigits, List.mem_cons, List.not_mem_nil, or_false] at member
  rcases member with rfl | rfl | rfl | rfl <;>
    exact hex_digit_alphanum _ (Nat.mod_lt _ (by decide))

theorem escaped_chars (encoder : JavaScriptEncoder) (c d : Char)
    (escaped : encoder.escapes c = true) (member : d ∈ encoder.encodeChar c) :
    d = '\\' ∨ d.isAlphanum = true := by
  simp only [JavaScriptEncoder.encodeChar, escaped, if_true] at member
  split at member
  · rename_i short shape
    simp only [List.mem_cons, List.not_mem_nil, or_false] at member
    rcases member with rfl | rfl
    · exact Or.inl rfl
    · unfold shortEscape at shape
      split_ifs at shape <;> obtain rfl := Option.some.inj shape <;> decide
  · simp only [List.mem_flatMap, List.mem_cons] at member
    obtain ⟨unit, -, rfl | rfl | digit⟩ := member
    · exact Or.inl rfl
    · exact Or.inr (by decide)
    · exact Or.inr (hex_digits_alphanum unit d digit)

/-- An encoded text holds only characters that are never escaped, and backslashes. -/
theorem encoded_chars (encoder : JavaScriptEncoder) (text : Text) (d : Char)
    (member : d ∈ encoder.encode text) : d = '\\' ∨ encoder.escapes d = false := by
  obtain ⟨c, -, written⟩ := List.mem_flatMap.mp member
  cases escaped : encoder.escapes c with
  | true =>
      rcases escaped_chars encoder c d escaped written with slash | alphanum
      · exact Or.inl slash
      · exact Or.inr (alphanum_not_escaped encoder d alphanum)
  | false =>
      rw [encode_char_of_not_escaped encoder c escaped, List.mem_singleton] at written
      exact Or.inr (written ▸ escaped)

theorem encode_quoteless (encoder : JavaScriptEncoder) (text : Text) :
    '"' ∉ encoder.encode text := by
  intro member
  rcases encoded_chars encoder text '"' member with slash | kept
  · exact absurd slash (by decide)
  · exact absurd kept (by simp [JavaScriptEncoder.escapes, alwaysEscaped])

theorem encode_apostropheless (encoder : JavaScriptEncoder) (text : Text) :
    '\'' ∉ encoder.encode text := by
  intro member
  rcases encoded_chars encoder text '\'' member with slash | kept
  · exact absurd slash (by decide)
  · exact absurd kept (by simp [JavaScriptEncoder.escapes, alwaysEscaped])

def JavaScriptEncoder.spelling (encoder : JavaScriptEncoder) : Spelling where
  body := encoder.encode
  quoteless := encode_quoteless encoder
  letters := fun name letters => encode_kept encoder name fun c member =>
    alphanum_not_escaped encoder c (alpha_alphanum c (List.all_eq_true.mp letters c member))

/-- The text that `JsonSerializer.Serialize` returns for a document. -/
def serialize (encoder : JavaScriptEncoder) (layout : Layout) (document : Document) : Text :=
  textOf encoder.spelling (write layout 0 document)

end Json
end TfuServer
