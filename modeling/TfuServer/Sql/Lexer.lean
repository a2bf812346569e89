import TfuServer.Text.Numeral

/-!
# The lexical rules of MySQL

The default rules: quoted literals with doubled quotes and backslash escapes,
the three kinds of comments, words, numbers and single symbols. The lexer reads
one character at a time, so a text built by concatenation is lexed piece by
piece. A minus directly before a digit is kept with the number.
-/

namespace TfuServer.Sql

set_option autoImplicit false

inductive Token where
  | word (text : Text)
  | number (text : Text)
  | literal (value : Text)
  | sym (c : Char)
  deriving DecidableEq, Repr

inductive Mode where
  | normal
  | word (text : Text)
  | number (text : Text)
  | identifier (text : Text)
  | minus
  | dashes
  | lineComment
  | slash
  | blockOpen
  | block
  | blockStar
  | quoted (quote : Char) (value : Text)
  | escaped (quote : Char) (value : Text)
  | closing (quote : Char) (value : Text)
  deriving DecidableEq, Repr

/-- The tokens read so far stand in reverse, the last one first. -/
structure Lexer where
  mode : Mode
  tokens : List Token
  deriving DecidableEq, Repr

def isSpace (c : Char) : Bool :=
  c == ' ' || c == '\t' || c == '\n' || c == '\x0b' || c == '\x0c' || c == '\r'

/-- Two minuses open a comment before a blank or a control character only. -/
def opensComment (c : Char) : Bool := isSpace c || c.toNat < 32 || c.toNat == 127

def isWordStart (c : Char) : Bool := c.isAlpha || c == '_' || c == '$' || 128 ≤ c.toNat

def isWordChar (c : Char) : Bool := isWordStart c || c.isDigit

/-- A sign continues a number only right after the mark of the exponent. -/
def continuesNumber (text : Text) (c : Char) : Bool :=
  isWordChar c || c == '.' ||
    ((c == '+' || c == '-') && (text.getLast? == some 'e' || text.getLast? == some 'E'))

/-- What a backslash and `c` stand for in a literal. Only `%` and `_` keep the backslash. -/
def unescape (c : Char) : Text :=
  if c = '0' then ['\x00'] else if c = 'b' then ['\x08'] else if c = 'n' then ['\n']
  else if c = 'r' then ['\r'] else if c = 't' then ['\t'] else if c = 'Z' then ['\x1a']
  else if c = '%' ∨ c = '_' then ['\\', c] else [c]

def begin (tokens : List Token) (c : Char) : Lexer :=
  if isSpace c then ⟨.normal, tokens⟩
  else if c = '\'' ∨ c = '"' then ⟨.quoted c [], tokens⟩
  else if c = '\x60' then ⟨.identifier [], tokens⟩
  else if c = '-' then ⟨.minus, tokens⟩
  else if c = '/' then ⟨.slash, tokens⟩
  else if c = '#' then ⟨.lineComment, tokens⟩
  else if c.isDigit then ⟨.number [c], tokens⟩
  else if isWordStart c then ⟨.word [c], tokens⟩
  else ⟨.normal, .sym c :: tokens⟩

/-- A comment up to the end of its line; a NUL ends it and is read on. -/
def comment (tokens : List Token) (c : Char) : Lexer :=
  if c = '\n' then ⟨.normal, tokens⟩
  else if c = '\x00' then begin tokens c
  else ⟨.lineComment, tokens⟩

def step : Lexer → Char → Lexer
  | ⟨.normal, tokens⟩, c => begin tokens c
  | ⟨.word text, tokens⟩, c =>
      if isWordChar c then ⟨.word (text ++ [c]), tokens⟩ else begin (.word text :: tokens) c
  | ⟨.number text, tokens⟩, c =>
      if continuesNumber text c then ⟨.number (text ++ [c]), tokens⟩
      else begin (.number text :: tokens) c
  | ⟨.identifier text, tokens⟩, c =>
      if c = '\x60' then ⟨.normal, .word text :: tokens⟩ else ⟨.identifier (text ++ [c]), tokens⟩
  | ⟨.minus, tokens⟩, c =>
      if c = '-' then ⟨.dashes, tokens⟩
      else if c.isDigit then ⟨.number ['-', c], tokens⟩ else begin (.sym '-' :: tokens) c
  | ⟨.dashes, tokens⟩, c =>
      if opensComment c then comment tokens c
      -- the second minus may be the first of the comment
      else if c = '-' then ⟨.dashes, .sym '-' :: tokens⟩
      else begin (.sym '-' :: .sym '-' :: tokens) c
  | ⟨.lineComment, tokens⟩, c => comment tokens c
  | ⟨.slash, tokens⟩, c =>
      if c = '*' then ⟨.blockOpen, tokens⟩ else begin (.sym '/' :: tokens) c
  | ⟨.blockOpen, tokens⟩, c =>
      -- what follows `/*!` is no comment
      if c = '!' then ⟨.normal, .sym '!' :: tokens⟩
      else if c = '*' then ⟨.blockStar, tokens⟩ else ⟨.block, tokens⟩
  | ⟨.block, tokens⟩, c => if c = '*' then ⟨.blockStar, tokens⟩ else ⟨.block, tokens⟩
  | ⟨.blockStar, tokens⟩, c =>
      if c = '/' then ⟨.normal, tokens⟩
      else if c = '*' then ⟨.blockStar, tokens⟩ else ⟨.block, tokens⟩
  | ⟨.quoted quote value, tokens⟩, c =>
      if c = quote then ⟨.closing quote value, tokens⟩
      else if c = '\\' then ⟨.escaped quote value, tokens⟩
      else ⟨.quoted quote (value ++ [c]), tokens⟩
  | ⟨.escaped quote value, tokens⟩, c => ⟨.quoted quote (value ++ unescape c), tokens⟩
  | ⟨.closing quote value, tokens⟩, c =>
      if c = quote then ⟨.quoted quote (value ++ [quote]), tokens⟩
      else begin (.literal value :: tokens) c

def run : Lexer → Text → Lexer := List.foldl step

/-- The tokens at the end of the text; an open literal or block comment is an error. -/
def finish : Lexer → Option (List Token)
  | ⟨.normal, tokens⟩ | ⟨.lineComment, tokens⟩ | ⟨.dashes, tokens⟩ => some tokens.reverse
  | ⟨.word text, tokens⟩ => some (.word text :: tokens).reverse
  | ⟨.number text, tokens⟩ => some (.number text :: tokens).reverse
  | ⟨.minus, tokens⟩ => some (.sym '-' :: tokens).reverse
  | ⟨.slash, tokens⟩ => some (.sym '/' :: tokens).reverse
  | ⟨.closing _ value, tokens⟩ => some (.literal value :: tokens).reverse
  | _ => none

def lex (text : Text) : Option (List Token) := finish (run ⟨.normal, []⟩ text)

@[simp] theorem run_nil (lexer : Lexer) : run lexer [] = lexer := rfl

@[simp] theorem run_cons (lexer : Lexer) (c : Char) (text : Text) :
    run lexer (c :: text) = run (step lexer c) text := rfl

theorem run_append (lexer : Lexer) (left right : Text) :
    run lexer (left ++ right) = run (run lexer left) right :=
  List.foldl_append

/-- `later` has all the tokens of `tokens`, and they came first. -/
def Extends (tokens later : List Token) : Prop := ∃ added, later = added ++ tokens

theorem Extends.refl (tokens : List Token) : Extends tokens tokens := ⟨[], rfl⟩

theorem Extends.push (tokens : List Token) (token : Token) : Extends tokens (token :: tokens) :=
  ⟨[token], rfl⟩

theorem Extends.trans {first second third : List Token} (left : Extends first second)
    (right : Extends second third) : Extends first third := by
  obtain ⟨added, rfl⟩ := left
  obtain ⟨more, rfl⟩ := right
  exact ⟨more ++ added, by simp⟩

theorem begin_extends (tokens : List Token) (c : Char) :
    Extends tokens (begin tokens c).tokens := by
  unfold begin
  split_ifs <;> first | exact .refl _ | exact .push _ _

theorem comment_extends (tokens : List Token) (c : Char) :
    Extends tokens (comment tokens c).tokens := by
  unfold comment
  split_ifs
  · exact .refl _
  · exact begin_extends _ _
  · exact .refl _

theorem step_extends (lexer : Lexer) (c : Char) : Extends lexer.tokens (step lexer c).tokens := by
  obtain ⟨mode, tokens⟩ := lexer
  cases mode <;> simp only [step] <;> (try split_ifs) <;>
    first
      | exact .refl _
      | exact .push _ _
      | exact begin_extends _ _
      | exact comment_extends _ _
      | exact (Extends.push _ _).trans (begin_extends _ _)
      | exact ((Extends.push _ _).trans (.push _ _)).trans (begin_extends _ _)

theorem run_extends (lexer : Lexer) (text : Text) :
    Extends lexer.tokens (run lexer text).tokens := by
  induction text generalizing lexer with
  | nil => exact .refl _
  | cons c text ih => exact (step_extends lexer c).trans (ih (step lexer c))

theorem finish_extends (lexer : Lexer) (tokens : List Token)
    (finished : finish lexer = some tokens) : ∃ added, tokens = lexer.tokens.reverse ++ added := by
  obtain ⟨mode, before⟩ := lexer
  cases mode <;> simp only [finish, Option.some.injEq, reduceCtorEq] at finished <;>
    subst finished <;> simp

theorem finish_run_extends (lexer : Lexer) (text : Text) (tokens : List Token)
    (finished : finish (run lexer text) = some tokens) :
    ∃ added, tokens = lexer.tokens.reverse ++ added := by
  obtain ⟨later, reached⟩ := run_extends lexer text
  obtain ⟨added, rfl⟩ := finish_extends _ tokens finished
  exact ⟨later.reverse ++ added, by rw [reached]; simp⟩

theorem begin_frame (tokens before : List Token) (c : Char) :
    begin (tokens ++ before) c = ⟨(begin tokens c).mode, (begin tokens c).tokens ++ before⟩ := by
  unfold begin
  split_ifs <;> rfl

theorem comment_frame (tokens before : List Token) (c : Char) :
    comment (tokens ++ before) c =
      ⟨(comment tokens c).mode, (comment tokens c).tokens ++ before⟩ := by
  unfold comment
  split_ifs
  · rfl
  · exact begin_frame tokens before c
  · rfl

theorem step_frame (mode : Mode) (tokens before : List Token) (c : Char) :
    step ⟨mode, tokens ++ before⟩ c =
      ⟨(step ⟨mode, tokens⟩ c).mode, (step ⟨mode, tokens⟩ c).tokens ++ before⟩ := by
  cases mode <;> simp only [step, ← List.cons_append, begin_frame, comment_frame] <;>
    split_ifs <;> rfl

theorem run_frame (mode : Mode) (tokens before : List Token) (text : Text) :
    run ⟨mode, tokens ++ before⟩ text =
      ⟨(run ⟨mode, tokens⟩ text).mode, (run ⟨mode, tokens⟩ text).tokens ++ before⟩ := by
  induction text generalizing mode tokens with
  | nil => rfl
  | cons c text ih => rw [run_cons, run_cons, step_frame, ih]

theorem finish_run_frame (before : List Token) (text : Text) :
    finish (run ⟨.normal, before⟩ text) = (lex text).map (before.reverse ++ ·) := by
  have framed := run_frame .normal [] before text
  rw [List.nil_append] at framed
  rw [framed, lex]
  generalize run ⟨.normal, []⟩ text = lexer
  obtain ⟨mode, tokens⟩ := lexer
  cases mode <;> simp [finish]

theorem is_digit_word_char (c : Char) (digit : c.isDigit = true) : isWordChar c = true := by
  simp [isWordChar, digit]

theorem run_digits (text digits : Text) (tokens : List Token)
    (all : digits.all Char.isDigit = true) :
    run ⟨.number text, tokens⟩ digits = ⟨.number (text ++ digits), tokens⟩ := by
  induction digits generalizing text with
  | nil => simp
  | cons c digits ih =>
      obtain ⟨digit, rest⟩ := Bool.and_eq_true_iff.mp all
      have continues : continuesNumber text c = true := by
        simp [continuesNumber, is_digit_word_char c digit]
      simp only [run_cons, step, continues, if_true]
      rw [ih _ rest]
      simp

theorem begin_digit (tokens : List Token) (c : Char) (digit : c.isDigit = true) :
    begin tokens c = ⟨.number [c], tokens⟩ := by
  have differs (d : Char) (other : d.isDigit = false) : c ≠ d := by
    rintro rfl
    exact absurd digit (by simp [other])
  have space : isSpace c = false := by
    simp [isSpace, differs ' ' (by decide), differs '\t' (by decide), differs '\n' (by decide),
      differs '\x0b' (by decide), differs '\x0c' (by decide), differs '\r' (by decide)]
  simp [begin, space, differs '\'' (by decide), differs '"' (by decide),
    differs '\x60' (by decide), differs '-' (by decide), differs '/' (by decide),
    differs '#' (by decide), digit]

theorem run_int_text (tokens : List Token) (n : Int) :
    run ⟨.normal, tokens⟩ (Numeral.intText n) = ⟨.number (Numeral.intText n), tokens⟩ := by
  have digits (m : Nat) : (Nat.toDigits 10 m).all Char.isDigit = true :=
    List.all_eq_true.mpr fun _ member =>
      Nat.isDigit_of_mem_toDigits (by decide) (by decide) member
  cases n with
  | ofNat n =>
      simp only [Numeral.intText]
      have all := digits n
      cases shape : Nat.toDigits 10 n with
      | nil => exact absurd shape Nat.toDigits_ne_nil
      | cons head rest =>
          rw [shape] at all
          obtain ⟨digit, rest_digits⟩ := Bool.and_eq_true_iff.mp all
          simp only [run_cons, step, begin_digit tokens head digit]
          exact run_digits [head] rest tokens rest_digits
  | negSucc n =>
      simp only [Numeral.intText]
      have all := digits (n + 1)
      cases shape : Nat.toDigits 10 (n + 1) with
      | nil => exact absurd shape Nat.toDigits_ne_nil
      | cons head rest =>
          rw [shape] at all
          obtain ⟨digit, rest_digits⟩ := Bool.and_eq_true_iff.mp all
          have notMinus : head ≠ '-' := by
            rintro rfl
            exact absurd digit (by decide)
          have opened : begin tokens '-' = ⟨.minus, tokens⟩ := rfl
          simp only [run_cons, step, opened, if_neg notMinus, digit, if_true]
          exact run_digits ['-', head] rest tokens rest_digits

/-- What the scan of a JSON number accepts after its first digit continues the token. -/
theorem number_step_continues (state next : Numeral.NumberState) (text : Text) (c : Char)
    (begun : state ≠ .start ∧ state ≠ .minus)
    (marked : state = .exponent → text.getLast? = some 'e' ∨ text.getLast? = some 'E')
    (stepped : Numeral.numberStep state c = some next) :
    continuesNumber text c = true ∧ (next ≠ .start ∧ next ≠ .minus) ∧
      (next = .exponent →
        (text ++ [c]).getLast? = some 'e' ∨ (text ++ [c]).getLast? = some 'E') := by
  have letters : isWordChar 'e' = true ∧ isWordChar 'E' = true := by decide
  cases state <;> simp only [Numeral.numberStep] at stepped <;>
    grind [continuesNumber, isWordChar]

theorem run_scan_number (state final : Numeral.NumberState) (text rest : Text)
    (tokens : List Token) (begun : state ≠ .start ∧ state ≠ .minus)
    (marked : state = .exponent → text.getLast? = some 'e' ∨ text.getLast? = some 'E')
    (scanned : Numeral.scanNumber state rest = some final) :
    run ⟨.number text, tokens⟩ rest = ⟨.number (text ++ rest), tokens⟩ := by
  induction rest generalizing state text with
  | nil => simp
  | cons c rest ih =>
      obtain ⟨next, stepped, tail⟩ := Option.bind_eq_some_iff.mp scanned
      obtain ⟨continues, nextBegun, nextMarked⟩ :=
        number_step_continues state next text c begun marked stepped
      simp only [run_cons, step, continues, if_true]
      rw [ih next (text ++ [c]) nextBegun nextMarked tail]
      simp

theorem first_digit (state next : Numeral.NumberState) (c : Char)
    (early : state = .start ∧ c ≠ '-' ∨ state = .minus)
    (stepped : Numeral.numberStep state c = some next) :
    c.isDigit = true ∧ next ≠ .start ∧ next ≠ .minus ∧ next ≠ .exponent := by
  by_cases zero : c = '0'
  · subst zero
    have zeroState : next = .zero := by
      rcases early with ⟨rfl, -⟩ | rfl <;> exact (Option.some.inj stepped).symm
    subst zeroState
    exact ⟨by decide, by decide, by decide, by decide⟩
  · rcases early with ⟨rfl, other⟩ | rfl <;> grind [Numeral.numberStep]

theorem run_json_number (tokens : List Token) (number : Numeral.JsonNumber) :
    run ⟨.normal, tokens⟩ number.text = ⟨.number number.text, tokens⟩ := by
  obtain ⟨text, wellFormed⟩ := number
  unfold Numeral.isNumber at wellFormed
  cases scanned : Numeral.scanNumber .start text with
  | none => simp [scanned] at wellFormed
  | some final =>
      cases text with
      | nil =>
          cases scanned
          exact absurd wellFormed (by decide)
      | cons c rest =>
          obtain ⟨next, stepped, tail⟩ := Option.bind_eq_some_iff.mp scanned
          by_cases minus : c = '-'
          · subst minus
            obtain rfl : Numeral.NumberState.minus = next := Option.some.inj stepped
            cases rest with
            | nil =>
                obtain rfl : Numeral.NumberState.minus = final := Option.some.inj tail
                simp [scanned, Numeral.NumberState.accepting] at wellFormed
            | cons d rest =>
                obtain ⟨after, digitStep, others⟩ := Option.bind_eq_some_iff.mp tail
                obtain ⟨digit, notStart, notMinus, notExponent⟩ :=
                  first_digit .minus after d (Or.inr rfl) digitStep
                have opened : begin tokens '-' = ⟨.minus, tokens⟩ := rfl
                have dash : d ≠ '-' := by
                  rintro rfl
                  exact absurd digit (by decide)
                simp only [run_cons, step, opened, if_neg dash, digit, if_true]
                exact run_scan_number after final ['-', d] rest tokens ⟨notStart, notMinus⟩
                  (fun exponent => absurd exponent notExponent) others
          · obtain ⟨digit, notStart, notMinus, notExponent⟩ :=
              first_digit .start next c (Or.inl ⟨rfl, minus⟩) stepped
            simp only [run_cons, step, begin_digit tokens c digit]
            exact run_scan_number next final [c] rest tokens ⟨notStart, notMinus⟩
              (fun exponent => absurd exponent notExponent) tail

theorem step_after_number (text : Text) (tokens : List Token) (c : Char)
    (ends : continuesNumber text c = false) :
    step ⟨.number text, tokens⟩ c = step ⟨.normal, .number text :: tokens⟩ c := by
  simp [step, ends]

end TfuServer.Sql
