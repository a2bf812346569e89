import TfuServer.Sql.Statement

/-!
# Statements built by concatenation

A builder writes fixed text and numbers between literals that hold client text.
A gap is such a piece of fixed text, together with the tokens it is lexed to;
whatever literal stands before it, the lexer comes out of the gap at the opening
quote of the next one.
-/

namespace TfuServer.Sql

set_option autoImplicit false

/-- A text that cannot be taken for a continuation of the literal before it. -/
def Separates (text : Text) : Prop := ∃ c rest, text = c :: rest ∧ c ≠ '\'' ∧ c ≠ '\\'

structure Gap where
  text : Text
  tokens : List Token
  opens : ∀ before, run ⟨.normal, before⟩ (text ++ ['\'']) =
    ⟨.quoted '\'' [], tokens.reverse ++ before⟩
  separates : Separates text
  single : .sym ';' ∉ tokens

/-- The text after the last literal, which ends the statement. -/
structure Ending where
  text : Text
  tokens : List Token
  closes : ∀ before, finish (run ⟨.normal, before⟩ text) =
    some (before.reverse ++ tokens ++ [.sym ';'])
  separates : Separates text
  single : .sym ';' ∉ tokens

/-- Between tokens, the text is lexed to the tokens, and nothing stays open. -/
def Lexes (text : Text) (tokens : List Token) : Prop :=
  ∀ before, run ⟨.normal, before⟩ text = ⟨.normal, tokens.reverse ++ before⟩

theorem Lexes.append {left right : Text} {leftTokens rightTokens : List Token}
    (first : Lexes left leftTokens) (second : Lexes right rightTokens) :
    Lexes (left ++ right) (leftTokens ++ rightTokens) := by
  intro before
  rw [run_append, first, second]
  simp

def endsNumber (c : Char) : Bool := c == ',' || c == ';' || c == ' ' || c == ')'

def delimits : Text → Bool
  | c :: _ => endsNumber c
  | [] => false

theorem ends_number (text : Text) (c : Char) (ends : endsNumber c = true) :
    continuesNumber text c = false := by
  simp only [endsNumber, Bool.or_eq_true, beq_iff_eq] at ends
  rcases ends with ((rfl | rfl) | rfl) | rfl <;> rfl

theorem lexes_number {number rest : Text} {tokens : List Token}
    (alone : ∀ before, run ⟨.normal, before⟩ number = ⟨.number number, before⟩)
    (ends : delimits rest = true) (after : Lexes rest tokens) :
    Lexes (number ++ rest) (.number number :: tokens) := by
  intro before
  cases rest with
  | nil => simp [delimits] at ends
  | cons c rest =>
      have rested := after (.number number :: before)
      rw [run_cons] at rested
      rw [run_append, alone, run_cons, step_after_number _ _ _ (ends_number number c ends), rested]
      simp

/-- `lead` is what stands before the word without a blank. -/
theorem lexes_word {text last rest : Text} {tokens : List Token} (lead : List Token)
    (alone : ∀ before, run ⟨.normal, before⟩ text = ⟨.word last, lead.reverse ++ before⟩)
    (ends : delimits rest = true) (after : Lexes rest tokens) :
    Lexes (text ++ rest) (lead ++ .word last :: tokens) := by
  intro before
  cases rest with
  | nil => simp [delimits] at ends
  | cons c rest =>
      have ended : step ⟨.word last, lead.reverse ++ before⟩ c =
          step ⟨.normal, .word last :: (lead.reverse ++ before)⟩ c := by
        simp only [delimits, endsNumber, Bool.or_eq_true, beq_iff_eq] at ends
        rcases ends with ((rfl | rfl) | rfl) | rfl <;> rfl
      have rested := after (.word last :: (lead.reverse ++ before))
      rw [run_cons] at rested
      rw [run_append, alone, run_cons, ended, rested]
      simp

theorem lexes_int {rest : Text} {tokens : List Token} (n : Int) (ends : delimits rest = true)
    (after : Lexes rest tokens) :
    Lexes (Numeral.intText n ++ rest) (.number (Numeral.intText n) :: tokens) :=
  lexes_number (fun before => run_int_text before n) ends after

theorem lexes_json_number {rest : Text} {tokens : List Token} (number : Numeral.JsonNumber)
    (ends : delimits rest = true) (after : Lexes rest tokens) :
    Lexes (number.text ++ rest) (.number number.text :: tokens) :=
  lexes_number (fun before => run_json_number before number) ends after

/-- Fixed text is lexed by running the lexer. -/
theorem lexes_fixed (text : String) (tokens : List Token)
    (ran : ∀ before, run ⟨.normal, before⟩ text.toList = ⟨.normal, tokens.reverse ++ before⟩) :
    Lexes text.toList tokens :=
  ran

def Gap.ofLexes {text : Text} {tokens : List Token} (lexes : Lexes text tokens)
    (separates : Separates text) (single : .sym ';' ∉ tokens) : Gap where
  text := text
  tokens := tokens
  opens := fun before => by
    rw [run_append, lexes]
    rfl
  separates := separates
  single := single

def Ending.ofLexes {text : Text} (tokens : List Token)
    (lexes : Lexes text (tokens ++ [.sym ';'])) (separates : Separates text)
    (single : .sym ';' ∉ tokens) : Ending where
  text := text
  tokens := tokens
  closes := fun before => by
    rw [lexes]
    simp [finish]
  separates := separates
  single := single

/-- A literal with the text the builder writes into it and the value it should have. -/
structure Field where
  gap : Gap
  written : Text
  value : Text

def statementText : List Field → Ending → Text
  | [], ending => ending.text
  | field :: fields, ending =>
      field.gap.text ++ '\'' :: (field.written ++ '\'' :: statementText fields ending)

def statementTokens : List Field → Ending → List Token
  | [], ending => ending.tokens
  | field :: fields, ending =>
      field.gap.tokens ++ .literal field.value :: statementTokens fields ending

theorem statement_text_separates (fields : List Field) (ending : Ending) :
    Separates (statementText fields ending) := by
  cases fields with
  | nil => exact ending.separates
  | cons field fields =>
      obtain ⟨c, rest, shape, quote, slash⟩ := field.gap.separates
      exact ⟨c, _, by rw [statementText, shape, List.cons_append], quote, slash⟩

theorem statement_tokens_single (fields : List Field) (ending : Ending) :
    .sym ';' ∉ statementTokens fields ending := by
  induction fields with
  | nil => exact ending.single
  | cons field fields ih =>
      simp only [statementTokens, List.mem_append, List.mem_cons, reduceCtorEq, false_or, not_or]
      exact ⟨field.gap.single, ih⟩

theorem run_statement_head (field : Field) (rest : Text) (before : List Token) :
    run ⟨.normal, before⟩ (field.gap.text ++ '\'' :: rest) =
      run ⟨.quoted '\'' [], field.gap.tokens.reverse ++ before⟩ rest := by
  have joined : field.gap.text ++ '\'' :: rest = (field.gap.text ++ ['\'']) ++ rest := by simp
  rw [joined, run_append, field.gap.opens]

theorem read_literal_before (text value rest : Text) (separates : Separates rest)
    (decoded : decodeLiteral text = some value) :
    readLiteral (text ++ '\'' :: rest) = some (value, rest) := by
  obtain ⟨c, more, rfl, quote, -⟩ := separates
  rw [read_literal_append text _ value decoded, read_closing c more quote]
  simp

theorem finish_run_statement (fields : List Field) (ending : Ending) (before : List Token)
    (decoded : ∀ field ∈ fields, decodeLiteral field.written = some field.value) :
    finish (run ⟨.normal, before⟩ (statementText fields ending)) =
      some (before.reverse ++ statementTokens fields ending ++ [.sym ';']) := by
  induction fields generalizing before with
  | nil => exact ending.closes before
  | cons field fields ih =>
      have separates := statement_text_separates fields ending
      rw [statementText, run_statement_head, finish_run_quoted,
        read_literal_before _ field.value _ separates (decoded field (by simp))]
      simp only [Option.bind_some]
      rw [ih _ fun other member => decoded other (List.mem_cons_of_mem _ member)]
      simp [statementTokens]

theorem read_statements_template (fields : List Field) (ending : Ending)
    (some_tokens : statementTokens fields ending ≠ [])
    (decoded : ∀ field ∈ fields, decodeLiteral field.written = some field.value) :
    readStatements (statementText fields ending) = some [statementTokens fields ending] := by
  have tokens := finish_run_statement fields ending [] decoded
  simp only [List.reverse_nil, List.nil_append] at tokens
  rw [readStatements, lex, tokens, Option.map_some,
    split_from_single [] _ (by simpa using some_tokens) (statement_tokens_single fields ending)]
  simp

/-- If the whole text is read as the intended statement, every literal holds its value. -/
theorem decoded_of_read (fields : List Field) (ending : Ending) (before : List Token)
    (singleBefore : .sym ';' ∉ before)
    (determined : ∀ field ∈ fields, Determined field.written field.value)
    (read : (finish (run ⟨.normal, before⟩ (statementText fields ending))).map (splitFrom []) =
      some [before.reverse ++ statementTokens fields ending]) :
    ∀ field ∈ fields, decodeLiteral field.written = some field.value := by
  induction fields generalizing before with
  | nil => simp
  | cons field fields ih =>
      have separates := statement_text_separates fields ending
      have singleHead (value : Text) :
          .sym ';' ∉ before.reverse ++ (field.gap.tokens ++ [.literal value]) := by
        simp [singleBefore, field.gap.single]
      rw [statementText, run_statement_head, finish_run_quoted] at read
      have decodedHead : decodeLiteral field.written = some field.value := by
        obtain ⟨c, more, shape, quote, slash⟩ := separates
        rw [shape] at read
        cases literal : readLiteral (field.written ++ '\'' :: c :: more) with
        | none => simp [literal] at read
        | some pair =>
            obtain ⟨value, rest⟩ := pair
            simp only [literal, Option.bind_some, Option.map_eq_some_iff] at read
            obtain ⟨tokens, finished, split⟩ := read
            -- The first statement starts with the tokens up to the literal that was read.
            obtain ⟨added, shapeTokens⟩ := finish_run_extends _ rest tokens finished
            obtain ⟨first, others, begins⟩ := split_from_begins []
              (before.reverse ++ (field.gap.tokens ++ [.literal value])) added
              (singleHead value) (by simp)
            simp only [List.reverse_cons, List.reverse_append, List.reverse_reverse] at shapeTokens
            rw [shapeTokens, List.append_assoc before.reverse, begins] at split
            simp only [statementTokens, List.nil_append, List.append_assoc,
              List.singleton_append, List.cons.injEq, List.append_cancel_left_eq,
              Token.literal.injEq] at split
            apply determined field (by simp) c more rest quote slash
            rw [literal, split.1.1]
      intro other member
      rcases List.mem_cons.mp member with rfl | later
      · exact decodedHead
      · rw [read_literal_before _ field.value _ separates decodedHead, Option.bind_some] at read
        refine ih (.literal field.value :: (field.gap.tokens.reverse ++ before))
          (by simp [singleBefore, field.gap.single])
          (fun item itemMember => determined item (List.mem_cons_of_mem _ itemMember))
          ?_ other later
        rw [read]
        simp [statementTokens]

/-- A builder's text is read as its one intended statement exactly when every
literal decodes to its value. -/
theorem read_statements_template_iff (fields : List Field) (ending : Ending)
    (some_tokens : statementTokens fields ending ≠ [])
    (determined : ∀ field ∈ fields, Determined field.written field.value) :
    readStatements (statementText fields ending) = some [statementTokens fields ending] ↔
      ∀ field ∈ fields, decodeLiteral field.written = some field.value :=
  ⟨fun read => decoded_of_read fields ending [] (by simp) determined read,
    read_statements_template fields ending some_tokens⟩

theorem read_builder_iff {text : Text} {tokens : List Token} {fields : List Field}
    {ending : Ending} (shape : text = statementText fields ending)
    (meant : statementTokens fields ending = tokens) (some_tokens : tokens ≠ [])
    (determined : ∀ field ∈ fields, Determined field.written field.value) :
    readStatements text = some [tokens] ↔
      ∀ field ∈ fields, decodeLiteral field.written = some field.value := by
  subst shape meant
  exact read_statements_template_iff fields ending some_tokens determined

theorem read_statements_lexes {text : Text} {tokens : List Token}
    (lexes : Lexes text (tokens ++ [.sym ';'])) (some_tokens : tokens ≠ [])
    (single : .sym ';' ∉ tokens) : readStatements text = some [tokens] := by
  have finished : lex text = some (tokens ++ [.sym ';']) := by
    rw [lex, lexes []]
    simp [finish]
  rw [readStatements, finished, Option.map_some, split_from_single [] tokens some_tokens single]
  rfl

theorem read_statement_single {text : Text} {tokens : List Token}
    (read : readStatements text = some [tokens]) : readStatement text = parseStatement tokens := by
  rw [readStatement, read]

theorem read_template {text : Text} {tokens : List Token} {fields : List Field} {ending : Ending}
    {statement : Statement} (shape : text = statementText fields ending)
    (meant : statementTokens fields ending = tokens)
    (parsed : parseStatement tokens = some statement)
    (decoded : ∀ field ∈ fields, decodeLiteral field.written = some field.value) :
    readStatement text = some statement := by
  have some_tokens : statementTokens fields ending ≠ [] := by
    intro none
    rw [← meant, none] at parsed
    cases parsed
  have read := read_statements_template fields ending some_tokens decoded
  rw [shape, read_statement_single read, meant, parsed]

end TfuServer.Sql
