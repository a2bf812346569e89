import TfuServer.Json.Writer

/-!
# Reading a written document back

A written document is read piece by piece. Its strings may be spelled in a way
the reader decodes to something else, or in a way that swallows the closing
quote; in the last case the next key of the document ends the string and the
reader stops at the key's first letter. So the reader either returns the
document with its strings replaced one by one, or calls it malformed.
-/

namespace TfuServer.Json

set_option autoImplicit false

section
variable (dialect : Dialect)

/-- The mode after the body of a string; `none` when the reader stops in it. -/
def runStr : StrMode → Text → Option StrMode
  | mode, [] => some mode
  | mode, c :: rest =>
      match strStep dialect mode c with
      | .more next => runStr next rest
      | _ => none

/-- The string that a body and its closing quote are read as. -/
def readBody (body : Text) : Option Text :=
  match runStr dialect (.plain []) body with
  | some mode =>
      match strStep dialect mode '"' with
      | .close text => some text
      | _ => none
  | none => none

def closeString (isKey : Bool) (text : Text) (stack : List Frame) : State :=
  if isKey then ⟨.colon text, stack⟩ else complete (.str text) stack

theorem plain_step_open (text closed : Text) (c : Char) (other : c ≠ '"') :
    plainStep dialect text c ≠ .close closed := by
  unfold plainStep
  rw [if_neg other]
  split_ifs <;> simp

theorem escape_step_open (text closed : Text) (c : Char) :
    escapeStep dialect text c ≠ .close closed := by
  unfold escapeStep
  split_ifs
  · simp
  · split <;> simp

theorem str_step_open (mode : StrMode) (closed : Text) (c : Char) (other : c ≠ '"') :
    strStep dialect mode c ≠ .close closed := by
  cases mode with
  | plain text => exact plain_step_open dialect text closed c other
  | escape text => exact escape_step_open dialect text closed c
  | hex text high digits value =>
      simp only [strStep]
      split
      · simp
      · split_ifs <;> simp
  | high text unit =>
      simp only [strStep]
      split_ifs
      · simp
      · exact plain_step_open dialect _ closed c other
  | highEscape text unit =>
      simp only [strStep]
      split_ifs
      · simp
      · exact escape_step_open dialect _ closed c

theorem run_str_body (isKey : Bool) (mode : StrMode) (stack : List Frame) (body : Text)
    (quoteless : '"' ∉ body) :
    run dialect ⟨.str isKey mode, stack⟩ body =
      match runStr dialect mode body with
      | some next => ⟨.str isKey next, stack⟩
      | none => ⟨.malformed, stack⟩ := by
  induction body generalizing mode with
  | nil => rfl
  | cons c rest ih =>
      have other : c ≠ '"' := fun same => quoteless (by simp [same])
      have restQuoteless : '"' ∉ rest := fun member => quoteless (List.mem_cons_of_mem _ member)
      simp only [run_cons, step, runStr]
      cases stepped : strStep dialect mode c with
      | more next => simpa using ih next restQuoteless
      | close text => exact absurd stepped (str_step_open dialect mode text c other)
      | bad => simpa using run_malformed dialect stack rest

/-- The closing quote closes the string, is refused, or is swallowed by an escape. -/
theorem closing_quote (mode : StrMode) :
    (∃ text, strStep dialect mode '"' = .close text) ∨ strStep dialect mode '"' = .bad ∨
      ∃ text, strStep dialect mode '"' = .more (.plain text) := by
  cases mode with
  | plain text => exact Or.inl ⟨text, rfl⟩
  | escape text => exact Or.inr (Or.inr ⟨text ++ ['"'], rfl⟩)
  | hex text high digits value => exact Or.inr (Or.inl rfl)
  | high text unit => exact Or.inl ⟨text ++ [replacement], rfl⟩
  | highEscape text unit => exact Or.inr (Or.inr ⟨text ++ [replacement] ++ ['"'], rfl⟩)

theorem run_string (isKey : Bool) (stack : List Frame) (body rest : Text)
    (quoteless : '"' ∉ body) :
    match readBody dialect body with
    | some text =>
        run dialect ⟨.str isKey (.plain []), stack⟩ (body ++ '"' :: rest) =
          run dialect (closeString isKey text stack) rest
    | none =>
        run dialect ⟨.str isKey (.plain []), stack⟩ (body ++ '"' :: rest) = ⟨.malformed, stack⟩ ∨
          ∃ text, run dialect ⟨.str isKey (.plain []), stack⟩ (body ++ '"' :: rest) =
            run dialect ⟨.str isKey (.plain text), stack⟩ rest := by
  rw [run_append, run_str_body dialect isKey (.plain []) stack body quoteless]
  unfold readBody
  cases runStr dialect (.plain []) body with
  | none => exact Or.inl (by simpa using run_malformed dialect stack ('"' :: rest))
  | some mode =>
      rcases closing_quote dialect mode with ⟨text, closed⟩ | bad | ⟨text, swallowed⟩
      · simp [closed, step, closeString]
      · simp only [bad, run_cons, step]
        exact Or.inl (run_malformed dialect stack rest)
      · simp only [swallowed, run_cons, step]
        exact Or.inr ⟨text, rfl⟩

def isName (text : Text) : Bool := !text.isEmpty && text.all Char.isAlpha

def rawChar (c : Char) : Bool := c != '"' && c != '\\'

def namesNext : List Piece → Bool
  | [] => true
  | .raw text :: rest => text.all rawChar && namesNext rest
  | .quoted text :: _ => isName text

theorem run_raw (isKey : Bool) (text raw : Text) (stack : List Frame)
    (clean : raw.all rawChar = true) :
    run dialect ⟨.str isKey (.plain text), stack⟩ raw = ⟨.malformed, stack⟩ ∨
      ∃ more, run dialect ⟨.str isKey (.plain text), stack⟩ raw =
        ⟨.str isKey (.plain more), stack⟩ := by
  induction raw generalizing text with
  | nil => exact Or.inr ⟨text, rfl⟩
  | cons c raw ih =>
      obtain ⟨head, tail⟩ := Bool.and_eq_true_iff.mp clean
      simp only [rawChar, Bool.and_eq_true, bne_iff_ne] at head
      simp only [run_cons, step, strStep, plainStep, if_neg head.1, if_neg head.2]
      by_cases allowed : rawAllowed dialect c = true
      · simpa [allowed] using ih (text ++ [c]) tail
      · exact Or.inl (by simpa [allowed] using run_malformed dialect stack raw)

theorem letter_not_white (c : Char) (alpha : c.isAlpha = true) : isWhite c = false := by
  have alphanum := alpha_alphanum c alpha
  simp [isWhite, alphanum_ne c ' ' alphanum (by decide), alphanum_ne c '\t' alphanum (by decide),
    alphanum_ne c '\n' alphanum (by decide), alphanum_ne c '\r' alphanum (by decide)]

theorem letter_stray (c : Char) (stack : List Frame) (alpha : c.isAlpha = true) :
    stray c stack = ⟨.malformed, stack⟩ := by
  have alphanum := alpha_alphanum c alpha
  have code := alphanum_code c alphanum
  have kept : maybeSkipped c = false := by
    simp only [maybeSkipped, Bool.or_eq_false_iff, beq_eq_false_iff_ne, decide_eq_false_iff_not]
    exact ⟨⟨alphanum_ne c '/' alphanum (by decide), by omega⟩, by omega⟩
  simp [stray, kept]

theorem letter_after_value (value : Json) (stack : List Frame) (c : Char)
    (alpha : c.isAlpha = true) :
    ∃ after, step dialect (complete value stack) c = ⟨.malformed, after⟩ := by
  have alphanum := alpha_alphanum c alpha
  have comma := alphanum_ne c ',' alphanum (by decide)
  have square := alphanum_ne c ']' alphanum (by decide)
  have brace := alphanum_ne c '\x7d' alphanum (by decide)
  have white := letter_not_white c alpha
  cases stack with
  | nil => exact ⟨[], by simp [complete, step, settledStep, white, letter_stray c _ alpha]⟩
  | cons frame stack =>
      cases frame with
      | items done =>
          exact ⟨_, by
            simp only [complete, step, settledStep, white, letter_stray c _ alpha, if_neg comma,
              if_neg square]
            rfl⟩
      | value done name =>
          exact ⟨_, by
            simp only [complete, step, settledStep, white, letter_stray c _ alpha, if_neg comma,
              if_neg brace]
            rfl⟩
      | members done => exact ⟨.members done :: stack, rfl⟩

variable (spelling : Spelling)

theorem swallowed_malformed (pieces : List Piece) (text : Text) (stack : List Frame)
    (names : namesNext pieces = true) :
    finish dialect (run dialect ⟨.str false (.plain text), stack⟩ (textOf spelling pieces)) =
      .malformed := by
  induction pieces generalizing text with
  | nil => rfl
  | cons piece pieces ih =>
      cases piece with
      | raw raw =>
          obtain ⟨clean, rest⟩ := Bool.and_eq_true_iff.mp names
          rw [textOf, run_append]
          rcases run_raw dialect false text raw stack clean with stopped | ⟨more, going⟩
          · rw [stopped, finish_run_malformed]
          · rw [going]
            exact ih more rest
      | quoted name =>
          cases name with
          | nil => simp [namesNext, isName] at names
          | cons c name =>
              have letters : (c :: name).all Char.isAlpha = true := by
                simpa [namesNext, isName] using names
              obtain ⟨alpha, -⟩ := Bool.and_eq_true_iff.mp letters
              obtain ⟨after, stopped⟩ := letter_after_value dialect (.str text) stack c alpha
              have closed : step dialect ⟨.str false (.plain text), stack⟩ '"' =
                  complete (.str text) stack := rfl
              rw [textOf, spelling.letters _ letters, run_cons, closed, List.cons_append, run_cons,
                stopped, finish_run_malformed]

def isStr : Document → Bool
  | .str _ => true
  | _ => false

mutual

/-- Names are letters, no array holds a string, and the reader's bounds are kept. -/
def readable (level : Nat) : Document → Bool
  | .number value => numberAllowed dialect value.text
  | .str _ => true
  | .arr items => depthAllowed dialect level && readableItems (level + 1) items
  | .obj members => depthAllowed dialect level && readableMembers (level + 1) members

def readableItems (level : Nat) : List Document → Bool
  | [] => true
  | item :: items => !isStr item && readable level item && readableItems level items

def readableMembers (level : Nat) : List (Text × Document) → Bool
  | [] => true
  | (name, value) :: members =>
      isName name && readable level value && readableMembers level members

end

mutual

/-- The document with every string as it is read. -/
def readBack : Document → Option Json
  | .number value => some (.number value)
  | .str value => (readBody dialect (spelling.body value)).map .str
  | .arr items => (readBackItems items).map .arr
  | .obj members => (readBackMembers members).map .obj

def readBackItems : List Document → Option (List Json)
  | [] => some []
  | item :: items =>
      match readBack item with
      | some value => (readBackItems items).map (value :: ·)
      | none => none

def readBackMembers : List (Text × Document) → Option (List (Text × Json))
  | [] => some []
  | (name, item) :: members =>
      match readBack item with
      | some value => (readBackMembers members).map ((name, value) :: ·)
      | none => none

end

theorem newline_raw (layout : Layout) (depth : Nat) :
    (newline layout depth).all rawChar = true := by
  cases layout with
  | compact => rfl
  | indented =>
      simp only [newline, List.all_cons, List.all_eq_true, Bool.and_eq_true]
      exact ⟨by decide, fun c member => by rw [List.eq_of_mem_replicate member]; decide⟩

theorem newline_white (layout : Layout) (depth : Nat) :
    (newline layout depth).all isWhite = true := by
  cases layout with
  | compact => rfl
  | indented =>
      simp only [newline, List.all_cons, List.all_eq_true, Bool.and_eq_true]
      exact ⟨by decide, fun c member => by rw [List.eq_of_mem_replicate member]; decide⟩

theorem number_raw (value : Numeral.JsonNumber) : value.text.all rawChar = true := by
  refine List.all_eq_true.mpr fun c member => ?_
  have char := Numeral.number_chars value.text value.wellFormed c member
  simp only [rawChar, Bool.and_eq_true, bne_iff_ne]
  constructor <;> rintro rfl <;> exact absurd char (by decide)

mutual

theorem names_next_write (layout : Layout) (depth level : Nat) (document : Document)
    (tail : List Piece) (fits : readable dialect level document = true)
    (notString : isStr document = false) (names : namesNext tail = true) :
    namesNext (write layout depth document ++ tail) = true := by
  cases document with
  | number value => simpa [write, namesNext, names] using number_raw value
  | str value => simp [isStr] at notString
  | arr items =>
      simp only [readable, Bool.and_eq_true] at fits
      simp only [write]
      split
      · simpa [namesNext] using ⟨by decide, names⟩
      · rw [List.append_assoc]
        refine names_next_items layout (depth + 1) (level + 1) '[' items _ fits.2 (by decide) ?_
        simpa [namesNext, names, rawChar] using newline_raw layout depth
  | obj members =>
      simp only [readable, Bool.and_eq_true] at fits
      simp only [write]
      split
      · simpa [namesNext] using ⟨by decide, names⟩
      · rw [List.append_assoc]
        refine names_next_members layout (depth + 1) (level + 1) '\x7b' members _ fits.2
          (by decide) ?_
        simpa [namesNext, names, rawChar] using newline_raw layout depth

theorem names_next_items (layout : Layout) (depth level : Nat) (mark : Char)
    (items : List Document) (tail : List Piece)
    (fits : readableItems dialect level items = true) (clean : rawChar mark = true)
    (names : namesNext tail = true) :
    namesNext (writeItems layout depth mark items ++ tail) = true := by
  cases items with
  | nil => simpa [writeItems] using names
  | cons item items =>
      simp only [readableItems, Bool.and_eq_true, Bool.not_eq_true'] at fits
      simp only [writeItems, List.cons_append, List.append_assoc, namesNext, List.all_cons, clean,
        newline_raw, Bool.and_self, Bool.true_and]
      exact names_next_write layout depth level item _ fits.1.2 fits.1.1
        (names_next_items layout depth level ',' items tail fits.2 (by decide) names)

theorem names_next_members (layout : Layout) (depth level : Nat) (mark : Char)
    (members : List (Text × Document)) (tail : List Piece)
    (fits : readableMembers dialect level members = true) (clean : rawChar mark = true)
    (names : namesNext tail = true) :
    namesNext (writeMembers layout depth mark members ++ tail) = true := by
  cases members with
  | nil => simpa [writeMembers] using names
  | cons member members =>
      obtain ⟨name, value⟩ := member
      simp only [readableMembers, Bool.and_eq_true] at fits
      simp only [writeMembers, List.cons_append, namesNext, List.all_cons, clean, newline_raw,
        Bool.and_self, Bool.true_and]
      exact fits.1.1

end

def readPieces (state : State) (pieces : List Piece) : Reading :=
  finish dialect (run dialect state (textOf spelling pieces))

/-- What stands after a value: no bare character, and no string but a name. -/
structure Follows (tail : List Piece) : Prop where
  names : namesNext tail = true
  delimited : ∀ c rest, textOf spelling tail = c :: rest → isBare c = false

theorem read_pieces_raw (state : State) (text : Text) (rest : List Piece) :
    readPieces dialect spelling state (.raw text :: rest) =
      readPieces dialect spelling (run dialect state text) rest := by
  rw [readPieces, textOf, run_append, readPieces]

theorem run_white (state : State) (text : Text) (white : text.all isWhite = true)
    (stays : ∀ c, isWhite c = true → step dialect state c = state) :
    run dialect state text = state := by
  induction text with
  | nil => rfl
  | cons c text ih =>
      obtain ⟨head, tail⟩ := Bool.and_eq_true_iff.mp white
      rw [run_cons, stays c head, ih tail]

theorem value_skips (stack : List Frame) (c : Char) (white : isWhite c = true) :
    step dialect ⟨.value, stack⟩ c = ⟨.value, stack⟩ := by
  simp [step, startValue, white]

theorem white_ne_bracket (c : Char) (white : isWhite c = true) : c ≠ ']' ∧ c ≠ '\x7d' := by
  constructor <;> rintro rfl <;> exact absurd white (by decide)

theorem first_item_skips (done : List Json) (stack : List Frame) (c : Char)
    (white : isWhite c = true) :
    step dialect ⟨.firstItem, .items done :: stack⟩ c = ⟨.firstItem, .items done :: stack⟩ := by
  simp [step, startValue, white, (white_ne_bracket c white).1]

theorem first_key_skips (done : List (Text × Json)) (stack : List Frame) (c : Char)
    (white : isWhite c = true) :
    step dialect ⟨.firstKey, .members done :: stack⟩ c = ⟨.firstKey, .members done :: stack⟩ := by
  simp [step, startKey, white, (white_ne_bracket c white).2]

theorem key_skips (stack : List Frame) (c : Char) (white : isWhite c = true) :
    step dialect ⟨.key, stack⟩ c = ⟨.key, stack⟩ := by
  simp [step, startKey, white]

theorem number_char_bare (c : Char) (char : Numeral.numberChar c = true) :
    isBare c = true ∧ isWhite c = false ∧ c ≠ '"' ∧ c ≠ '[' ∧ c ≠ '\x7b' ∧ c ≠ ']' := by
  have bare : isBare c = true := by
    by_cases digit : c.isDigit = true
    · simp [isBare, Char.isAlphanum, digit]
    · simp only [Numeral.numberChar, digit, Bool.false_or, Bool.or_eq_true, beq_iff_eq] at char
      rcases char with (((rfl | rfl) | rfl) | rfl) | rfl <;> decide
  refine ⟨bare, ?_, ?_, ?_, ?_, ?_⟩
  · cases white : isWhite c with
    | false => rfl
    | true =>
        simp only [isWhite, Bool.or_eq_true, beq_iff_eq] at white
        rcases white with ((rfl | rfl) | rfl) | rfl <;> exact absurd bare (by decide)
  all_goals
    rintro rfl
    exact absurd bare (by decide)

theorem run_bare (text more : Text) (stack : List Frame) (bare : more.all isBare = true) :
    run dialect ⟨.bare text, stack⟩ more = ⟨.bare (text ++ more), stack⟩ := by
  induction more generalizing text with
  | nil => simp
  | cons c more ih =>
      obtain ⟨head, tail⟩ := Bool.and_eq_true_iff.mp bare
      simp only [run_cons, step, head, if_true]
      rw [ih (text ++ [c]) tail]
      simp

theorem run_number (value : Numeral.JsonNumber) (stack : List Frame) :
    run dialect ⟨.value, stack⟩ value.text = ⟨.bare value.text, stack⟩ := by
  obtain ⟨text, wellFormed⟩ := value
  have bare (c : Char) (member : c ∈ text) :=
    number_char_bare c (Numeral.number_chars text wellFormed c member)
  cases text with
  | nil => exact absurd wellFormed (by decide)
  | cons c rest =>
      obtain ⟨head, white, quote, square, brace, -⟩ := bare c (by simp)
      simp only [run_cons, step, startValue, white, quote, square, brace, head, if_true, if_false,
        Bool.false_eq_true]
      rw [run_bare dialect [c] rest stack
        (List.all_eq_true.mpr fun d member => (bare d (List.mem_cons_of_mem _ member)).1)]
      rfl

theorem complete_settles (value : Json) (stack : List Frame) (c : Char) :
    step dialect (complete value stack) c = settledStep (complete value stack) c := by
  cases stack with
  | nil => rfl
  | cons frame stack => cases frame <;> rfl

/-- A bare text that stands for a value is complete at the next delimiter. -/
theorem read_pieces_bare (text : Text) (value : Json) (stack : List Frame) (tail : List Piece)
    (completes : completeBare dialect text stack = complete value stack)
    (follows : Follows spelling tail) :
    readPieces dialect spelling ⟨.bare text, stack⟩ tail =
      readPieces dialect spelling (complete value stack) tail := by
  unfold readPieces
  cases shape : textOf spelling tail with
  | nil =>
      simp only [run_nil, finish, completes]
      cases stack with
      | nil => rfl
      | cons frame stack => cases frame <;> rfl
  | cons c rest =>
      have delimiter := follows.delimited c rest shape
      have stepped :
          step dialect ⟨.bare text, stack⟩ c = step dialect (complete value stack) c := by
        rw [complete_settles]
        simp only [step, delimiter, completes, Bool.false_eq_true, if_false]
        cases stack with
        | nil => rfl
        | cons frame stack => cases frame <;> rfl
      rw [run_cons, run_cons, stepped]

theorem complete_number (value : Numeral.JsonNumber) (stack : List Frame)
    (allowed : numberAllowed dialect value.text = true) :
    completeBare dialect value.text stack = complete (.number value) stack := by
  simp [completeBare, value.wellFormed, allowed]

theorem run_str_name (text name : Text) (letters : name.all Char.isAlpha = true) :
    runStr dialect (.plain text) name = some (.plain (text ++ name)) := by
  induction name generalizing text with
  | nil => simp [runStr]
  | cons c name ih =>
      obtain ⟨alpha, rest⟩ := Bool.and_eq_true_iff.mp letters
      have alphanum := alpha_alphanum c alpha
      have code := alphanum_code c alphanum
      have allowed : rawAllowed dialect c = true := by
        cases dialect
        · simp only [rawAllowed, decide_eq_true_eq]
          omega
        · rfl
      simp only [runStr, strStep, plainStep, if_neg (alphanum_ne c '"' alphanum (by decide)),
        if_neg (alphanum_ne c '\\' alphanum (by decide)), allowed, if_true]
      rw [ih (text ++ [c]) rest]
      simp

theorem read_body_name (name : Text) (letters : name.all Char.isAlpha = true) :
    readBody dialect name = some name := by
  simp [readBody, run_str_name dialect [] name letters, strStep, plainStep]

theorem read_pieces_string (value : Text) (stack : List Frame) (tail : List Piece)
    (names : namesNext tail = true) :
    readPieces dialect spelling ⟨.value, stack⟩ (.quoted value :: tail) =
      match readBody dialect (spelling.body value) with
      | some text => readPieces dialect spelling (complete (.str text) stack) tail
      | none => .malformed := by
  have opened : step dialect ⟨.value, stack⟩ '"' = ⟨.str false (.plain []), stack⟩ := rfl
  have string := run_string dialect false stack (spelling.body value) (textOf spelling tail)
    (spelling.quoteless value)
  simp only [readPieces, textOf, run_cons, opened]
  cases body : readBody dialect (spelling.body value) with
  | some text =>
      simp only [body] at string
      simp [string, closeString]
  | none =>
      simp only [body] at string
      rcases string with stopped | ⟨text, swallowed⟩
      · rw [stopped]
        rfl
      · rw [swallowed]
        exact swallowed_malformed dialect spelling tail text stack names

theorem read_pieces_name (name : Text) (layout : Layout) (done : List (Text × Json))
    (stack : List Frame) (tail : List Piece) (isNamed : isName name = true) :
    readPieces dialect spelling ⟨.key, .members done :: stack⟩
        (.quoted name :: .raw (colon layout) :: tail) =
      readPieces dialect spelling ⟨.value, .value done name :: stack⟩ tail := by
  have letters : name.all Char.isAlpha = true := (Bool.and_eq_true_iff.mp isNamed).2
  have opened : step dialect ⟨.key, .members done :: stack⟩ '"' =
      ⟨.str true (.plain []), .members done :: stack⟩ := rfl
  have string := run_string dialect true (.members done :: stack) name
    (colon layout ++ textOf spelling tail)
    (by simpa [spelling.letters name letters] using spelling.quoteless name)
  rw [read_body_name dialect name letters] at string
  simp only [readPieces, textOf, run_cons, opened, spelling.letters name letters]
  simp only at string
  rw [string, closeString, if_pos rfl, run_append]
  cases layout <;> rfl

theorem write_head (layout : Layout) (depth : Nat) (document : Document) (tail : List Piece) :
    ∃ c rest, textOf spelling (write layout depth document ++ tail) = c :: rest ∧
      isWhite c = false ∧ c ≠ ']' := by
  cases document with
  | str value => exact ⟨'"', _, rfl, by decide, by decide⟩
  | number value =>
      obtain ⟨text, wellFormed⟩ := value
      cases text with
      | nil => exact absurd wellFormed (by decide)
      | cons c rest =>
          obtain ⟨-, white, -, -, -, square⟩ :=
            number_char_bare c (Numeral.number_chars _ wellFormed c (by simp))
          exact ⟨c, _, rfl, white, square⟩
  | arr items =>
      cases items with
      | nil => exact ⟨'[', _, rfl, by decide, by decide⟩
      | cons item items => exact ⟨'[', _, rfl, by decide, by decide⟩
  | obj members =>
      cases members with
      | nil => exact ⟨'\x7b', _, rfl, by decide, by decide⟩
      | cons member members => exact ⟨'\x7b', _, rfl, by decide, by decide⟩

theorem follows_close (layout : Layout) (depth : Nat) (close : Char) (tail : List Piece)
    (clean : rawChar close = true) (bare : isBare close = false) (names : namesNext tail = true) :
    Follows spelling (.raw (newline layout depth ++ [close]) :: tail) := by
  constructor
  · simp [namesNext, newline_raw, clean, names]
  · intro c rest shape
    cases layout with
    | compact =>
        simp only [textOf, newline, List.nil_append, List.singleton_append, List.cons.injEq]
          at shape
        exact shape.1 ▸ bare
    | indented =>
        simp only [textOf, newline, List.cons_append, List.cons.injEq] at shape
        exact shape.1 ▸ (by decide)

theorem follows_items (layout : Layout) (depth level : Nat) (items : List Document)
    (tail : List Piece) (fits : readableItems dialect level items = true)
    (follows : Follows spelling tail) :
    Follows spelling (writeItems layout depth ',' items ++ tail) := by
  refine ⟨names_next_items dialect layout depth level ',' items tail fits (by decide)
    follows.names, fun c rest shape => ?_⟩
  cases items with
  | nil => exact follows.delimited c rest (by simpa [writeItems] using shape)
  | cons item items =>
      simp only [writeItems, List.cons_append, textOf, List.cons.injEq] at shape
      exact shape.1 ▸ (by decide)

theorem follows_members (layout : Layout) (depth level : Nat) (members : List (Text × Document))
    (tail : List Piece) (fits : readableMembers dialect level members = true)
    (follows : Follows spelling tail) :
    Follows spelling (writeMembers layout depth ',' members ++ tail) := by
  refine ⟨names_next_members dialect layout depth level ',' members tail fits (by decide)
    follows.names, fun c rest shape => ?_⟩
  cases members with
  | nil => exact follows.delimited c rest (by simpa [writeMembers] using shape)
  | cons member members =>
      obtain ⟨name, value⟩ := member
      simp only [writeMembers, List.cons_append, textOf, List.cons.injEq] at shape
      exact shape.1 ▸ (by decide)

theorem read_pieces_open_array (layout : Layout) (depth : Nat) (item : Document)
    (stack : List Frame) (tail : List Piece)
    (deep : depthAllowed dialect stack.length = true) :
    readPieces dialect spelling ⟨.value, stack⟩
        (.raw ('[' :: newline layout depth) :: (write layout depth item ++ tail)) =
      readPieces dialect spelling ⟨.value, .items [] :: stack⟩
        (write layout depth item ++ tail) := by
  have opened : step dialect ⟨.value, stack⟩ '[' = ⟨.firstItem, .items [] :: stack⟩ := by
    have start : startValue dialect .value stack '[' =
        if depthAllowed dialect stack.length then ⟨.firstItem, .items [] :: stack⟩
        else ⟨.malformed, stack⟩ := rfl
    rw [step, start, if_pos deep]
  rw [read_pieces_raw, run_cons, opened,
    run_white dialect _ _ (newline_white layout depth) (first_item_skips dialect [] stack)]
  obtain ⟨c, rest, shape, white, square⟩ := write_head spelling layout depth item tail
  have same : step dialect ⟨.firstItem, .items [] :: stack⟩ c =
      step dialect ⟨.value, .items [] :: stack⟩ c := by
    simp only [step, if_neg square, startValue, white, Bool.false_eq_true, if_false]
  rw [readPieces, readPieces, shape, run_cons, run_cons, same]

theorem read_pieces_open_object (layout : Layout) (depth : Nat) (name : Text)
    (stack : List Frame) (tail : List Piece)
    (deep : depthAllowed dialect stack.length = true) :
    readPieces dialect spelling ⟨.value, stack⟩
        (.raw ('\x7b' :: newline layout depth) :: .quoted name :: tail) =
      readPieces dialect spelling ⟨.key, .members [] :: stack⟩ (.quoted name :: tail) := by
  have opened : step dialect ⟨.value, stack⟩ '\x7b' = ⟨.firstKey, .members [] :: stack⟩ := by
    have start : startValue dialect .value stack '\x7b' =
        if depthAllowed dialect stack.length then ⟨.firstKey, .members [] :: stack⟩
        else ⟨.malformed, stack⟩ := rfl
    rw [step, start, if_pos deep]
  rw [read_pieces_raw, run_cons, opened,
    run_white dialect _ _ (newline_white layout depth) (first_key_skips dialect [] stack)]
  rfl

theorem read_pieces_comma_item (layout : Layout) (depth : Nat) (done : List Json)
    (stack : List Frame) (tail : List Piece) :
    readPieces dialect spelling ⟨.after, .items done :: stack⟩
        (.raw (',' :: newline layout depth) :: tail) =
      readPieces dialect spelling ⟨.value, .items done :: stack⟩ tail := by
  have comma : step dialect ⟨.after, .items done :: stack⟩ ',' =
      ⟨.value, .items done :: stack⟩ := rfl
  rw [read_pieces_raw, run_cons, comma,
    run_white dialect _ _ (newline_white layout depth) (value_skips dialect _)]

theorem read_pieces_comma_member (layout : Layout) (depth : Nat) (done : List (Text × Json))
    (stack : List Frame) (tail : List Piece) :
    readPieces dialect spelling ⟨.after, .members done :: stack⟩
        (.raw (',' :: newline layout depth) :: tail) =
      readPieces dialect spelling ⟨.key, .members done :: stack⟩ tail := by
  have comma : step dialect ⟨.after, .members done :: stack⟩ ',' =
      ⟨.key, .members done :: stack⟩ := rfl
  rw [read_pieces_raw, run_cons, comma,
    run_white dialect _ _ (newline_white layout depth) (key_skips dialect _)]

theorem read_pieces_close_array (layout : Layout) (depth : Nat) (done : List Json)
    (stack : List Frame) (tail : List Piece) :
    readPieces dialect spelling ⟨.after, .items done :: stack⟩
        (.raw (newline layout depth ++ [']']) :: tail) =
      readPieces dialect spelling (complete (.arr done) stack) tail := by
  rw [read_pieces_raw, run_append, run_white dialect _ _ (newline_white layout depth)
    fun c white => by simp [step, settledStep, white]]
  rfl

theorem read_pieces_close_object (layout : Layout) (depth : Nat) (done : List (Text × Json))
    (stack : List Frame) (tail : List Piece) :
    readPieces dialect spelling ⟨.after, .members done :: stack⟩
        (.raw (newline layout depth ++ ['\x7d']) :: tail) =
      readPieces dialect spelling (complete (.obj done) stack) tail := by
  rw [read_pieces_raw, run_append, run_white dialect _ _ (newline_white layout depth)
    fun c white => by simp [step, settledStep, white]]
  rfl

mutual

theorem read_pieces_write (layout : Layout) (depth : Nat) (document : Document)
    (stack : List Frame) (tail : List Piece)
    (fits : readable dialect stack.length document = true) (follows : Follows spelling tail) :
    readPieces dialect spelling ⟨.value, stack⟩ (write layout depth document ++ tail) =
      match readBack dialect spelling document with
      | some value => readPieces dialect spelling (complete value stack) tail
      | none => .malformed := by
  cases document with
  | number value =>
      simp only [write, readBack, List.singleton_append]
      rw [read_pieces_raw, run_number]
      exact read_pieces_bare dialect spelling _ _ _ _ (complete_number dialect value stack fits)
        follows
  | str value =>
      simp only [write, readBack, List.singleton_append]
      rw [read_pieces_string dialect spelling value stack tail follows.names]
      cases readBody dialect (spelling.body value) <;> rfl
  | arr items =>
      simp only [readable, Bool.and_eq_true] at fits
      obtain ⟨deep, fits⟩ := fits
      cases items with
      | nil =>
          simp only [write, readBack, readBackItems, List.isEmpty_nil, if_true, Option.map_some,
            List.singleton_append]
          have opened : startValue dialect .value stack '[' =
              if depthAllowed dialect stack.length then ⟨.firstItem, .items [] :: stack⟩
              else ⟨.malformed, stack⟩ := rfl
          rw [read_pieces_raw, run_cons, step, opened, if_pos deep]
          rfl
      | cons item items =>
          simp only [readableItems, Bool.and_eq_true, Bool.not_eq_true'] at fits
          obtain ⟨⟨-, itemFits⟩, itemsFit⟩ := fits
          have closes : Follows spelling (.raw (newline layout depth ++ [']']) :: tail) :=
            follows_close spelling layout depth ']' tail (by decide) (by decide) follows.names
          simp only [write, List.isEmpty_cons, Bool.false_eq_true, if_false, writeItems,
            List.cons_append, List.append_assoc, List.nil_append]
          rw [read_pieces_open_array dialect spelling layout (depth + 1) item stack _ deep,
            read_pieces_write layout (depth + 1) item (.items [] :: stack) _ itemFits
              (follows_items dialect spelling layout (depth + 1) _ items _ itemsFit closes)]
          simp only [readBack, readBackItems]
          cases readBack dialect spelling item with
          | none => rfl
          | some value =>
              simp only [complete, List.nil_append]
              rw [read_pieces_items layout (depth + 1) items [value] stack _ itemsFit closes]
              cases readBackItems dialect spelling items with
              | none => rfl
              | some values => exact read_pieces_close_array dialect spelling layout depth _ _ _
  | obj members =>
      simp only [readable, Bool.and_eq_true] at fits
      obtain ⟨deep, fits⟩ := fits
      cases members with
      | nil =>
          simp only [write, readBack, readBackMembers, List.isEmpty_nil, if_true, Option.map_some,
            List.singleton_append]
          have opened : startValue dialect .value stack '\x7b' =
              if depthAllowed dialect stack.length then ⟨.firstKey, .members [] :: stack⟩
              else ⟨.malformed, stack⟩ := rfl
          rw [read_pieces_raw, run_cons, step, opened, if_pos deep]
          rfl
      | cons member members =>
          obtain ⟨name, item⟩ := member
          simp only [readableMembers, Bool.and_eq_true] at fits
          obtain ⟨⟨named, itemFits⟩, membersFit⟩ := fits
          have closes : Follows spelling (.raw (newline layout depth ++ ['\x7d']) :: tail) :=
            follows_close spelling layout depth '\x7d' tail (by decide) (by decide) follows.names
          simp only [write, List.isEmpty_cons, Bool.false_eq_true, if_false, writeMembers,
            List.cons_append, List.append_assoc, List.nil_append]
          rw [read_pieces_open_object dialect spelling layout (depth + 1) name stack _ deep,
            read_pieces_name dialect spelling name layout [] stack _ named,
            read_pieces_write layout (depth + 1) item (.value [] name :: stack) _ itemFits
              (follows_members dialect spelling layout (depth + 1) _ members _ membersFit closes)]
          simp only [readBack, readBackMembers]
          cases readBack dialect spelling item with
          | none => rfl
          | some value =>
              simp only [complete, List.nil_append]
              rw [read_pieces_members layout (depth + 1) members [(name, value)] stack _ membersFit
                closes]
              cases readBackMembers dialect spelling members with
              | none => rfl
              | some values => exact read_pieces_close_object dialect spelling layout depth _ _ _

theorem read_pieces_items (layout : Layout) (depth : Nat) (items : List Document)
    (done : List Json) (stack : List Frame) (tail : List Piece)
    (fits : readableItems dialect (stack.length + 1) items = true)
    (follows : Follows spelling tail) :
    readPieces dialect spelling ⟨.after, .items done :: stack⟩
        (writeItems layout depth ',' items ++ tail) =
      match readBackItems dialect spelling items with
      | some values => readPieces dialect spelling ⟨.after, .items (done ++ values) :: stack⟩ tail
      | none => .malformed := by
  cases items with
  | nil => simp [writeItems, readBackItems]
  | cons item items =>
      simp only [readableItems, Bool.and_eq_true, Bool.not_eq_true'] at fits
      obtain ⟨⟨-, itemFits⟩, itemsFit⟩ := fits
      simp only [writeItems, List.cons_append, List.append_assoc]
      rw [read_pieces_comma_item,
        read_pieces_write layout depth item (.items done :: stack) _ itemFits
          (follows_items dialect spelling layout depth _ items tail itemsFit follows)]
      simp only [readBackItems]
      cases readBack dialect spelling item with
      | none => rfl
      | some value =>
          simp only [complete]
          rw [read_pieces_items layout depth items (done ++ [value]) stack tail itemsFit follows]
          cases readBackItems dialect spelling items <;> simp

theorem read_pieces_members (layout : Layout) (depth : Nat) (members : List (Text × Document))
    (done : List (Text × Json)) (stack : List Frame) (tail : List Piece)
    (fits : readableMembers dialect (stack.length + 1) members = true)
    (follows : Follows spelling tail) :
    readPieces dialect spelling ⟨.after, .members done :: stack⟩
        (writeMembers layout depth ',' members ++ tail) =
      match readBackMembers dialect spelling members with
      | some values => readPieces dialect spelling ⟨.after, .members (done ++ values) :: stack⟩ tail
      | none => .malformed := by
  cases members with
  | nil => simp [writeMembers, readBackMembers]
  | cons member members =>
      obtain ⟨name, item⟩ := member
      simp only [readableMembers, Bool.and_eq_true] at fits
      obtain ⟨⟨named, itemFits⟩, membersFit⟩ := fits
      simp only [writeMembers, List.cons_append]
      rw [read_pieces_comma_member,
        read_pieces_name dialect spelling name layout done stack _ named, List.append_assoc,
        read_pieces_write layout depth item (.value done name :: stack) _ itemFits
          (follows_members dialect spelling layout depth _ members tail membersFit follows)]
      simp only [readBackMembers]
      cases readBack dialect spelling item with
      | none => rfl
      | some value =>
          simp only [complete]
          rw [read_pieces_members layout depth members (done ++ [(name, value)]) stack tail
            membersFit follows]
          cases readBackMembers dialect spelling members <;> simp

end

/-- A written document is read as itself with its strings read one by one, or it
is malformed. -/
theorem read_written (layout : Layout) (document : Document)
    (fits : readable dialect 0 document = true) :
    read dialect (textOf spelling (write layout 0 document)) =
      match readBack dialect spelling document with
      | some value => .value value
      | none => .malformed := by
  have outcome := read_pieces_write dialect spelling layout 0 document [] [] fits
    ⟨rfl, fun c rest shape => by simp [textOf] at shape⟩
  rw [List.append_nil] at outcome
  exact outcome

mutual

def strings : Document → List Text
  | .number _ => []
  | .str value => [value]
  | .arr items => itemStrings items
  | .obj members => memberStrings members

def itemStrings : List Document → List Text
  | [] => []
  | item :: items => strings item ++ itemStrings items

def memberStrings : List (Text × Document) → List Text
  | [] => []
  | (_, value) :: members => strings value ++ memberStrings members

end

mutual

def toJson (change : Text → Text) : Document → Json
  | .number value => .number value
  | .str value => .str (change value)
  | .arr items => .arr (itemsToJson change items)
  | .obj members => .obj (membersToJson change members)

def itemsToJson (change : Text → Text) : List Document → List Json
  | [] => []
  | item :: items => toJson change item :: itemsToJson change items

def membersToJson (change : Text → Text) : List (Text × Document) → List (Text × Json)
  | [] => []
  | (name, value) :: members => (name, toJson change value) :: membersToJson change members

end

mutual

theorem read_back_changed (change : Text → Text) (document : Document)
    (read : ∀ text ∈ strings document,
      readBody dialect (spelling.body text) = some (change text)) :
    readBack dialect spelling document = some (toJson change document) := by
  cases document with
  | number value => rfl
  | str value => simp [readBack, toJson, read value (by simp [strings])]
  | arr items =>
      simp only [readBack, toJson]
      rw [read_back_items_changed change items read]
      rfl
  | obj members =>
      simp only [readBack, toJson]
      rw [read_back_members_changed change members read]
      rfl

theorem read_back_items_changed (change : Text → Text) (items : List Document)
    (read : ∀ text ∈ itemStrings items,
      readBody dialect (spelling.body text) = some (change text)) :
    readBackItems dialect spelling items = some (itemsToJson change items) := by
  cases items with
  | nil => rfl
  | cons item items =>
      simp only [readBackItems, itemsToJson]
      rw [read_back_changed change item fun text member =>
          read text (List.mem_append.mpr (Or.inl member)),
        read_back_items_changed change items fun text member =>
          read text (List.mem_append.mpr (Or.inr member))]
      rfl

theorem read_back_members_changed (change : Text → Text) (members : List (Text × Document))
    (read : ∀ text ∈ memberStrings members,
      readBody dialect (spelling.body text) = some (change text)) :
    readBackMembers dialect spelling members = some (membersToJson change members) := by
  cases members with
  | nil => rfl
  | cons member members =>
      obtain ⟨name, value⟩ := member
      simp only [readBackMembers, membersToJson]
      rw [read_back_changed change value fun text member =>
          read text (List.mem_append.mpr (Or.inl member)),
        read_back_members_changed change members fun text member =>
          read text (List.mem_append.mpr (Or.inr member))]
      rfl

end

mutual

theorem read_back_refused (document : Document) (text : Text) (within : text ∈ strings document)
    (refused : readBody dialect (spelling.body text) = none) :
    readBack dialect spelling document = none := by
  cases document with
  | number value => simp [strings] at within
  | str value =>
      obtain rfl : text = value := by simpa [strings] using within
      simp [readBack, refused]
  | arr items =>
      simp only [readBack]
      rw [read_back_items_refused items text within refused]
      rfl
  | obj members =>
      simp only [readBack]
      rw [read_back_members_refused members text within refused]
      rfl

theorem read_back_items_refused (items : List Document) (text : Text)
    (within : text ∈ itemStrings items) (refused : readBody dialect (spelling.body text) = none) :
    readBackItems dialect spelling items = none := by
  cases items with
  | nil => simp [itemStrings] at within
  | cons item items =>
      simp only [readBackItems]
      rcases List.mem_append.mp within with head | tail
      · rw [read_back_refused item text head refused]
      · rw [read_back_items_refused items text tail refused]
        cases readBack dialect spelling item <;> rfl

theorem read_back_members_refused (members : List (Text × Document)) (text : Text)
    (within : text ∈ memberStrings members)
    (refused : readBody dialect (spelling.body text) = none) :
    readBackMembers dialect spelling members = none := by
  cases members with
  | nil => simp [memberStrings] at within
  | cons member members =>
      obtain ⟨name, value⟩ := member
      simp only [readBackMembers]
      rcases List.mem_append.mp within with head | tail
      · rw [read_back_refused value text head refused]
      · rw [read_back_members_refused members text tail refused]
        cases readBack dialect spelling value <;> rfl

end

variable (other : Spelling)

mutual

/-- A document read back the same way from two spellings has the same strings in both. -/
theorem read_back_agree (document : Document) (value : Json)
    (left : readBack dialect spelling document = some value)
    (right : readBack dialect other document = some value) (text : Text)
    (within : text ∈ strings document) :
    ∃ back, readBody dialect (spelling.body text) = some back ∧
      readBody dialect (other.body text) = some back := by
  cases document with
  | number n => simp [strings] at within
  | str own =>
      obtain rfl : text = own := by simpa [strings] using within
      obtain ⟨leftText, readLeft, rfl⟩ := Option.map_eq_some_iff.mp left
      obtain ⟨rightText, readRight, same⟩ := Option.map_eq_some_iff.mp right
      cases same
      exact ⟨leftText, readLeft, readRight⟩
  | arr items =>
      obtain ⟨leftItems, readLeft, rfl⟩ := Option.map_eq_some_iff.mp left
      obtain ⟨rightItems, readRight, same⟩ := Option.map_eq_some_iff.mp right
      cases same
      exact read_back_items_agree items leftItems readLeft readRight text within
  | obj members =>
      obtain ⟨leftMembers, readLeft, rfl⟩ := Option.map_eq_some_iff.mp left
      obtain ⟨rightMembers, readRight, same⟩ := Option.map_eq_some_iff.mp right
      cases same
      exact read_back_members_agree members leftMembers readLeft readRight text within

theorem read_back_items_agree (items : List Document) (values : List Json)
    (left : readBackItems dialect spelling items = some values)
    (right : readBackItems dialect other items = some values) (text : Text)
    (within : text ∈ itemStrings items) :
    ∃ back, readBody dialect (spelling.body text) = some back ∧
      readBody dialect (other.body text) = some back := by
  cases items with
  | nil => simp [itemStrings] at within
  | cons item items =>
      simp only [readBackItems] at left right
      cases headLeft : readBack dialect spelling item with
      | none => simp [headLeft] at left
      | some value =>
          cases headRight : readBack dialect other item with
          | none => simp [headRight] at right
          | some otherValue =>
              simp only [headLeft, headRight] at left right
              obtain ⟨rest, readLeft, rfl⟩ := Option.map_eq_some_iff.mp left
              obtain ⟨otherRest, readRight, same⟩ := Option.map_eq_some_iff.mp right
              cases same
              rcases List.mem_append.mp within with head | tail
              · exact read_back_agree item value headLeft headRight text head
              · exact read_back_items_agree items rest readLeft readRight text tail

theorem read_back_members_agree (members : List (Text × Document)) (values : List (Text × Json))
    (left : readBackMembers dialect spelling members = some values)
    (right : readBackMembers dialect other members = some values) (text : Text)
    (within : text ∈ memberStrings members) :
    ∃ back, readBody dialect (spelling.body text) = some back ∧
      readBody dialect (other.body text) = some back := by
  cases members with
  | nil => simp [memberStrings] at within
  | cons member members =>
      obtain ⟨name, item⟩ := member
      simp only [readBackMembers] at left right
      cases headLeft : readBack dialect spelling item with
      | none => simp [headLeft] at left
      | some value =>
          cases headRight : readBack dialect other item with
          | none => simp [headRight] at right
          | some otherValue =>
              simp only [headLeft, headRight] at left right
              obtain ⟨rest, readLeft, rfl⟩ := Option.map_eq_some_iff.mp left
              obtain ⟨otherRest, readRight, same⟩ := Option.map_eq_some_iff.mp right
              cases same
              rcases List.mem_append.mp within with head | tail
              · exact read_back_agree item value headLeft headRight text head
              · exact read_back_members_agree members rest readLeft readRight text tail

end

end

end TfuServer.Json
