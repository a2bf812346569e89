import TfuServer.Sql.Literal

/-!
# Statements

A text holds the statements between its semicolons. The grammar covers the
statements this kind of program sends: a select from one table, an insert of
one full row, an update of columns by name.
-/

namespace TfuServer.Sql

set_option autoImplicit false

def splitFrom : List Token → List Token → List (List Token)
  | current, [] => if current = [] then [] else [current]
  | current, token :: rest =>
      if token = .sym ';' then
        if current = [] then splitFrom [] rest else current :: splitFrom [] rest
      else splitFrom (current ++ [token]) rest

/-- The token lists of the statements of a text, or `none` if it cannot be lexed. -/
def readStatements (text : Text) : Option (List (List Token)) := (lex text).map (splitFrom [])

inductive Value where
  | number (text : Text)
  | literal (value : Text)
  | name (text : Text)
  deriving DecidableEq, Repr

inductive Condition where
  | all
  | equals (column : Text) (value : Value)
  | like (column : Text) (pattern : Text)
  deriving DecidableEq, Repr

inductive Statement where
  | select (table : Text) (condition : Condition) (shuffled : Bool)
  | insert (table : Text) (values : List Value)
  | update (table : Text) (assignments : List (Text × Value)) (condition : Condition)
  deriving DecidableEq, Repr

def isKeyword (keyword : String) (word : Text) : Bool := word.map Char.toLower == keyword.toList

def parseValue : Token → Option Value
  | .number text => some (.number text)
  | .literal value => some (.literal value)
  | .word text => some (.name text)
  | .sym _ => none

/-- A minus before a name; before a constant it is arithmetic, which is not covered. -/
def parseNegated (text : Text) : Option Value :=
  if isKeyword "null" text || isKeyword "true" text || isKeyword "false" text then none
  else some (.name ('-' :: text))

def parseValues : List Token → Option (List Value)
  | [token, .sym ')'] => (parseValue token).map fun value => [value]
  | [.sym '-', .word text, .sym ')'] => (parseNegated text).map fun value => [value]
  | token :: .sym ',' :: rest => do
      let value ← parseValue token
      let values ← parseValues rest
      some (value :: values)
  | .sym '-' :: .word text :: .sym ',' :: rest => do
      let value ← parseNegated text
      let values ← parseValues rest
      some (value :: values)
  | _ => none

def parseCondition : List Token → Option Condition
  | [] => some .all
  | [.word keyword, .word column, .sym '=', token] =>
      if isKeyword "where" keyword then (parseValue token).map (.equals column) else none
  | [.word keyword, .word column, .word like, .literal pattern] =>
      if isKeyword "where" keyword && isKeyword "like" like then some (.like column pattern)
      else none
  | _ => none

def parseAssignments : List Token → Option (List (Text × Value) × List Token)
  | .word column :: .sym '=' :: token :: .sym ',' :: rest => do
      let value ← parseValue token
      let (assignments, after) ← parseAssignments rest
      some ((column, value) :: assignments, after)
  | .word column :: .sym '=' :: .sym '-' :: .word text :: .sym ',' :: rest => do
      let value ← parseNegated text
      let (assignments, after) ← parseAssignments rest
      some ((column, value) :: assignments, after)
  | .word column :: .sym '=' :: .sym '-' :: .word text :: rest =>
      (parseNegated text).map fun value => ([(column, value)], rest)
  | .word column :: .sym '=' :: token :: rest =>
      (parseValue token).map fun value => ([(column, value)], rest)
  | _ => none

def parseStatement : List Token → Option Statement
  | .word verb :: .sym '*' :: .word kw :: .word table :: rest =>
      if isKeyword "select" verb && isKeyword "from" kw then
        match rest with
        | [.word order, .word by_, .word rand, .sym '(', .sym ')'] =>
            if isKeyword "order" order && isKeyword "by" by_ && isKeyword "rand" rand then
              some (.select table .all true)
            else none
        | _ => (parseCondition rest).map fun condition => .select table condition false
      else none
  | .word verb :: .word kw :: .word table :: .word values :: .sym '(' :: rest =>
      if isKeyword "insert" verb && isKeyword "into" kw && isKeyword "values" values then
        (parseValues rest).map (.insert table)
      else none
  | .word verb :: .word table :: .word kw :: rest =>
      if isKeyword "update" verb && isKeyword "set" kw then do
        let (assignments, after) ← parseAssignments rest
        let condition ← parseCondition after
        some (.update table assignments condition)
      else none
  | _ => none

/-- The statement of a text that holds exactly one and lies in the grammar. -/
def readStatement (text : Text) : Option Statement :=
  match readStatements text with
  | some [tokens] => parseStatement tokens
  | _ => none

theorem split_from_single (current tokens : List Token) (some_tokens : current ++ tokens ≠ [])
    (single : .sym ';' ∉ tokens) :
    splitFrom current (tokens ++ [.sym ';']) = [current ++ tokens] := by
  induction tokens generalizing current with
  | nil =>
      have some_current : current ≠ [] := by simpa using some_tokens
      simp [splitFrom, some_current]
  | cons token tokens ih =>
      have other : token ≠ .sym ';' := fun same => single (by simp [same])
      simp only [List.cons_append, splitFrom, if_neg other]
      rw [ih (current ++ [token]) (by simp) fun member => single (List.mem_cons_of_mem _ member)]
      simp

theorem split_from_begins (current tokens rest : List Token) (single : .sym ';' ∉ tokens)
    (some_tokens : current ++ tokens ≠ []) :
    ∃ more others, splitFrom current (tokens ++ rest) = (current ++ tokens ++ more) :: others := by
  induction tokens generalizing current with
  | nil =>
      have some_current : current ≠ [] := by simpa using some_tokens
      clear some_tokens
      induction rest generalizing current with
      | nil => exact ⟨[], [], by simp [splitFrom, some_current]⟩
      | cons token rest ih =>
          by_cases semicolon : token = .sym ';'
          · exact ⟨[], splitFrom [] rest, by simp [splitFrom, semicolon, some_current]⟩
          · obtain ⟨more, others, same⟩ := ih (current ++ [token]) (by simp)
            simp only [List.nil_append] at same
            exact ⟨token :: more, others, by simp [splitFrom, semicolon, same]⟩
  | cons token tokens ih =>
      have other : token ≠ .sym ';' := fun same => single (by simp [same])
      obtain ⟨more, others, same⟩ :=
        ih (current ++ [token]) (fun member => single (List.mem_cons_of_mem _ member)) (by simp)
      exact ⟨more, others, by simp [splitFrom, other, same]⟩

theorem split_from_empty (tokens : List Token) :
    splitFrom [] tokens = [] ↔ ∀ token ∈ tokens, token = .sym ';' := by
  induction tokens with
  | nil => simp [splitFrom]
  | cons token tokens ih =>
      rw [List.forall_mem_cons]
      by_cases semicolon : token = .sym ';'
      · simp [splitFrom, semicolon, ih]
      · obtain ⟨more, others, same⟩ := split_from_begins [token] [] tokens (by simp) (by simp)
        rw [List.nil_append] at same
        simp [splitFrom, semicolon, same]

/-- What follows adds nothing to the statement and no other one, if it is semicolons. -/
theorem split_from_alone (current target tokens : List Token) (some_tokens : current ≠ [])
    (same : target.length = current.length) :
    splitFrom current tokens = [target] ↔
      target = current ∧ ∀ token ∈ tokens, token = .sym ';' := by
  cases tokens with
  | nil => simp [splitFrom, some_tokens, eq_comm]
  | cons token tokens =>
      rw [List.forall_mem_cons]
      by_cases semicolon : token = .sym ';'
      · rw [← split_from_empty]
        simp only [splitFrom, semicolon, if_true, some_tokens, if_false, List.cons.injEq, true_and]
        exact and_congr eq_comm Iff.rfl
      · simp only [splitFrom, semicolon, if_false, false_and, and_false, iff_false]
        obtain ⟨more, others, begun⟩ :=
          split_from_begins (current ++ [token]) [] tokens (by simp) (by simp)
        rw [List.nil_append] at begun
        rw [begun]
        intro alone
        have longer := congrArg List.length (List.cons.inj alone).1
        simp only [List.length_append, List.length_singleton, List.length_nil] at longer
        omega

end TfuServer.Sql
