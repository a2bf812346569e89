import TfuServer.Sql.FirstColumn

/-!
# Inserts that update

The two kinds of statement that only the import of the dataset sends: an insert
of a row that updates the rows of its key when there are any, and a select of one
column.
-/

namespace TfuServer.Sql

set_option autoImplicit false

inductive Further where
  | upsert (table : Text) (values : List Value) (assignments : List (Text × Value))
  | column (column table : Text)
  deriving DecidableEq, Repr

def parseRow : List Token → Option (List Value × List Token)
  | token :: .sym ')' :: rest => (parseValue token).map fun value => ([value], rest)
  | .sym '-' :: .word text :: .sym ')' :: rest =>
      (parseNegated text).map fun value => ([value], rest)
  | token :: .sym ',' :: rest => do
      let value ← parseValue token
      let (values, after) ← parseRow rest
      some (value :: values, after)
  | .sym '-' :: .word text :: .sym ',' :: rest => do
      let value ← parseNegated text
      let (values, after) ← parseRow rest
      some (value :: values, after)
  | _ => none

def parseOnDuplicate : List Token → Option (List (Text × Value))
  | .word on :: .word duplicate :: .word key :: .word update :: rest =>
      if isKeyword "on" on && isKeyword "duplicate" duplicate && isKeyword "key" key &&
          isKeyword "update" update then
        match parseAssignments rest with
        | some (assignments, []) => some assignments
        | _ => none
      else none
  | _ => none

def parseFurther : List Token → Option Further
  | [.word verb, .word column, .word kw, .word table] =>
      if isKeyword "select" verb && isKeyword "from" kw then some (.column column table) else none
  | .word verb :: .word kw :: .word table :: .word values :: .sym '(' :: rest =>
      if isKeyword "insert" verb && isKeyword "into" kw && isKeyword "values" values then do
        let (row, after) ← parseRow rest
        let assignments ← parseOnDuplicate after
        some (.upsert table row assignments)
      else none
  | _ => none

def readFurther (text : Text) : Option Further :=
  match readStatements text with
  | some [tokens] => parseFurther tokens
  | _ => none

/-- The tokens a value is written with. -/
inductive Spells : List Token → Value → Prop where
  | plain (token : Token) (value : Value) (parsed : parseValue token = some value) :
      Spells [token] value
  | negated (text : Text) (value : Value) (parsed : parseNegated text = some value) :
      Spells [.sym '-', .word text] value

section
variable {tokens rest : List Token} {value : Value} (spelled : Spells tokens value)
include spelled

theorem parse_row_value :
    parseRow (tokens ++ .sym ',' :: rest) =
      (parseRow rest).map fun parsed => (value :: parsed.1, parsed.2) := by
  cases spelled with
  | plain token value parsed =>
      rw [List.singleton_append, parseRow, parsed, Option.map_eq_bind]
      rfl
  | negated text value parsed =>
      rw [List.cons_append, List.singleton_append, parseRow, parsed, Option.map_eq_bind]
      rfl

theorem parse_row_last : parseRow (tokens ++ .sym ')' :: rest) = some ([value], rest) := by
  cases spelled with
  | plain token value parsed =>
      rw [List.singleton_append, parseRow, parsed]
      rfl
  | negated text value parsed =>
      rw [List.cons_append, List.singleton_append, parseRow, parsed]
      rfl

theorem parse_values_value :
    parseValues (tokens ++ .sym ',' :: rest) = (parseValues rest).map (value :: ·) := by
  cases spelled with
  | plain token value parsed =>
      rw [List.singleton_append, parseValues, parsed, Option.map_eq_bind]
      rfl
  | negated text value parsed =>
      rw [List.cons_append, List.singleton_append, parseValues, parsed, Option.map_eq_bind]
      rfl

theorem parse_values_open (next : Token) :
    parseValues (tokens ++ .sym ')' :: next :: rest) = none := by
  cases spelled with
  | plain token value parsed =>
      rw [List.singleton_append]
      cases token with
      | sym c => cases parsed
      | word | number | literal => rfl
  | negated text value parsed => rfl

theorem parse_assignment (column : Text) :
    parseAssignments (.word column :: .sym '=' :: (tokens ++ .sym ',' :: rest)) =
      (parseAssignments rest).map fun parsed => ((column, value) :: parsed.1, parsed.2) := by
  cases spelled with
  | plain token value parsed =>
      rw [List.singleton_append, parseAssignments, parsed, Option.map_eq_bind]
      rfl
  | negated text value parsed =>
      rw [List.cons_append, List.singleton_append, parseAssignments, parsed, Option.map_eq_bind]
      rfl

theorem parse_assignment_last (column : Text) :
    parseAssignments (.word column :: .sym '=' :: tokens) = some ([(column, value)], []) := by
  cases spelled with
  | plain token value parsed =>
      rw [parseAssignments, parsed]
      · rfl
      · simp
      · simp
      · simp
  | negated text value parsed =>
      rw [parseAssignments, parsed]
      · rfl
      · simp

end

section
variable (settings : Settings) {columns : List Column}

/-- The first column is the key. The new row has to be in order also when it is not inserted. -/
def upsertRows (values : List Value) (assignments : List (Text × Value)) (rows : Table columns) :
    Option (Table columns) := do
  let fresh ← insertRow settings columns values
  let k ← firstKey fresh
  if Keyed.rowsOf firstKey rows k = [] then some (rows ++ [fresh])
  else
    let cells ← assignedCells settings columns assignments
    some (Keyed.changeRows firstKey k (fun row => row.assign cells) rows)

/-- An update of the later columns makes of a row with the key the row that is inserted. -/
theorem assign_inserted (values : List Value) (assigned : List (Text × Cell))
    (fresh row : Row columns) (k : Int) (complete : values.length = columns.length)
    (typed : ∀ column ∈ columns, columnType columns column.name = some column.type)
    (distinct : distinctNames columns = true)
    (inserted : insertCells settings columns values = some fresh.cells)
    (has : firstKey fresh = some k) (here : firstKey row = some k)
    (changed : assignedCells settings columns
      ((columns.tail.map Column.name).zip values.tail) = some assigned) :
    row.assign assigned = fresh := by
  have heads := first_key_head row fresh k here has
  cases columns with
  | nil =>
      obtain ⟨cells, fits⟩ := fresh
      cases cells with
      | nil => cases has
      | cons cell cells => cases fits
  | cons column columns =>
      cases values with
      | nil => simp at complete
      | cons value values =>
          simp only [insertCells, Option.bind_eq_bind, Option.bind_eq_some_iff,
            Option.some.injEq] at inserted
          obtain ⟨cell, -, rest, insertedRest, shape⟩ := inserted
          rw [← shape, List.head?_cons] at heads
          obtain ⟨new, insertedNew, written⟩ := assign_later_columns settings values assigned row
            cell (by simpa using complete)
            (fun other within => typed other (List.mem_cons_of_mem _ within)) distinct heads changed
          apply Row.ext_cells
          rw [written, ← shape, Option.some.inj (insertedNew.symm.trans insertedRest)]

/-- When the assignments give the later columns their values, inserting and updating agree. -/
theorem upsert_rows_covers (values : List Value) (assignments : List (Text × Value))
    (rows after : Table columns)
    (covers : assignments = (columns.tail.map Column.name).zip values.tail)
    (complete : values.length = columns.length)
    (typed : ∀ column ∈ columns, columnType columns column.name = some column.type)
    (distinct : distinctNames columns = true)
    (upserted : upsertRows settings values assignments rows = some after) :
    ∃ (fresh : Row columns) (k : Int), insertCells settings columns values = some fresh.cells ∧
      firstKey fresh = some k ∧
      after = Keyed.upsert firstKey k fresh (fun _ => fresh) rows := by
  simp only [upsertRows, Option.bind_eq_bind, Option.bind_eq_some_iff] at upserted
  obtain ⟨fresh, inserted, k, has, rest⟩ := upserted
  have cells := (insert_row_some settings columns values fresh).mp inserted
  refine ⟨fresh, k, cells, has, ?_⟩
  subst covers
  unfold Keyed.upsert
  split_ifs at rest ⊢ with absent
  · exact (Option.some.inj rest).symm
  · obtain ⟨assigned, changed, same⟩ := Option.bind_eq_some_iff.mp rest
    rw [← Option.some.inj same]
    refine List.map_congr_left fun row member => ?_
    split_ifs with here
    · exact assign_inserted settings values assigned fresh row k complete typed distinct cells has
        here changed
    · rfl

end

section
variable (settings : Settings) {catalog : Catalog}

def executeUpsert (database : Database catalog) (table : Text) (values : List Value)
    (assignments : List (Text × Value)) : Option (Database catalog) := do
  let name ← catalog.find table
  let rows ← upsertRows settings values assignments (database name)
  some (Function.update database name rows)

theorem execute_upsert_covers (database after : Database catalog) {table : Text}
    {name : catalog.Name} (found : catalog.find table = some name) (values : List Value)
    (assignments : List (Text × Value))
    (covers : assignments = ((catalog.columns name).tail.map Column.name).zip values.tail)
    (complete : values.length = (catalog.columns name).length)
    (typed : ∀ column ∈ catalog.columns name,
      columnType (catalog.columns name) column.name = some column.type)
    (distinct : distinctNames (catalog.columns name) = true)
    (executed : executeUpsert settings database table values assignments = some after) :
    ∃ (fresh : Row (catalog.columns name)) (k : Int),
      insertRow settings (catalog.columns name) values = some fresh ∧ firstKey fresh = some k ∧
      after = Function.update database name
        (Keyed.upsert firstKey k fresh (fun _ => fresh) (database name)) := by
  simp only [executeUpsert, found, Option.bind_eq_bind, Option.bind_some,
    Option.bind_eq_some_iff, Option.some.injEq] at executed
  obtain ⟨rows, upserted, rfl⟩ := executed
  obtain ⟨fresh, k, inserted, has, rfl⟩ := upsert_rows_covers settings values assignments
    (database name) rows covers complete typed distinct upserted
  exact ⟨fresh, k, (insert_row_some settings _ values fresh).mpr inserted, has, rfl⟩

def queryColumn (database : Database catalog) (column table : Text) : Option (List DataRow) := do
  let name ← catalog.find table
  let found ← (catalog.columns name).find? fun other => sameName other.name column
  (database name).mapM fun row =>
    (cellAt (catalog.columns name) row.cells column).map fun cell => ⟨[found], [cell]⟩

end

end TfuServer.Sql
