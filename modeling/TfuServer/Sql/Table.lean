import TfuServer.Sql.Statement
import Mathlib.Data.List.Induction
import Mathlib.Logic.Function.Basic

/-!
# Typed tables and what a statement does to them

A row carries the proof that its cells have the types of its columns, so a
statement can only put values of the declared type into a table. No key is
declared: two rows may have the same first cell.
-/

namespace TfuServer.Sql

set_option autoImplicit false

inductive ColumnType where
  | int | bigint | real | decimal | text | date | bool
  deriving DecidableEq, Repr

/-- A stored date. MySQL also stores dates whose month or day is zero. -/
structure Date where
  year : Nat
  month : Nat
  day : Nat
  deriving DecidableEq, Repr

inductive Cell where
  | null
  | int (n : Int32)
  | bigint (n : Int64)
  | real (number : Numeral.JsonNumber)
  | decimal (number : Numeral.JsonNumber)
  | text (value : Text)
  | date (value : Date)
  | bool (value : Bool)
  deriving DecidableEq

def Cell.fits : ColumnType → Cell → Bool
  | _, .null => true
  | .int, .int _ => true
  | .bigint, .bigint _ => true
  | .real, .real _ => true
  | .decimal, .decimal _ => true
  | .text, .text _ => true
  | .date, .date _ => true
  | .bool, .bool _ => true
  | _, _ => false

structure Column where
  name : Text
  type : ColumnType
  deriving DecidableEq, Repr

def cellsFit : List Column → List Cell → Bool
  | [], [] => true
  | column :: columns, cell :: cells => cell.fits column.type && cellsFit columns cells
  | _, _ => false

structure Row (columns : List Column) where
  cells : List Cell
  fits : cellsFit columns cells = true
  deriving DecidableEq

theorem Row.ext_cells {columns : List Column} {left right : Row columns}
    (same : left.cells = right.cells) : left = right := by
  cases left
  cases right
  cases same
  rfl

abbrev Table (columns : List Column) := List (Row columns)

/-- What the server itself is set to: the dates it accepts beside `yyyy-MM-dd`, what it
makes of a fraction in a column of whole numbers, and the characters its collation takes
for equal. -/
structure Settings where
  otherDate : Text → Option Date
  rounded : Text → Option Int
  sameChar : Char → Char → Bool

def daysInMonth (year month : Nat) : Nat :=
  if month = 2 then
    if year % 4 = 0 ∧ (year % 100 ≠ 0 ∨ year % 400 = 0) then 29 else 28
  else if month = 4 ∨ month = 6 ∨ month = 9 ∨ month = 11 then 30 else 31

def Date.valid (date : Date) : Bool :=
  1 ≤ date.year && date.year ≤ 9999 && 1 ≤ date.month && date.month ≤ 12 && 1 ≤ date.day &&
    date.day ≤ daysInMonth date.year date.month

def paddedDigits : Nat → Nat → Text
  | 0, _ => []
  | width + 1, n => paddedDigits width (n / 10) ++ [Nat.digitChar (n % 10)]

def Date.format (date : Date) : Text :=
  paddedDigits 4 date.year ++ '-' :: paddedDigits 2 date.month ++ '-' :: paddedDigits 2 date.day

/-- Reads `yyyy-MM-dd`, calendar dates only. -/
def readIsoDate (text : Text) : Option Date :=
  match text with
  | [y₁, y₂, y₃, y₄, '-', m₁, m₂, '-', d₁, d₂] => do
      let year ← Numeral.readNat [y₁, y₂, y₃, y₄]
      let month ← Numeral.readNat [m₁, m₂]
      let day ← Numeral.readNat [d₁, d₂]
      let date : Date := ⟨year, month, day⟩
      if date.valid then some date else none
  | _ => none

theorem digit_char_of_digit (c : Char) (digit : c.isDigit = true) :
    Nat.digitChar (c.toNat - '0'.toNat) = c ∧ c.toNat - '0'.toNat < 10 := by
  simp only [Char.isDigit, Bool.and_eq_true, decide_eq_true_eq, ge_iff_le, UInt32.le_iff_toNat_le]
    at digit
  obtain ⟨low, high⟩ : 48 ≤ c.toNat ∧ c.toNat ≤ 57 := digit
  have zero : '0'.toNat = 48 := rfl
  rw [zero]
  refine ⟨?_, by omega⟩
  rw [← Char.ofNat_toNat c]
  generalize c.toNat = n at low high
  interval_cases n <;> rfl

theorem padded_digits_of_digits (text : Text) (digits : text.all Char.isDigit = true) :
    paddedDigits text.length (Nat.ofDigitChars 10 text 0) = text := by
  induction text using List.reverseRecOn with
  | nil => rfl
  | append_singleton text c ih =>
      rw [List.all_append, Bool.and_eq_true] at digits
      obtain ⟨same, small⟩ := digit_char_of_digit c (by simpa using digits.2)
      rw [List.length_append, List.length_singleton, paddedDigits, Nat.ofDigitChars_append,
        Nat.ofDigitChars_cons, Nat.ofDigitChars_nil]
      have rest : (10 * Nat.ofDigitChars 10 text 0 + (c.toNat - '0'.toNat)) / 10 =
          Nat.ofDigitChars 10 text 0 := by omega
      have last : (10 * Nat.ofDigitChars 10 text 0 + (c.toNat - '0'.toNat)) % 10 =
          c.toNat - '0'.toNat := by omega
      rw [rest, last, same, ih digits.1]

theorem padded_digits_read (text : Text) (n : Nat) (read : Numeral.readNat text = some n) :
    paddedDigits text.length n = text := by
  unfold Numeral.readNat at read
  split_ifs at read with digits
  cases read
  exact padded_digits_of_digits text digits.2

theorem format_read (text : Text) (date : Date) (read : readIsoDate text = some date) :
    date.format = text := by
  unfold readIsoDate at read
  split at read
  · simp only [Option.bind_eq_bind, Option.bind_eq_some_iff, Option.ite_none_right_eq_some,
      Option.some.injEq] at read
    obtain ⟨year, readYear, month, readMonth, day, readDay, -, rfl⟩ := read
    have years := padded_digits_read _ _ readYear
    have months := padded_digits_read _ _ readMonth
    have days := padded_digits_read _ _ readDay
    simp only [List.length_cons, List.length_nil] at years months days
    simp [Date.format, years, months, days]
  · cases read

def readDate (settings : Settings) (text : Text) : Option Date :=
  match readIsoDate text with
  | some date => some date
  | none => settings.otherDate text

/-- The whole number that a numeral is stored as. -/
def Settings.whole (settings : Settings) (text : Text) : Option Int :=
  (Numeral.readInt text).or (settings.rounded text)

@[simp] theorem whole_int_text (settings : Settings) (n : Int) :
    settings.whole (Numeral.intText n) = some n := by
  simp [Settings.whole, Numeral.read_int_text]

def numberCell (make : Numeral.JsonNumber → Cell) (text : Text) : Option Cell :=
  if wellFormed : Numeral.isNumber text = true then some (make ⟨text, wellFormed⟩) else none

/-- The cell a value becomes in a column of the type; `none` is an error. -/
def coerce (settings : Settings) : ColumnType → Value → Option Cell
  | .int, .number text => (settings.whole text).bind fun n => (Numeral.toInt32 n).map .int
  | .bigint, .number text => (settings.whole text).bind fun n => (Numeral.toInt64 n).map .bigint
  | .real, .number text => numberCell .real text
  | .decimal, .number text => numberCell .decimal text
  | .text, .literal value => some (.text value)
  | .text, .number text => some (.text text)
  | .date, .literal value => (readDate settings value).map .date
  | .bool, .number text => (Numeral.readInt text).map fun n => .bool (n != 0)
  | type, .name word =>
      if isKeyword "null" word then some .null
      else if type = .bool then
        if isKeyword "true" word then some (.bool true)
        else if isKeyword "false" word then some (.bool false) else none
      else none
  | _, _ => none

theorem coerce_fits (settings : Settings) (type : ColumnType) (value : Value) (cell : Cell)
    (coerced : coerce settings type value = some cell) : cell.fits type = true := by
  cases type <;> cases value <;>
    simp only [coerce, numberCell, Option.bind_eq_some_iff, Option.map_eq_some_iff,
      Option.some.injEq, Option.dite_none_right_eq_some, reduceCtorEq, if_false] at coerced <;>
    grind [Cell.fits]

def sameName (left right : Text) : Bool := left.map Char.toLower == right.map Char.toLower

def cellAt : List Column → List Cell → Text → Option Cell
  | column :: columns, cell :: cells, name =>
      if sameName column.name name then some cell else cellAt columns cells name
  | _, _, _ => none

def setCell : List Column → List Cell → Text → Cell → List Cell
  | column :: columns, cell :: cells, name, fresh =>
      if sameName column.name name then
        (if fresh.fits column.type then fresh else cell) :: cells
      else cell :: setCell columns cells name fresh
  | _, cells, _, _ => cells

theorem set_cell_fits (columns : List Column) (cells : List Cell) (name : Text) (fresh : Cell)
    (fits : cellsFit columns cells = true) :
    cellsFit columns (setCell columns cells name fresh) = true := by
  induction columns generalizing cells with
  | nil => cases cells <;> simp_all [setCell]
  | cons column columns ih =>
      cases cells with
      | nil => simp [cellsFit] at fits
      | cons cell cells =>
          obtain ⟨head, tail⟩ := Bool.and_eq_true_iff.mp fits
          simp only [setCell]
          split_ifs with here type
          · simp [cellsFit, type, tail]
          · simp [cellsFit, head, tail]
          · simp [cellsFit, head, ih cells tail]

def Row.set {columns : List Column} (row : Row columns) (name : Text) (cell : Cell) :
    Row columns :=
  ⟨setCell columns row.cells name cell, set_cell_fits columns row.cells name cell row.fits⟩

def insertCells (settings : Settings) : List Column → List Value → Option (List Cell)
  | [], [] => some []
  | column :: columns, value :: values => do
      let cell ← coerce settings column.type value
      let cells ← insertCells settings columns values
      some (cell :: cells)
  | _, _ => none

theorem insert_cells_cons (settings : Settings) (column : Column) (columns : List Column)
    (value : Value) (values : List Value) (cells : List Cell) :
    insertCells settings (column :: columns) (value :: values) = some cells ↔
      ∃ cell rest, coerce settings column.type value = some cell ∧
        insertCells settings columns values = some rest ∧ cells = cell :: rest := by
  simp only [insertCells, Option.bind_eq_bind, Option.bind_eq_some_iff, Option.some.injEq]
  constructor
  · rintro ⟨cell, coerced, rest, tail, same⟩
    exact ⟨cell, rest, coerced, tail, same.symm⟩
  · rintro ⟨cell, rest, coerced, tail, same⟩
    exact ⟨cell, coerced, rest, tail, same.symm⟩

theorem insert_cells_fit (settings : Settings) (columns : List Column) (values : List Value)
    (cells : List Cell) (inserted : insertCells settings columns values = some cells) :
    cellsFit columns cells = true := by
  induction columns generalizing values cells with
  | nil =>
      cases values with
      | nil =>
          obtain rfl : [] = cells := Option.some.inj inserted
          rfl
      | cons value values => simp [insertCells] at inserted
  | cons column columns ih =>
      cases values with
      | nil => simp [insertCells] at inserted
      | cons value values =>
          obtain ⟨cell, rest, coerced, tail, rfl⟩ :=
            (insert_cells_cons settings column columns value values cells).mp inserted
          simp [cellsFit, coerce_fits settings _ _ _ coerced, ih values rest tail]

def insertRow (settings : Settings) (columns : List Column) (values : List Value) :
    Option (Row columns) :=
  match inserted : insertCells settings columns values with
  | some cells => some ⟨cells, insert_cells_fit settings columns values cells inserted⟩
  | none => none

theorem insert_row_some (settings : Settings) (columns : List Column) (values : List Value)
    (row : Row columns) :
    insertRow settings columns values = some row ↔
      insertCells settings columns values = some row.cells := by
  unfold insertRow
  split
  · rename_i cells found
    refine Iff.trans ?_ (Eq.congr_left found).symm
    rw [Option.some.injEq, Option.some.injEq]
    exact ⟨fun same => congrArg Row.cells same, fun same => Row.ext_cells same⟩
  · rename_i found
    simp [found]

/-- The whole number at the start of a text, zero when there is none. -/
def leadingInt (text : Text) : Int :=
  match text with
  | '-' :: digits => -(Nat.ofDigitChars 10 (digits.takeWhile Char.isDigit) 0 : Int)
  | digits => (Nat.ofDigitChars 10 (digits.takeWhile Char.isDigit) 0 : Int)

/-- A comparison with a whole number; a text is compared by the number it starts with. -/
def cellEquals : Cell → Value → Bool
  | .int n, .number text => Numeral.readInt text == some n.toInt
  | .bigint n, .number text => Numeral.readInt text == some n.toInt
  | .text value, .number text => Numeral.readInt text == some (leadingInt value)
  | _, _ => false

/-- `%` stands for any text, `_` for one character, a backslash for the next one itself. -/
def likeMatches (same : Char → Char → Bool) : Text → Text → Bool
  | [], text => text.isEmpty
  | '%' :: pattern, text => text.tails.any fun rest => likeMatches same pattern rest
  | '_' :: pattern, _ :: text => likeMatches same pattern text
  | '\\' :: c :: pattern, d :: text => same c d && likeMatches same pattern text
  | c :: pattern, d :: text => same c d && likeMatches same pattern text
  | _ :: _, [] => false

def Condition.holds (settings : Settings) (columns : List Column) (cells : List Cell) :
    Condition → Bool
  | .all => true
  | .equals column value =>
      match cellAt columns cells column with
      | some cell => cellEquals cell value
      | none => false
  | .like column pattern =>
      match cellAt columns cells column with
      | some (.text value) => likeMatches settings.sameChar pattern value
      | _ => false

def Condition.known (columns : List Column) : Condition → Bool
  | .all => true
  | .equals column _ => columns.any fun other => sameName other.name column
  | .like column _ => columns.any fun other => sameName other.name column

def columnType (columns : List Column) (name : Text) : Option ColumnType :=
  (columns.find? fun column => sameName column.name name).map Column.type

def assignedCells (settings : Settings) (columns : List Column) :
    List (Text × Value) → Option (List (Text × Cell))
  | [] => some []
  | (name, value) :: rest => do
      let type ← columnType columns name
      let cell ← coerce settings type value
      let cells ← assignedCells settings columns rest
      some ((name, cell) :: cells)

def Row.assign {columns : List Column} (row : Row columns) (cells : List (Text × Cell)) :
    Row columns :=
  cells.foldl (fun row assigned => row.set assigned.1 assigned.2) row

/-- An assignment that fails only matters when there is a row to change. -/
def updateRows (settings : Settings) {columns : List Column} (assignments : List (Text × Value))
    (condition : Condition) (rows : Table columns) : Option (Table columns) :=
  let meets := fun row : Row columns => condition.holds settings columns row.cells
  match assignedCells settings columns assignments with
  | some cells => some (rows.map fun row => if meets row then row.assign cells else row)
  | none => if rows.any meets then none else some rows

/-- The tables there are: their names and columns. -/
structure Catalog where
  Name : Type
  decEq : DecidableEq Name
  find : Text → Option Name
  columns : Name → List Column

instance (catalog : Catalog) : DecidableEq catalog.Name := catalog.decEq

abbrev Database (catalog : Catalog) := (name : catalog.Name) → Table (catalog.columns name)

/-- A row as a client library hands it out, with the names of its columns. -/
structure DataRow where
  columns : List Column
  cells : List Cell
  deriving DecidableEq

def DataRow.cell (row : DataRow) (name : Text) : Option Cell := cellAt row.columns row.cells name

def Row.dataRow {columns : List Column} (row : Row columns) : DataRow := ⟨columns, row.cells⟩

section
variable (settings : Settings) {catalog : Catalog}

/-- What a statement does to the tables; `none` is an error and changes nothing. -/
def execute (database : Database catalog) : Statement → Option (Database catalog)
  | .select table condition _ => do
      let name ← catalog.find table
      if condition.known (catalog.columns name) then some database else none
  | .insert table values => do
      let name ← catalog.find table
      let row ← insertRow settings (catalog.columns name) values
      some (Function.update database name (database name ++ [row]))
  | .update table assignments condition => do
      let name ← catalog.find table
      if condition.known (catalog.columns name) then
        let rows ← updateRows settings assignments condition (database name)
        some (Function.update database name rows)
      else none

/-- The rows a select returns; `order` is the order a shuffled one comes in. -/
def query (order : List DataRow → List DataRow) (database : Database catalog) :
    Statement → Option (List DataRow)
  | .select table condition shuffled => do
      let name ← catalog.find table
      if condition.known (catalog.columns name) then
        let rows := (database name).filter fun row =>
          condition.holds settings (catalog.columns name) row.cells
        let found := rows.map Row.dataRow
        some (if shuffled then order found else found)
      else none
  | _ => none

def Statement.table : Statement → Text
  | .select table _ _ => table
  | .insert table _ => table
  | .update table _ _ => table

section
variable {name : catalog.Name} {statement : Statement}
  (found : catalog.find statement.table = some name)
include found

/-- What a statement does to the rows of its table depends on them alone. -/
theorem execute_local (database other : Database catalog) (same : database name = other name) :
    (execute settings database statement).map (fun after => after name) =
      (execute settings other statement).map (fun after => after name) := by
  cases statement with
  | select table condition shuffled =>
      have here : catalog.find table = some name := found
      simp only [execute, here, Option.bind_eq_bind, Option.bind_some]
      split_ifs
      · exact congrArg some same
      · rfl
  | insert table values =>
      have here : catalog.find table = some name := found
      simp only [execute, here, Option.bind_eq_bind, Option.bind_some, same]
      cases insertRow settings (catalog.columns name) values with
      | none => rfl
      | some row => simp
  | update table assignments condition =>
      have here : catalog.find table = some name := found
      simp only [execute, here, Option.bind_eq_bind, Option.bind_some, same]
      split_ifs
      · cases updateRows settings assignments condition (other name) with
        | none => rfl
        | some rows => simp
      · rfl

/-- No other table changes. -/
theorem execute_frame (database after : Database catalog)
    (executed : execute settings database statement = some after) (other : catalog.Name)
    (differs : other ≠ name) : after other = database other := by
  cases statement with
  | select table condition shuffled =>
      have here : catalog.find table = some name := found
      simp only [execute, here, Option.bind_eq_bind, Option.bind_some] at executed
      split_ifs at executed
      rw [← Option.some.inj executed]
  | insert table values =>
      have here : catalog.find table = some name := found
      simp only [execute, here, Option.bind_eq_bind, Option.bind_some,
        Option.bind_eq_some_iff] at executed
      obtain ⟨row, -, wrote⟩ := executed
      rw [← Option.some.inj wrote, Function.update_of_ne differs]
  | update table assignments condition =>
      have here : catalog.find table = some name := found
      simp only [execute, here, Option.bind_eq_bind, Option.bind_some] at executed
      split_ifs at executed
      obtain ⟨rows, -, wrote⟩ := Option.bind_eq_some_iff.mp executed
      rw [← Option.some.inj wrote, Function.update_of_ne differs]

end

end

end TfuServer.Sql
