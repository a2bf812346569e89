import TfuServer.Sql.Keyed
import TfuServer.Sql.Table

/-!
# Tables whose first column is a number

A condition on the first column picks the rows of a key, an update under such a
condition changes them, and an update of every column but the key writes the
cells that an insert of the same values would.
-/

namespace TfuServer.Sql

set_option autoImplicit false

open Numeral

section
variable {columns : List Column}

def firstKey (row : Row columns) : Option Int :=
  match row.cells with
  | .int n :: _ => some n.toInt
  | .bigint n :: _ => some n.toInt
  | _ => none

def hasKey : List Column → Text → Bool
  | column :: _, name => column.name == name && (column.type == .int || column.type == .bigint)
  | [], _ => false

theorem same_name_refl (name : Text) : sameName name name = true := by
  simp [sameName]

theorem holds_iff_first_key (settings : Settings) (name : Text) (keyed : hasKey columns name = true)
    (row : Row columns) (k : Int) :
    (Condition.equals name (.number (intText k))).holds settings columns row.cells =
      decide (firstKey row = some k) := by
  obtain ⟨cells, fits⟩ := row
  cases columns with
  | nil => simp [hasKey] at keyed
  | cons column rest =>
      obtain ⟨named, typed⟩ := Bool.and_eq_true_iff.mp keyed
      obtain rfl : column.name = name := by simpa using named
      cases cells with
      | nil => simp [cellsFit] at fits
      | cons cell cells =>
          have first : cellAt (column :: rest) (cell :: cells) column.name = some cell := by
            simp [cellAt, same_name_refl]
          have fitted := (Bool.and_eq_true_iff.mp fits).1
          rw [Bool.eq_iff_iff]
          simp only [Condition.holds, first, decide_eq_true_eq]
          cases cell with
          | int n =>
              simp only [cellEquals, read_int_text, beq_iff_eq, firstKey, Option.some.injEq]
              exact eq_comm
          | bigint n =>
              simp only [cellEquals, read_int_text, beq_iff_eq, firstKey, Option.some.injEq]
              exact eq_comm
          | null => simp [cellEquals, firstKey]
          | real | decimal | text | date | bool =>
              rcases Bool.or_eq_true_iff.mp typed with type | type <;>
                simp [eq_of_beq type, Cell.fits] at fitted

theorem has_key_known (name : Text) (value : Value) (keyed : hasKey columns name = true) :
    (Condition.equals name value).known columns = true := by
  cases columns with
  | nil => simp [hasKey] at keyed
  | cons column rest =>
      have named := eq_of_beq (Bool.and_eq_true_iff.mp keyed).1
      simp [Condition.known, named, same_name_refl]

theorem filter_key (settings : Settings) (name : Text) (keyed : hasKey columns name = true)
    (rows : Table columns) (k : Int) :
    (rows.filter fun row =>
      (Condition.equals name (.number (intText k))).holds settings columns row.cells) =
      Keyed.rowsOf firstKey rows k := by
  simp only [holds_iff_first_key settings name keyed, Keyed.rowsOf]

theorem update_rows_key (settings : Settings) (name : Text) (keyed : hasKey columns name = true)
    (assignments : List (Text × Value)) (rows after : Table columns) (k : Int)
    (present : Keyed.rowsOf firstKey rows k ≠ [])
    (updated : updateRows settings assignments (.equals name (.number (intText k))) rows =
      some after) :
    ∃ cells, assignedCells settings columns assignments = some cells ∧
      after = Keyed.changeRows firstKey k (fun row => row.assign cells) rows := by
  simp only [updateRows, holds_iff_first_key settings name keyed] at updated
  cases assigned : assignedCells settings columns assignments with
  | none =>
      have met : (rows.any fun row => decide (firstKey row = some k)) = true := by
        obtain ⟨row, member⟩ := List.exists_mem_of_ne_nil _ present
        obtain ⟨within, has⟩ := List.mem_filter.mp member
        exact List.any_eq_true.mpr ⟨row, within, has⟩
      simp [assigned, met] at updated
  | some cells =>
      refine ⟨cells, rfl, ?_⟩
      simp only [assigned, Option.some.injEq] at updated
      rw [← updated]
      simp only [Keyed.changeRows, decide_eq_true_eq]

theorem first_key_head (left right : Row columns) (k : Int) (leftHas : firstKey left = some k)
    (rightHas : firstKey right = some k) : left.cells.head? = right.cells.head? := by
  obtain ⟨leftCells, leftFits⟩ := left
  obtain ⟨rightCells, rightFits⟩ := right
  cases columns with
  | nil =>
      cases leftCells with
      | nil => cases leftHas
      | cons cell cells => cases leftFits
  | cons column rest =>
      cases leftCells with
      | nil => cases leftHas
      | cons leftCell leftCells =>
          cases rightCells with
          | nil => cases rightHas
          | cons rightCell rightCells =>
              have leftFitted := (Bool.and_eq_true_iff.mp leftFits).1
              have rightFitted := (Bool.and_eq_true_iff.mp rightFits).1
              have same := leftHas.trans rightHas.symm
              cases type : column.type <;> rw [type] at leftFitted rightFitted <;>
                cases leftCell <;> simp [Cell.fits, firstKey] at leftFitted leftHas <;>
                cases rightCell <;> simp [Cell.fits, firstKey] at rightFitted rightHas
              · rw [← rightHas] at leftHas
                simp [Int32.toInt_inj.mp leftHas]
              · rw [← rightHas] at leftHas
                simp [Int64.toInt_inj.mp leftHas]

theorem update_rows_absent (settings : Settings) (name : Text)
    (keyed : hasKey columns name = true) (assignments : List (Text × Value))
    (rows : Table columns) (k : Int) (absent : Keyed.rowsOf firstKey rows k = []) :
    updateRows settings assignments (.equals name (.number (intText k))) rows = some rows := by
  have unmet (row : Row columns) (member : row ∈ rows) : ¬firstKey row = some k := by
    have other := List.filter_eq_nil_iff.mp absent row member
    simpa using other
  simp only [updateRows, holds_iff_first_key settings name keyed]
  cases assignedCells settings columns assignments with
  | none =>
      rw [if_neg]
      simpa using unmet
  | some cells =>
      simp only [decide_eq_true_eq, Option.some.injEq]
      refine (List.map_congr_left fun row member => ?_).trans (List.map_id rows)
      rw [if_neg (unmet row member)]
      rfl

end

def setCells (columns : List Column) (cells : List Cell) (assigned : List (Text × Cell)) :
    List Cell :=
  assigned.foldl (fun cells pair => setCell columns cells pair.1 pair.2) cells

theorem assign_cells {columns : List Column} (row : Row columns) (assigned : List (Text × Cell)) :
    (row.assign assigned).cells = setCells columns row.cells assigned := by
  induction assigned generalizing row with
  | nil => rfl
  | cons pair assigned ih => exact ih (row.set pair.1 pair.2)

def distinctNames : List Column → Bool
  | [] => true
  | column :: columns =>
      columns.all (fun other => !sameName column.name other.name) && distinctNames columns

theorem set_cells_cons (column : Column) (columns : List Column) (cell : Cell)
    (cells : List Cell) (assigned : List (Text × Cell))
    (others : ∀ pair ∈ assigned, sameName column.name pair.1 = false) :
    setCells (column :: columns) (cell :: cells) assigned =
      cell :: setCells columns cells assigned := by
  induction assigned generalizing cells with
  | nil => rfl
  | cons pair assigned ih =>
      have skipped : setCell (column :: columns) (cell :: cells) pair.1 pair.2 =
          cell :: setCell columns cells pair.1 pair.2 := by
        simp [setCell, others pair (by simp)]
      simp only [setCells, List.foldl_cons, skipped]
      exact ih _ fun next member => others next (List.mem_cons_of_mem _ member)

theorem other_names (column : Column) (columns : List Column) (cells : List Cell)
    (distinct : distinctNames (column :: columns) = true) :
    ∀ pair ∈ (columns.map Column.name).zip cells, sameName column.name pair.1 = false := by
  rintro ⟨name, cell⟩ member
  obtain ⟨other, within, rfl⟩ := List.mem_map.mp (List.of_mem_zip member).1
  have differs := List.all_eq_true.mp (Bool.and_eq_true_iff.mp distinct).1 other within
  simpa using differs

theorem set_cells_names (columns : List Column) (old new : List Cell)
    (oldFits : cellsFit columns old = true) (newFits : cellsFit columns new = true)
    (distinct : distinctNames columns = true) :
    setCells columns old ((columns.map Column.name).zip new) = new := by
  induction columns generalizing old new with
  | nil => cases old <;> cases new <;> simp_all [cellsFit, setCells]
  | cons column columns ih =>
      cases old with
      | nil => simp [cellsFit] at oldFits
      | cons oldCell old =>
          cases new with
          | nil => simp [cellsFit] at newFits
          | cons newCell new =>
              obtain ⟨newHead, newTail⟩ := Bool.and_eq_true_iff.mp newFits
              have written : setCell (column :: columns) (oldCell :: old) column.name newCell =
                  newCell :: old := by
                simp [setCell, same_name_refl, newHead]
              rw [List.map_cons, List.zip_cons_cons]
              simp only [setCells, List.foldl_cons, written]
              refine (set_cells_cons column columns newCell old _
                (other_names column columns new distinct)).trans ?_
              rw [ih old new (Bool.and_eq_true_iff.mp oldFits).2 newTail
                (Bool.and_eq_true_iff.mp distinct).2]

theorem assigned_cells_names (settings : Settings) (columns rest : List Column)
    (values : List Value) (cells : List (Text × Cell)) (complete : values.length = rest.length)
    (typed : ∀ column ∈ rest, columnType columns column.name = some column.type)
    (assigned : assignedCells settings columns ((rest.map Column.name).zip values) = some cells) :
    ∃ new, insertCells settings rest values = some new ∧
      cells = (rest.map Column.name).zip new := by
  induction rest generalizing values cells with
  | nil =>
      cases values with
      | nil => exact ⟨[], rfl, (Option.some.inj assigned).symm⟩
      | cons value values => simp at complete
  | cons column rest ih =>
      cases values with
      | nil => simp at complete
      | cons value values =>
          simp only [List.map_cons, List.zip_cons_cons, assignedCells, typed column (by simp),
            Option.bind_eq_bind, Option.bind_some, Option.bind_eq_some_iff,
            Option.some.injEq] at assigned
          obtain ⟨cell, coerced, others, tail, rfl⟩ := assigned
          obtain ⟨new, inserted, rfl⟩ := ih values others (by simpa using complete)
            (fun next member => typed next (List.mem_cons_of_mem _ member)) tail
          exact ⟨cell :: new, by simp [insertCells, coerced, inserted], rfl⟩

/-- An update that names every column writes what an insert writes. -/
theorem assign_every_column (settings : Settings) {columns : List Column} (values : List Value)
    (cells : List (Text × Cell)) (row : Row columns) (complete : values.length = columns.length)
    (typed : ∀ column ∈ columns, columnType columns column.name = some column.type)
    (distinct : distinctNames columns = true)
    (assigned : assignedCells settings columns ((columns.map Column.name).zip values) =
      some cells) :
    insertCells settings columns values = some (row.assign cells).cells := by
  obtain ⟨new, inserted, rfl⟩ :=
    assigned_cells_names settings columns columns values cells complete typed assigned
  rw [assign_cells, set_cells_names columns row.cells new row.fits
    (insert_cells_fit settings columns values new inserted) distinct, inserted]

/-- One that names every column but the first keeps the first cell. -/
theorem assign_later_columns (settings : Settings) {column : Column} {rest : List Column}
    (values : List Value) (cells : List (Text × Cell)) (row : Row (column :: rest)) (key : Cell)
    (complete : values.length = rest.length)
    (typed : ∀ other ∈ rest, columnType (column :: rest) other.name = some other.type)
    (distinct : distinctNames (column :: rest) = true) (has : row.cells.head? = some key)
    (assigned : assignedCells settings (column :: rest) ((rest.map Column.name).zip values) =
      some cells) :
    ∃ new, insertCells settings rest values = some new ∧ (row.assign cells).cells = key :: new := by
  obtain ⟨new, inserted, rfl⟩ :=
    assigned_cells_names settings (column :: rest) rest values cells complete typed assigned
  refine ⟨new, inserted, ?_⟩
  obtain ⟨old, fits⟩ := row
  cases old with
  | nil => simp at has
  | cons first old =>
      obtain rfl : first = key := by simpa using has
      rw [assign_cells, set_cells_cons column rest first old _
        (other_names column rest new distinct),
        set_cells_names rest old new (Bool.and_eq_true_iff.mp fits).2
          (insert_cells_fit settings rest values new inserted) (Bool.and_eq_true_iff.mp distinct).2]

/-- The assignments give every column its value, or every column but the first. -/
def Covers (columns : List Column) (values : List Value) (assignments : List (Text × Value)) :
    Prop :=
  assignments = (columns.map Column.name).zip values ∨
    assignments = (columns.tail.map Column.name).zip values.tail

theorem key_cell (settings : Settings) {columns : List Column} (name : Text)
    (keyed : hasKey columns name = true) (row : Row columns) (k : Int)
    (has : firstKey row = some k) :
    ∃ column rest cell, columns = column :: rest ∧ row.cells.head? = some cell ∧
      coerce settings column.type (.number (intText k)) = some cell := by
  obtain ⟨cells, fits⟩ := row
  cases columns with
  | nil => simp [hasKey] at keyed
  | cons column rest =>
      have typed := (Bool.and_eq_true_iff.mp keyed).2
      refine ⟨column, rest, ?_⟩
      cases cells with
      | nil => simp [cellsFit] at fits
      | cons cell cells =>
          have fitted := (Bool.and_eq_true_iff.mp fits).1
          refine ⟨cell, rfl, rfl, ?_⟩
          cases cell with
          | int n =>
              obtain rfl : n.toInt = k := Option.some.inj has
              have type : column.type = .int := by
                cases same : column.type <;> simp [same, Cell.fits] at fitted ⊢
              simp [type, coerce]
          | bigint n =>
              obtain rfl : n.toInt = k := Option.some.inj has
              have type : column.type = .bigint := by
                cases same : column.type <;> simp [same, Cell.fits] at fitted ⊢
              simp [type, coerce]
          | null | real | decimal | text | date | bool => simp [firstKey] at has

theorem assign_covers (settings : Settings) {columns : List Column} (name : Text)
    (keyed : hasKey columns name = true) (k : Int) (values : List Value)
    (assignments : List (Text × Value)) (cells : List (Text × Cell)) (row : Row columns)
    (covers : Covers columns (.number (intText k) :: values) assignments)
    (complete : (Value.number (intText k) :: values).length = columns.length)
    (typed : ∀ column ∈ columns, columnType columns column.name = some column.type)
    (distinct : distinctNames columns = true) (has : firstKey row = some k)
    (assigned : assignedCells settings columns assignments = some cells) :
    insertCells settings columns (.number (intText k) :: values) =
      some (row.assign cells).cells := by
  rcases covers with rfl | rfl
  · exact assign_every_column settings _ cells row complete typed distinct assigned
  · obtain ⟨column, rest, cell, rfl, head, coerced⟩ := key_cell settings name keyed row k has
    obtain ⟨new, inserted, written⟩ := assign_later_columns settings values cells row cell
      (by simpa using complete) (fun other member => typed other (List.mem_cons_of_mem _ member))
      distinct head assigned
    simp [insertCells, coerced, inserted, written]

section
variable (settings : Settings) {catalog : Catalog} (database after : Database catalog)
  {table : Text} {name : catalog.Name} (found : catalog.find table = some name)
include found

theorem execute_insert (values : List Value)
    (executed : execute settings database (.insert table values) = some after) :
    ∃ row : Row (catalog.columns name),
      insertCells settings (catalog.columns name) values = some row.cells ∧
      after = Function.update database name (database name ++ [row]) := by
  simp only [execute, found, Option.bind_eq_bind, Option.bind_some, Option.bind_eq_some_iff,
    Option.some.injEq] at executed
  obtain ⟨row, inserted, rfl⟩ := executed
  exact ⟨row, (insert_row_some settings _ values row).mp inserted, rfl⟩

theorem execute_update_key (key : Text) (keyed : hasKey (catalog.columns name) key = true)
    (assignments : List (Text × Value)) (k : Int)
    (present : Keyed.rowsOf firstKey (database name) k ≠ [])
    (executed : execute settings database
      (.update table assignments (.equals key (.number (intText k)))) = some after) :
    ∃ cells, assignedCells settings (catalog.columns name) assignments = some cells ∧
      after = Function.update database name
        (Keyed.changeRows firstKey k (fun row => row.assign cells) (database name)) := by
  simp only [execute, found, Option.bind_eq_bind, Option.bind_some,
    has_key_known key _ keyed, if_true, Option.bind_eq_some_iff, Option.some.injEq] at executed
  obtain ⟨rows, updated, rfl⟩ := executed
  obtain ⟨cells, assigned, rfl⟩ :=
    update_rows_key settings key keyed assignments _ rows k present updated
  exact ⟨cells, assigned, rfl⟩

theorem execute_update_absent (key : Text) (keyed : hasKey (catalog.columns name) key = true)
    (assignments : List (Text × Value)) (k : Int)
    (absent : Keyed.rowsOf firstKey (database name) k = [])
    (executed : execute settings database
      (.update table assignments (.equals key (.number (intText k)))) = some after) :
    after = database := by
  simp only [execute, found, Option.bind_eq_bind, Option.bind_some, has_key_known key _ keyed,
    update_rows_absent settings key keyed assignments _ k absent, if_true, Option.some.injEq,
    Function.update_eq_self] at executed
  exact executed.symm

theorem query_select (order : List DataRow → List DataRow) (condition : Condition) :
    query settings order database (.select table condition false) =
      if condition.known (catalog.columns name) then
        some (((database name).filter fun row =>
          condition.holds settings (catalog.columns name) row.cells).map Row.dataRow)
      else none := by
  simp only [query, found, Option.bind_eq_bind, Option.bind_some, Bool.false_eq_true, if_false]

theorem query_all (order : List DataRow → List DataRow) (shuffled : Bool) :
    query settings order database (.select table .all shuffled) =
      some (if shuffled then order ((database name).map Row.dataRow)
        else (database name).map Row.dataRow) := by
  have every : ((database name).filter fun row =>
      Condition.holds settings (catalog.columns name) row.cells .all) = database name := by
    simp [Condition.holds]
  simp only [query, found, Option.bind_eq_bind, Option.bind_some, Condition.known, every, if_true]

end

end TfuServer.Sql
