import TfuServer.Server.SharedRows

/-!
# A shared schedule posted again

The first upload writes the descriptions with line breaks and blanks, a later one
without. Both documents lose the same backslashes in the database, and what is
read of one is read of the other.
-/

namespace TfuServer

set_option autoImplicit false

open Numeral Program
open Json (Newtonsoft parseArray serialize)
open Sql (Cell DataRow Row decodeLiteral firstKey)

section
variable (library : Newtonsoft)

def readDescriptions (document : Text) : Except Failure (List WaypointDescription) := do
  let jarr ← parseArray library document
  jarr.mapM (readDescription library "WaypointId" "WaypointContent" "WaypointImgId")

/-- The layout leaves no trace in what is read, and decides nothing about whether it is. -/
theorem read_descriptions_layout (encoder : Json.JavaScriptEncoder) (sch : SharedSchedule)
    (first second : Layout) :
    readDescriptions library
        (storedDocument encoder first (ScheduleManager.descriptionsDocument sch)) =
      readDescriptions library
        (storedDocument encoder second (ScheduleManager.descriptionsDocument sch)) :=
  (reload_descriptions library encoder first sch).trans
    (reload_descriptions library encoder second sch).symm

def scalarColumns : List String :=
  ["scheduleId", "ownerId", "rating", "likes", "titleImgId", "titleText", "descriptionText"]

/-- Rows that agree but for documents that are read alike. -/
structure ReadAlike (left right : DataRow) : Prop where
  scalars : ∀ name ∈ scalarColumns, itemNamed left name = itemNamed right name
  documents : ∃ inserted updated, itemNamed left "waypointDescription" = .ok (.text inserted) ∧
    itemNamed right "waypointDescription" = .ok (.text updated) ∧
    readDescriptions library inserted = readDescriptions library updated

theorem convert_alike (left right : DataRow) (alike : ReadAlike library left right) :
    convertDataRowToSharedSchedule library left = convertDataRowToSharedSchedule library right := by
  obtain ⟨scalars, inserted, updated, holdsLeft, holdsRight, same⟩ := alike
  simp only [scalarColumns, List.forall_mem_cons, List.not_mem_nil, false_implies, implies_true,
    and_true] at scalars
  obtain ⟨scheduleId, ownerId, rating, likes, titleImgId, titleText, descriptionText⟩ := scalars
  -- Parsing and decoding stand next to each other only after the binds are regrouped.
  have read (document : Text) {Value : Type}
      (next : List WaypointDescription → Except Failure Value) : (do
        let jarr ← parseArray library document
        let descriptions ← jarr.mapM
          (readDescription library "WaypointId" "WaypointContent" "WaypointImgId")
        next descriptions) = readDescriptions library document >>= next :=
    (bind_assoc _ _ _).symm
  have given (document : Text) {Value : Type} (next : Text → Except Failure Value) :
      (Except.ok (Cell.text document) >>= fun cell => castText cell >>= next) = next document := rfl
  simp only [convertDataRowToSharedSchedule, scheduleId, ownerId, rating, likes, titleImgId,
    titleText, descriptionText, holdsLeft, holdsRight, given, read, same]

end

section
variable (runtime : Runtime)

/-- The rows that two uploads of one record leave, in whatever state each finds the table. -/
theorem stored_alike (sch kept : SharedSchedule) (first second : World)
    (meaning : (Upload.shared sch).meant = some (.shared kept))
    (quietFirst : NoFailure (ScheduleManager.addSharedSchedule runtime sch) first)
    (quietSecond : NoFailure (ScheduleManager.addSharedSchedule runtime sch) second) :
    ∃ left right,
      Keyed.lookup firstKey ((exec (ScheduleManager.addSharedSchedule runtime sch) first).2.tables
        .sharedSchedule) sch.scheduleId.toInt = some left ∧
      Keyed.lookup firstKey ((exec (ScheduleManager.addSharedSchedule runtime sch) second).2.tables
        .sharedSchedule) sch.scheduleId.toInt = some right ∧
      ReadAlike runtime.newtonsoft left.dataRow right.dataRow := by
  obtain ⟨inserted, left, storedLeft, cellsLeft, foundLeft⟩ :=
    store_row runtime (.shared sch) _ first meaning rfl quietFirst
  obtain ⟨updated, right, storedRight, cellsRight, foundRight⟩ :=
    store_row runtime (.shared sch) _ second meaning rfl quietSecond
  refine ⟨left, right, foundLeft, foundRight, ?_⟩
  obtain ⟨layoutLeft, rfl⟩ := stored_shared runtime sch _ inserted storedLeft
  obtain ⟨layoutRight, rfl⟩ := stored_shared runtime sch _ updated storedRight
  obtain ⟨leftCells, leftFits⟩ := left
  obtain ⟨rightCells, rightFits⟩ := right
  cases rating : kept.rating with
  | nonFinite kind => simp [Upload.cells, rating] at cellsLeft
  | finite number =>
      simp only [Upload.cells, rating, Option.some.injEq] at cellsLeft cellsRight
      subst cellsLeft cellsRight
      refine ⟨?_, _, _, rfl, rfl,
        read_descriptions_layout runtime.newtonsoft runtime.unicodeAll sch layoutLeft layoutRight⟩
      simp only [scalarColumns, List.forall_mem_cons, List.not_mem_nil, false_implies, implies_true,
        and_true]
      exact ⟨rfl, rfl, rfl, rfl, rfl, rfl, rfl⟩

end

/-- The values that the two branches store for one list are read alike: rows that hold
them and agree in the other columns are turned into the same record or fail alike. So a
record that is posted again is answered as before. -/
theorem branches_read_alike (runtime : Runtime) (sch : SharedSchedule) :
    (∀ (inserted updated : Text) (left right : DataRow),
      decodeLiteral (serialize runtime.unicodeAll .indented
        (ScheduleManager.descriptionsDocument sch)) = some inserted →
      decodeLiteral (serialize runtime.unicodeAll .compact
        (ScheduleManager.descriptionsDocument sch)) = some updated →
      itemNamed left "waypointDescription" = .ok (.text inserted) →
      itemNamed right "waypointDescription" = .ok (.text updated) →
      (∀ name ∈ scalarColumns, itemNamed left name = itemNamed right name) →
      convertDataRowToSharedSchedule runtime.newtonsoft left =
        convertDataRowToSharedSchedule runtime.newtonsoft right) ∧
    ∀ (kept : SharedSchedule) (first second : World),
      (Upload.shared sch).meant = some (.shared kept) →
      NoFailure (ScheduleManager.addSharedSchedule runtime sch) first →
      NoFailure (ScheduleManager.addSharedSchedule runtime sch) second →
      ∃ left right,
        Keyed.lookup firstKey ((exec (ScheduleManager.addSharedSchedule runtime sch)
          first).2.tables .sharedSchedule) sch.scheduleId.toInt = some left ∧
        Keyed.lookup firstKey ((exec (ScheduleManager.addSharedSchedule runtime sch)
          second).2.tables .sharedSchedule) sch.scheduleId.toInt = some right ∧
        convertDataRowToSharedSchedule runtime.newtonsoft left.dataRow =
          convertDataRowToSharedSchedule runtime.newtonsoft right.dataRow := by
  constructor
  · intro inserted updated left right indented compact holdsLeft holdsRight scalars
    rw [Json.decode_serialize, Option.some.injEq] at indented compact
    subst indented compact
    exact convert_alike runtime.newtonsoft left right ⟨scalars, _, _, holdsLeft, holdsRight,
      read_descriptions_layout runtime.newtonsoft runtime.unicodeAll sch .indented .compact⟩
  · intro kept first second meaning quietFirst quietSecond
    obtain ⟨left, right, foundLeft, foundRight, alike⟩ :=
      stored_alike runtime sch kept first second meaning quietFirst quietSecond
    exact ⟨left, right, foundLeft, foundRight, convert_alike runtime.newtonsoft _ _ alike⟩

def postedOnce : World :=
  (exec (ScheduleManager.addSharedSchedule .standard (sharedExample 2 2 "\"C\""))
    (.fresh Tables.empty)).2

set_option maxRecDepth 8000 in
theorem branches_read_alike_posted_twice :
    ∃ left right,
      Keyed.lookup firstKey (postedOnce.tables .sharedSchedule) 1 = some left ∧
      Keyed.lookup firstKey ((exec (ScheduleManager.addSharedSchedule .standard
        (sharedExample 2 2 "\"C\"")) postedOnce).2.tables .sharedSchedule) 1 = some right ∧
      convertDataRowToSharedSchedule standardNewtonsoft left.dataRow =
        convertDataRowToSharedSchedule standardNewtonsoft right.dataRow :=
  (branches_read_alike .standard (sharedExample 2 2 "\"C\"")).2 (sharedExample 2 2 "\"C\"")
    (.fresh Tables.empty) postedOnce rfl (by unfold NoFailure Quiet; decide +kernel)
    (by unfold NoFailure Quiet; decide +kernel)

end TfuServer
