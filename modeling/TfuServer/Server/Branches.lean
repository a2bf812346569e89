import TfuServer.Json.Spellings
import TfuServer.Server.Reload

/-!
# What the two statements store

A new schedule is inserted with one encoder, a known one updated with another.
The database then holds the same waypoints only if the two encoders agree on
every character, and only if the literal has not taken an escape apart.
-/

namespace TfuServer

set_option autoImplicit false

open Numeral Program
open Json (twoSpellings legible readBody stored)
open Sql (Row firstKey)

def waypointsColumn (world : World) (id : Int32) : Option Text := do
  let row ← Keyed.lookup firstKey (world.tables .schedule) id.toInt
  let cell ← row.dataRow.cell "waypoints".toList
  (castText cell).toOption

section
variable (runtime : Runtime)

theorem stored_column (sch kept : Schedule) (world : World)
    (meaning : (Upload.schedule sch).meant = some (.schedule kept))
    (finite : (Upload.schedule sch).writable = true)
    (quiet : NoFailure (ScheduleManager.addSchedule runtime sch) world) :
    ∃ document, waypointsColumn (exec (ScheduleManager.addSchedule runtime sch) world).2 sch.id =
        some document ∧
      (Upload.schedule sch).stored runtime ((Upload.schedule sch).branch world.tables) =
        .ok document := by
  obtain ⟨document, row, stored, cells, found⟩ :=
    store_row runtime (.schedule sch) _ world meaning finite quiet
  refine ⟨document, ?_, stored⟩
  have found : Keyed.lookup firstKey
      ((exec (ScheduleManager.addSchedule runtime sch) world).2.tables .schedule) sch.id.toInt =
        some row := found
  obtain ⟨list, fits⟩ := row
  simp only [Upload.cells, Option.map_eq_some_iff] at cells
  obtain ⟨date, -, rfl⟩ := cells
  rw [waypointsColumn, found]
  rfl

/-- The two encoders' stored documents are one JSON value exactly when each string is read
back from both as one and the same. -/
theorem stored_value_same_iff (waypoints : List Waypoint) (whole : Document)
    (written : listDocument Waypoint.document waypoints = .ok whole) :
    (∃ value, Json.read .newtonsoft (storedDocument runtime.unicodeAll .compact whole) =
        .value value ∧
      Json.read .newtonsoft (storedDocument .default .compact whole) = .value value) ↔
    ∀ text ∈ waypoints.flatMap Waypoint.texts, ∃ back,
      storedRead runtime.unicodeAll text = some back ∧ storedRead .default text = some back := by
  obtain ⟨items, rfl, each⟩ := (list_document_iff _ _ _).mp written
  obtain ⟨fits, texts⟩ := list_items_shape .newtonsoft _ _
    (waypoint_document_shape .newtonsoft) waypoints items each
  have readable : Json.readable .newtonsoft 0 (.arr items) = true := by
    simp [Json.readable, Json.depthAllowed, Json.maxDepth, fits]
  have outcome (encoder : Json.JavaScriptEncoder) :=
    Json.read_written .newtonsoft (Json.storedSpelling encoder) .compact _ readable
  unfold storedDocument
  rw [outcome, outcome, ← texts]
  constructor
  · rintro ⟨value, left, right⟩ text within
    cases readLeft : Json.readBack .newtonsoft (Json.storedSpelling runtime.unicodeAll)
        (.arr items) with
    | none => rw [readLeft] at left; cases left
    | some leftValue =>
        cases readRight : Json.readBack .newtonsoft (Json.storedSpelling .default)
            (.arr items) with
        | none => rw [readRight] at right; cases right
        | some rightValue =>
            rw [readLeft] at left
            rw [readRight] at right
            cases left
            cases right
            exact Json.read_back_agree .newtonsoft _ _ (.arr items) value readLeft readRight text
              within
  · intro every
    have back (encoder : Json.JavaScriptEncoder)
        (read : ∀ text ∈ Json.itemStrings items, storedRead encoder text =
          some ((storedRead .default text).getD [])) :
        Json.readBack .newtonsoft (Json.storedSpelling encoder) (.arr items) =
          some (Json.toJson (fun text => (storedRead .default text).getD []) (.arr items)) :=
      Json.read_back_changed .newtonsoft (Json.storedSpelling encoder) _ (.arr items) read
    refine ⟨Json.toJson (fun text => (storedRead .default text).getD []) (.arr items), ?_, ?_⟩
    · rw [back runtime.unicodeAll fun text within => ?_]
      obtain ⟨same, left, right⟩ := every text within
      rw [left, right]
      rfl
    · rw [back .default fun text within => ?_]
      obtain ⟨same, left, right⟩ := every text within
      rw [right]
      rfl

theorem read_same_iff (text : Text) :
    (∃ back, storedRead runtime.unicodeAll text = some back ∧
      storedRead .default text = some back) ↔
    (∀ c ∈ text, twoSpellings runtime.unicodeAll c = false) ∧
      legible runtime.unicodeAll text = true := by
  rw [← Json.stored_readable_iff, Option.isSome_iff_exists]
  constructor
  · rintro ⟨back, left, right⟩
    exact ⟨Json.two_spellings_differ runtime.unicodeAll text back left right, back, left⟩
  · rintro ⟨same, back, left⟩
    refine ⟨back, left, ?_⟩
    rw [storedRead, ← Json.stored_same runtime.unicodeAll text same]
    exact left

end

/-- A schedule that is inserted and one that is updated hold the same JSON value in the
column of the waypoints exactly when no string of a waypoint has a character that only one
of the two encoders escapes, and every backslash in them begins an escape. -/
theorem branches_store_same_iff (runtime : Runtime) (sch kept : Schedule) (before again : World)
    (meaning : (Upload.schedule sch).meant = some (.schedule kept))
    (finite : (Upload.schedule sch).writable = true)
    (new : (Upload.schedule sch).branch before.tables = .insert)
    (known : (Upload.schedule sch).branch again.tables = .update)
    (inserts : NoFailure (ScheduleManager.addSchedule runtime sch) before)
    (updates : NoFailure (ScheduleManager.addSchedule runtime sch) again) :
    ∃ inserted updated,
      waypointsColumn (exec (ScheduleManager.addSchedule runtime sch) before).2 sch.id =
        some inserted ∧
      waypointsColumn (exec (ScheduleManager.addSchedule runtime sch) again).2 sch.id =
        some updated ∧
      ((∃ value, Json.read .newtonsoft inserted = .value value ∧
          Json.read .newtonsoft updated = .value value) ↔
        ∀ text ∈ sch.waypoints.flatMap Waypoint.texts,
          (∀ c ∈ text, twoSpellings runtime.unicodeAll c = false) ∧
            legible runtime.unicodeAll text = true) := by
  obtain ⟨inserted, first, storedInsert⟩ :=
    stored_column runtime sch kept before meaning finite inserts
  obtain ⟨updated, second, storedUpdate⟩ :=
    stored_column runtime sch kept again meaning finite updates
  refine ⟨inserted, updated, first, second, ?_⟩
  rw [new] at storedInsert
  rw [known] at storedUpdate
  cases written : listDocument Waypoint.document sch.waypoints with
  | error failure => simp [Upload.stored, written, Except.map] at storedInsert
  | ok whole =>
      simp only [Upload.stored, written, Except.map, Except.ok.injEq] at storedInsert storedUpdate
      subst storedInsert storedUpdate
      rw [stored_value_same_iff runtime sch.waypoints whole written]
      simp only [read_same_iff]

theorem branches_store_same_iff_ascii :
    ∃ inserted updated,
      waypointsColumn (exec (ScheduleManager.addSchedule .standard (namedSchedule "A"))
        (.fresh Tables.empty)).2 (namedSchedule "A").id = some inserted ∧
      waypointsColumn (exec (ScheduleManager.addSchedule .standard (namedSchedule "A"))
        (exec (ScheduleManager.addSchedule .standard (namedSchedule "A"))
          (.fresh Tables.empty)).2).2 (namedSchedule "A").id = some updated ∧
      ((∃ value, Json.read .newtonsoft inserted = .value value ∧
          Json.read .newtonsoft updated = .value value) ↔
        ∀ text ∈ (namedSchedule "A").waypoints.flatMap Waypoint.texts,
          (∀ c ∈ text, twoSpellings Runtime.standard.unicodeAll c = false) ∧
            legible Runtime.standard.unicodeAll text = true) := by
  refine branches_store_same_iff .standard (namedSchedule "A") (namedSchedule "A")
    (.fresh Tables.empty) _ (by decide +kernel) (by decide +kernel) (by decide +kernel)
    (by decide +kernel) ?_ ?_
  · unfold NoFailure Quiet
    decide +kernel
  · unfold NoFailure Quiet
    decide +kernel

def firstName : Json.Reading → Option Text
  | .value (.arr (.obj (_ :: (_, .str name) :: _) :: _)) => some name
  | _ => none

/-- Posted twice, the name `é` becomes `u00E9`. -/
theorem accent_stored_two_ways :
    ∃ inserted updated,
      waypointsColumn (exec (ScheduleManager.addSchedule .standard (namedSchedule "é"))
        (.fresh Tables.empty)).2 1 = some inserted ∧
      waypointsColumn (exec (ScheduleManager.addSchedule .standard (namedSchedule "é"))
        (exec (ScheduleManager.addSchedule .standard (namedSchedule "é"))
          (.fresh Tables.empty)).2).2 1 = some updated ∧
      firstName (Json.read .newtonsoft inserted) = some "é".toList ∧
      firstName (Json.read .newtonsoft updated) = some "u00E9".toList ∧
      ¬∃ value, Json.read .newtonsoft inserted = .value value ∧
        Json.read .newtonsoft updated = .value value := by
  let stored (name : String) : Text := ("[\x7b\"ID\":0,\"Name\":\"" ++ name ++
    "\",\"PosX\":0,\"PosY\":0,\"Rating\":0,\"ReviewCount\":0,\"Type\":0," ++
    "\"OriginLink\":\"\",\"Time\":0\x7d]").toList
  have left : firstName (Json.read .newtonsoft (stored "é")) = some "é".toList := by decide +kernel
  have right : firstName (Json.read .newtonsoft (stored "u00E9")) = some "u00E9".toList := by
    decide +kernel
  refine ⟨stored "é", stored "u00E9", by decide +kernel, by decide +kernel, left, right, ?_⟩
  rintro ⟨value, readLeft, readRight⟩
  rw [readLeft] at left
  rw [readRight, left] at right
  exact absurd right (by decide)

end TfuServer
