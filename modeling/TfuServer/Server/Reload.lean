import TfuServer.Server.Documents
import TfuServer.Server.Upserts

/-!
# The schedules in memory and in the table

Schedules reach the dictionary in two ways: one by one as they are posted, and
all at once when the listener is opened. While it listens, the dictionary has
the schedules of the table, but the waypoints that a restart loads are blank.
-/

namespace TfuServer

set_option autoImplicit false

open Numeral Program
open Sql (Cell Row firstKey)

/-- The cells hold the schedule, its waypoints aside. -/
def HoldsSchedule (sch : Schedule) (cells : List Cell) : Prop :=
  ∃ date document, cells = [.int sch.id, .text sch.name, .text sch.destination, .int sch.days,
    .date date, .text document, .int sch.memberGroupId, .bool sch.isShared] ∧
      date.format = sch.startDate

theorem holds_schedule_key {columns : List Sql.Column} (sch : Schedule) (row : Row columns)
    (holds : HoldsSchedule sch row.cells) : firstKey row = some sch.id.toInt := by
  obtain ⟨date, document, cells, -⟩ := holds
  rw [firstKey, cells]

section
variable (library : Json.Newtonsoft)

theorem cells_width (columns : List Sql.Column) (cells : List Cell)
    (fits : Sql.cellsFit columns cells = true) : cells.length = columns.length := by
  induction columns generalizing cells with
  | nil =>
      cases cells with
      | nil => rfl
      | cons cell cells => cases fits
  | cons column columns ih =>
      cases cells with
      | nil => cases fits
      | cons cell cells =>
          rw [List.length_cons, List.length_cons, ih cells (Bool.and_eq_true_iff.mp fits).2]

theorem loaded_holds (row : Row (schema.columns .schedule)) (sch : Schedule)
    (loaded : scheduleOfRow library row.dataRow = .ok sch) : HoldsSchedule sch row.cells := by
  obtain ⟨cells, fits⟩ := row
  have width := cells_width _ cells fits
  match cells, width with
  | [id, name, destination, days, startDate, waypoints, memberGroupId, isShared], _ =>
      have named (column : String) (cell : Cell)
          (found : (Row.dataRow ⟨_, fits⟩).cell column.toList = some cell) :
          itemNamed (Row.dataRow ⟨_, fits⟩) column = .ok cell := by
        rw [itemNamed, found]
      simp only [scheduleOfRow, named "id" id rfl, named "name" name rfl,
        named "destination" destination rfl, named "days" days rfl,
        named "startDate" startDate rfl, named "memberGroupId" memberGroupId rfl,
        named "isShared" isShared rfl, named "waypoints" waypoints rfl, bind_ok_iff, pure,
        Except.pure, Except.ok.injEq, exists_eq_left', cast_int_iff, cast_text_iff, cast_date_iff,
        cast_bool_iff] at loaded
      obtain ⟨_, rfl, _, rfl, _, rfl, _, rfl, date, rfl, _, rfl, _, rfl, document, rfl, -, -, -, -,
        rfl⟩ := loaded
      exact ⟨date, document, rfl, rfl⟩

/-- What is loaded from the row of a posted schedule: the schedule itself but for its
waypoints, unless they cannot be read. -/
theorem load_posted (runtime : Runtime) (sch : Schedule) (row : Row (schema.columns .schedule))
    (document : Text) (cells : (Upload.schedule sch).cells runtime.settings document =
      some row.cells) :
    ∃ date, Sql.readDate runtime.settings sch.startDate = some date ∧
      scheduleOfRow runtime.newtonsoft row.dataRow =
        (do
          let jarr ← Json.parseArray runtime.newtonsoft document
          jarr.mapM (readWaypoint runtime.newtonsoft)).map fun waypoints =>
            { sch with startDate := date.format, waypoints } := by
  obtain ⟨list, fits⟩ := row
  simp only [Upload.cells, Option.map_eq_some_iff] at cells
  obtain ⟨date, read, rfl⟩ := cells
  refine ⟨date, read, ?_⟩
  have named (column : String) (cell : Cell)
      (found : (Row.dataRow ⟨_, fits⟩).cell column.toList = some cell) :
      itemNamed (Row.dataRow ⟨_, fits⟩) column = .ok cell := by
    rw [itemNamed, found]
  simp only [scheduleOfRow, named "id" _ rfl, named "name" _ rfl, named "destination" _ rfl,
    named "days" _ rfl, named "startDate" _ rfl, named "memberGroupId" _ rfl,
    named "isShared" _ rfl, named "waypoints" _ rfl, castInt, castText, castDate, castBool, bind,
    Except.bind]
  cases Json.parseArray runtime.newtonsoft document with
  | error failure => rfl
  | ok jarr =>
      simp only
      cases jarr.mapM (readWaypoint runtime.newtonsoft) <;> rfl

end

section
variable (runtime : Runtime)

theorem load_rows_entries (rows : List Sql.DataRow) (world : World) :
    ∃ dictionary, (exec (ScheduleManager.loadRows runtime rows) world).2 =
        { world with scheduleDic := dictionary } ∧
      ∀ id sch, dictionary id = some sch → world.scheduleDic id = some sch ∨
        ∃ row ∈ rows, scheduleOfRow runtime.newtonsoft row = .ok sch ∧ sch.id = id := by
  induction rows generalizing world with
  | nil => exact ⟨world.scheduleDic, rfl, fun _ _ => Or.inl⟩
  | cons row rows ih =>
      cases loaded : scheduleOfRow runtime.newtonsoft row with
      | error failure =>
          refine ⟨world.scheduleDic, ?_, fun _ _ => Or.inl⟩
          simp [ScheduleManager.loadRows, exec_bind, loaded]
      | ok own =>
          obtain ⟨dictionary, ran, entries⟩ := ih (ScheduleManager.enter own world)
          refine ⟨dictionary, ?_, fun id sch found => ?_⟩
          · simp only [ScheduleManager.loadRows, exec_bind, exec_lift, exec_modify, loaded]
            exact ran
          · rcases entries id sch found with before | ⟨other, member, from_row⟩
            · by_cases same : id = own.id
              · subst same
                have entered : own = sch := by
                  simpa [ScheduleManager.enter, Dictionary.set] using before
                exact Or.inr ⟨row, List.mem_cons_self, entered ▸ loaded, entered ▸ rfl⟩
              · refine Or.inl ?_
                simpa [ScheduleManager.enter, Dictionary.set, Function.update_of_ne same]
                  using before
            · exact Or.inr ⟨other, List.mem_cons_of_mem _ member, from_row⟩

theorem load_rows_complete (rows : List Sql.DataRow) (world : World)
    (loads : ∀ row ∈ rows, ∃ sch, scheduleOfRow runtime.newtonsoft row = .ok sch) :
    (exec (ScheduleManager.loadRows runtime rows) world).1 = .ok () ∧
    (∀ id, (world.scheduleDic id).isSome →
      ((exec (ScheduleManager.loadRows runtime rows) world).2.scheduleDic id).isSome) ∧
    ∀ row ∈ rows, ∀ sch, scheduleOfRow runtime.newtonsoft row = .ok sch →
      ((exec (ScheduleManager.loadRows runtime rows) world).2.scheduleDic sch.id).isSome := by
  induction rows generalizing world with
  | nil => exact ⟨rfl, fun _ => id, fun row member => absurd member (List.not_mem_nil)⟩
  | cons row rows ih =>
      obtain ⟨own, loaded⟩ := loads row List.mem_cons_self
      obtain ⟨done, kept, entered⟩ := ih (ScheduleManager.enter own world)
        fun other member => loads other (List.mem_cons_of_mem _ member)
      have ran : exec (ScheduleManager.loadRows runtime (row :: rows)) world =
          exec (ScheduleManager.loadRows runtime rows) (ScheduleManager.enter own world) := by
        simp only [ScheduleManager.loadRows, exec_bind, exec_lift, exec_modify, loaded]
      have still (id : Int32) (there : (world.scheduleDic id).isSome) :
          ((ScheduleManager.enter own world).scheduleDic id).isSome := by
        by_cases same : id = own.id
        · subst same
          simp [ScheduleManager.enter, Dictionary.set]
        · simpa [ScheduleManager.enter, Dictionary.set, Function.update_of_ne same] using there
      rw [ran]
      refine ⟨done, fun id there => kept id (still id there), fun other member sch from_row => ?_⟩
      rcases List.mem_cons.mp member with rfl | later
      · obtain rfl : own = sch := Except.ok.inj (loaded.symm.trans from_row)
        apply kept
        simp [ScheduleManager.enter, Dictionary.set]
      · exact entered other later sch from_row

def loadFirst : DataSet → Action Unit
  | rows :: _ => ScheduleManager.loadRows runtime rows
  | [] => return

theorem exec_sync (world : World)
    (quiet : NoFailure (ScheduleManager.syncDBToDictionary runtime) world) :
    ∃ dictionary calls, (exec (ScheduleManager.syncDBToDictionary runtime) world).2 =
        World.logs calls { world with scheduleDic := dictionary } ∧
      (∀ id sch, dictionary id = some sch → ∃ row ∈ world.tables .schedule,
        scheduleOfRow runtime.newtonsoft row.dataRow = .ok sch ∧ sch.id = id) ∧
      ((∀ row ∈ world.tables .schedule, ∃ sch,
          scheduleOfRow runtime.newtonsoft row.dataRow = .ok sch) →
        (exec (ScheduleManager.syncDBToDictionary runtime) world).1 = .ok () ∧
        ∀ row ∈ world.tables .schedule, ∀ sch,
          scheduleOfRow runtime.newtonsoft row.dataRow = .ok sch → (dictionary sch.id).isSome) := by
  let emptied : World := { world with scheduleDic := fun _ => none }
  have start : exec (ScheduleManager.syncDBToDictionary runtime) world =
      exec (DBManager.select runtime "SELECT * FROM SCHEDULE;".toList >>= loadFirst runtime)
        emptied := rfl
  have grows (data : DataSet) : Grows World.failedCalls (loadFirst runtime data) := by
    intro bound
    cases data with
    | nil => exact preserves_pure _
    | cons rows _ => exact stable_load_rows (failures_stay bound) runtime rows
  have rows : rowsMeeting runtime emptied.tables .schedule .all =
      (world.tables .schedule).map Row.dataRow := by
    simp [rowsMeeting, Sql.Condition.holds, emptied]
  have quietLoad : NoFailure (DBManager.select runtime "SELECT * FROM SCHEDULE;".toList >>=
      loadFirst runtime) emptied := by
    unfold NoFailure Quiet at quiet ⊢
    rw [start] at quiet
    exact quiet
  obtain ⟨ran, -, -⟩ := select_step runtime (loadFirst runtime) emptied
    ScheduleManager.read_all_query (find_title .schedule) grows quietLoad
  rw [start, ran, rows]
  obtain ⟨dictionary, final, entries⟩ := load_rows_entries runtime
    ((world.tables .schedule).map Row.dataRow)
    (emptied.logs [.select "SELECT * FROM SCHEDULE;".toList])
  refine ⟨dictionary, [.select "SELECT * FROM SCHEDULE;".toList], final, ?_, ?_⟩
  · intro id sch found
    rcases entries id sch found with before | ⟨row, member, from_row⟩
    · cases before
    · obtain ⟨own, within, rfl⟩ := List.mem_map.mp member
      exact ⟨own, within, from_row⟩
  · intro loads
    obtain ⟨done, -, entered⟩ := load_rows_complete runtime
      ((world.tables .schedule).map Row.dataRow)
      (emptied.logs [.select "SELECT * FROM SCHEDULE;".toList]) (List.forall_mem_map.mpr loads)
    refine ⟨done, fun row member sch from_row => ?_⟩
    have there := entered row.dataRow (List.mem_map_of_mem member) sch from_row
    rw [final] at there
    exact there

/-- Equal but for their positions. -/
def SameWaypoint (left right : Waypoint) : Prop :=
  left.id = right.id ∧ left.name = right.name ∧ left.rating.value = right.rating.value ∧
    left.reviewCount = right.reviewCount ∧ left.type = right.type ∧
    left.originLink = right.originLink ∧ left.time = right.time

theorem same_blank_iff (waypoints : List Waypoint) :
    List.Forall₂ SameWaypoint (waypoints.map fun _ => .blank) waypoints ↔
      ∀ waypoint ∈ waypoints, SameWaypoint .blank waypoint := by
  induction waypoints with
  | nil => simp
  | cons waypoint waypoints ih =>
      rw [List.map_cons, List.forall₂_cons, ih, List.forall_mem_cons]

theorem stored_schedule (sch : Schedule) (branch : Branch) (document : Text)
    (kept : (Upload.schedule sch).stored runtime branch = .ok document) :
    ∃ encoder whole, listDocument Waypoint.document sch.waypoints = .ok whole ∧
      document = storedDocument encoder .compact whole := by
  cases written : listDocument Waypoint.document sch.waypoints with
  | error failure => cases branch <;> simp [Upload.stored, written, Except.map] at kept
  | ok whole =>
      cases branch with
      | insert =>
          simp only [Upload.stored, written, Except.map, Except.ok.injEq] at kept
          exact ⟨_, whole, rfl, kept.symm⟩
      | update =>
          simp only [Upload.stored, written, Except.map, Except.ok.injEq] at kept
          exact ⟨_, whole, rfl, kept.symm⟩

theorem meant_schedule (sch kept : Schedule)
    (meaning : (Upload.schedule sch).meant = some (.schedule kept)) :
    kept.id = sch.id ∧ kept.waypoints = sch.waypoints := by
  simp only [Upload.meant, Option.bind_eq_bind, Option.bind_eq_some_iff, Option.some.injEq,
    Upload.schedule.injEq] at meaning
  obtain ⟨name, -, destination, -, startDate, -, rfl⟩ := meaning
  exact ⟨rfl, rfl⟩

theorem load_stored (sch kept : Schedule) (branch : Branch) (document : Text)
    (row : Row (schema.columns .schedule))
    (stored : (Upload.schedule sch).stored runtime branch = .ok document)
    (cells : (Upload.schedule kept).cells runtime.settings document = some row.cells) :
    ∃ encoder date, Sql.readDate runtime.settings kept.startDate = some date ∧
      scheduleOfRow runtime.newtonsoft row.dataRow =
        if ∀ text ∈ sch.waypoints.flatMap Waypoint.texts,
            (storedRead encoder text).isSome = true then
          .ok { kept with startDate := date.format, waypoints := sch.waypoints.map fun _ => .blank }
        else .error .jsonReader := by
  obtain ⟨encoder, whole, written, rfl⟩ := stored_schedule runtime sch branch document stored
  obtain ⟨date, read, loaded⟩ := load_posted runtime kept row _ cells
  refine ⟨encoder, date, read, ?_⟩
  rw [loaded, reload_waypoints runtime.newtonsoft encoder .compact sch.waypoints whole written]
  split_ifs <;> rfl

end

/-- After a restart the waypoints of a stored schedule are the same list exactly when each
of them was blank, positions aside. -/
theorem waypoints_reloaded_iff (runtime : Runtime) (sch kept : Schedule) (world : World)
    (meaning : (Upload.schedule sch).meant = some (.schedule kept))
    (finite : (Upload.schedule sch).writable = true)
    (others : ∀ row ∈ world.tables .schedule, firstKey row ≠ some sch.id.toInt →
      ∃ other, scheduleOfRow runtime.newtonsoft row.dataRow = .ok other)
    (quiet : NoFailure (ScheduleManager.addSchedule runtime sch) world)
    (reloads : NoFailure (ScheduleManager.syncDBToDictionary runtime)
      (exec (ScheduleManager.addSchedule runtime sch) world).2) :
    (∃ reloaded, (exec (ScheduleManager.syncDBToDictionary runtime)
        (exec (ScheduleManager.addSchedule runtime sch) world).2).2.scheduleDic sch.id =
          some reloaded ∧
      List.Forall₂ SameWaypoint reloaded.waypoints sch.waypoints) ↔
    ∀ waypoint ∈ sch.waypoints, SameWaypoint .blank waypoint := by
  obtain ⟨document, row, calls, stored, cells, ran⟩ :=
    Upload.exec_store runtime (.schedule sch) _ world meaning finite quiet
  obtain ⟨sameId, -⟩ := meant_schedule sch kept meaning
  have has : firstKey row = some sch.id.toInt := by
    rw [← sameId]
    exact cells_key runtime.settings document (.schedule kept) row cells
  have inTable (other : Row (schema.columns .schedule)) :
      other ∈ (exec (ScheduleManager.addSchedule runtime sch) world).2.tables .schedule ↔
        other = row ∨ other ∈ world.tables .schedule ∧ firstKey other ≠ some sch.id.toInt := by
    have after : (exec (ScheduleManager.addSchedule runtime sch) world).2 = _ :=
      congrArg Prod.snd ran
    rw [after]
    exact mem_stored_iff (.schedule sch) row calls has other
  obtain ⟨dictionary, more, synced, entries, complete⟩ := exec_sync runtime _ reloads
  obtain ⟨encoder, date, -, loaded⟩ :=
    load_stored runtime sch kept _ document row stored cells
  have fromRow (reloaded : Schedule) (found : dictionary sch.id = some reloaded) :
      scheduleOfRow runtime.newtonsoft row.dataRow = .ok reloaded := by
    obtain ⟨other, member, from_row, own⟩ := entries sch.id reloaded found
    have key := holds_schedule_key reloaded other (loaded_holds runtime.newtonsoft other _ from_row)
    obtain rfl : other = row := ((inTable other).mp member).resolve_right fun elsewhere =>
      elsewhere.2 (by rw [key, own])
    exact from_row
  rw [← same_blank_iff, synced]
  constructor
  · rintro ⟨reloaded, found, same⟩
    have from_row := loaded.symm.trans (fromRow reloaded found)
    split_ifs at from_row
    cases from_row
    exact same
  · intro same
    have readable : ∀ text ∈ sch.waypoints.flatMap Waypoint.texts,
        (storedRead encoder text).isSome = true := by
      intro text within
      obtain ⟨waypoint, member, inside⟩ := List.mem_flatMap.mp within
      have blank := (same_blank_iff sch.waypoints).mp same waypoint member
      have empty : text = [] := by
        simp only [Waypoint.texts, List.mem_cons, List.not_mem_nil, or_false] at inside
        rcases inside with rfl | rfl
        · exact blank.2.1.symm
        · exact blank.2.2.2.2.2.1.symm
      subst empty
      rfl
    rw [if_pos readable] at loaded
    obtain ⟨-, entered⟩ := complete fun other member => by
      rcases (inTable other).mp member with rfl | ⟨within, elsewhere⟩
      · exact ⟨_, loaded⟩
      · exact others other within elsewhere
    have there := entered row ((inTable row).mpr (Or.inl rfl)) _ loaded
    simp only [sameId] at there
    obtain ⟨reloaded, found⟩ := Option.isSome_iff_exists.mp there
    refine ⟨reloaded, found, ?_⟩
    have from_row := loaded.symm.trans (fromRow reloaded found)
    cases from_row
    exact same

def namedSchedule (name : String) : Schedule where
  id := 1
  name := "S".toList
  destination := "D".toList
  days := 2
  startDate := "2024-01-01".toList
  waypoints := [{ Waypoint.blank with name := name.toList }]
  memberGroupId := 0
  isShared := false

theorem waypoints_reloaded_iff_blank :
    (∃ reloaded, (exec (ScheduleManager.syncDBToDictionary .standard)
        (exec (ScheduleManager.addSchedule .standard (namedSchedule ""))
          (.fresh Tables.empty)).2).2.scheduleDic (namedSchedule "").id =
        some reloaded ∧
      List.Forall₂ SameWaypoint reloaded.waypoints (namedSchedule "").waypoints) ↔
    ∀ waypoint ∈ (namedSchedule "").waypoints, SameWaypoint .blank waypoint := by
  refine waypoints_reloaded_iff .standard (namedSchedule "") (namedSchedule "")
    (.fresh Tables.empty) (by decide +kernel) (by decide +kernel) ?_ ?_ ?_
  · intro row member
    cases member
  · unfold NoFailure Quiet
    decide +kernel
  · unfold NoFailure Quiet
    decide +kernel

/-- The serializer writes `Name`, the loader looks for `name`. -/
theorem name_lost_on_restart :
    ∃ reloaded, (exec (ScheduleManager.syncDBToDictionary .standard)
        (exec (ScheduleManager.addSchedule .standard (namedSchedule "A"))
          (.fresh Tables.empty)).2).2.scheduleDic 1 = some reloaded ∧
      reloaded.waypoints = [.blank] ∧
      ¬List.Forall₂ SameWaypoint reloaded.waypoints (namedSchedule "A").waypoints := by
  refine ⟨{ namedSchedule "A" with waypoints := [.blank] }, by decide +kernel, rfl, ?_⟩
  intro same
  cases same with
  | cons first rest => exact absurd first.2.1 (by decide)

end TfuServer
