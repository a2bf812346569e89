import TfuServer.Server.Uploads

/-!
# What storing a record does

The three writers ask for the row of the key, enter the record into their
dictionary and send one of two statements. Where no call fails, both leave the
table with one and the same row for the key, however it was written.
-/

namespace TfuServer

set_option autoImplicit false

open Numeral Program
open Json (serialize)
open Sql (Cell Row Statement Value readStatement decodeLiteral firstKey)

namespace Upload

/-- The record as the database gets it: each plain field as its literal decodes. -/
def meant : Upload → Option Upload
  | .user clt => do
      let name ← decodeLiteral clt.name
      let profileUrl ← decodeLiteral clt.profileUrl
      some (.user { clt with name, profileUrl })
  | .schedule sch => do
      let name ← decodeLiteral sch.name
      let destination ← decodeLiteral sch.destination
      let startDate ← decodeLiteral sch.startDate
      some (.schedule { sch with name, destination, startDate })
  | .shared sch => do
      let titleText ← decodeLiteral sch.titleText
      let descriptionText ← decodeLiteral sch.descriptionText
      some (.shared { sch with titleText, descriptionText })

def table : Upload → TableName
  | .user _ => .user
  | .schedule _ => .schedule
  | .shared _ => .sharedSchedule

def key : Upload → Int
  | .user clt => clt.uid.toInt
  | .schedule sch => sch.id.toInt
  | .shared sch => sch.scheduleId.toInt

def enter : Upload → World → World
  | .user clt => fun world => ClientManager.enter clt (ClientManager.ready world)
  | .schedule sch => ScheduleManager.enter sch
  | .shared sch => ScheduleManager.enterShared sch

/-- What stands in the column of the document; users have none. -/
def stored (runtime : Runtime) : Branch → Upload → Except Failure Text
  | _, .user _ => .ok []
  | .insert, .schedule sch =>
      (listDocument Waypoint.document sch.waypoints).map
        (storedDocument runtime.unicodeAll .compact)
  | .update, .schedule sch =>
      (listDocument Waypoint.document sch.waypoints).map (storedDocument .default .compact)
  | .insert, .shared sch =>
      .ok (storedDocument runtime.unicodeAll .indented (ScheduleManager.descriptionsDocument sch))
  | .update, .shared sch =>
      .ok (storedDocument runtime.unicodeAll .compact (ScheduleManager.descriptionsDocument sch))

/-- The values of a statement after the key, in the order of the columns. -/
def values (document : Text) : Upload → List Value
  | .user clt => [.literal clt.name, .literal clt.profileUrl]
  | .schedule sch => [.literal sch.name, .literal sch.destination, .number (intText sch.days.toInt),
      .literal sch.startDate, .literal document, .number (intText sch.memberGroupId.toInt),
      .name (ScheduleManager.boolText sch.isShared)]
  | .shared sch => [.number (intText sch.ownerId.toInt), floatingValue sch.rating,
      .number (intText sch.likes.toInt), .number (intText sch.sharedCount.toInt),
      .number (intText sch.titleImgId.toInt), .literal sch.titleText,
      .literal sch.descriptionText, .literal document]

def cells (settings : Sql.Settings) (document : Text) : Upload → Option (List Cell)
  | .user clt => some [.bigint clt.uid, .text clt.name, .text clt.profileUrl]
  | .schedule sch => (Sql.readDate settings sch.startDate).map fun date =>
      [.int sch.id, .text sch.name, .text sch.destination, .int sch.days, .date date,
        .text document, .int sch.memberGroupId, .bool sch.isShared]
  | .shared sch =>
      match sch.rating with
      | .finite number => some [.int sch.scheduleId, .bigint sch.ownerId,
          .real number.toJsonNumber, .int sch.likes, .int sch.sharedCount, .int sch.titleImgId,
          .text sch.titleText, .text sch.descriptionText, .text document]
      | .nonFinite _ => none

theorem coerce_int (settings : Sql.Settings) (n : Int32) :
    Sql.coerce settings .int (.number (intText n.toInt)) = some (.int n) := by
  simp [Sql.coerce]

theorem coerce_bigint (settings : Sql.Settings) (n : Int64) :
    Sql.coerce settings .bigint (.number (intText n.toInt)) = some (.bigint n) := by
  simp [Sql.coerce]

theorem coerce_bool (settings : Sql.Settings) (value : Bool) :
    Sql.coerce settings .bool (.name (ScheduleManager.boolText value)) = some (.bool value) := by
  cases value <;> rfl

theorem coerce_floating (settings : Sql.Settings) (value : Floating) :
    Sql.coerce settings .real (floatingValue value) =
      match value with
      | .finite number => some (.real number.toJsonNumber)
      | .nonFinite _ => none := by
  cases value with
  | finite number => simp [floatingValue, Sql.coerce, Sql.numberCell, number.wellFormed]
  | nonFinite kind => cases kind <;> rfl

theorem insert_cells_values (settings : Sql.Settings) (document : Text) (upload : Upload) :
    Sql.insertCells settings upload.table.columns
      (.number (intText upload.key) :: upload.values document) =
      upload.cells settings document := by
  cases upload with
  | user clt =>
      simp only [table, TableName.columns, key, values, cells, Sql.insertCells, column,
        coerce_bigint]
      rfl
  | schedule sch =>
      simp only [table, TableName.columns, key, values, cells, Sql.insertCells, column,
        coerce_int, coerce_bool]
      simp only [Sql.coerce]
      cases Sql.readDate settings sch.startDate <;> rfl
  | shared sch =>
      simp only [table, TableName.columns, key, values, cells, Sql.insertCells, column,
        coerce_int, coerce_bigint, coerce_floating]
      cases sch.rating <;> rfl

section
variable (runtime : Runtime)

theorem read_insert_text (upload plain : Upload) (text document : Text)
    (built : upload.text runtime .insert = .ok text)
    (kept : upload.stored runtime .insert = .ok document) (meaning : upload.meant = some plain) :
    readStatement text =
      some (.insert upload.table.title
        (.number (intText upload.key) :: plain.values document)) := by
  cases upload with
  | user clt =>
      simp only [meant, Option.bind_eq_bind, Option.bind_eq_some_iff, Option.some.injEq] at meaning
      obtain ⟨name, decodedName, profileUrl, decodedUrl, rfl⟩ := meaning
      cases built
      refine Sql.read_template (ClientManager.insert_text clt name profileUrl)
        (ClientManager.insert_tokens clt name profileUrl)
        (ClientManager.parse_insert clt name profileUrl) ?_
      simp [ClientManager.insertFields, decodedName, decodedUrl]
  | schedule sch =>
      simp only [meant, Option.bind_eq_bind, Option.bind_eq_some_iff, Option.some.injEq] at meaning
      obtain ⟨name, decodedName, destination, decodedDestination, startDate, decodedDate, rfl⟩ :=
        meaning
      cases written : listDocument Waypoint.document sch.waypoints with
      | error failure => simp [Upload.text, written, Except.map] at built
      | ok whole =>
          simp only [Upload.text, stored, written, Except.map, Except.ok.injEq] at built kept
          subst built kept
          refine Sql.read_template
            (ScheduleManager.insert_text sch _ name destination startDate _)
            (ScheduleManager.insert_tokens sch _ name destination startDate _)
            (ScheduleManager.parse_insert sch name destination startDate _) ?_
          simp [ScheduleManager.insertFields, decodedName, decodedDestination, decodedDate,
            stored_document_decodes]
  | shared sch =>
      simp only [meant, Option.bind_eq_bind, Option.bind_eq_some_iff, Option.some.injEq] at meaning
      obtain ⟨titleText, decodedTitle, descriptionText, decodedDescription, rfl⟩ := meaning
      cases built
      cases kept
      refine Sql.read_template
        (ScheduleManager.insert_shared_text sch _ titleText descriptionText _)
        (ScheduleManager.insert_shared_tokens sch _ titleText descriptionText _)
        (ScheduleManager.parse_insert_shared sch titleText descriptionText _) ?_
      simp [ScheduleManager.insertSharedFields, decodedTitle, decodedDescription,
        stored_document_decodes]

theorem read_update_text (upload plain : Upload) (text document : Text)
    (built : upload.text runtime .update = .ok text)
    (kept : upload.stored runtime .update = .ok document) (meaning : upload.meant = some plain) :
    ∃ name assignments, Sql.hasKey upload.table.columns name = true ∧
      Sql.Covers upload.table.columns (.number (intText upload.key) :: plain.values document)
        assignments ∧
      readStatement text = some (.update upload.table.title assignments
        (.equals name (.number (intText upload.key)))) := by
  cases upload with
  | user clt =>
      simp only [meant, Option.bind_eq_bind, Option.bind_eq_some_iff, Option.some.injEq] at meaning
      obtain ⟨name, decodedName, profileUrl, decodedUrl, rfl⟩ := meaning
      cases built
      refine ⟨"uid".toList, _, rfl, Or.inr rfl,
        Sql.read_template (ClientManager.update_text clt name profileUrl)
          (ClientManager.update_tokens clt name profileUrl)
          (ClientManager.parse_update clt name profileUrl) ?_⟩
      simp [ClientManager.updateFields, decodedName, decodedUrl]
  | schedule sch =>
      simp only [meant, Option.bind_eq_bind, Option.bind_eq_some_iff, Option.some.injEq] at meaning
      obtain ⟨name, decodedName, destination, decodedDestination, startDate, decodedDate, rfl⟩ :=
        meaning
      cases written : listDocument Waypoint.document sch.waypoints with
      | error failure => simp [Upload.text, written, Except.map] at built
      | ok whole =>
          simp only [Upload.text, stored, written, Except.map, Except.ok.injEq] at built kept
          subst built kept
          refine ⟨"id".toList, _, rfl, Or.inr rfl, Sql.read_template
            (ScheduleManager.update_text sch _ name destination startDate _)
            (ScheduleManager.update_tokens sch _ name destination startDate _)
            (ScheduleManager.parse_update sch name destination startDate _) ?_⟩
          simp [ScheduleManager.updateFields, decodedName, decodedDestination, decodedDate,
            stored_document_decodes]
  | shared sch =>
      simp only [meant, Option.bind_eq_bind, Option.bind_eq_some_iff, Option.some.injEq] at meaning
      obtain ⟨titleText, decodedTitle, descriptionText, decodedDescription, rfl⟩ := meaning
      cases built
      cases kept
      refine ⟨"scheduleId".toList, _, rfl, Or.inl rfl, Sql.read_template
        (ScheduleManager.update_shared_text sch _ titleText descriptionText _)
        (ScheduleManager.update_shared_tokens sch _ titleText descriptionText _)
        (ScheduleManager.parse_update_shared sch titleText descriptionText _) ?_⟩
      simp [ScheduleManager.updateSharedFields, decodedTitle, decodedDescription,
        stored_document_decodes]

theorem meant_place (upload plain : Upload) (meaning : upload.meant = some plain) :
    plain.table = upload.table ∧ plain.key = upload.key := by
  cases upload <;>
    simp only [meant, Option.bind_eq_bind, Option.bind_eq_some_iff, Option.some.injEq] at meaning
  · obtain ⟨_, -, _, -, rfl⟩ := meaning
    exact ⟨rfl, rfl⟩
  · obtain ⟨_, -, _, -, _, -, rfl⟩ := meaning
    exact ⟨rfl, rfl⟩
  · obtain ⟨_, -, _, -, rfl⟩ := meaning
    exact ⟨rfl, rfl⟩

def rowsOf (upload : Upload) (tables : Tables) : List (Row (schema.columns upload.table)) :=
  Keyed.rowsOf firstKey (tables upload.table) upload.key

def branch (upload : Upload) (tables : Tables) : Branch :=
  if upload.rowsOf tables = [] then .insert else .update

/-- Whichever statement is sent, it leaves the row of the record under its key. -/
theorem exec_statement (upload plain : Upload) (world : World) (text document : Text)
    (built : upload.text runtime (upload.branch world.tables) = .ok text)
    (kept : upload.stored runtime (upload.branch world.tables) = .ok document)
    (meaning : upload.meant = some plain)
    (quiet : NoFailure (DBManager.executeQuery runtime text) world) :
    ∃ row : Row (schema.columns upload.table),
      plain.cells runtime.settings document = some row.cells ∧
      exec (DBManager.executeQuery runtime text) world =
        (.ok (), (written upload.table upload.key row world).logs [.executeQuery text]) := by
  obtain ⟨sameTable, sameKey⟩ := meant_place upload plain meaning
  have inserted := insert_cells_values runtime.settings document plain
  rw [sameTable, sameKey] at inserted
  by_cases absent : upload.rowsOf world.tables = []
  · simp only [branch, absent, if_true] at built kept
    obtain ⟨row, cells, ran⟩ := insert_step runtime upload.key world (find_title upload.table)
      (read_insert_text runtime upload plain text document built kept meaning) absent quiet
    exact ⟨row, inserted.symm.trans cells, ran⟩
  · simp only [branch, absent, if_false] at built kept
    obtain ⟨name, assignments, keyed, covers, read⟩ :=
      read_update_text runtime upload plain text document built kept meaning
    have complete : (Value.number (intText upload.key) :: plain.values document).length =
        upload.table.columns.length := by
      rw [← sameTable]
      cases plain <;> rfl
    obtain ⟨row, cells, ran⟩ := update_step runtime upload.key world (find_title upload.table)
      keyed read covers complete absent quiet
    exact ⟨row, inserted.symm.trans cells, ran⟩

def writable : Upload → Bool
  | .schedule sch => sch.waypoints.all Waypoint.isFinite
  | _ => true

theorem writable_schedule_iff (sch : Schedule) :
    (Upload.schedule sch).writable = true ↔
      ∃ document, listDocument Waypoint.document sch.waypoints = .ok document := by
  rw [list_written_iff _ _ waypoint_document_iff]
  exact List.all_eq_true

theorem writable_of_stored (runtime : Runtime) (upload : Upload) (branch : Branch)
    (document : Text) (kept : upload.stored runtime branch = .ok document) :
    upload.writable = true := by
  cases upload with
  | user clt => rfl
  | schedule sch =>
      rw [writable_schedule_iff]
      cases wrote : listDocument Waypoint.document sch.waypoints with
      | error failure => cases branch <;> simp [stored, wrote, Except.map] at kept
      | ok document => exact ⟨document, rfl⟩
  | shared sch => rfl

theorem enter_only (upload : Upload) (world : World) : MemoryOnly world (upload.enter world) := by
  cases upload with
  | user clt =>
      obtain ⟨tables, listener, listening, serving, log, failed⟩ := client_ready_only world
      exact ⟨tables, listener, listening, serving, log, failed⟩
  | schedule sch => exact ⟨rfl, rfl, rfl, rfl, rfl, rfl⟩
  | shared sch => exact ⟨rfl, rfl, rfl, rfl, rfl, rfl⟩

@[simp] theorem enter_tables (upload : Upload) (world : World) :
    (upload.enter world).tables = world.tables :=
  (enter_only upload world).tables

theorem exec_is_new (query table : Text) (name : TableName) (key : Text) (k : Int) (world : World)
    (read : readStatement query =
      some (.select table (.equals key (.number (intText k))) false))
    (found : findTable table = some name) (keyed : Sql.hasKey name.columns key = true)
    (quiet : NoFailure (ScheduleManager.isNew runtime query) world) :
    exec (ScheduleManager.isNew runtime query) world =
      (.ok (decide (Keyed.rowsOf firstKey (world.tables name) k = [])),
        world.logs [.select query, .select query]) := by
  have growsRows (rows : List Sql.DataRow) :
      Grows World.failedCalls (return rows.length < 1 : Action Bool) :=
    fun bound => preserves_pure _
  obtain ⟨first, rest, -⟩ := select_step runtime _ world read found (fun data bound => by
    split
    · exact stable_rows (failures_stay bound) runtime query _ fun rows => growsRows rows bound
    · exact preserves_pure _) quiet
  have start : exec (ScheduleManager.isNew runtime query) world = _ := first
  rw [start]
  obtain ⟨second, -, -⟩ := rows_step runtime _ _ read found growsRows rest
  refine second.trans ?_
  rw [World.logs_tables, rows_of_key runtime world.tables name key keyed]
  simp only [exec_pure, List.length_map, World.logs_logs, List.cons_append, List.nil_append,
    Nat.lt_one_iff, List.length_eq_zero_iff]

/-- The writer gets to its statement with the record entered. -/
def Reaches (upload : Upload) (world : World) : Prop :=
  ∃ text calls, upload.text runtime (upload.branch world.tables) = .ok text ∧
    exec (upload.store runtime) world =
      exec (DBManager.executeQuery runtime text) ((upload.enter world).logs calls) ∧
    NoFailure (DBManager.executeQuery runtime text) ((upload.enter world).logs calls)

theorem client_reaches (clt : Client) (world : World)
    (quiet : NoFailure (ClientManager.addClient runtime clt) world) :
    Reaches runtime (.user clt) world := by
  have only := client_ready_only world
  have ready := quiet_rest _ _ world (ClientManager.ready world) ⟨⟩ rfl only.failedCalls quiet
  have entered := quiet_rest _ _ (ClientManager.ready world) ((Upload.user clt).enter world) ⟨⟩
    rfl rfl ready
  obtain ⟨ran, later, -⟩ := rows_step runtime _ _ (ClientManager.read_row_query clt.uid) rfl
    (fun rows bound => by
      split
      · exact grows_execute runtime _ bound
      · exact grows_execute runtime _ bound) entered
  have start : exec (ClientManager.addClient runtime clt) world = _ := ran
  have same : ((Upload.user clt).enter world).tables = world.tables := only.tables
  rw [same, rows_of_key runtime world.tables .user "uid".toList rfl] at later start
  simp only [List.length_map, gt_iff_lt] at later start
  by_cases absent : (Upload.user clt).rowsOf world.tables = []
  · have empty : Keyed.rowsOf firstKey (world.tables .user) clt.uid.toInt = [] := absent
    simp only [empty, List.length_nil, Nat.lt_irrefl, if_false] at later start
    exact ⟨_, _, by simp only [branch, absent, if_true]; rfl, start, later⟩
  · have some_rows : 0 < (Keyed.rowsOf firstKey (world.tables .user) clt.uid.toInt).length :=
      List.length_pos_iff.mpr absent
    rw [if_pos some_rows] at later start
    exact ⟨_, _, by simp only [branch, absent, if_false]; rfl, start, later⟩

theorem grows_is_new (query : Text) :
    Grows World.failedCalls (ScheduleManager.isNew runtime query) :=
  fun bound => stable_is_new (failures_stay bound) runtime query

def sendSchedule (sch : Schedule) (make : Document → Text) : Action Unit := do
  modify (ScheduleManager.enter sch)
  let document ← lift (listDocument Waypoint.document sch.waypoints)
  DBManager.executeQuery runtime (make document)

def sendShared (sch : SharedSchedule) (text : Text) : Action Unit := do
  modify (ScheduleManager.enterShared sch)
  DBManager.executeQuery runtime text

theorem grows_send_schedule (sch : Schedule) (make : Document → Text) :
    Grows World.failedCalls (sendSchedule runtime sch make) :=
  fun bound => preserves_bind _ _ (grows_modify _ (fun _ => ⟨rfl, rfl, rfl, rfl, rfl, rfl⟩) bound)
    fun _ => preserves_bind _ _ (preserves_lift _) fun _ => grows_execute runtime _ bound

theorem grows_send_shared (sch : SharedSchedule) (text : Text) :
    Grows World.failedCalls (sendShared runtime sch text) :=
  fun bound => preserves_bind _ _ (grows_modify _ (fun _ => ⟨rfl, rfl, rfl, rfl, rfl, rfl⟩) bound)
    fun _ => grows_execute runtime _ bound

theorem exec_send_schedule (sch : Schedule) (make : Document → Text) (document : Document)
    (wrote : listDocument Waypoint.document sch.waypoints = .ok document) (world : World) :
    exec (sendSchedule runtime sch make) world =
      exec (DBManager.executeQuery runtime (make document)) (ScheduleManager.enter sch world) := by
  simp only [sendSchedule, exec_bind, exec_modify, exec_lift, wrote]

/-- What the two schedule writers share: the query decides which statement is sent. -/
theorem branch_step (upload : Upload) (query : Text) (name : Text) (insert update : Action Unit)
    (world : World)
    (read : readStatement query = some (.select upload.table.title
      (.equals name (.number (intText upload.key))) false))
    (keyed : Sql.hasKey upload.table.columns name = true)
    (growsInsert : Grows World.failedCalls insert) (growsUpdate : Grows World.failedCalls update)
    (quiet : NoFailure (do
      let new ← ScheduleManager.isNew runtime query
      if new then insert else update : Action Unit) world) :
    ∃ calls, exec (do
        let new ← ScheduleManager.isNew runtime query
        if new then insert else update : Action Unit) world =
          exec (if upload.branch world.tables = .insert then insert else update)
            (world.logs calls) ∧
      NoFailure (if upload.branch world.tables = .insert then insert else update)
        (world.logs calls) := by
  obtain ⟨first, later⟩ := quiet_bind _ _ world (grows_is_new runtime query) (fun new bound => by
    split
    · exact growsInsert bound
    · exact growsUpdate bound) quiet
  have ran := exec_is_new runtime query _ upload.table name upload.key world read
    (find_title upload.table) keyed first
  have rest := later _ _ ran
  have picks : (if decide (Keyed.rowsOf firstKey (world.tables upload.table) upload.key = []) = true
      then insert else update) =
      if upload.branch world.tables = .insert then insert else update := by
    by_cases absent : upload.rowsOf world.tables = []
    · have empty : Keyed.rowsOf firstKey (world.tables upload.table) upload.key = [] := absent
      simp [branch, absent, empty]
    · have there : ¬Keyed.rowsOf firstKey (world.tables upload.table) upload.key = [] := absent
      simp [branch, absent, there]
  rw [picks] at rest
  have start := exec_bind_ok _ (fun new : Bool => if new then insert else update) world _ _ ran
  exact ⟨[.select query, .select query], start.trans (by rw [picks]), rest⟩

theorem schedule_reaches (sch : Schedule) (world : World)
    (finite : (Upload.schedule sch).writable = true)
    (quiet : NoFailure (ScheduleManager.addSchedule runtime sch) world) :
    Reaches runtime (.schedule sch) world := by
  obtain ⟨document, wrote⟩ := (writable_schedule_iff sch).mp finite
  obtain ⟨calls, ran, later⟩ := branch_step runtime (.schedule sch)
    (ScheduleManager.rowQuery sch.id) "id".toList
    (sendSchedule runtime sch fun document =>
      ScheduleManager.insertText sch (serialize runtime.unicodeAll .compact document))
    (sendSchedule runtime sch fun document =>
      ScheduleManager.updateText sch (serialize .default .compact document)) world
    (ScheduleManager.read_row_query sch.id) rfl (grows_send_schedule runtime sch _)
    (grows_send_schedule runtime sch _) quiet
  unfold Reaches
  cases taken : (Upload.schedule sch).branch world.tables with
  | insert =>
      simp only [taken, if_true, NoFailure, Quiet,
        exec_send_schedule runtime sch _ document wrote] at ran later
      exact ⟨_, calls, (Upload.schedule_texts wrote).1, ran, later⟩
  | update =>
      simp only [taken, reduceCtorEq, if_false, NoFailure, Quiet,
        exec_send_schedule runtime sch _ document wrote] at ran later
      exact ⟨_, calls, (Upload.schedule_texts wrote).2, ran, later⟩

theorem shared_reaches (sch : SharedSchedule) (world : World)
    (quiet : NoFailure (ScheduleManager.addSharedSchedule runtime sch) world) :
    Reaches runtime (.shared sch) world := by
  obtain ⟨calls, ran, later⟩ := branch_step runtime (.shared sch)
    (ScheduleManager.sharedRowQuery sch.scheduleId) "scheduleId".toList
    (sendShared runtime sch (ScheduleManager.insertSharedText sch
      (serialize runtime.unicodeAll .indented (ScheduleManager.descriptionsDocument sch))))
    (sendShared runtime sch (ScheduleManager.updateSharedText sch
      (serialize runtime.unicodeAll .compact (ScheduleManager.descriptionsDocument sch)))) world
    (ScheduleManager.read_shared_row_query sch.scheduleId) rfl (grows_send_shared runtime sch _)
    (grows_send_shared runtime sch _) quiet
  unfold Reaches
  cases taken : (Upload.shared sch).branch world.tables with
  | insert =>
      simp only [taken, if_true] at ran later
      exact ⟨_, calls, rfl, ran, later⟩
  | update =>
      simp only [taken, reduceCtorEq, if_false] at ran later
      exact ⟨_, calls, rfl, ran, later⟩

theorem store_reaches (upload : Upload) (world : World) (finite : upload.writable = true)
    (quiet : NoFailure (upload.store runtime) world) : Reaches runtime upload world := by
  cases upload with
  | user clt => exact client_reaches runtime clt world quiet
  | schedule sch => exact schedule_reaches runtime sch world finite quiet
  | shared sch => exact shared_reaches runtime sch world quiet

theorem text_stored (upload : Upload) (branch : Branch) (text : Text)
    (built : upload.text runtime branch = .ok text) :
    ∃ document, upload.stored runtime branch = .ok document := by
  cases upload with
  | user clt => exact ⟨[], by cases branch <;> rfl⟩
  | schedule sch =>
      cases wrote : listDocument Waypoint.document sch.waypoints with
      | error failure => cases branch <;> simp [Upload.text, wrote, Except.map] at built
      | ok document => cases branch <;> exact ⟨_, congrArg (Except.map _) wrote⟩
  | shared sch => cases branch <;> exact ⟨_, rfl⟩

/-- A record whose calls do not fail is in memory and the only row of its key. -/
theorem exec_store (upload plain : Upload) (world : World) (meaning : upload.meant = some plain)
    (finite : upload.writable = true) (quiet : NoFailure (upload.store runtime) world) :
    ∃ (document : Text) (row : Row (schema.columns upload.table)) (calls : List Call),
      upload.stored runtime (upload.branch world.tables) = .ok document ∧
      plain.cells runtime.settings document = some row.cells ∧
      exec (upload.store runtime) world =
        (.ok (), (written upload.table upload.key row (upload.enter world)).logs calls) := by
  obtain ⟨text, calls, built, ran, later⟩ := store_reaches runtime upload world finite quiet
  obtain ⟨document, kept⟩ := text_stored runtime upload _ text built
  have same : ((upload.enter world).logs calls).tables = world.tables := enter_tables upload world
  obtain ⟨row, cells, sent⟩ := exec_statement runtime upload plain
    ((upload.enter world).logs calls) text document (by rw [same]; exact built)
    (by rw [same]; exact kept) meaning later
  refine ⟨document, row, calls ++ [.executeQuery text], kept, cells, ?_⟩
  rw [ran, sent]
  exact congrArg (Prod.mk (Except.ok ()))
    (World.logs_logs (written upload.table upload.key row (upload.enter world)) calls _)

end

end Upload

end TfuServer
