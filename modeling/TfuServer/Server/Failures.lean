import TfuServer.Server.Images
import TfuServer.Server.Upserts

/-!
# Memory and database when calls fail

Each writer enters its argument into a dictionary before it sends its statement.
Whatever calls fail, memory ends as it was or with the argument entered, and the
table is never ahead of it.
-/

namespace TfuServer

set_option autoImplicit false

open Numeral Program
open Sql (Row Plain Statement Condition firstKey readStatement)

inductive Writer where
  | image (id : Int32)
  | record (upload : Upload)

namespace Writer

def write (runtime : Runtime) : Writer → Action Unit
  | .image id => ImageManager.imageAdded runtime id
  | .record upload => upload.store runtime

def enter : Writer → World → World
  | .image id => ImageManager.enter id
  | .record upload => upload.enter

/-- The query that decides between the statements before the argument is entered. -/
def existenceQuery : Writer → Option Text
  | .record (.schedule sch) => some (ScheduleManager.rowQuery sch.id)
  | .record (.shared sch) => some (ScheduleManager.sharedRowQuery sch.scheduleId)
  | _ => none

/-- The strings can stand in a literal as they are, and the document can be written. -/
def Sendable : Writer → Prop
  | .image _ => True
  | .record upload => (∀ field ∈ upload.plainFields, Plain field) ∧ upload.writable = true

def InTable (runtime : Runtime) (world : World) : Writer → Prop
  | .image id => Keyed.lookup firstKey (world.tables .s3) id.toInt =
      some (ImageManager.storageRow id "1")
  | .record upload => ∃ row branch document,
      Keyed.lookup firstKey (world.tables upload.table) upload.key = some row ∧
      upload.stored runtime branch = .ok document ∧
      upload.cells runtime.settings document = some row.cells

end Writer

structure SameMemory (left right : World) : Prop where
  imageManager : left.imageManager = right.imageManager
  clientManager : left.clientManager = right.clientManager
  scheduleDic : left.scheduleDic = right.scheduleDic
  sharedScheduleDic : left.sharedScheduleDic = right.sharedScheduleDic

theorem SameMemory.refl (world : World) : SameMemory world world := ⟨rfl, rfl, rfl, rfl⟩

section
variable (runtime : Runtime)

theorem call_ended_memory (call : Call) (result : Option (DataSet × Tables)) (world target : World)
    (same : SameMemory world target) : SameMemory (callEnded call result world) target := by
  cases result with
  | none => exact ⟨same.imageManager, same.clientManager, same.scheduleDic,
      same.sharedScheduleDic⟩
  | some pair => exact ⟨same.imageManager, same.clientManager, same.scheduleDic,
      same.sharedScheduleDic⟩

theorem select_memory (query : Text) (target : World) :
    Preserves (fun world => SameMemory world target) (DBManager.select runtime query) := by
  intro world same
  rcases DBManager.select_cases runtime query world with
    ⟨data, tables, -, -, ran⟩ | ran | ⟨-, ran⟩ <;>
    · simp only [ran]
      exact call_ended_memory _ _ world target same

theorem execute_memory (text : Text) (target : World) :
    Preserves (fun world => SameMemory world target) (DBManager.executeQuery runtime text) := by
  intro world same
  rcases DBManager.execute_cases runtime text world with
    ⟨data, tables, -, -, ran⟩ | ran | ⟨-, ran⟩ <;>
    · simp only [ran]
      exact call_ended_memory _ _ world target same

/-- A query read as a select leaves the tables alone, whatever becomes of it. -/
theorem select_tables (query table : Text) (condition : Condition) (shuffled : Bool)
    (read : readStatement query = some (.select table condition shuffled)) (start : Tables) :
    Preserves (fun world => world.tables = start) (DBManager.select runtime query) := by
  intro world same
  rcases DBManager.select_cases runtime query world with
    ⟨data, tables, -, answered, ran⟩ | ran | ⟨-, ran⟩
  · rw [ran]
    simp only [answer, read] at answered
    split at answered
    · split_ifs at answered
      cases answered
      exact same
    · cases answered
  · rw [ran]
    exact same
  · rw [ran]
    exact same

theorem is_new_memory (query : Text) (target : World) :
    Preserves (fun world => SameMemory world target) (ScheduleManager.isNew runtime query) := by
  refine preserves_bind _ _ (select_memory runtime query target) fun data => ?_
  split
  · refine preserves_bind _ _ (select_memory runtime query target) fun again => ?_
    exact preserves_bind _ _ (preserves_lift _) fun rows => preserves_pure _
  · exact preserves_pure _

theorem is_new_tables (query table : Text) (condition : Condition) (shuffled : Bool)
    (read : readStatement query = some (.select table condition shuffled)) (start : Tables) :
    Preserves (fun world => world.tables = start) (ScheduleManager.isNew runtime query) := by
  have kept := select_tables runtime query table condition shuffled read start
  refine preserves_bind _ _ kept fun data => ?_
  split
  · exact preserves_bind _ _ kept fun again =>
      preserves_bind _ _ (preserves_lift _) fun rows => preserves_pure _
  · exact preserves_pure _

theorem writer_enter_memory (writer : Writer) (world before : World)
    (same : SameMemory world before) : SameMemory (writer.enter world) (writer.enter before) := by
  obtain ⟨images, clients, schedules, shared⟩ := same
  cases writer with
  | image id =>
      exact ⟨congrArg (Option.map (Manager.enter id (ImageManager.imageName id))) images, clients,
        schedules, shared⟩
  | record upload =>
      cases upload with
      | user clt =>
          simp only [Writer.enter, Upload.enter, client_ready, ClientManager.enter, clients]
          exact ⟨images, rfl, schedules, shared⟩
      | schedule sch =>
          exact ⟨images, clients,
            congrArg (fun dictionary => Dictionary.set dictionary sch.id sch) schedules, shared⟩
      | shared sch =>
          exact ⟨images, clients, schedules,
            congrArg (fun dictionary => Dictionary.set dictionary sch.scheduleId sch) shared⟩

/-- A writer that enters its argument and then only calls the database. -/
theorem entered_first (change : World → World) (rest : Action Unit) (world target : World)
    (same : SameMemory (change world) target)
    (kept : Preserves (fun world => SameMemory world target) rest) :
    SameMemory (exec (do modify change; rest) world).2 target := by
  rw [exec_bind, exec_modify]
  exact kept (change world) same

theorem rows_memory (query : Text) (target : World) (next : List Sql.DataRow → Action Unit)
    (rest : ∀ rows, Preserves (fun world => SameMemory world target) (next rows)) :
    Preserves (fun world => SameMemory world target) (do
      let data ← DBManager.select runtime query
      let rows ← lift data.first
      next rows) :=
  preserves_bind _ _ (select_memory runtime query target) fun _ =>
    preserves_bind _ _ (preserves_lift _) rest

theorem image_entered (id : Int32) (world : World) :
    SameMemory (exec (ImageManager.imageAdded runtime id) world).2
      (ImageManager.enter id world) := by
  refine entered_first _ _ world _ (SameMemory.refl _)
    (rows_memory runtime _ _ _ fun rows => ?_)
  split
  · exact execute_memory runtime _ _
  · exact execute_memory runtime _ _

theorem client_entered (clt : Client) (world : World) :
    SameMemory (exec (ClientManager.addClient runtime clt) world).2
      ((Upload.user clt).enter world) := by
  have ran : exec (ClientManager.addClient runtime clt) world = exec (do
      modify (ClientManager.enter clt)
      let data ← DBManager.select runtime (ClientManager.rowQuery clt.uid)
      let rows ← lift data.first
      if rows.length > 0 then DBManager.executeQuery runtime (ClientManager.updateText clt)
      else DBManager.executeQuery runtime (ClientManager.insertText clt) : Action Unit)
      (ClientManager.ready world) := rfl
  rw [ran]
  refine entered_first _ _ (ClientManager.ready world) _ (SameMemory.refl _)
    (rows_memory runtime _ _ _ fun rows => ?_)
  split
  · exact execute_memory runtime _ _
  · exact execute_memory runtime _ _

/-- What the two schedule writers have in common: they enter their argument unless the
existence query ends with an exception. -/
theorem asked_first (writer : Writer) (query table : Text) (condition : Condition)
    (insert update : Action Unit) (world : World)
    (read : readStatement query = some (.select table condition false))
    (entered : ∀ before, SameMemory before world →
      SameMemory (exec insert before).2 (writer.enter world) ∧
        SameMemory (exec update before).2 (writer.enter world)) :
    let program : Action Unit := do
      let new ← ScheduleManager.isNew runtime query
      if new then insert else update
    (∀ new, (exec (ScheduleManager.isNew runtime query) world).1 = .ok new →
      SameMemory (exec program world).2 (writer.enter world)) ∧
    ∀ failure, (exec (ScheduleManager.isNew runtime query) world).1 = .error failure →
      SameMemory (exec program world).2 world ∧ (exec program world).2.tables = world.tables := by
  intro program
  have memory := is_new_memory runtime query world world (SameMemory.refl world)
  have tables := is_new_tables runtime query table condition false read world.tables world rfl
  have ran : exec program world = _ := exec_bind (ScheduleManager.isNew runtime query)
    (fun new => if new then insert else update) world
  rw [ran]
  generalize exec (ScheduleManager.isNew runtime query) world = asked at memory tables
  obtain ⟨result, after⟩ := asked
  obtain ⟨inserted, updated⟩ := entered after memory
  constructor
  · rintro new rfl
    cases new with
    | true => exact inserted
    | false => exact updated
  · rintro failure rfl
    exact ⟨memory, tables⟩

theorem send_schedule_memory (sch : Schedule) (make : Document → Text) (world before : World)
    (same : SameMemory before world) :
    SameMemory (exec (Upload.sendSchedule runtime sch make) before).2
      (ScheduleManager.enter sch world) := by
  refine entered_first _ _ before _
    (writer_enter_memory (.record (.schedule sch)) before world same) ?_
  exact preserves_bind _ _ (preserves_lift _) fun document => execute_memory runtime _ _

theorem send_shared_memory (sch : SharedSchedule) (text : Text) (world before : World)
    (same : SameMemory before world) :
    SameMemory (exec (Upload.sendShared runtime sch text) before).2
      (ScheduleManager.enterShared sch world) :=
  entered_first _ _ before _ (writer_enter_memory (.record (.shared sch)) before world same)
    (execute_memory runtime _ _)

theorem schedule_entered (writer : Writer) (query : Text) (world : World)
    (asks : writer.existenceQuery = some query) :
    (∀ new, (exec (ScheduleManager.isNew runtime query) world).1 = .ok new →
      SameMemory (exec (writer.write runtime) world).2 (writer.enter world)) ∧
    ∀ failure, (exec (ScheduleManager.isNew runtime query) world).1 = .error failure →
      SameMemory (exec (writer.write runtime) world).2 world ∧
        (exec (writer.write runtime) world).2.tables = world.tables := by
  cases writer with
  | image id => cases asks
  | record upload =>
      cases upload with
      | user clt => cases asks
      | schedule sch =>
          cases asks
          refine asked_first runtime (.record (.schedule sch)) _ _ _ _ _ world
            (ScheduleManager.read_row_query sch.id) fun before same => ⟨?_, ?_⟩
          · exact send_schedule_memory runtime sch _ world before same
          · exact send_schedule_memory runtime sch _ world before same
      | shared sch =>
          cases asks
          refine asked_first runtime (.record (.shared sch)) _ _ _ _ _ world
            (ScheduleManager.read_shared_row_query sch.scheduleId) fun before same => ⟨?_, ?_⟩
          · exact send_shared_memory runtime sch _ world before same
          · exact send_shared_memory runtime sch _ world before same

theorem written_in_table (writer : Writer) (world : World) (sendable : writer.Sendable)
    (quiet : NoFailure (writer.write runtime) world) :
    writer.InTable runtime (exec (writer.write runtime) world).2 := by
  cases writer with
  | image id =>
      obtain ⟨calls, ran⟩ := ImageManager.exec_image_added runtime id world quiet
      have same : exec ((Writer.image id).write runtime) world = _ := ran
      rw [same, Writer.InTable, World.logs_tables, World.put_table]
      exact Keyed.lookup_upsert_same firstKey id.toInt _ _ _ rfl (fun _ _ => rfl) fun _ _ => rfl
  | record upload =>
      obtain ⟨plain, finite⟩ := sendable
      obtain ⟨document, row, stored, cells, found⟩ :=
        store_row runtime upload upload world (meant_of_plain upload plain) finite quiet
      exact ⟨row, _, document, found, stored, cells⟩

end

/-- Whatever calls fail, a writer leaves memory with its argument entered, unless the query
that decides between its statements ends with an exception: then neither memory nor the
tables have changed. A row that does not hold the argument's values afterwards means that
a call failed, or that the values cannot be sent. -/
theorem memory_entered_before_table (runtime : Runtime) (writer : Writer) (world : World) :
    ((∀ query, writer.existenceQuery = some query →
        ∃ new, (exec (ScheduleManager.isNew runtime query) world).1 = .ok new) →
      SameMemory (exec (writer.write runtime) world).2 (writer.enter world)) ∧
    (∀ query failure, writer.existenceQuery = some query →
      (exec (ScheduleManager.isNew runtime query) world).1 = .error failure →
      SameMemory (exec (writer.write runtime) world).2 world ∧
        (exec (writer.write runtime) world).2.tables = world.tables) ∧
    (¬writer.InTable runtime (exec (writer.write runtime) world).2 →
      (exec (writer.write runtime) world).2.failedCalls ≠ world.failedCalls ∨
        ¬writer.Sendable) := by
  refine ⟨?_, ?_, ?_⟩
  · intro answered
    cases asks : writer.existenceQuery with
    | some query =>
        obtain ⟨new, asked⟩ := answered query asks
        exact (schedule_entered runtime writer query world asks).1 new asked
    | none =>
        cases writer with
        | image id => exact image_entered runtime id world
        | record upload =>
            cases upload with
            | user clt => exact client_entered runtime clt world
            | schedule sch => cases asks
            | shared sch => cases asks
  · intro query failure asks failed
    exact (schedule_entered runtime writer query world asks).2 failure failed
  · intro missing
    by_contra both
    obtain ⟨quiet, sendable⟩ := not_or.mp both
    exact missing (written_in_table runtime writer world (not_not.mp sendable)
      (not_not.mp quiet))

def Runtime.secondCallFails : Runtime :=
  { Runtime.standard with outcome := fun call => if call = 1 then .fails else .works }

/-- The statement fails: there is no row, and the image is in the dictionary. -/
theorem memory_ahead_of_table :
    let world := { World.fresh Tables.empty with
      imageManager := some (Manager.build none fun _ => none) }
    let after := (exec (ImageManager.imageAdded .secondCallFails 1) world).2
    after.tables .s3 = [] ∧
      (world.imageDictionary.bind fun dictionary => dictionary 1) = none ∧
      (after.imageDictionary.bind fun dictionary => dictionary 1) = some "1.jpg".toList :=
  ⟨rfl, rfl, rfl⟩

end TfuServer
