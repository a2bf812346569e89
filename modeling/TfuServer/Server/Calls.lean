import TfuServer.Server.Server
import TfuServer.Sql.FirstColumn

/-!
# What every request does to the database

A request only calls the database and changes the memory of the process. An
invariant that both kinds of step keep is kept by every request; that failed
calls stay counted is one. Where no call fails, a call does what its statement
says, and the run goes on with what it answered.
-/

namespace TfuServer

set_option autoImplicit false

open Numeral Program
open Json (serialize)
open Sql (Statement Condition Row DataRow readStatement)

/-- Only the dictionaries differ. -/
structure MemoryOnly (before after : World) : Prop where
  tables : after.tables = before.tables
  httpListener : after.httpListener = before.httpListener
  listening : after.listening = before.listening
  serving : after.serving = before.serving
  log : after.log = before.log
  failedCalls : after.failedCalls = before.failedCalls

theorem client_ready (world : World) :
    ClientManager.ready world = { world with
      clientManager := some (world.clientManager.getD (Manager.build none fun _ => none)) } := by
  obtain ⟨_, _, manager⟩ := world
  cases manager <;> rfl

theorem client_ready_only (world : World) : MemoryOnly world (ClientManager.ready world) := by
  rw [client_ready]
  exact ⟨rfl, rfl, rfl, rfl, rfl, rfl⟩

theorem enter_image_only (number : Nat) (id : Int32) (world : World) :
    MemoryOnly world (ImageManager.enterAt number id world) := by
  unfold ImageManager.enterAt
  split_ifs <;> exact ⟨rfl, rfl, rfl, rfl, rfl, rfl⟩

theorem enter_client_only (number : Nat) (clt : Client) (world : World) :
    MemoryOnly world (ClientManager.enterAt number clt world) := by
  unfold ClientManager.enterAt
  split_ifs <;> exact ⟨rfl, rfl, rfl, rfl, rfl, rfl⟩

/-- Kept by every call that executes only allowed texts, and by changes of the memory. -/
structure Stable (invariant : World → Prop) (allowed : Text → Prop) : Prop where
  call : ∀ call result world, (∀ text, call = .executeQuery text → allowed text) →
    invariant world → invariant (callEnded call result world)
  memory : ∀ before after, MemoryOnly before after → invariant before → invariant after

section
variable {invariant : World → Prop} {allowed : Text → Prop} (stable : Stable invariant allowed)
  (runtime : Runtime)
include stable

theorem stable_select (query : Text) : Preserves invariant (DBManager.select runtime query) := by
  intro world holds
  have kept := fun result => stable.call (.select query) result world
    (fun text same => by cases same) holds
  rcases DBManager.select_cases runtime query world with
    ⟨data, tables, -, -, ran⟩ | ran | ⟨-, ran⟩
  · rw [ran]
    exact kept (some (data, tables))
  · rw [ran]
    exact kept none
  · rw [ran]
    exact kept none

theorem stable_execute (text : Text) (fits : allowed text) :
    Preserves invariant (DBManager.executeQuery runtime text) := by
  intro world holds
  have kept := fun result => stable.call (.executeQuery text) result world
    (fun other same => by cases same; exact fits) holds
  rcases DBManager.execute_cases runtime text world with
    ⟨data, tables, -, -, ran⟩ | ran | ⟨-, ran⟩
  · rw [ran]
    exact kept (some (data, tables))
  · rw [ran]
    exact kept none
  · rw [ran]
    exact kept none

theorem stable_modify (change : World → World) (only : ∀ world, MemoryOnly world (change world)) :
    Preserves invariant (modify change : Action PUnit) :=
  preserves_modify change fun world => stable.memory world (change world) (only world)

theorem stable_rows (query : Text) {Value : Type} (next : List DataRow → Action Value)
    (rest : ∀ rows, Preserves invariant (next rows)) :
    Preserves invariant (do
      let data ← DBManager.select runtime query
      let rows ← lift data.first
      next rows) :=
  preserves_bind _ _ (stable_select stable runtime query) fun _ =>
    preserves_bind _ _ (preserves_lift _) rest

theorem stable_instance : Preserves invariant (ImageManager.instance runtime) := by
  refine preserves_bind _ _ preserves_get fun world => ?_
  cases world.imageManager with
  | some manager => exact preserves_pure _
  | none =>
      refine preserves_bind _ _ ?_ fun dictionary => ?_
      · exact preserves_bind _ _ (stable_select stable runtime _) fun data => preserves_lift _
      · exact stable_modify stable _ fun _ => ⟨rfl, rfl, rfl, rfl, rfl, rfl⟩

theorem stable_image_added (id : Int32) (update : allowed (ImageManager.updateText id))
    (insert : allowed (ImageManager.insertText id)) :
    Preserves invariant (ImageManager.imageAdded runtime id) := by
  refine preserves_bind _ _ (stable_modify stable _ fun _ => ⟨rfl, rfl, rfl, rfl, rfl, rfl⟩)
    fun _ => ?_
  refine stable_rows stable runtime _ _ fun rows => ?_
  split
  · exact stable_execute stable runtime _ update
  · exact stable_execute stable runtime _ insert

theorem stable_get_empty_key (update : ∀ id, allowed (ImageManager.updateText id))
    (insert : ∀ id, allowed (ImageManager.insertText id)) :
    Preserves invariant (ImageManager.getEmptyKey runtime) := by
  have added (id : Int32) := stable_image_added stable runtime id (update id) (insert id)
  refine preserves_bind _ _ (stable_select stable runtime _) fun free => ?_
  refine preserves_bind _ _ (preserves_lift _) fun found => ?_
  cases found with
  | some id => exact preserves_bind _ _ (added id) fun _ => preserves_pure _
  | none =>
      refine stable_rows stable runtime _ _ fun rows => ?_
      exact preserves_bind _ _ (added _) fun _ => preserves_pure _

theorem stable_image_key (update : ∀ id, allowed (ImageManager.updateText id))
    (insert : ∀ id, allowed (ImageManager.insertText id)) :
    Preserves invariant (Server.imageKey runtime) := by
  refine preserves_bind _ _ (stable_instance stable runtime) fun _ => ?_
  refine preserves_bind _ _ (stable_get_empty_key stable runtime update insert) fun key => ?_
  refine preserves_bind _ _ (stable_modify stable _ fun _ => ⟨rfl, rfl, rfl, rfl, rfl, rfl⟩)
    fun _ => ?_
  exact preserves_pure _

theorem stable_add_client (clt : Client) (update : allowed (ClientManager.updateText clt))
    (insert : allowed (ClientManager.insertText clt)) :
    Preserves invariant (ClientManager.addClient runtime clt) := by
  refine preserves_bind _ _ (stable_modify stable _ client_ready_only) fun _ => ?_
  refine preserves_bind _ _ (stable_modify stable _ fun _ => ⟨rfl, rfl, rfl, rfl, rfl, rfl⟩)
    fun _ => ?_
  refine stable_rows stable runtime _ _ fun rows => ?_
  split
  · exact stable_execute stable runtime _ update
  · exact stable_execute stable runtime _ insert

theorem stable_is_new (query : Text) :
    Preserves invariant (ScheduleManager.isNew runtime query) := by
  refine preserves_bind _ _ (stable_select stable runtime query) fun data => ?_
  split
  · exact stable_rows stable runtime query _ fun rows => preserves_pure _
  · exact preserves_pure _

theorem stable_add_schedule (sch : Schedule)
    (update : ∀ document, listDocument Waypoint.document sch.waypoints = .ok document →
      allowed (ScheduleManager.updateText sch (serialize .default .compact document)))
    (insert : ∀ document, listDocument Waypoint.document sch.waypoints = .ok document →
      allowed (ScheduleManager.insertText sch (serialize runtime.unicodeAll .compact document))) :
    Preserves invariant (ScheduleManager.addSchedule runtime sch) := by
  refine preserves_bind _ _ (stable_is_new stable runtime _) fun new => ?_
  split <;>
    refine preserves_bind _ _ (stable_modify stable _ fun _ => ⟨rfl, rfl, rfl, rfl, rfl, rfl⟩)
      fun _ => preserves_bind_lift _ _ fun document written => ?_
  · exact stable_execute stable runtime _ (insert document written)
  · exact stable_execute stable runtime _ (update document written)

theorem stable_add_shared (sch : SharedSchedule)
    (update : allowed (ScheduleManager.updateSharedText sch
      (serialize runtime.unicodeAll .compact (ScheduleManager.descriptionsDocument sch))))
    (insert : allowed (ScheduleManager.insertSharedText sch
      (serialize runtime.unicodeAll .indented (ScheduleManager.descriptionsDocument sch)))) :
    Preserves invariant (ScheduleManager.addSharedSchedule runtime sch) := by
  refine preserves_bind _ _ (stable_is_new stable runtime _) fun new => ?_
  split <;>
    refine preserves_bind _ _ (stable_modify stable _ fun _ => ⟨rfl, rfl, rfl, rfl, rfl, rfl⟩)
      fun _ => ?_
  · exact stable_execute stable runtime _ insert
  · exact stable_execute stable runtime _ update

theorem stable_load_rows (rows : List DataRow) :
    Preserves invariant (ScheduleManager.loadRows runtime rows) := by
  induction rows with
  | nil => exact preserves_pure _
  | cons row rows ih =>
      refine preserves_bind _ _ (preserves_lift _) fun sch => ?_
      exact preserves_bind _ _ (stable_modify stable _ fun _ => ⟨rfl, rfl, rfl, rfl, rfl, rfl⟩)
        fun _ => ih

theorem stable_sync : Preserves invariant (ScheduleManager.syncDBToDictionary runtime) := by
  refine preserves_bind _ _ (stable_modify stable _ fun _ => ⟨rfl, rfl, rfl, rfl, rfl, rfl⟩)
    fun _ => ?_
  refine preserves_bind _ _ (stable_select stable runtime _) fun data => ?_
  cases data with
  | nil => exact preserves_pure _
  | cons rows _ => exact stable_load_rows stable runtime rows

theorem stable_recommend : Preserves invariant (Server.recommend runtime) := by
  refine stable_rows stable runtime _ _ fun _ => ?_
  refine stable_rows stable runtime _ _ fun rows => ?_
  exact preserves_bind _ _ (preserves_lift _) fun list => preserves_lift _

theorem stable_waypoints (keyword : Option Text) :
    Preserves invariant (Server.waypoints runtime keyword) := by
  refine preserves_try_catch _ _ ?_ fun _ => preserves_pure _
  refine stable_rows stable runtime _ _ fun rows => ?_
  exact preserves_bind _ _ (preserves_lift _) fun list => preserves_lift _

theorem stable_client_get (update : ∀ id, allowed (ImageManager.updateText id))
    (insert : ∀ id, allowed (ImageManager.insertText id)) (request : Request) :
    Preserves invariant (Server.clientGet runtime request) := by
  simp only [Server.clientGet]
  split_ifs
  · exact preserves_bind _ _ (stable_image_key stable runtime update insert) fun _ =>
      preserves_pure _
  · exact preserves_bind _ _ (stable_recommend stable runtime) fun _ => preserves_pure _
  · exact preserves_bind _ _ (stable_waypoints stable runtime _) fun _ => preserves_pure _
  · exact preserves_pure _

theorem stable_client_post (every : ∀ text, allowed text) (request : Request) :
    Preserves invariant (Server.clientPost runtime request) := by
  simp only [Server.clientPost]
  split_ifs
  · refine preserves_bind _ _ (preserves_lift _) fun clt => ?_
    exact stable_add_client stable runtime clt (every _) (every _)
  · refine preserves_bind _ _ (preserves_lift _) fun sch => ?_
    exact stable_add_schedule stable runtime sch (fun _ _ => every _) fun _ _ => every _
  · refine preserves_attempt _ (preserves_bind _ _ (preserves_lift _) fun sch => ?_)
    exact stable_add_shared stable runtime sch (every _) (every _)
  · refine preserves_bind _ _ (preserves_lift _) fun found => ?_
    cases found with
    | none => exact preserves_pure _
    | some id =>
        refine preserves_bind _ _ (stable_instance stable runtime) fun _ => ?_
        refine preserves_bind _ _ (preserves_lift _) fun id => ?_
        exact stable_image_added stable runtime id (every _) (every _)
  · exact preserves_pure _

theorem stable_data_received (every : ∀ text, allowed text) (request : Request) :
    Preserves invariant (Server.dataReceived runtime request) := by
  simp only [Server.dataReceived]
  split_ifs
  · refine preserves_bind _ _ ?_ fun _ => preserves_pure _
    exact stable_client_get stable runtime (fun _ => every _) (fun _ => every _) request
  · refine preserves_bind _ _ ?_ fun _ => preserves_pure _
    exact stable_client_post stable runtime every request
  · exact preserves_pure _

end

namespace World

def logs (calls : List Call) (world : World) : World := { world with log := world.log ++ calls }

def put (name : TableName) (rows : Sql.Table (schema.columns name)) (world : World) : World :=
  { world with tables := Function.update world.tables name rows }

variable (world : World) (calls more : List Call) (name : TableName)
  (rows : Sql.Table (schema.columns name))

@[simp] theorem logs_tables : (world.logs calls).tables = world.tables := rfl

@[simp] theorem logs_failed_calls : (world.logs calls).failedCalls = world.failedCalls := rfl

@[simp] theorem logs_logs : (world.logs calls).logs more = world.logs (calls ++ more) := by
  simp [logs]

@[simp] theorem logs_put : (world.logs calls).put name rows = (world.put name rows).logs calls :=
  rfl

@[simp] theorem put_table : (world.put name rows).tables name = rows := by
  simp [put]

@[simp] theorem put_put (other : Sql.Table (schema.columns name)) :
    (world.put name rows).put name other = world.put name other := by
  simp [put]

theorem put_other (other : TableName) (differs : other ≠ name) :
    (world.put name rows).tables other = world.tables other :=
  Function.update_of_ne differs _ _

end World

theorem failures_stay (bound : Nat) :
    Stable (fun world => bound ≤ world.failedCalls) (fun _ => True) where
  call := fun call result world _ counted => by
    cases result with
    | none => exact Nat.le_succ_of_le counted
    | some pair => exact counted
  memory := fun before after only counted => by rw [only.failedCalls]; exact counted

/-- No call of the program fails. -/
abbrev NoFailure {Value : Type} (program : Action Value) (world : World) : Prop :=
  Quiet World.failedCalls program world

section
variable (runtime : Runtime)

theorem grows_select (query : Text) : Grows World.failedCalls (DBManager.select runtime query) :=
  fun bound => stable_select (failures_stay bound) runtime query

theorem grows_execute (text : Text) :
    Grows World.failedCalls (DBManager.executeQuery runtime text) :=
  fun bound => stable_execute (failures_stay bound) runtime text trivial

theorem grows_lift {Value : Type} (result : Except Failure Value) :
    Grows World.failedCalls (lift result : Action Value) :=
  fun _ => preserves_lift result

theorem grows_modify (change : World → World) (only : ∀ world, MemoryOnly world (change world)) :
    Grows World.failedCalls (modify change : Action PUnit) :=
  fun bound => stable_modify (failures_stay bound) change only

theorem no_failure_select (query : Text) (world : World)
    (quiet : NoFailure (DBManager.select runtime query) world) :
    ∃ data tables, answer runtime world.log.length world.tables query = some (data, tables) ∧
      exec (DBManager.select runtime query) world =
        (.ok data, { world with tables, log := world.log ++ [.select query] }) := by
  unfold NoFailure Quiet at quiet
  rcases DBManager.select_cases runtime query world with
    ⟨data, tables, -, answered, ran⟩ | ran | ⟨-, ran⟩
  · exact ⟨data, tables, answered, ran⟩
  · simp [ran, callEnded] at quiet
  · simp [ran, callEnded] at quiet

theorem no_failure_execute (text : Text) (world : World)
    (quiet : NoFailure (DBManager.executeQuery runtime text) world) :
    ∃ data tables, answer runtime world.log.length world.tables text = some (data, tables) ∧
      exec (DBManager.executeQuery runtime text) world =
        (.ok (), { world with tables, log := world.log ++ [.executeQuery text] }) := by
  unfold NoFailure Quiet at quiet
  rcases DBManager.execute_cases runtime text world with
    ⟨data, tables, -, answered, ran⟩ | ran | ⟨-, ran⟩
  · exact ⟨data, tables, answered, ran⟩
  · simp [ran, callEnded] at quiet
  · simp [ran, callEnded] at quiet

def rowsMeeting (tables : Tables) (name : TableName) (condition : Condition) : List DataRow :=
  ((tables name).filter fun row =>
    condition.holds runtime.settings name.columns row.cells).map Row.dataRow

theorem answer_select (call : Nat) (tables after : Tables) (query table : Text)
    (condition : Condition) (name : TableName) (data : DataSet)
    (read : readStatement query = some (.select table condition false))
    (found : findTable table = some name)
    (answered : answer runtime call tables query = some (data, after)) :
    data = [rowsMeeting runtime tables name condition] ∧ after = tables ∧
      (rowsMeeting runtime tables name condition).length ≤ maxRows := by
  have queried (order : List DataRow → List DataRow) :
      Sql.query runtime.settings order tables (.select table condition false) =
        if condition.known name.columns then some (rowsMeeting runtime tables name condition)
        else none :=
    @Sql.query_select runtime.settings schema tables table name found order condition
  simp only [answer, read, queried] at answered
  cases known : condition.known name.columns with
  | false => simp [known] at answered
  | true =>
      simp only [known, if_true] at answered
      split_ifs at answered with fits
      obtain ⟨rfl, rfl⟩ := Prod.mk.inj (Option.some.inj answered)
      exact ⟨rfl, rfl, of_decide_eq_true (Bool.and_eq_true_iff.mp fits).1⟩

/-- A query that does not fail hands out the rows, and the program goes on. -/
theorem select_step {Value : Type} {query table : Text} {condition : Condition} {name : TableName}
    (next : DataSet → Action Value) (world : World)
    (read : readStatement query = some (.select table condition false))
    (found : findTable table = some name) (grows : ∀ data, Grows World.failedCalls (next data))
    (quiet : NoFailure (DBManager.select runtime query >>= next) world) :
    exec (DBManager.select runtime query >>= next) world =
        exec (next [rowsMeeting runtime world.tables name condition])
          (world.logs [.select query]) ∧
      NoFailure (next [rowsMeeting runtime world.tables name condition])
        (world.logs [.select query]) ∧
      (rowsMeeting runtime world.tables name condition).length ≤ maxRows := by
  obtain ⟨selected, later⟩ := quiet_bind _ _ world (grows_select runtime query) grows quiet
  obtain ⟨data, tables, answered, ran⟩ := no_failure_select runtime query world selected
  obtain ⟨rfl, rfl, few⟩ :=
    answer_select runtime _ _ _ query table condition name data read found answered
  have after := later _ _ ran
  rw [exec_bind_ok _ _ world _ _ ran]
  exact ⟨rfl, after, few⟩

theorem rows_step {Value : Type} {query table : Text} {condition : Condition} {name : TableName}
    (next : List DataRow → Action Value) (world : World)
    (read : readStatement query = some (.select table condition false))
    (found : findTable table = some name) (grows : ∀ rows, Grows World.failedCalls (next rows))
    (quiet : NoFailure (do
      let data ← DBManager.select runtime query
      let rows ← lift data.first
      next rows) world) :
    exec (do
      let data ← DBManager.select runtime query
      let rows ← lift data.first
      next rows) world =
        exec (next (rowsMeeting runtime world.tables name condition))
          (world.logs [.select query]) ∧
      NoFailure (next (rowsMeeting runtime world.tables name condition))
        (world.logs [.select query]) ∧
      (rowsMeeting runtime world.tables name condition).length ≤ maxRows :=
  select_step runtime _ world read found
    (fun _ bound => preserves_bind _ _ (preserves_lift _) fun rows => grows rows bound) quiet

theorem rows_of_key (tables : Tables) (name : TableName) (key : Text)
    (keyed : Sql.hasKey name.columns key = true) (k : Int) :
    rowsMeeting runtime tables name (.equals key (.number (intText k))) =
      (Keyed.rowsOf Sql.firstKey (tables name) k).map Row.dataRow :=
  congrArg (List.map Row.dataRow)
    (@Sql.filter_key (schema.columns name) runtime.settings key keyed (tables name) k)

theorem answer_execute (call : Nat) (tables after : Tables) (text : Text) (statement : Statement)
    (data : DataSet) (read : readStatement text = some statement)
    (notSelect : ∀ table condition shuffled, statement ≠ .select table condition shuffled)
    (answered : answer runtime call tables text = some (data, after)) :
    Sql.execute runtime.settings tables statement = some after := by
  cases statement with
  | select table condition shuffled => exact absurd rfl (notSelect table condition shuffled)
  | insert | update =>
      simp only [answer, read, Option.map_eq_some_iff, Prod.mk.injEq] at answered
      obtain ⟨other, executed, -, rfl⟩ := answered
      exact executed

theorem keyed_columns (name : TableName) :
    (∀ column ∈ name.columns,
      Sql.columnType name.columns column.name = some column.type) ∧
      Sql.distinctNames name.columns = true := by
  cases name <;> decide

/-- The rows after a record with this key and these values has been written. -/
def written (name : TableName) (k : Int) (row : Row (schema.columns name)) (world : World) :
    World :=
  world.put name (Keyed.upsert Sql.firstKey k row (fun _ => row) (world.tables name))

variable {text table key : Text} {values : List Sql.Value} {name : TableName} (k : Int)
  (world : World) (found : findTable table = some name)
include found

theorem insert_step (read : readStatement text =
      some (.insert table (.number (intText k) :: values)))
    (absent : Keyed.rowsOf Sql.firstKey (world.tables name) k = [])
    (quiet : NoFailure (DBManager.executeQuery runtime text) world) :
    ∃ row : Row (schema.columns name),
      Sql.insertCells runtime.settings name.columns (.number (intText k) :: values) =
        some row.cells ∧
      exec (DBManager.executeQuery runtime text) world =
        (.ok (), (written name k row world).logs [.executeQuery text]) := by
  obtain ⟨data, tables, answered, ran⟩ := no_failure_execute runtime text world quiet
  have executed := answer_execute runtime _ _ _ text _ data read (by simp) answered
  obtain ⟨row, inserted, rfl⟩ :=
    @Sql.execute_insert runtime.settings schema _ _ _ _ found _ executed
  refine ⟨row, inserted, ?_⟩
  simp only [written, Keyed.upsert, absent, if_true]
  exact ran

theorem update_step (keyed : Sql.hasKey name.columns key = true)
    {assignments : List (Text × Sql.Value)}
    (read : readStatement text =
      some (.update table assignments (.equals key (.number (intText k)))))
    (covers : Sql.Covers name.columns (.number (intText k) :: values) assignments)
    (complete : (Sql.Value.number (intText k) :: values).length = name.columns.length)
    (present : Keyed.rowsOf Sql.firstKey (world.tables name) k ≠ [])
    (quiet : NoFailure (DBManager.executeQuery runtime text) world) :
    ∃ row : Row (schema.columns name),
      Sql.insertCells runtime.settings name.columns (.number (intText k) :: values) =
        some row.cells ∧
      exec (DBManager.executeQuery runtime text) world =
        (.ok (), (written name k row world).logs [.executeQuery text]) := by
  obtain ⟨data, tables, answered, ran⟩ := no_failure_execute runtime text world quiet
  have executed := answer_execute runtime _ _ _ text _ data read (by simp) answered
  obtain ⟨cells, assigned, rfl⟩ := @Sql.execute_update_key runtime.settings schema _ _ _ _
    found key keyed assignments k present executed
  obtain ⟨typed, distinct⟩ := keyed_columns name
  have every (row : Row (schema.columns name)) (has : Sql.firstKey row = some k) :=
    Sql.assign_covers runtime.settings key keyed k values assignments cells row covers complete
      typed distinct has assigned
  obtain ⟨old, within⟩ := List.exists_mem_of_ne_nil _ present
  have hasOld : Sql.firstKey old = some k := by simpa using (List.mem_filter.mp within).2
  refine ⟨old.assign cells, every old hasOld, ?_⟩
  have same : Keyed.changeRows Sql.firstKey k (fun row => row.assign cells) (world.tables name) =
      Keyed.upsert Sql.firstKey k (old.assign cells) (fun _ => old.assign cells)
        (world.tables name) := by
    rw [← Keyed.upsert_congr Sql.firstKey k (old.assign cells) (fun row => row.assign cells)
      (fun _ => old.assign cells) (world.tables name) fun row _ has =>
        Sql.Row.ext_cells (Option.some.inj ((every row has).symm.trans (every old hasOld)))]
    simp only [Keyed.upsert, present, if_false]
  simp only [written, ← same]
  exact ran

end

section
variable (runtime : Runtime)

theorem handle_cases (request : Request) (world : World) :
    (∃ serving, Server.handle runtime request world =
      { (exec (Server.dataReceived runtime request) world).2 with serving }) ∧
      (world.listening && world.serving) = true ∨
    Server.handle runtime request world = world ∧ Server.response runtime request world = none := by
  unfold Server.handle Server.response
  split_ifs with open_
  · refine Or.inl ⟨?_, open_⟩
    generalize exec (Server.dataReceived runtime request) world = ran
    obtain ⟨result, after⟩ := ran
    cases result with
    | ok written => exact ⟨after.serving, rfl⟩
    | error failure => exact ⟨false, rfl⟩
  · exact Or.inr ⟨rfl, rfl⟩

theorem received_grows (request : Request) (world : World) :
    world.failedCalls ≤ (exec (Server.dataReceived runtime request) world).2.failedCalls :=
  stable_data_received (failures_stay world.failedCalls) runtime (fun _ => trivial) request world
    (Nat.le_refl _)

theorem handle_grows (request : Request) (world : World) :
    world.failedCalls ≤ (Server.handle runtime request world).failedCalls := by
  rcases handle_cases runtime request world with ⟨⟨serving, handled⟩, -⟩ | ⟨handled, -⟩
  · rw [handled]
    exact received_grows runtime request world
  · rw [handled]

theorem serve_grows (requests : List Request) (world : World) :
    world.failedCalls ≤ (Server.serve runtime requests world).failedCalls := by
  induction requests generalizing world with
  | nil => exact Nat.le_refl _
  | cons request requests ih => exact Nat.le_trans (handle_grows runtime request world) (ih _)

def NoFailures (requests : List Request) (world : World) : Prop :=
  (Server.serve runtime requests world).failedCalls = world.failedCalls

theorem no_failures_cons (request : Request) (requests : List Request) (world : World)
    (quiet : NoFailures runtime (request :: requests) world) :
    (Server.handle runtime request world).failedCalls = world.failedCalls ∧
      NoFailures runtime requests (Server.handle runtime request world) := by
  have first := handle_grows runtime request world
  have rest := serve_grows runtime requests (Server.handle runtime request world)
  simp only [NoFailures, Server.serve] at quiet ⊢
  omega

theorem receive_grows (requests : List Request) (world : World) :
    world.failedCalls ≤ (Server.receive runtime requests world).failedCalls := by
  induction requests generalizing world with
  | nil => exact Nat.le_refl _
  | cons request requests ih => exact Nat.le_trans (received_grows runtime request world) (ih _)

theorem receive_quiet_cons (request : Request) (requests : List Request) (world : World)
    (quiet : (Server.receive runtime (request :: requests) world).failedCalls =
      world.failedCalls) :
    NoFailure (Server.dataReceived runtime request) world ∧
      (Server.receive runtime requests
        (exec (Server.dataReceived runtime request) world).2).failedCalls =
          (exec (Server.dataReceived runtime request) world).2.failedCalls := by
  have first := received_grows runtime request world
  have rest := receive_grows runtime requests (exec (Server.dataReceived runtime request) world).2
  simp only [Server.receive] at quiet
  unfold NoFailure Quiet
  omega

/-- What every request that fails no call keeps holds after the run. -/
theorem serve_keeps {invariant : World → Prop} {kind : Request → Prop}
    (step : ∀ request world, kind request → invariant world →
      (Server.handle runtime request world).failedCalls = world.failedCalls →
      invariant (Server.handle runtime request world))
    (requests : List Request) (world : World) (all : ∀ request ∈ requests, kind request)
    (holds : invariant world) (quiet : NoFailures runtime requests world) :
    invariant (Server.serve runtime requests world) := by
  induction requests generalizing world with
  | nil => exact holds
  | cons request requests ih =>
      obtain ⟨first, rest⟩ := no_failures_cons runtime request requests world quiet
      exact ih _ (fun next member => all next (List.mem_cons_of_mem _ member))
        (step request world (all request (by simp)) holds first) rest

end

end TfuServer
