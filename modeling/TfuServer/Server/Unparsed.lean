import TfuServer.Server.Failures

/-!
# Bodies that cannot be parsed

An exception of the parser is caught and the request goes on with an empty
object: a record is stored whose every attribute is the default. Nothing changes
only where that record has been stored before.
-/

namespace TfuServer

set_option autoImplicit false

open Numeral Program
open Sql (Row Plain firstKey readStatement)

section
variable (runtime : Runtime)

def parsedBody (body : Text) : Except Failure Members :=
  let body := restoreApostrophes body
  if startsWith runtime body "\x7b\"body\"" then do
    let outer ← Json.parseObject runtime.newtonsoft body
    let inner ← Json.orElse Json.toText [] (← Json.attrValue runtime.newtonsoft outer "body")
    Json.parseObject runtime.newtonsoft (Server.trimQuotes inner)
  else Json.parseObject runtime.newtonsoft body

theorem parse_body_error (body : Text) (failure : Failure)
    (failed : parsedBody runtime body = .error failure) : Server.parseBody runtime body = [] := by
  unfold parsedBody at failed
  unfold Server.parseBody
  simp only at failed ⊢
  rw [failed]

/-- The record whose every attribute is the default, by the route. -/
def defaultUpload (rawUrl : Text) : Upload :=
  if startsWith runtime rawUrl "/users" then .user ⟨0, [], []⟩
  else if startsWith runtime rawUrl "/schedule" then
    .schedule ⟨0, [], "0".toList, 0, "1900-00-00".toList, [], 0, false⟩
  else .shared ⟨0, 0, .finite (.ofInt32 0), 0, 0, 0, [], [], []⟩

theorem carried_default (request : Request) (record : isRecordRequest runtime request = true)
    (failure : Failure) (failed : parsedBody runtime request.body = .error failure) :
    carried runtime request = some (defaultUpload runtime request.rawUrl) := by
  obtain ⟨method, route⟩ := Bool.and_eq_true_iff.mp record
  have post : request.method = "POST".toList := eq_of_beq method
  rw [carried_iff]
  simp only [uploadOf, if_neg (not_not.mpr post), parse_body_error runtime _ failure failed,
    defaultUpload]
  split_ifs with users schedule shared
  · rfl
  · rfl
  · rfl
  · simp [users, schedule, shared] at route

theorem default_sendable (rawUrl : Text) :
    (Writer.record (defaultUpload runtime rawUrl)).Sendable := by
  have zero : Plain "0".toList := Sql.plain_of_no_special _ (by decide) (by decide)
  have date : Plain "1900-00-00".toList := Sql.plain_of_no_special _ (by decide) (by decide)
  have empty : Plain [] := Sql.plain_of_no_special _ (by decide) (by decide)
  unfold defaultUpload
  split_ifs
  · exact ⟨by simp [Upload.plainFields, empty], rfl⟩
  · refine ⟨?_, rfl⟩
    simp only [Upload.plainFields, List.forall_mem_cons]
    exact ⟨empty, zero, date, fun _ member => absurd member List.not_mem_nil⟩
  · exact ⟨by simp [Upload.plainFields, empty], rfl⟩

theorem default_stored (rawUrl : Text) (branch : Branch) (document : Text)
    (stored : (defaultUpload runtime rawUrl).stored runtime branch = .ok document)
    (settings : Sql.Settings) :
    (defaultUpload runtime rawUrl).cells settings document =
      (defaultUpload runtime rawUrl).cells settings "[]".toList := by
  revert stored
  unfold defaultUpload
  split_ifs
  · intro stored
    rfl
  · intro stored
    cases branch <;> cases stored <;> rfl
  · intro stored
    cases branch <;> cases stored <;> rfl

def Upload.entered (world : World) : Upload → Prop
  | .user clt => world.clientDictionary clt.uid = some clt
  | .schedule sch => world.scheduleDic sch.id = some sch
  | .shared sch => world.sharedScheduleDic sch.scheduleId = some sch

/-- No statement of the record changes the tables: the database refuses its values, or
every row of its key holds them already. -/
def Upload.Settled (document : Text) (tables : Tables) (upload : Upload) : Prop :=
  upload.cells runtime.settings document = none ∨
    upload.rowsOf tables ≠ [] ∧ ∀ row ∈ upload.rowsOf tables,
      upload.cells runtime.settings document = some row.cells

theorem enter_entered (upload : Upload) (world : World) (entered : upload.entered world) :
    upload.enter world = world := by
  obtain ⟨tables, images, clients⟩ := world
  cases upload with
  | user clt =>
      cases clients with
      | none => cases entered
      | some manager =>
          simp only [Upload.enter, client_ready, ClientManager.enter, Manager.enter,
            Option.getD_some, Option.map_some, World.mk.injEq, Option.some.injEq, true_and,
            and_true]
          exact congrArg (Manager.mk manager.number)
            (Function.update_eq_self_iff.mpr (Eq.symm entered))
  | schedule sch =>
      simp only [Upload.enter, ScheduleManager.enter, World.mk.injEq, true_and, and_true]
      exact Function.update_eq_self_iff.mpr (Eq.symm entered)
  | shared sch =>
      simp only [Upload.enter, ScheduleManager.enterShared, World.mk.injEq, true_and, and_true]
      exact Function.update_eq_self_iff.mpr (Eq.symm entered)

theorem entered_of_same (upload : Upload) (world : World)
    (clients : (upload.enter world).clientDictionary = world.clientDictionary)
    (schedules : (upload.enter world).scheduleDic = world.scheduleDic)
    (shared : (upload.enter world).sharedScheduleDic = world.sharedScheduleDic) :
    upload.entered world := by
  cases upload with
  | user clt =>
      rw [enter_user_clients] at clients
      exact (Function.update_eq_self_iff.mp clients).symm
  | schedule sch => exact (Function.update_eq_self_iff.mp schedules).symm
  | shared sch => exact (Function.update_eq_self_iff.mp shared).symm

/-- A writer leaves memory alone or with the record entered, and enters it unless its
existence query ends with an exception. -/
theorem store_memory (upload : Upload) (world : World) :
    SameMemory (exec (upload.store runtime) world).2 (upload.enter world) ∨
      SameMemory (exec (upload.store runtime) world).2 world ∧
        ∃ query failure, (Writer.record upload).existenceQuery = some query ∧
          (exec (ScheduleManager.isNew runtime query) world).1 = .error failure := by
  cases asks : (Writer.record upload).existenceQuery with
  | none =>
      cases upload with
      | user clt => exact Or.inl (client_entered runtime clt world)
      | schedule sch => cases asks
      | shared sch => cases asks
  | some query =>
      have both := schedule_entered runtime (.record upload) query world asks
      cases asked : (exec (ScheduleManager.isNew runtime query) world).1 with
      | ok new => exact Or.inl (both.1 new asked)
      | error failure => exact Or.inr ⟨(both.2 failure asked).1, query, failure, rfl, asked⟩

theorem store_keeps_memory (upload : Upload) (world : World) (entered : upload.entered world) :
    SameMemory (exec (upload.store runtime) world).2 world := by
  rcases store_memory runtime upload world with same | ⟨same, -⟩
  · rwa [enter_entered upload world entered] at same
  · exact same

/-- A statement sent where it fits leaves settled tables alone, also when it is the update
that is sent after a query that failed. -/
theorem statement_kept (upload : Upload) (branch : Branch) (text document : Text)
    (tables : Tables) (built : upload.text runtime branch = .ok text)
    (kept : upload.stored runtime branch = .ok document) (meaning : upload.meant = some upload)
    (settled : upload.Settled runtime document tables)
    (fits : branch = .insert → upload.rowsOf tables = []) :
    Preserves (fun world => world.tables = tables) (DBManager.executeQuery runtime text) := by
  rintro world rfl
  rcases DBManager.execute_cases runtime text world with
    ⟨data, after, -, answered, ran⟩ | ran | ⟨-, ran⟩
  · by_cases own : upload.branch world.tables = branch
    · have quiet : NoFailure (DBManager.executeQuery runtime text) world := by
        simp [NoFailure, Quiet, ran, callEnded]
      subst own
      obtain ⟨row, cells, stored⟩ :=
        upload.exec_statement runtime upload world text document built kept meaning quiet
      rw [stored]
      rcases settled with refused | ⟨present, same⟩
      · rw [refused] at cells
        cases cells
      · have unchanged := (Keyed.upsert_eq_self_iff firstKey upload.key row
          (world.tables upload.table)).mpr ⟨present, fun old member =>
            Row.ext_cells (Option.some.inj ((same old member).symm.trans cells))⟩
        simp [written, World.put, unchanged]
    · -- the update after a failed query, with no row to change
      have absent : upload.rowsOf world.tables = [] := by
        by_contra present
        have update : upload.branch world.tables = .update := by simp [Upload.branch, present]
        cases branch with
        | insert => exact present (fits rfl)
        | update => exact own update
      have update : branch = .update := by
        have insert : upload.branch world.tables = .insert := by simp [Upload.branch, absent]
        cases branch with
        | insert => exact absurd insert own
        | update => rfl
      subst update
      obtain ⟨name, assignments, keyed, -, read⟩ :=
        upload.read_update_text runtime upload text document built kept meaning
      have executed := answer_execute runtime _ _ _ text _ data read (by simp) answered
      have unchanged := @Sql.execute_update_absent runtime.settings schema _ _ _ _
        (find_title upload.table) name keyed assignments upload.key absent executed
      rw [ran]
      exact unchanged
  · rw [ran]
    rfl
  · rw [ran]
    rfl

section
variable {query table key : Text} {name : TableName} (k : Int) (tables : Tables)
  (read : readStatement query = some (.select table (.equals key (.number (intText k))) false))
  (found : findTable table = some name) (keyed : Sql.hasKey name.columns key = true)
include read found keyed

theorem select_answers (world after : World) (data : DataSet)
    (ran : exec (DBManager.select runtime query) world = (.ok data, after)) :
    data = [] ∨ data = [(Keyed.rowsOf firstKey (world.tables name) k).map Row.dataRow] := by
  rcases DBManager.select_cases runtime query world with
    ⟨other, tables, -, answered, ended⟩ | ended | ⟨-, ended⟩
  · obtain ⟨rfl, -, -⟩ := answer_select runtime _ _ _ query table _ name other read found answered
    rw [ended] at ran
    cases ran
    rw [rows_of_key runtime world.tables name key keyed]
    exact Or.inr rfl
  · rw [ended] at ran
    cases ran
    exact Or.inl rfl
  · rw [ended] at ran
    cases ran

theorem asked_rows_kept (insert update : Action Unit)
    (inserted : Keyed.rowsOf firstKey (tables name) k = [] →
      Preserves (fun world => world.tables = tables) insert)
    (updated : Preserves (fun world => world.tables = tables) update) :
    Preserves (fun world => world.tables = tables) (do
      let data ← DBManager.select runtime query
      let rows ← lift data.first
      if rows.length > 0 then update else insert) := by
  refine preserves_bind_result _ _ (select_tables runtime query table _ false read tables) ?_
  rintro world data after rfl ran same
  rcases select_answers runtime k read found keyed world after data ran with rfl | rfl
  · exact same
  · have rest : Preserves (fun other => other.tables = world.tables) (do
        let rows ← lift (DataSet.first
          [(Keyed.rowsOf firstKey (world.tables name) k).map Row.dataRow])
        if rows.length > 0 then update else insert) := by
      refine preserves_bind_lift _ _ fun rows first => ?_
      cases first
      split_ifs with some_rows
      · exact updated
      · refine inserted (List.length_eq_zero_iff.mp ?_)
        simpa using some_rows
    exact rest after same

theorem is_new_rows (world after : World)
    (ran : exec (ScheduleManager.isNew runtime query) world = (.ok true, after)) :
    Keyed.rowsOf firstKey (world.tables name) k = [] := by
  have answers := select_answers runtime k read found keyed
  have kept := select_tables runtime query table _ false read world.tables world rfl
  unfold ScheduleManager.isNew at ran
  rw [exec_bind] at ran
  generalize exec (DBManager.select runtime query) world = first at ran kept
  obtain ⟨result, middle⟩ := first
  cases result with
  | error failure => cases ran
  | ok data =>
      simp only at ran
      split_ifs at ran
      · rw [exec_bind] at ran
        cases second : exec (DBManager.select runtime query) middle with
        | mk again last =>
            rw [second] at ran
            cases again with
            | error failure => cases ran
            | ok rows =>
                rcases answers middle last rows second with rfl | rfl
                · cases ran
                · have few := congrArg Prod.fst ran
                  simp only [DataSet.first, exec_bind, exec_lift, exec_pure, Except.ok.injEq,
                    decide_eq_true_eq, Nat.lt_one_iff, List.length_eq_zero_iff,
                    List.map_eq_nil_iff] at few
                  rwa [kept] at few
      · cases ran

theorem asked_new_kept (insert update : Action Unit)
    (inserted : Keyed.rowsOf firstKey (tables name) k = [] →
      Preserves (fun world => world.tables = tables) insert)
    (updated : Preserves (fun world => world.tables = tables) update) :
    Preserves (fun world => world.tables = tables) (do
      let new ← ScheduleManager.isNew runtime query
      if new then insert else update) := by
  refine preserves_bind_result _ _ (is_new_tables runtime query table _ false read tables) ?_
  rintro world new after rfl ran same
  cases new with
  | false => exact updated after same
  | true => exact inserted (is_new_rows runtime k read found keyed world after ran) after same

end

theorem store_keeps_tables (upload : Upload) (tables : Tables)
    (meaning : upload.meant = some upload)
    (settled : ∀ branch document, upload.stored runtime branch = .ok document →
      upload.Settled runtime document tables) :
    Preserves (fun world => world.tables = tables) (upload.store runtime) := by
  have kept (branch : Branch) (text : Text) (built : upload.text runtime branch = .ok text)
      (fits : branch = .insert → upload.rowsOf tables = []) :
      Preserves (fun world => world.tables = tables) (DBManager.executeQuery runtime text) := by
    obtain ⟨document, stored⟩ := upload.text_stored runtime branch text built
    exact statement_kept runtime upload branch text document tables built stored meaning
      (settled branch document stored) fits
  cases upload with
  | user clt =>
      refine preserves_bind _ _ (preserves_modify _ fun world same =>
        (client_ready_only world).tables.trans same) fun _ => ?_
      refine preserves_bind _ _ (preserves_modify _ fun _ same => same) fun _ => ?_
      refine asked_rows_kept runtime _ tables (ClientManager.read_row_query clt.uid) rfl rfl _ _
        ?_ (kept .update _ rfl (by simp))
      exact fun absent => kept .insert _ rfl fun _ => absent
  | schedule sch =>
      refine asked_new_kept runtime _ tables (ScheduleManager.read_row_query sch.id) rfl rfl _ _
        ?_ ?_
      · intro absent
        refine preserves_bind _ _ (preserves_modify _ fun _ same => same) fun _ => ?_
        refine preserves_bind_lift _ _ fun document written => ?_
        exact kept .insert _ (by simp [Upload.text, written, Except.map]) fun _ => absent
      · refine preserves_bind _ _ (preserves_modify _ fun _ same => same) fun _ => ?_
        refine preserves_bind_lift _ _ fun document written => ?_
        exact kept .update _ (by simp [Upload.text, written, Except.map]) (by simp)
  | shared sch =>
      refine asked_new_kept runtime _ tables
        (ScheduleManager.read_shared_row_query sch.scheduleId) rfl rfl _ _ ?_ ?_
      · intro absent
        refine preserves_bind _ _ (preserves_modify _ fun _ same => same) fun _ => ?_
        exact kept .insert _ rfl fun _ => absent
      · refine preserves_bind _ _ (preserves_modify _ fun _ same => same) fun _ => ?_
        exact kept .update _ rfl (by simp)

theorem default_meant (rawUrl : Text) :
    (defaultUpload runtime rawUrl).meant = some (defaultUpload runtime rawUrl) :=
  meant_of_plain _ (default_sendable runtime rawUrl).1

theorem settled_default (rawUrl : Text) (tables : Tables)
    (settled : (defaultUpload runtime rawUrl).Settled runtime "[]".toList tables) (branch : Branch)
    (document : Text)
    (stored : (defaultUpload runtime rawUrl).stored runtime branch = .ok document) :
    (defaultUpload runtime rawUrl).Settled runtime document tables := by
  unfold Upload.Settled
  rw [default_stored runtime rawUrl branch document stored]
  exact settled

end

structure Untouched (before after : World) : Prop where
  user : after.tables .user = before.tables .user
  schedule : after.tables .schedule = before.tables .schedule
  sharedSchedule : after.tables .sharedSchedule = before.tables .sharedSchedule
  clientDictionary : after.clientDictionary = before.clientDictionary
  scheduleDic : after.scheduleDic = before.scheduleDic
  sharedScheduleDic : after.sharedScheduleDic = before.sharedScheduleDic

theorem Untouched.table {before after : World} (untouched : Untouched before after)
    (upload : Upload) : after.tables upload.table = before.tables upload.table := by
  cases upload with
  | user clt => exact untouched.user
  | schedule sch => exact untouched.schedule
  | shared sch => exact untouched.sharedSchedule

theorem entered_of_untouched (upload : Upload) (world after : World)
    (untouched : Untouched world after) (same : SameMemory after (upload.enter world)) :
    upload.entered world := by
  have clients : after.clientDictionary = (upload.enter world).clientDictionary := by
    rw [World.clientDictionary, same.clientManager]
    rfl
  exact entered_of_same upload world (clients.symm.trans untouched.clientDictionary)
    (same.scheduleDic.symm.trans untouched.scheduleDic)
    (same.sharedScheduleDic.symm.trans untouched.sharedScheduleDic)

/-- A body that cannot be parsed leaves everything alone where the default record is held
already, whatever calls fail; where no call fails, nowhere else. -/
theorem unparsed_body_untouched (runtime : Runtime) (request : Request) (failure : Failure)
    (world : World) (record : isRecordRequest runtime request = true)
    (failed : parsedBody runtime request.body = .error failure) :
    let upload := defaultUpload runtime request.rawUrl
    let after := (exec (Server.dataReceived runtime request) world).2
    (upload.entered world ∧ upload.Settled runtime "[]".toList world.tables →
      Untouched world after) ∧
    (NoFailure (Server.dataReceived runtime request) world →
      (Untouched world after ↔
        upload.entered world ∧ upload.Settled runtime "[]".toList world.tables)) ∧
    (Untouched world after → upload.entered world ∨
      ∃ query failure, (Writer.record upload).existenceQuery = some query ∧
        (exec (ScheduleManager.isNew runtime query) world).1 = .error failure) := by
  intro upload after
  have meaning : upload.meant = some upload := default_meant runtime request.rawUrl
  have received := received_upload runtime request upload world
    ((carried_iff runtime request upload).mp
      (carried_default runtime request record failure failed))
  have kept (held : upload.entered world ∧ upload.Settled runtime "[]".toList world.tables) :
      Untouched world after := by
    have memory := store_keeps_memory runtime upload world held.1
    have tables := store_keeps_tables runtime upload world.tables meaning
      (settled_default runtime request.rawUrl world.tables held.2) world rfl
    rw [← received] at memory tables
    refine ⟨congrFun tables _, congrFun tables _, congrFun tables _, ?_, memory.scheduleDic,
      memory.sharedScheduleDic⟩
    rw [World.clientDictionary, memory.clientManager]
    rfl
  refine ⟨kept, ?_, ?_⟩
  · intro quiet
    refine ⟨fun untouched => ?_, kept⟩
    have quiet : NoFailure (upload.store runtime) world := by
      rw [NoFailure, Quiet, received] at quiet
      exact quiet
    obtain ⟨document, row, calls, stored, cells, ran⟩ :=
      upload.exec_store runtime upload world meaning
        (default_sendable runtime request.rawUrl).2 quiet
    have ended : after = (written upload.table upload.key row (upload.enter world)).logs calls := by
      rw [ran] at received
      exact received
    constructor
    · apply entered_of_untouched upload world after untouched
      rw [ended]
      exact ⟨rfl, rfl, rfl, rfl⟩
    · have same := untouched.table upload
      rw [ended, stored_tables, Function.update_self, Keyed.upsert_eq_self_iff] at same
      refine Or.inr ⟨same.1, fun old member => ?_⟩
      rw [same.2 old member, ← default_stored runtime request.rawUrl _ document stored]
      exact cells
  · intro untouched
    rcases store_memory runtime upload world with same | ⟨-, ended⟩
    · rw [← received] at same
      exact Or.inl (entered_of_untouched upload world after untouched same)
    · exact Or.inr ended

/-- Posted a second time, such a body changes nothing. -/
theorem unparsed_body_untouched_again :
    let world := (exec (Server.dataReceived .standard (userRequest "x")) (.fresh Tables.empty)).2
    Untouched world (exec (Server.dataReceived .standard (userRequest "x")) world).2 := by
  refine (unparsed_body_untouched .standard (userRequest "x") .jsonReader _ rfl rfl).1 ⟨rfl, ?_⟩
  exact Or.inr ⟨by decide +kernel, by decide +kernel⟩

/-- The first time it makes a user with the id 0. -/
theorem unparsed_body_stored :
    isRecordRequest .standard (userRequest "x") = true ∧
      (∃ failure, parsedBody .standard (userRequest "x").body = .error failure) ∧
      ¬Untouched (.fresh Tables.empty)
        (exec (Server.dataReceived .standard (userRequest "x")) (.fresh Tables.empty)).2 := by
  refine ⟨rfl, ⟨_, rfl⟩, fun untouched => ?_⟩
  have absent := congrArg List.length untouched.user
  revert absent
  decide +kernel

end TfuServer
