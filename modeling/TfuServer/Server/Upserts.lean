import TfuServer.Server.Stores

/-!
# Runs of stored records

Whatever records arrive in whatever order, each table keeps one row for each
key, the last record of a key has its row, and the rows of other keys stay as
they were, as long as no position of a waypoint is an infinity or not a number.
-/

namespace TfuServer

set_option autoImplicit false

open Numeral Program
open Sql (Row Plain firstKey)

def isRecordRequest (runtime : Runtime) (request : Request) : Bool :=
  request.method == "POST".toList && (startsWith runtime request.rawUrl "/users" ||
    startsWith runtime request.rawUrl "/schedule" ||
    startsWith runtime request.rawUrl "/sharedschedule")

section
variable (runtime : Runtime)

/-- The record of a request that decodes. -/
def carried (request : Request) : Option Upload :=
  match uploadOf runtime request with
  | .ok upload => upload
  | .error _ => none

theorem meant_of_plain (upload : Upload) (plain : ∀ field ∈ upload.plainFields, Plain field) :
    upload.meant = some upload := by
  cases upload <;>
    simp only [Upload.plainFields, List.forall_mem_cons, List.not_mem_nil, false_implies,
      implies_true, and_true, ← Sql.decode_iff_plain] at plain <;>
    simp [Upload.meant, plain]

theorem received_undecoded (request : Request) (world : World)
    (record : isRecordRequest runtime request = true) (absent : carried runtime request = none) :
    (exec (Server.dataReceived runtime request) world).2 = world := by
  obtain ⟨method, route⟩ := Bool.and_eq_true_iff.mp record
  have post : request.method = "POST".toList := eq_of_beq method
  have notGet : ¬request.method = "GET".toList := by rw [post]; decide
  simp only [carried, uploadOf, if_neg (not_not.mpr post)] at absent
  simp only [Server.dataReceived, if_neg notGet, if_pos post, Server.clientPost]
  cases users : startsWith runtime request.rawUrl "/users" with
  | true =>
      simp only [users, if_true] at absent ⊢
      cases decoded : readClient runtime.newtonsoft (Server.parseBody runtime request.body) with
      | ok clt => simp [decoded, Except.map] at absent
      | error failure => simp [exec_bind]
  | false =>
      cases schedule : startsWith runtime request.rawUrl "/schedule" with
      | true =>
          simp only [users, schedule, if_true, Bool.false_eq_true, if_false] at absent ⊢
          cases decoded :
              readSchedule runtime.newtonsoft (Server.parseBody runtime request.body) with
          | ok sch => simp [decoded, Except.map] at absent
          | error failure => simp [exec_bind]
      | false =>
          have shared : startsWith runtime request.rawUrl "/sharedschedule" = true := by
            simpa [users, schedule] using route
          simp only [users, schedule, shared, if_true, Bool.false_eq_true, if_false] at absent ⊢
          cases decoded :
              readSharedSchedule runtime.newtonsoft (Server.parseBody runtime request.body) with
          | ok sch => simp [decoded, Except.map] at absent
          | error failure => simp only [exec_bind, exec_attempt, exec_lift, exec_pure]

/-- A request leaves everything alone, or its record in memory and in the only row of its key. -/
inductive RecordStep (request : Request) (world after : World) : Prop where
  | ignored (absent : carried runtime request = none) (same : after = world)
  | stored (upload : Upload) (branch : Branch) (document : Text)
      (row : Row (schema.columns upload.table)) (calls : List Call)
      (present : carried runtime request = some upload)
      (kept : upload.stored runtime branch = .ok document)
      (cells : upload.cells runtime.settings document = some row.cells)
      (same : after = (written upload.table upload.key row (upload.enter world)).logs calls)

/-- No plain field of the record has an apostrophe or a backslash. -/
def PlainRequest (request : Request) : Prop :=
  ∀ upload, carried runtime request = some upload →
    ∀ field ∈ upload.plainFields, '\'' ∉ field ∧ '\\' ∉ field

def FiniteRequest (request : Request) : Prop :=
  ∀ upload, carried runtime request = some upload → upload.writable = true

theorem carried_iff (request : Request) (upload : Upload) :
    carried runtime request = some upload ↔ uploadOf runtime request = .ok (some upload) := by
  unfold carried
  cases uploadOf runtime request <;> simp

theorem record_step (request : Request) (world : World)
    (record : isRecordRequest runtime request = true)
    (plain : PlainRequest runtime request) (finite : FiniteRequest runtime request)
    (quiet : NoFailure (Server.dataReceived runtime request) world) :
    RecordStep runtime request world (exec (Server.dataReceived runtime request) world).2 := by
  cases found : carried runtime request with
  | none => exact .ignored found (received_undecoded runtime request world record found)
  | some upload =>
      have received := received_upload runtime request upload world
        ((carried_iff runtime request upload).mp found)
      have meaning := meant_of_plain upload fun field member =>
        Sql.plain_of_no_special field (plain upload found field member).1
          (plain upload found field member).2
      have quiet : NoFailure (upload.store runtime) world := by
        rw [NoFailure, Quiet, received] at quiet
        exact quiet
      obtain ⟨document, row, calls, kept, cells, ran⟩ :=
        Upload.exec_store runtime upload upload world meaning (finite upload found) quiet
      exact .stored upload _ document row calls found kept cells (by rw [received, ran])

theorem cells_key {columns : List Sql.Column} (settings : Sql.Settings) (document : Text)
    (upload : Upload) (row : Row columns)
    (cells : upload.cells settings document = some row.cells) :
    firstKey row = some upload.key := by
  unfold firstKey
  cases upload with
  | user clt =>
      obtain shape := Option.some.inj cells
      rw [← shape]
      rfl
  | schedule sch =>
      simp only [Upload.cells, Option.map_eq_some_iff] at cells
      obtain ⟨date, -, shape⟩ := cells
      rw [← shape]
      rfl
  | shared sch =>
      simp only [Upload.cells] at cells
      cases rating : sch.rating with
      | nonFinite kind => simp [rating] at cells
      | finite number =>
          simp only [rating, Option.some.injEq] at cells
          rw [← cells]
          rfl

variable {runtime} {request : Request} {world after : World}

theorem stored_tables (upload : Upload) (row : Row (schema.columns upload.table))
    (calls : List Call) :
    ((written upload.table upload.key row (upload.enter world)).logs calls).tables =
      Function.update world.tables upload.table
        (Keyed.upsert firstKey upload.key row (fun _ => row) (world.tables upload.table)) := by
  simp [written, World.put, Upload.enter_tables]

theorem mem_stored_iff (upload : Upload) (row : Row (schema.columns upload.table))
    (calls : List Call) (has : firstKey row = some upload.key)
    (other : Row (schema.columns upload.table)) :
    other ∈ ((written upload.table upload.key row (upload.enter world)).logs calls).tables
        upload.table ↔
      other = row ∨ other ∈ world.tables upload.table ∧ firstKey other ≠ some upload.key := by
  rw [stored_tables, Function.update_self]
  exact Keyed.mem_upsert_iff firstKey upload.key row other _ has

theorem step_unique (step : RecordStep runtime request world after) (name : TableName)
    (unique : Keyed.Unique firstKey (world.tables name)) :
    Keyed.Unique firstKey (after.tables name) := by
  cases step with
  | ignored absent same => rwa [same]
  | stored upload branch document row calls present kept cells same =>
      have has := cells_key runtime.settings document upload row cells
      rw [same, stored_tables]
      by_cases here : name = upload.table
      · subst here
        rw [Function.update_self]
        exact Keyed.unique_upsert firstKey upload.key row _ _ has (fun _ _ => has) unique
      · rwa [Function.update_of_ne here]

/-- Rows picked by their keys, but not by the key of the request, stay as they are. -/
theorem step_frame (step : RecordStep runtime request world after) (name : TableName)
    (pick : Option Int → Bool)
    (avoids : ∀ upload, carried runtime request = some upload → upload.table = name →
      pick (some upload.key) = false) :
    ((after.tables name).filter fun row => pick (firstKey row)) =
      (world.tables name).filter fun row => pick (firstKey row) := by
  cases step with
  | ignored absent same => rw [same]
  | stored upload branch document row calls present kept cells same =>
      rw [same, stored_tables]
      by_cases here : name = upload.table
      · subst here
        rw [Function.update_self]
        exact Keyed.filter_upsert firstKey upload.key row _
          (cells_key runtime.settings document upload row cells) pick (avoids upload present rfl)
      · rw [Function.update_of_ne here]

theorem step_stored (step : RecordStep runtime request world after) (upload : Upload)
    (present : carried runtime request = some upload) :
    ∃ row document, Keyed.lookup firstKey (after.tables upload.table) upload.key = some row ∧
      upload.cells runtime.settings document = some row.cells := by
  cases step with
  | ignored absent same => simp [absent] at present
  | stored other branch document row calls carried kept cells same =>
      obtain rfl : other = upload := Option.some.inj (carried.symm.trans present)
      refine ⟨row, document, ?_, cells⟩
      have has := cells_key runtime.settings document other row cells
      rw [same, stored_tables, Function.update_self]
      exact Keyed.lookup_upsert_same firstKey other.key row _ _ has (fun _ _ => has) fun _ _ => rfl

def ClientsMirrored (world : World) : Prop :=
  ∀ uid clt, world.clientDictionary uid = some clt →
    ∃ row, Keyed.lookup firstKey (world.tables .user) uid.toInt = some row ∧
      row.cells = [.bigint uid, .text clt.name, .text clt.profileUrl]

theorem enter_clients (upload : Upload) (notUser : upload.table ≠ .user) :
    (upload.enter world).clientDictionary = world.clientDictionary := by
  cases upload with
  | user clt => exact absurd rfl notUser
  | schedule sch => rfl
  | shared sch => rfl

theorem enter_user_clients (clt : Client) :
    ((Upload.user clt).enter world).clientDictionary = world.clientDictionary.set clt.uid clt := by
  unfold World.clientDictionary
  simp only [Upload.enter, client_ready, ClientManager.enter]
  cases world.clientManager <;> rfl

theorem step_clients (step : RecordStep runtime request world after)
    (mirrored : ClientsMirrored world) : ClientsMirrored after := by
  cases step with
  | ignored absent same => rwa [same]
  | stored upload branch document row calls present kept cells same =>
      intro uid clt entered
      rw [same] at entered ⊢
      rw [stored_tables]
      by_cases user : upload.table = .user
      · cases upload with
        | schedule sch => cases user
        | shared sch => cases user
        | user own =>
            have has := cells_key runtime.settings document _ row cells
            have memory : (Upload.user own |>.enter world).clientDictionary uid =
              some clt := entered
            rw [enter_user_clients] at memory
            simp only [Upload.table, Function.update_self]
            by_cases other : uid = own.uid
            · subst other
              rw [Dictionary.set, Function.update_self] at memory
              obtain rfl := Option.some.inj memory
              exact ⟨row, Keyed.lookup_upsert_same firstKey own.uid.toInt row _ _ has
                (fun _ _ => has) fun _ _ => rfl, (Option.some.inj cells).symm⟩
            · rw [Dictionary.set, Function.update_of_ne other] at memory
              obtain ⟨old, found, shape⟩ := mirrored uid clt memory
              refine ⟨old, ?_, shape⟩
              rw [← found]
              exact Keyed.lookup_upsert_other firstKey own.uid.toInt uid.toInt row _ _ has
                (fun _ _ => has) fun equal => other (Int64.toInt_inj.mp equal)
      · have before : world.clientDictionary uid = some clt := by
          rw [← enter_clients upload user]
          exact entered
        rw [Function.update_of_ne (Ne.symm user)]
        exact mirrored uid clt before

end

section
variable (runtime : Runtime)

/-- A record that is stored has the row of its key, with each field as its literal decodes. -/
theorem store_row (upload plain : Upload) (world : World) (meaning : upload.meant = some plain)
    (finite : upload.writable = true) (quiet : NoFailure (upload.store runtime) world) :
    ∃ (document : Text) (row : Row (schema.columns upload.table)),
      upload.stored runtime (upload.branch world.tables) = .ok document ∧
      plain.cells runtime.settings document = some row.cells ∧
      Keyed.lookup firstKey ((exec (upload.store runtime) world).2.tables upload.table)
        upload.key = some row := by
  obtain ⟨document, row, calls, kept, cells, ran⟩ :=
    Upload.exec_store runtime upload plain world meaning finite quiet
  have has : firstKey row = some upload.key := by
    rw [← (Upload.meant_place upload plain meaning).2]
    exact cells_key runtime.settings document plain row cells
  refine ⟨document, row, kept, cells, ?_⟩
  rw [ran, stored_tables, Function.update_self]
  exact Keyed.lookup_upsert_same firstKey upload.key row _ _ has (fun _ _ => has) fun _ _ => rfl

end

section
variable (runtime : Runtime)

/-- The request carries a record with this key of this table. -/
def writes (name : TableName) (k : Int) (request : Request) : Bool :=
  match carried runtime request with
  | some upload => decide (upload.table = name) && decide (upload.key = k)
  | none => false

/-- The last record the requests carry for a key. -/
def lastUpload (name : TableName) (k : Int) (requests : List Request) : Option Upload :=
  ((requests.filter (writes runtime name k)).getLast?).bind (carried runtime)

def occurs (requests : List Request) (name : TableName) : Option Int → Bool
  | some k => requests.any (writes runtime name k)
  | none => false

theorem writes_iff (name : TableName) (k : Int) (request : Request) :
    writes runtime name k request = true ↔
      ∃ upload, carried runtime request = some upload ∧ upload.table = name ∧ upload.key = k := by
  unfold writes
  cases carried runtime request <;> simp

inductive RecordRun : List Request → World → World → Prop where
  | done (world : World) : RecordRun [] world world
  | next (request : Request) (requests : List Request) (world middle after : World)
      (step : RecordStep runtime request world middle)
      (rest : RecordRun requests middle after) : RecordRun (request :: requests) world after

theorem record_run (requests : List Request) (world : World)
    (records : ∀ request ∈ requests, isRecordRequest runtime request = true)
    (plain : ∀ request ∈ requests, PlainRequest runtime request)
    (finite : ∀ request ∈ requests, FiniteRequest runtime request)
    (quiet : (Server.receive runtime requests world).failedCalls = world.failedCalls) :
    RecordRun runtime requests world (Server.receive runtime requests world) := by
  induction requests generalizing world with
  | nil => exact .done world
  | cons request requests ih =>
      rw [List.forall_mem_cons] at records plain finite
      obtain ⟨first, rest⟩ := receive_quiet_cons runtime request requests world quiet
      apply RecordRun.next request requests world _ _
      · exact record_step runtime request world records.1 plain.1 finite.1 first
      · exact ih _ records.2 plain.2 finite.2 rest

variable {runtime} {requests : List Request} {world after : World}

theorem run_unique (run : RecordRun runtime requests world after) (name : TableName)
    (unique : Keyed.Unique firstKey (world.tables name)) :
    Keyed.Unique firstKey (after.tables name) := by
  induction run with
  | done => exact unique
  | next request requests world middle after step rest ih => exact ih (step_unique step name unique)

theorem run_clients (run : RecordRun runtime requests world after)
    (mirrored : ClientsMirrored world) : ClientsMirrored after := by
  induction run with
  | done => exact mirrored
  | next request requests world middle after step rest ih => exact ih (step_clients step mirrored)

theorem run_frame (run : RecordRun runtime requests world after) (name : TableName)
    (pick : Option Int → Bool)
    (avoids : ∀ k, requests.any (writes runtime name k) = true → pick (some k) = false) :
    ((after.tables name).filter fun row => pick (firstKey row)) =
      (world.tables name).filter fun row => pick (firstKey row) := by
  induction run with
  | done => rfl
  | next request requests world middle after step rest ih =>
      rw [ih fun k later => avoids k (by simp [later])]
      apply step_frame step name pick
      intro upload present here
      apply avoids upload.key
      have own := (writes_iff runtime name upload.key request).mpr ⟨upload, present, here, rfl⟩
      simp [own]

theorem run_lookup (run : RecordRun runtime requests world after) (name : TableName) (k : Int)
    (unwritten : requests.any (writes runtime name k) = false) :
    Keyed.lookup firstKey (after.tables name) k = Keyed.lookup firstKey (world.tables name) k := by
  rw [Keyed.lookup_eq_head, Keyed.lookup_eq_head]
  refine congrArg List.head? (run_frame run name (fun key => decide (key = some k)) ?_)
  intro other written
  rw [decide_eq_false_iff_not]
  rintro ⟨rfl⟩
  rw [written] at unwritten
  cases unwritten

theorem last_upload_cons (name : TableName) (k : Int) (request : Request)
    (requests : List Request) :
    lastUpload runtime name k (request :: requests) =
      if requests.any (writes runtime name k) then lastUpload runtime name k requests
      else if writes runtime name k request then carried runtime request else none := by
  have emptied (none_written : requests.any (writes runtime name k) = false) :
      requests.filter (writes runtime name k) = [] :=
    List.filter_eq_nil_iff.mpr fun other member =>
      Bool.not_eq_true _ ▸ (List.any_eq_false.mp none_written other member)
  unfold lastUpload
  cases later : requests.any (writes runtime name k) with
  | false =>
      cases own : writes runtime name k request <;> simp [own, emptied later]
  | true =>
      obtain ⟨other, member, wrote⟩ := List.any_eq_true.mp later
      have there : requests.filter (writes runtime name k) ≠ [] :=
        List.ne_nil_of_mem (List.mem_filter.mpr ⟨member, wrote⟩)
      cases own : writes runtime name k request with
      | false => simp [own]
      | true =>
          simp only [List.filter_cons, own, if_true, List.getLast?_cons,
            List.getLast?_eq_getLast_of_ne_nil there, Option.getD_some]

theorem run_stored (run : RecordRun runtime requests world after) (name : TableName) (k : Int)
    (upload : Upload) (last : lastUpload runtime name k requests = some upload) :
    ∃ row document, Keyed.lookup firstKey (after.tables name) k = some row ∧
      upload.cells runtime.settings document = some row.cells := by
  induction run with
  | done => cases last
  | next request requests world middle after step rest ih =>
      rw [last_upload_cons] at last
      split_ifs at last with later here
      · exact ih last
      · obtain ⟨own, present, rfl, rfl⟩ := (writes_iff runtime name k request).mp here
        obtain rfl : own = upload := Option.some.inj (present.symm.trans last)
        rw [run_lookup rest _ _ (Bool.not_eq_true _ ▸ later)]
        exact step_stored step own present

end

/-- While the positions of the waypoints are finite, every run of records keeps one
row for each key, the last record of a key has its row, the rows of other keys are
as they were, and the users in memory are those of the table. -/
theorem records_upserted (runtime : Runtime) (requests : List Request) (world : World)
    (records : ∀ request ∈ requests, isRecordRequest runtime request = true)
    (plain : ∀ request ∈ requests, PlainRequest runtime request)
    (finite : ∀ request ∈ requests, FiniteRequest runtime request)
    (empty : world.clientDictionary = fun _ => none)
    (quiet : (Server.receive runtime requests world).failedCalls = world.failedCalls) :
    (∀ name, Keyed.Unique firstKey (world.tables name) →
      Keyed.Unique firstKey ((Server.receive runtime requests world).tables name)) ∧
    (∀ name k upload, lastUpload runtime name k requests = some upload →
      ∃ row document,
        Keyed.lookup firstKey ((Server.receive runtime requests world).tables name) k = some row ∧
        upload.cells runtime.settings document = some row.cells) ∧
    (∀ name, (((Server.receive runtime requests world).tables name).filter fun row =>
        !occurs runtime requests name (firstKey row)) =
      (world.tables name).filter fun row => !occurs runtime requests name (firstKey row)) ∧
    ClientsMirrored (Server.receive runtime requests world) := by
  have run := record_run runtime requests world records plain finite quiet
  refine ⟨fun name => run_unique run name, fun name k upload => run_stored run name k upload,
    fun name => run_frame run name (fun key => !occurs runtime requests name key) ?_,
    run_clients run ?_⟩
  · intro k written
    simp [occurs, written]
  · intro uid clt entered
    simp [empty] at entered

def userRequest (body : String) : Request where
  method := "POST".toList
  rawUrl := "/users".toList
  keyword := none
  body := body.toList

def scheduleRequest (body : String) : Request where
  method := "POST".toList
  rawUrl := "/schedule".toList
  keyword := none
  body := body.toList

def renamingRequests : List Request := [
  userRequest "\x7b\"uid\":1,\"name\":\"A\"\x7d",
  userRequest "\x7b\"uid\":2,\"name\":\"B\"\x7d",
  userRequest "\x7b\"uid\":1,\"name\":\"C\"\x7d"]

theorem records_upserted_user :
    let rows := (Server.receive .standard renamingRequests (.fresh Tables.empty)).tables .user
    Keyed.Unique firstKey rows ∧
    (∃ row, Keyed.lookup firstKey rows 1 = some row ∧
      row.cells = [.bigint 1, .text ['C'], .text []]) ∧
    ∃ row, Keyed.lookup firstKey rows 2 = some row ∧
      row.cells = [.bigint 2, .text ['B'], .text []] := by
  have carries (request : Request) (member : request ∈ renamingRequests) :
      ∃ uid name, carried .standard request = some (.user ⟨uid, [name], []⟩) ∧
        name ≠ '\'' ∧ name ≠ '\\' := by
    simp only [renamingRequests, List.mem_cons, List.not_mem_nil, or_false] at member
    rcases member with rfl | rfl | rfl
    · exact ⟨1, 'A', rfl, by decide, by decide⟩
    · exact ⟨2, 'B', rfl, by decide, by decide⟩
    · exact ⟨1, 'C', rfl, by decide, by decide⟩
  obtain ⟨unique, last, -, -⟩ := records_upserted .standard renamingRequests (.fresh Tables.empty)
    (by decide)
    (fun request member upload present => by
      obtain ⟨uid, name, decoded, apostrophe, backslash⟩ := carries request member
      obtain rfl := Option.some.inj (decoded.symm.trans present)
      simp [Upload.plainFields, apostrophe.symm, backslash.symm])
    (fun request member upload present => by
      obtain ⟨uid, name, decoded, -, -⟩ := carries request member
      obtain rfl := Option.some.inj (decoded.symm.trans present)
      rfl) rfl rfl
  obtain ⟨first, _, found, shape⟩ := last .user 1 (.user ⟨1, ['C'], []⟩) rfl
  obtain ⟨second, _, there, other⟩ := last .user 2 (.user ⟨2, ['B'], []⟩) rfl
  exact ⟨unique .user (Keyed.unique_nil firstKey), ⟨first, found, (Option.some.inj shape).symm⟩,
    second, there, (Option.some.inj other).symm⟩

def infiniteRequest : Request :=
  scheduleRequest "\x7b\"id\":1,\"wayPointList\":[\x7b\"posX\":1e999\x7d]\x7d"

/-- A position of `1e999`: the schedule is in memory, no call failed, and there is no row. -/
theorem infinite_position_unwritten :
    isRecordRequest .standard infiniteRequest = true ∧
    (∃ upload, lastUpload .standard .schedule 1 [infiniteRequest] = some upload ∧
      ∀ field ∈ upload.plainFields, '\'' ∉ field ∧ '\\' ∉ field) ∧
    (Server.receive .standard [infiniteRequest] (.fresh Tables.empty)).failedCalls = 0 ∧
    Keyed.lookup firstKey
      ((Server.receive .standard [infiniteRequest] (.fresh Tables.empty)).tables .schedule) 1 =
        none := by
  have decoded : lastUpload .standard .schedule 1 [infiniteRequest] =
      some (.schedule ⟨1, [], "0".toList, 0, "1900-00-00".toList,
        [⟨0, [], .nonFinite .infinity, .finite (.ofInt32 0), .ofInt32 0, 0, 0, [], 0⟩], 0,
        false⟩) :=
    by decide +kernel
  exact ⟨rfl, ⟨_, decoded, by decide⟩, by decide +kernel, by decide +kernel⟩

end TfuServer
