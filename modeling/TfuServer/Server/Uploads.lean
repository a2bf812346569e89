import TfuServer.Server.Calls
import TfuServer.Server.Standard
import TfuServer.Server.Statements

/-!
# Uploads and the texts they send

The three routes that store a record do the same thing: decode the body, then
hand one of two texts to the database. A text is read as the statement it is
meant to be exactly when the plain fields of the record are plain.
-/

namespace TfuServer

set_option autoImplicit false

open Numeral Program
open Json (serialize)
open Sql (Token Plain readStatements readStatement decodeLiteral statementText statementTokens)

inductive Upload where
  | user (clt : Client)
  | schedule (sch : Schedule)
  | shared (sch : SharedSchedule)
  deriving DecidableEq

inductive Branch where
  | insert | update
  deriving DecidableEq, Repr

section
variable (runtime : Runtime)

/-- The record a request carries, if its route stores one. -/
def uploadOf (request : Request) : Except Failure (Option Upload) :=
  let json := Server.parseBody runtime request.body
  if request.method ≠ "POST".toList then .ok none
  else if startsWith runtime request.rawUrl "/users" then
    (readClient runtime.newtonsoft json).map fun clt => some (.user clt)
  else if startsWith runtime request.rawUrl "/schedule" then
    (readSchedule runtime.newtonsoft json).map fun sch => some (.schedule sch)
  else if startsWith runtime request.rawUrl "/sharedschedule" then
    (readSharedSchedule runtime.newtonsoft json).map fun sch => some (.shared sch)
  else .ok none

def Upload.store : Upload → Action Unit
  | .user clt => ClientManager.addClient runtime clt
  | .schedule sch => ScheduleManager.addSchedule runtime sch
  | .shared sch => ScheduleManager.addSharedSchedule runtime sch

theorem received_upload (request : Request) (upload : Upload) (world : World)
    (carried : uploadOf runtime request = .ok (some upload)) :
    (exec (Server.dataReceived runtime request) world).2 =
      (exec (upload.store runtime) world).2 := by
  unfold uploadOf at carried
  split_ifs at carried with method users schedule shared
  · cases carried
  all_goals
    have post : request.method = "POST".toList := not_not.mp method
    have notGet : request.method ≠ "GET".toList := by rw [post]; decide
  · cases decoded : readClient runtime.newtonsoft (Server.parseBody runtime request.body) with
    | error failure => simp [decoded, Except.map] at carried
    | ok clt =>
        obtain rfl : Upload.user clt = upload := by simpa [decoded, Except.map] using carried
        simp only [Server.dataReceived, if_neg notGet, if_pos post, Server.clientPost, users,
          if_true, exec_bind, exec_lift, decoded, Upload.store]
        generalize exec (ClientManager.addClient runtime clt) world = ran
        obtain ⟨result, after⟩ := ran
        cases result <;> rfl
  · cases decoded : readSchedule runtime.newtonsoft (Server.parseBody runtime request.body) with
    | error failure => simp [decoded, Except.map] at carried
    | ok sch =>
        obtain rfl : Upload.schedule sch = upload := by simpa [decoded, Except.map] using carried
        simp only [Server.dataReceived, if_neg notGet, if_pos post, Server.clientPost, users,
          schedule, if_true, if_false, exec_bind, exec_lift, decoded, Upload.store,
          Bool.false_eq_true]
        generalize exec (ScheduleManager.addSchedule runtime sch) world = ran
        obtain ⟨result, after⟩ := ran
        cases result <;> rfl
  · cases decoded :
        readSharedSchedule runtime.newtonsoft (Server.parseBody runtime request.body) with
    | error failure => simp [decoded, Except.map] at carried
    | ok sch =>
        obtain rfl : Upload.shared sch = upload := by simpa [decoded, Except.map] using carried
        simp only [Server.dataReceived, if_neg notGet, if_pos post, Server.clientPost, users,
          schedule, shared, if_true, if_false, exec_bind, exec_lift, exec_attempt, exec_pure,
          decoded, Upload.store, Bool.false_eq_true]
  · cases carried

/-- Waypoints are written by two encoders, descriptions in two layouts. -/
def Upload.text : Branch → Upload → Except Failure Text
  | .insert, .user clt => .ok (ClientManager.insertText clt)
  | .update, .user clt => .ok (ClientManager.updateText clt)
  | .insert, .schedule sch =>
      (listDocument Waypoint.document sch.waypoints).map fun document =>
        ScheduleManager.insertText sch (serialize runtime.unicodeAll .compact document)
  | .update, .schedule sch =>
      (listDocument Waypoint.document sch.waypoints).map fun document =>
        ScheduleManager.updateText sch (serialize .default .compact document)
  | .insert, .shared sch =>
      .ok (ScheduleManager.insertSharedText sch
        (serialize runtime.unicodeAll .indented (ScheduleManager.descriptionsDocument sch)))
  | .update, .shared sch =>
      .ok (ScheduleManager.updateSharedText sch
        (serialize runtime.unicodeAll .compact (ScheduleManager.descriptionsDocument sch)))

variable {runtime} in
theorem Upload.schedule_texts {sch : Schedule} {document : Document}
    (wrote : listDocument Waypoint.document sch.waypoints = .ok document) :
    (Upload.schedule sch).text runtime .insert = .ok (ScheduleManager.insertText sch
        (serialize runtime.unicodeAll .compact document)) ∧
      (Upload.schedule sch).text runtime .update = .ok (ScheduleManager.updateText sch
        (serialize .default .compact document)) := by
  simp only [Upload.text, wrote]
  exact ⟨rfl, rfl⟩

/-- The fields that are put between quotes as they are. -/
def Upload.plainFields : Upload → List Text
  | .user clt => [clt.name, clt.profileUrl]
  | .schedule sch => [sch.name, sch.destination, sch.startDate]
  | .shared sch => [sch.titleText, sch.descriptionText]

/-- The document as it stands in its column. -/
def storedDocument (encoder : Json.JavaScriptEncoder) (layout : Layout) (document : Document) :
    Text :=
  Json.textOf (Json.storedSpelling encoder) (Json.write layout 0 document)

def Upload.tokens : Branch → Upload → Except Failure (List Token)
  | .insert, .user clt => .ok (ClientManager.insertTokens clt clt.name clt.profileUrl)
  | .update, .user clt => .ok (ClientManager.updateTokens clt clt.name clt.profileUrl)
  | .insert, .schedule sch =>
      (listDocument Waypoint.document sch.waypoints).map fun document =>
        ScheduleManager.insertTokens sch sch.name sch.destination sch.startDate
          (storedDocument runtime.unicodeAll .compact document)
  | .update, .schedule sch =>
      (listDocument Waypoint.document sch.waypoints).map fun document =>
        ScheduleManager.updateTokens sch sch.name sch.destination sch.startDate
          (storedDocument .default .compact document)
  | .insert, .shared sch =>
      .ok (ScheduleManager.insertSharedTokens sch sch.titleText sch.descriptionText
        (storedDocument runtime.unicodeAll .indented (ScheduleManager.descriptionsDocument sch)))
  | .update, .shared sch =>
      .ok (ScheduleManager.updateSharedTokens sch sch.titleText sch.descriptionText
        (storedDocument runtime.unicodeAll .compact (ScheduleManager.descriptionsDocument sch)))

theorem stored_document_decodes (encoder : Json.JavaScriptEncoder) (layout : Layout)
    (document : Document) :
    decodeLiteral (serialize encoder layout document) =
      some (storedDocument encoder layout document) :=
  Json.decode_serialize encoder layout document

section
open ClientManager

theorem user_read_iff (clt : Client) :
    (readStatements (ClientManager.insertText clt) =
        some [insertTokens clt clt.name clt.profileUrl] ↔
      Plain clt.name ∧ Plain clt.profileUrl) ∧
    (readStatements (ClientManager.updateText clt) =
        some [updateTokens clt clt.name clt.profileUrl] ↔
      Plain clt.name ∧ Plain clt.profileUrl) := by
  constructor
  · refine (Sql.read_builder_iff (insert_text clt clt.name clt.profileUrl)
      (insert_tokens clt _ _) (List.cons_ne_nil _ _)
      (by simp [insertFields, Sql.determined_self])).trans ?_
    simp [insertFields, Sql.decode_iff_plain]
  · refine (Sql.read_builder_iff (update_text clt clt.name clt.profileUrl)
      (update_tokens clt _ _) (List.cons_ne_nil _ _)
      (by simp [updateFields, Sql.determined_self])).trans ?_
    simp [updateFields, Sql.decode_iff_plain]

end

section
open ScheduleManager

theorem schedule_read_iff (sch : Schedule) (written waypoints : Text)
    (decodes : decodeLiteral written = some waypoints) :
    (readStatements (ScheduleManager.insertText sch written) =
        some [insertTokens sch sch.name sch.destination sch.startDate waypoints] ↔
      Plain sch.name ∧ Plain sch.destination ∧ Plain sch.startDate) ∧
    (readStatements (ScheduleManager.updateText sch written) =
        some [updateTokens sch sch.name sch.destination sch.startDate waypoints] ↔
      Plain sch.name ∧ Plain sch.destination ∧ Plain sch.startDate) := by
  constructor
  · refine (Sql.read_builder_iff
      (insert_text sch written sch.name sch.destination sch.startDate waypoints)
      (insert_tokens sch written _ _ _ _) (List.cons_ne_nil _ _)
      (by simp [insertFields, Sql.determined_self,
        Sql.determined_of_decode _ _ _ decodes])).trans ?_
    simp [insertFields, Sql.decode_iff_plain, decodes]
  · refine (Sql.read_builder_iff
      (update_text sch written sch.name sch.destination sch.startDate waypoints)
      (update_tokens sch written _ _ _ _) (List.cons_ne_nil _ _)
      (by simp [updateFields, Sql.determined_self,
        Sql.determined_of_decode _ _ _ decodes])).trans ?_
    simp [updateFields, Sql.decode_iff_plain, decodes]

theorem shared_read_iff (sch : SharedSchedule) (written descriptions : Text)
    (decodes : decodeLiteral written = some descriptions) :
    (readStatements (insertSharedText sch written) =
        some [insertSharedTokens sch sch.titleText sch.descriptionText descriptions] ↔
      Plain sch.titleText ∧ Plain sch.descriptionText) ∧
    (readStatements (updateSharedText sch written) =
        some [updateSharedTokens sch sch.titleText sch.descriptionText descriptions] ↔
      Plain sch.titleText ∧ Plain sch.descriptionText) := by
  constructor
  · refine (Sql.read_builder_iff
      (insert_shared_text sch written sch.titleText sch.descriptionText descriptions)
      (insert_shared_tokens sch written _ _ _) (by simp [insertSharedTokens])
      (by simp [insertSharedFields, Sql.determined_self,
        Sql.determined_of_decode _ _ _ decodes])).trans ?_
    simp [insertSharedFields, Sql.decode_iff_plain, decodes]
  · refine (Sql.read_builder_iff
      (update_shared_text sch written sch.titleText sch.descriptionText descriptions)
      (update_shared_tokens sch written _ _ _) (by simp [updateSharedTokens])
      (by simp [updateSharedFields, Sql.determined_self,
        Sql.determined_of_decode _ _ _ decodes])).trans ?_
    simp [updateSharedFields, Sql.decode_iff_plain, decodes]

end

theorem upload_read_iff (branch : Branch) (upload : Upload) (text : Text) (tokens : List Token)
    (built : upload.text runtime branch = .ok text)
    (meant : upload.tokens runtime branch = .ok tokens) :
    readStatements text = some [tokens] ↔ ∀ field ∈ upload.plainFields, Plain field := by
  cases upload with
  | user clt =>
      cases branch <;> cases built <;> cases meant
      · simpa [Upload.plainFields] using (user_read_iff clt).1
      · simpa [Upload.plainFields] using (user_read_iff clt).2
  | schedule sch =>
      cases written : listDocument Waypoint.document sch.waypoints with
      | error failure => cases branch <;> simp [Upload.text, written, Except.map] at built
      | ok document =>
          cases branch <;> simp only [Upload.text, Upload.tokens, written,
            Except.map] at built meant <;>
            cases built <;> cases meant
          · simpa [Upload.plainFields] using
              (schedule_read_iff sch _ _ (stored_document_decodes _ _ document)).1
          · simpa [Upload.plainFields] using
              (schedule_read_iff sch _ _ (stored_document_decodes _ _ document)).2
  | shared sch =>
      cases branch <;> cases built <;> cases meant
      · simpa [Upload.plainFields] using
          (shared_read_iff sch _ _ (stored_document_decodes _ _ _)).1
      · simpa [Upload.plainFields] using
          (shared_read_iff sch _ _ (stored_document_decodes _ _ _)).2

/-- Every text executed since the log was `start` is one of those allowed. -/
def SendsOnly (start : List Call) (allowed : Text → Prop) (world : World) : Prop :=
  ∃ calls, world.log = start ++ calls ∧ ∀ text, .executeQuery text ∈ calls → allowed text

variable {start : List Call} {allowed : Text → Prop}

theorem sends_only_stable : Stable (SendsOnly start allowed) allowed where
  call := fun call result world fits sent => by
    obtain ⟨calls, log, all⟩ := sent
    refine ⟨calls ++ [call], ?_, ?_⟩
    · cases result <;> simp [callEnded, log]
    · intro text member
      rcases List.mem_append.mp member with before | last
      · exact all text before
      · exact fits text (List.mem_singleton.mp last).symm
  memory := fun before after only sent => by
    obtain ⟨calls, log, all⟩ := sent
    exact ⟨calls, only.log.trans log, all⟩

theorem store_sends_own (upload : Upload) :
    Preserves (SendsOnly start fun text => ∃ branch, upload.text runtime branch = .ok text)
      (upload.store runtime) := by
  cases upload with
  | user clt => exact stable_add_client sends_only_stable runtime clt ⟨.update, rfl⟩ ⟨.insert, rfl⟩
  | schedule sch =>
      refine stable_add_schedule sends_only_stable runtime sch (fun document written => ?_)
        fun document written => ?_
      · exact ⟨.update, (Upload.schedule_texts written).2⟩
      · exact ⟨.insert, (Upload.schedule_texts written).1⟩
  | shared sch =>
      exact stable_add_shared sends_only_stable runtime sch ⟨.update, rfl⟩ ⟨.insert, rfl⟩

end

def apostropheClient : Client := ⟨1, "O'Brien".toList, []⟩

def apostropheRequest : Request where
  method := "POST".toList
  rawUrl := "/users".toList
  keyword := none
  body := "\x7b\"uid\":1,\"name\":\"O'Brien\"\x7d".toList

end TfuServer
