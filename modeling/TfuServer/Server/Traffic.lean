import TfuServer.Server.Steps
import TfuServer.Server.Images
import TfuServer.Server.Search
import TfuServer.Server.Serving

/-!
# What a step can do

A step of a request or of the console calls the database with one of a few texts, changes
the memory, or opens or closes the listener. What holds whoever comes between is derived
from that.
-/

namespace TfuServer

set_option autoImplicit false

open Program
open Json (serialize)
open Sql (DataRow)

def Call.text : Call → Text
  | .select query => query
  | .executeQuery query => query

def Upload.query : Upload → Text
  | .user clt => ClientManager.rowQuery clt.uid
  | .schedule sch => ScheduleManager.rowQuery sch.id
  | .shared sch => ScheduleManager.sharedRowQuery sch.scheduleId

/-- The calls about images, of which only these may be marked as used. -/
inductive ImageCall (marked : Int32 → Prop) : Call → Prop where
  | used : ImageCall marked (.select ImageManager.usedQuery)
  | free : ImageCall marked (.select ImageManager.freeQuery)
  | row (id : Int32) : ImageCall marked (.select (ImageManager.rowQuery id))
  | update (id : Int32) (mine : marked id) :
      ImageCall marked (.executeQuery (ImageManager.updateText id))
  | insert (id : Int32) (mine : marked id) :
      ImageCall marked (.executeQuery (ImageManager.insertText id))

section
variable (runtime : Runtime)

/-- An upload marks its own id as used, a request for a key whichever it is answered. -/
def Marked (request : Request) (id : Int32) : Prop :=
  isUploadRequest runtime request = true → uploadedId runtime request = some id

inductive UploadCall (upload : Upload) : Call → Prop where
  | asks : UploadCall upload (.select upload.query)
  | writes (branch : Branch) (text : Text) (built : upload.text runtime branch = .ok text) :
      UploadCall upload (.executeQuery text)

/-- The calls a request makes, in whatever state it finds the tables. -/
inductive RequestCall (request : Request) : Call → Prop where
  | image (call : Call) (about : isImageRequest runtime request = true)
      (sent : ImageCall (Marked runtime request) call) : RequestCall request call
  | recommend : RequestCall request (.select recommendQuery)
  | search (search : isSearch runtime request = true) :
      RequestCall request (.select (Server.waypointsQuery (searchedKeyword runtime request)))
  | record (call : Call) (upload : Upload) (present : carried runtime request = some upload)
      (sent : UploadCall runtime upload call) : RequestCall request call

/-- What may be done: calls of the database, records entered into memory, and whether the
images or all schedules are written there, a manager of the users is built, or the listener
is opened and closed. -/
structure Permits where
  calls : Call → Prop
  records : Upload → Prop
  images : Prop
  clients : Prop
  schedules : Prop
  flags : Prop

/-- A call that is over has failed, or has got its answer. -/
inductive ServerStep (permits : Permits) (before after : World) : Prop where
  | call (call : Call) (may : permits.calls call) (result : Option (DataSet × Tables))
      (answered : result = none ∨
        result = answer runtime before.log.length before.tables call.text)
      (same : after = callEnded call result before)
  | rests (same : after = before)
  | enters (upload : Upload) (may : permits.records upload) (same : after = upload.enter before)
  | images (manager : Option (Manager Int32 Text)) (may : permits.images)
      (same : after = { before with imageManager := manager })
  | clients (may : permits.clients) (same : after = ClientManager.build before)
  | schedules (dictionary : Dictionary Int32 Schedule) (may : permits.schedules)
      (same : after = { before with scheduleDic := dictionary })
  | flags (httpListener : Nat) (listening serving : Bool) (may : permits.flags)
      (same : after = { before with httpListener, listening, serving })

variable {runtime} in
theorem server_step_failed {permits : Permits} (before after : World)
    (step : ServerStep runtime permits before after) :
    before.failedCalls ≤ after.failedCalls := by
  cases step with
  | rests same => rw [same]
  | enters upload may same => rw [same, (Upload.enter_only upload before).failedCalls]
  | images manager may same => rw [same]
  | clients may same => rw [same]; exact le_rfl
  | schedules dictionary may same => rw [same]
  | flags number listening serving may same => rw [same]
  | call call may result answered same =>
      subst same
      cases result with
      | none => exact Nat.le_succ _
      | some pair => exact le_rfl

structure SameListener (before after : World) : Prop where
  httpListener : after.httpListener = before.httpListener
  listening : after.listening = before.listening

variable {runtime} in
theorem server_step_listener {permits : Permits} (none : ¬permits.flags) (before after : World)
    (step : ServerStep runtime permits before after) : SameListener before after := by
  cases step with
  | call call may result answered same => rw [same]; cases result <;> exact ⟨rfl, rfl⟩
  | rests same => rw [same]; exact ⟨rfl, rfl⟩
  | enters upload may same =>
      have only := Upload.enter_only upload before
      rw [same]
      exact ⟨only.httpListener, only.listening⟩
  | images manager may same => rw [same]; exact ⟨rfl, rfl⟩
  | clients may same => rw [same]; exact ⟨rfl, rfl⟩
  | schedules dictionary may same => rw [same]; exact ⟨rfl, rfl⟩
  | flags number listening serving may same => exact absurd may none

def Permits.requests (requests : List Request) : Permits where
  calls call := ∃ request ∈ requests, RequestCall runtime request call
  records upload := ∃ request ∈ requests, carried runtime request = some upload
  images := ∃ request ∈ requests, isImageRequest runtime request = true
  clients := ∃ request ∈ requests, ∃ clt, carried runtime request = some (.user clt)
  schedules := False
  flags := False

def allQuery : Text := "SELECT * FROM SCHEDULE;".toList

def Permits.console : Permits where
  calls call := call = .select allQuery
  records _ := False
  images := False
  clients := False
  schedules := True
  flags := True

end

namespace Steps

abbrev MakesFrom {Value : Type} (found : World → Prop) (allowed : World → World → Prop)
    (script : Steps Value) : Prop :=
  script.AlwaysFrom found fun before after _ => allowed before after

abbrev Makes {Value : Type} (allowed : World → World → Prop) (script : Steps Value) : Prop :=
  MakesFrom (fun _ => True) allowed script

section
variable {found : World → Prop} {allowed : World → World → Prop} {Value Next : Type}

theorem makes_bind (script : Steps Value) (next : Value → Steps Next)
    (first : MakesFrom found allowed script)
    (later : ∀ value, MakesFrom found allowed (next value)) :
    MakesFrom found allowed (script >>= next) :=
  Script.always_bind script next (fun _ _ _ step => step) first later

theorem makes_recover (script : Steps Value) (handler : Failure → Steps Value)
    (first : MakesFrom found allowed script)
    (handled : ∀ failure, MakesFrom found allowed (handler failure)) :
    MakesFrom found allowed (script.recover handler) :=
  Script.always_recover script handler (fun _ _ _ step => step) first handled

end

section
variable {found : World → Prop} {permits : Permits} (runtime : Runtime)

theorem makes_select (query : Text) (may : permits.calls (.select query)) :
    MakesFrom found (ServerStep runtime permits) (select runtime query) := by
  refine Script.always_atomic _ _ fun world _ => ?_
  rcases DBManager.select_cases runtime query world with
    ⟨data, tables, -, answered, ran⟩ | ran | ⟨-, ran⟩
  · rw [ran]
    exact .call _ may _ (Or.inr answered.symm) rfl
  · rw [ran]
    exact .call _ may none (Or.inl rfl) rfl
  · rw [ran]
    exact .call _ may none (Or.inl rfl) rfl

theorem makes_execute (text : Text) (may : permits.calls (.executeQuery text)) :
    MakesFrom found (ServerStep runtime permits) (executeQuery runtime text) := by
  refine Script.always_atomic _ _ fun world _ => ?_
  rcases DBManager.execute_cases runtime text world with
    ⟨data, tables, -, answered, ran⟩ | ran | ⟨-, ran⟩
  · rw [ran]
    exact .call _ may _ (Or.inr answered.symm) rfl
  · rw [ran]
    exact .call _ may none (Or.inl rfl) rfl
  · rw [ran]
    exact .call _ may none (Or.inl rfl) rfl

theorem makes_look : MakesFrom found (ServerStep runtime permits) look :=
  Script.always_atomic _ _ fun _ _ => .rests rfl

theorem makes_rows {Value : Type} (query : Text) (may : permits.calls (.select query))
    (next : List DataRow → Steps Value)
    (later : ∀ rows, MakesFrom found (ServerStep runtime permits) (next rows)) :
    MakesFrom found (ServerStep runtime permits) (do
      let data ← select runtime query
      let rows ← Script.lift data.first
      next rows) :=
  makes_bind _ _ (makes_select runtime query may) fun _ =>
    makes_bind _ _ (Script.always_lift _ _) later

section
variable {marked : Int32 → Prop} (calls : ∀ call, ImageCall marked call → permits.calls call)
  (may : permits.images)
include may

theorem makes_enter_image (number : Nat) (id : Int32) :
    MakesFrom found (ServerStep runtime permits) (alter (ImageManager.enterAt number id)) := by
  refine Script.always_atomic _ _ fun world _ => ?_
  by_cases here : world.imageManager.map Manager.number = some number
  · exact .images _ may (if_pos here)
  · exact .rests (if_neg here)

include calls

theorem makes_image_instance :
    MakesFrom found (ServerStep runtime permits) (imageInstance runtime) := by
  have again : MakesFrom found (ServerStep runtime permits) (do
      let world ← look
      return Manager.current world.imageManager) :=
    makes_bind _ _ (makes_look runtime) fun _ => Script.always_pure _ _
  refine makes_bind _ _ (makes_look runtime) fun world => ?_
  cases world.imageManager with
  | some manager => exact again
  | none =>
      refine makes_bind _ _ ?_ fun dictionary =>
        makes_bind _ _ (Script.always_atomic _ _ fun _ _ => .images _ may rfl) fun _ => again
      exact makes_bind _ _ (makes_select runtime _ (calls _ .used)) fun data =>
        Script.always_lift _ _

theorem makes_image_added (number : Nat) (id : Int32) (mine : marked id) :
    MakesFrom found (ServerStep runtime permits) (imageAdded runtime number id) := by
  refine makes_bind _ _ (makes_enter_image runtime may number id) fun _ => ?_
  refine makes_rows runtime _ (calls _ (.row id)) _ fun rows => ?_
  split
  · exact makes_execute runtime _ (calls _ (.update id mine))
  · exact makes_execute runtime _ (calls _ (.insert id mine))

theorem makes_get_empty_key (number : Nat) (every : ∀ id, marked id) :
    MakesFrom found (ServerStep runtime permits) (getEmptyKey runtime number) := by
  have added (id : Int32) : MakesFrom found (ServerStep runtime permits)
      (imageAdded runtime number id) :=
    makes_image_added runtime calls may number id (every id)
  refine makes_bind _ _ (makes_select runtime _ (calls _ .free)) fun free => ?_
  refine makes_bind _ _ (Script.always_lift _ _) fun found => ?_
  cases found with
  | some id => exact makes_bind _ _ (added id) fun _ => Script.always_pure _ _
  | none =>
      refine makes_rows runtime _ (calls _ .used) _ fun rows => ?_
      exact makes_bind _ _ (added _) fun _ => Script.always_pure _ _

theorem makes_image_key (every : ∀ id, marked id) :
    MakesFrom found (ServerStep runtime permits) (imageKey runtime) := by
  refine makes_bind _ _ (makes_image_instance runtime calls may) fun number => ?_
  refine makes_bind _ _ (makes_get_empty_key runtime calls may number every) fun key => ?_
  refine makes_bind _ _ (makes_image_instance runtime calls may) fun number => ?_
  exact makes_bind _ _ (makes_enter_image runtime may number key) fun _ => Script.always_pure _ _

end

def store : Upload → Steps Unit
  | .user clt => addClient runtime clt
  | .schedule sch => addSchedule runtime sch
  | .shared sch => addSharedSchedule runtime sch

theorem makes_is_new (query : Text) (may : permits.calls (.select query)) :
    MakesFrom found (ServerStep runtime permits) (isNew runtime query) := by
  refine makes_bind _ _ (makes_select runtime query may) fun data => ?_
  split
  · exact makes_rows runtime query may _ fun rows => Script.always_pure _ _
  · exact Script.always_pure _ _

theorem makes_enter (upload : Upload) (may : permits.records upload) :
    MakesFrom found (ServerStep runtime permits) (alter upload.enter) :=
  Script.always_atomic _ _ fun _ _ => .enters upload may rfl

theorem enter_client_here (number : Nat) (clt : Client) (world : World)
    (here : world.clientManager.map Manager.number = some number) :
    ClientManager.enterAt number clt world = (Upload.user clt).enter world := by
  obtain ⟨manager, there, -⟩ := Option.map_eq_some_iff.mp here
  have ready : ClientManager.ready world = world := by
    unfold ClientManager.ready
    rw [there]
  change ClientManager.enterAt number clt world =
    ClientManager.enter clt (ClientManager.ready world)
  rw [ready]
  exact if_pos here

theorem makes_enter_client (number : Nat) (clt : Client) (may : permits.records (.user clt)) :
    MakesFrom found (ServerStep runtime permits) (alter (ClientManager.enterAt number clt)) := by
  refine Script.always_atomic _ _ fun world _ => ?_
  by_cases here : world.clientManager.map Manager.number = some number
  · exact .enters (.user clt) may (enter_client_here number clt world here)
  · exact .rests (if_neg here)

/-- A manager of the users may be built, or is there in every state that is found. -/
def ClientsReady (found : World → Prop) (permits : Permits) : Prop :=
  permits.clients ∨ ∀ world, found world → world.clientManager.isSome = true

theorem makes_client_instance (ready : ClientsReady found permits) :
    MakesFrom found (ServerStep runtime permits) clientInstance := by
  have again : MakesFrom found (ServerStep runtime permits) (do
      let world ← look
      return Manager.current world.clientManager) :=
    makes_bind _ _ (makes_look runtime) fun _ => Script.always_pure _ _
  refine Script.always_look_bind _ fun world here => ⟨.rests rfl, ?_⟩
  cases there : world.clientManager with
  | some manager => exact again
  | none =>
      rcases ready with may | always
      · exact makes_bind _ _ (Script.always_atomic _ _ fun _ _ => .clients may rfl) fun _ => again
      · have never := always world here
        rw [there] at never
        cases never

theorem makes_store (upload : Upload) (may : permits.records upload)
    (calls : ∀ call, UploadCall runtime upload call → permits.calls call)
    (ready : ∀ clt, upload = .user clt → ClientsReady found permits) :
    MakesFrom found (ServerStep runtime permits) (store runtime upload) := by
  have writes (branch : Branch) (text : Text) (built : upload.text runtime branch = .ok text) :
      MakesFrom found (ServerStep runtime permits) (executeQuery runtime text) :=
    makes_execute runtime text (calls _ (.writes branch text built))
  have enters : MakesFrom found (ServerStep runtime permits) (alter upload.enter) :=
    makes_enter runtime upload may
  cases upload with
  | user clt =>
      refine makes_bind _ _ (makes_client_instance runtime (ready clt rfl)) fun number => ?_
      refine makes_bind _ _ (makes_enter_client runtime number clt may) fun _ => ?_
      refine makes_rows runtime _ (calls _ .asks) _ fun rows => ?_
      split
      · exact writes .update _ rfl
      · exact writes .insert _ rfl
  | schedule sch =>
      refine makes_bind _ _ (makes_is_new runtime _ (calls _ .asks)) fun new => ?_
      split <;> refine makes_bind _ _ enters fun _ => ?_
      · cases wrote : listDocument Waypoint.document sch.waypoints with
        | error failure => exact Script.always_lift _ _
        | ok document => exact writes .insert _ (Upload.schedule_texts wrote).1
      · cases wrote : listDocument Waypoint.document sch.waypoints with
        | error failure => exact Script.always_lift _ _
        | ok document => exact writes .update _ (Upload.schedule_texts wrote).2
  | shared sch =>
      refine makes_bind _ _ (makes_is_new runtime _ (calls _ .asks)) fun new => ?_
      split <;> refine makes_bind _ _ enters fun _ => ?_
      · exact writes .insert _ rfl
      · exact writes .update _ rfl

theorem makes_recommend (may : permits.calls (.select recommendQuery)) :
    MakesFrom found (ServerStep runtime permits) (recommend runtime) := by
  refine makes_rows runtime _ may _ fun _ => ?_
  refine makes_rows runtime _ may _ fun rows => ?_
  exact makes_bind _ _ (Script.always_lift _ _) fun list => Script.always_lift _ _

theorem makes_waypoints (keyword : Option Text) (may : permits.calls
      (.select (Server.waypointsQuery ((keyword.map runtime.urlDecode).getD [])))) :
    MakesFrom found (ServerStep runtime permits) (waypoints runtime keyword) := by
  refine makes_recover _ _ ?_ fun _ => Script.always_pure _ _
  refine makes_rows runtime _ may _ fun rows => ?_
  exact makes_bind _ _ (Script.always_lift _ _) fun list => Script.always_lift _ _

/-- The steps of a request that carries a record are those that store it; only the failures of
a shared schedule are caught. -/
theorem received_record (request : Request) (upload : Upload)
    (present : carried runtime request = some upload) :
    dataReceived runtime request = store runtime upload >>= (fun _ => pure none) ∨
    (∃ sch, upload = .shared sch) ∧ dataReceived runtime request =
      Script.recover (store runtime upload) (fun _ => pure ()) >>= fun _ => pure none := by
  have read := (carried_iff runtime request upload).mp present
  unfold uploadOf at read
  split_ifs at read with method users schedule shared
  · cases read
  all_goals
    have post : request.method = "POST".toList := not_not.mp method
    have notGet : request.method ≠ "GET".toList := by rw [post]; decide
  · cases decoded : readClient runtime.newtonsoft (Server.parseBody runtime request.body) with
    | error failure => simp [decoded, Except.map] at read
    | ok clt =>
        obtain rfl : Upload.user clt = upload := by simpa [decoded, Except.map] using read
        refine Or.inl ?_
        simp only [dataReceived, if_neg notGet, if_pos post, clientPost, users, if_true, decoded]
        rfl
  · cases decoded : readSchedule runtime.newtonsoft (Server.parseBody runtime request.body) with
    | error failure => simp [decoded, Except.map] at read
    | ok sch =>
        obtain rfl : Upload.schedule sch = upload := by simpa [decoded, Except.map] using read
        refine Or.inl ?_
        simp only [dataReceived, if_neg notGet, if_pos post, clientPost, users, schedule, if_true,
          if_false, Bool.false_eq_true, decoded]
        rfl
  · cases decoded :
        readSharedSchedule runtime.newtonsoft (Server.parseBody runtime request.body) with
    | error failure => simp [decoded, Except.map] at read
    | ok sch =>
        obtain rfl : Upload.shared sch = upload := by simpa [decoded, Except.map] using read
        refine Or.inr ⟨⟨sch, rfl⟩, ?_⟩
        simp only [dataReceived, if_neg notGet, if_pos post, clientPost, users, schedule, shared,
          if_true, if_false, Bool.false_eq_true, decoded]
        rfl
  · cases read

theorem makes_client_get (request : Request) (get : request.method = "GET".toList)
    (calls : ∀ call, RequestCall runtime request call → permits.calls call)
    (images : isImageRequest runtime request = true → permits.images) :
    MakesFrom found (ServerStep runtime permits) (clientGet runtime request) := by
  have asked : (request.method == "GET".toList) = true := by rw [get, beq_self_eq_true]
  unfold clientGet
  simp only
  split_ifs with image recommended searched
  · have about : isImageRequest runtime request = true := by
      rw [isImageRequest, asked, image]
      rfl
    have noUpload : isUploadRequest runtime request = false := by
      rw [isUploadRequest, get]
      rfl
    have every (id : Int32) : Marked runtime request id := fun upload => by
      rw [noUpload] at upload
      cases upload
    exact makes_bind _ _
      (makes_image_key runtime (fun call sent => calls _ (.image call about sent)) (images about)
        every)
      fun _ => Script.always_pure _ _
  · exact makes_bind _ _ (makes_recommend runtime (calls _ .recommend)) fun _ =>
      Script.always_pure _ _
  · have search : isSearch runtime request = true := by
      rw [isSearch, asked, searched]
      rfl
    exact makes_bind _ _ (makes_waypoints runtime request.keyword (calls _ (.search search)))
      fun _ => Script.always_pure _ _
  · exact Script.always_pure _ _

theorem makes_client_post (request : Request) (post : request.method = "POST".toList)
    (calls : ∀ call, RequestCall runtime request call → permits.calls call)
    (records : ∀ upload, carried runtime request = some upload → permits.records upload)
    (images : isImageRequest runtime request = true → permits.images)
    (ready : ∀ clt, carried runtime request = some (.user clt) → ClientsReady found permits) :
    MakesFrom found (ServerStep runtime permits) (clientPost runtime request) := by
  have sent : (request.method == "POST".toList) = true := by rw [post, beq_self_eq_true]
  have record (upload : Upload) (present : carried runtime request = some upload) :
      MakesFrom found (ServerStep runtime permits) (store runtime upload) :=
    makes_store runtime upload (records upload present)
      (fun call sent => calls _ (.record call upload present sent))
      fun clt same => ready clt (same ▸ present)
  unfold clientPost
  simp only
  split_ifs with users schedule shared upload
  · cases decoded : readClient runtime.newtonsoft (Server.parseBody runtime request.body) with
    | error failure => exact Script.always_lift _ _
    | ok clt =>
        exact record (.user clt) (by simp [carried, uploadOf, post, users, decoded, Except.map])
  · cases decoded : readSchedule runtime.newtonsoft (Server.parseBody runtime request.body) with
    | error failure => exact Script.always_lift _ _
    | ok sch =>
        exact record (.schedule sch)
          (by simp [carried, uploadOf, post, users, schedule, decoded, Except.map])
  · refine makes_recover _ _ ?_ fun _ => Script.always_pure _ _
    cases decoded :
        readSharedSchedule runtime.newtonsoft (Server.parseBody runtime request.body) with
    | error failure => exact Script.always_lift _ _
    | ok sch =>
        exact record (.shared sch)
          (by simp [carried, uploadOf, post, users, schedule, shared, decoded, Except.map])
  · have about : isImageRequest runtime request = true := by
      rw [isImageRequest, isUploadRequest, sent, upload]
      exact Bool.or_true _
    have allowed (call : Call) (sent : ImageCall (Marked runtime request) call) :
        permits.calls call := calls _ (.image call about sent)
    cases held : heldUpload runtime.newtonsoft (Server.parseBody runtime request.body) with
    | error failure => exact Script.always_lift _ _
    | ok found =>
        cases found with
        | none => exact Script.always_pure _ _
        | some id =>
            change MakesFrom found (ServerStep runtime permits) (do
              let manager ← imageInstance runtime
              let id ← Script.lift (uploadId runtime.newtonsoft id)
              imageAdded runtime manager id)
            refine makes_bind _ _ (makes_image_instance runtime allowed (images about))
              fun number => ?_
            cases converted : uploadId runtime.newtonsoft id with
            | error failure => exact Script.always_lift _ _
            | ok id =>
                refine makes_image_added runtime allowed (images about) number id fun _ => ?_
                rw [uploadedId, if_pos post, held]
                exact congrArg Except.toOption converted
  · exact Script.always_pure _ _

theorem makes_data_received (request : Request)
    (calls : ∀ call, RequestCall runtime request call → permits.calls call)
    (records : ∀ upload, carried runtime request = some upload → permits.records upload)
    (images : isImageRequest runtime request = true → permits.images)
    (ready : ∀ clt, carried runtime request = some (.user clt) → ClientsReady found permits) :
    MakesFrom found (ServerStep runtime permits) (dataReceived runtime request) := by
  unfold dataReceived
  split_ifs with get post
  · exact makes_bind _ _ (makes_client_get runtime request get calls images) fun _ =>
      Script.always_pure _ _
  · exact makes_bind _ _ (makes_client_post runtime request post calls records images ready)
      fun _ =>
      Script.always_pure _ _
  · exact Script.always_pure _ _

theorem makes_request (requests : List Request) (request : Request) (member : request ∈ requests) :
    MakesFrom found (ServerStep runtime (Permits.requests runtime requests))
      (dataReceived runtime request) :=
  makes_data_received runtime request (fun _ sent => ⟨request, member, sent⟩)
    (fun _ present => ⟨request, member, present⟩) (fun about => ⟨request, member, about⟩)
    fun clt present => Or.inl ⟨request, member, clt, present⟩

theorem accept_state (number : Nat) (world : World) :
    (Program.exec (accept number) world).2 = world := by
  unfold accept
  rw [Program.exec_bind, Program.exec_get]
  simp only
  split_ifs <;> rfl

theorem makes_get_context : MakesFrom found (ServerStep runtime permits) getContext :=
  makes_bind _ _ (makes_look runtime) fun _ =>
    Script.always_atomic _ _ fun found _ => .rests (accept_state _ found)

theorem makes_loop_each (own : List Request) (each : ∀ request ∈ own,
      MakesFrom found (ServerStep runtime permits) (dataReceived runtime request)) :
    MakesFrom found (ServerStep runtime permits) (loop runtime own) := by
  induction own with
  | nil => exact Script.always_pure _ _
  | cons request own ih =>
      refine makes_bind _ _ (makes_get_context runtime) fun _ => ?_
      refine makes_bind _ _ (each request (by simp)) fun written => ?_
      exact makes_bind _ _ (ih fun other member => each other (List.mem_cons_of_mem _ member))
        fun rest => Script.always_pure _ _

theorem makes_loop (requests own : List Request) (within : ∀ request ∈ own, request ∈ requests) :
    MakesFrom found (ServerStep runtime (Permits.requests runtime requests)) (loop runtime own) :=
  makes_loop_each runtime own fun request member =>
    makes_request runtime requests request (within request member)

theorem makes_load_rows (may : permits.schedules) (rows : List DataRow) :
    MakesFrom found (ServerStep runtime permits) (loadRows runtime rows) := by
  induction rows with
  | nil => exact Script.always_pure _ _
  | cons row rows ih =>
      refine makes_bind _ _ (Script.always_lift _ _) fun sch => ?_
      exact makes_bind _ _ (Script.always_atomic _ _ fun _ _ => .schedules _ may rfl) fun _ => ih

theorem makes_sync (may : permits.schedules) (calls : permits.calls (.select allQuery)) :
    MakesFrom found (ServerStep runtime permits) (syncDBToDictionary runtime) := by
  refine makes_bind _ _ (Script.always_atomic _ _ fun _ _ => .schedules _ may rfl) fun _ => ?_
  refine makes_bind _ _ (makes_select runtime _ calls) fun data => ?_
  cases data with
  | nil => exact Script.always_pure _ _
  | cons rows more => exact makes_load_rows runtime may rows

theorem makes_server_init :
    MakesFrom found (ServerStep runtime Permits.console) (serverInit runtime) := by
  refine makes_bind _ _ (makes_look runtime) fun world => ?_
  split
  · exact Script.always_pure _ _
  · exact makes_bind _ _ (Script.always_atomic _ _ fun _ _ => .flags _ _ _ trivial rfl) fun _ =>
      makes_sync runtime trivial rfl

theorem makes_start_server : MakesFrom found (ServerStep runtime Permits.console) startServer := by
  refine Script.always_atomic _ _ fun world _ => ?_
  cases listening : world.listening with
  | true => exact .rests (if_pos listening)
  | false =>
      exact .flags world.httpListener true true trivial
        (if_neg (Bool.eq_false_iff.mp listening))

theorem makes_stop_server : MakesFrom found (ServerStep runtime Permits.console) stopServer := by
  refine Script.always_atomic _ _ fun world _ => ?_
  cases listening : world.listening with
  | true => exact .flags world.httpListener false false trivial (if_pos listening)
  | false => exact .rests (if_neg (Bool.eq_false_iff.mp listening))

theorem makes_console (commands : List Bool) :
    MakesFrom found (ServerStep runtime Permits.console) (console runtime commands) := by
  induction commands with
  | nil => exact Script.always_pure _ _
  | cons command commands ih =>
      cases command with
      | true =>
          refine makes_bind _ _ (makes_server_init runtime) fun _ => ?_
          exact makes_bind _ _ (makes_start_server runtime) fun _ => ih
      | false => exact makes_bind _ _ (makes_stop_server runtime) fun _ => ih

end

end Steps
end TfuServer
