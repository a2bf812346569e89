import TfuServer.Server.Growth

/-!
# What is never read

The dictionaries are written by the requests, and nothing of them is read but how many entries
they have, which is printed. Two processes that differ in what their dictionaries hold make the
same calls, answer the same and end alike, in every order of turns and whatever calls fail.
-/

namespace TfuServer

set_option autoImplicit false

open Program
open Script (alike_pure alike_lift alike_atomic alike_bind alike_atomic_bind alike_recover)
open Sql (DataRow)

/-- All but what the dictionaries hold; a manager there is in both or in none. -/
structure SameBesides (world other : World) : Prop where
  tables : world.tables = other.tables
  log : world.log = other.log
  failedCalls : world.failedCalls = other.failedCalls
  httpListener : world.httpListener = other.httpListener
  listening : world.listening = other.listening
  serving : world.serving = other.serving
  images : world.imageManager.map Manager.number = other.imageManager.map Manager.number
  clients : world.clientManager.map Manager.number = other.clientManager.map Manager.number

theorem same_call_ended (call : Call) (result : Option (DataSet × Tables)) (world other : World)
    (same : SameBesides world other) :
    SameBesides (callEnded call result world) (callEnded call result other) := by
  have log := congrArg (· ++ [call]) same.log
  cases result with
  | none =>
      exact ⟨same.tables, log, congrArg (· + 1) same.failedCalls, same.httpListener,
        same.listening, same.serving, same.images, same.clients⟩
  | some pair =>
      exact ⟨rfl, log, same.failedCalls, same.httpListener, same.listening, same.serving,
        same.images, same.clients⟩

theorem same_of_memory (world other after after' : World) (same : SameBesides world other)
    (only : MemoryOnly world after) (only' : MemoryOnly other after')
    (images : after.imageManager.map Manager.number = after'.imageManager.map Manager.number)
    (clients : after.clientManager.map Manager.number = after'.clientManager.map Manager.number) :
    SameBesides after after' where
  tables := by rw [only.tables, only'.tables, same.tables]
  log := by rw [only.log, only'.log, same.log]
  failedCalls := by rw [only.failedCalls, only'.failedCalls, same.failedCalls]
  httpListener := by rw [only.httpListener, only'.httpListener, same.httpListener]
  listening := by rw [only.listening, only'.listening, same.listening]
  serving := by rw [only.serving, only'.serving, same.serving]
  images := images
  clients := clients

theorem build_number {Key Value : Type} (before other : Option (Manager Key Value))
    (dictionary dictionary' : Dictionary Key Value)
    (same : before.map Manager.number = other.map Manager.number) :
    (Manager.build before dictionary).number = (Manager.build other dictionary').number := by
  cases before <;> cases other
  · rfl
  · cases same
  · cases same
  · exact congrArg (· + 1) (Option.some.inj same)

theorem current_number {Key Value : Type} (before other : Option (Manager Key Value))
    (same : before.map Manager.number = other.map Manager.number) :
    Manager.current before = Manager.current other := by
  cases before <;> cases other
  · rfl
  · cases same
  · cases same
  · exact Option.some.inj same

namespace Steps

/-- What the steps do to related worlds, and what they end with, is the same. -/
abbrev Sees {Value : Type} (related : World → World → Prop) (script : Steps Value) : Prop :=
  Script.Alike related script script

section
variable {Value Next : Type} {related : World → World → Prop} (runtime : Runtime)

theorem sees_bind (script : Steps Value) (next : Value → Steps Next) (first : Sees related script)
    (later : ∀ value, Sees related (next value)) : Sees related (script >>= next) :=
  alike_bind script script next next first later

theorem sees_rows (query : Text) (next : List DataRow → Steps Value)
    (asks : Sees related (select runtime query)) (later : ∀ rows, Sees related (next rows)) :
    Sees related (do
      let data ← select runtime query
      let rows ← Script.lift data.first
      next rows) :=
  sees_bind _ _ asks fun _ => sees_bind _ _ (alike_lift _) later

section
variable (asks : ∀ query, ImageCall (fun _ => True) (.select query) →
    Sees related (select runtime query))
  (writes : ∀ text, ImageCall (fun _ => True) (.executeQuery text) →
    Sees related (executeQuery runtime text))
  (enters : ∀ manager id, Sees related (alter (ImageManager.enterAt manager id)))
include asks writes enters

theorem sees_image_added (manager : Nat) (id : Int32) :
    Sees related (imageAdded runtime manager id) := by
  refine sees_bind _ _ (enters manager id) fun _ => ?_
  refine sees_rows runtime _ _ (asks _ (.row id)) fun rows => ?_
  split
  · exact writes _ (.update id trivial)
  · exact writes _ (.insert id trivial)

theorem sees_get_empty_key (manager : Nat) : Sees related (getEmptyKey runtime manager) := by
  have added (id : Int32) := sees_image_added runtime asks writes enters manager id
  refine sees_bind _ _ (asks _ .free) fun free => ?_
  refine sees_bind _ _ (alike_lift _) fun found => ?_
  cases found with
  | some id => exact sees_bind _ _ (added id) fun _ => alike_pure _
  | none =>
      refine sees_rows runtime _ _ (asks _ .used) fun rows => ?_
      exact sees_bind _ _ (added _) fun _ => alike_pure _

theorem sees_image_key (builds : Sees related (imageInstance runtime)) :
    Sees related (imageKey runtime) := by
  refine sees_bind _ _ builds fun manager => ?_
  refine sees_bind _ _ (sees_get_empty_key runtime asks writes enters manager) fun key => ?_
  refine sees_bind _ _ builds fun manager => ?_
  exact sees_bind _ _ (enters manager key) fun _ => alike_pure _

end

theorem sees_waypoints (keyword : Option Text) (asks : Sees related (select runtime
      (Server.waypointsQuery ((keyword.map runtime.urlDecode).getD [])))) :
    Sees related (waypoints runtime keyword) := by
  refine alike_recover _ _ _ ?_ fun _ => alike_pure _
  refine sees_rows runtime _ _ asks fun rows => ?_
  exact sees_bind _ _ (alike_lift _) fun list => alike_lift _

end

/-- Steps that do not read the dictionaries. -/
abbrev Unread {Value : Type} (script : Steps Value) : Prop :=
  Script.Alike SameBesides script script

section
variable {Value Next : Type} (runtime : Runtime)

theorem unread_select (query : Text) : Unread (select runtime query) := by
  refine alike_atomic _ fun world other same => ?_
  have ended := same_call_ended (.select query)
  unfold DBManager.select
  simp only [exec_bind, exec_get, same.log, same.tables]
  cases runtime.outcome other.log.length with
  | unreachable => exact ⟨ended none world other same, rfl⟩
  | fails => exact ⟨ended none world other same, rfl⟩
  | works =>
      simp only [exec_bind, exec_modify]
      cases answer runtime other.log.length other.tables query with
      | none => exact ⟨ended none world other same, rfl⟩
      | some pair => exact ⟨ended (some pair) world other same, rfl⟩

theorem unread_execute (text : Text) : Unread (executeQuery runtime text) := by
  refine alike_atomic _ fun world other same => ?_
  have ended := same_call_ended (.executeQuery text)
  unfold DBManager.executeQuery
  simp only [exec_bind, exec_get, same.log, same.tables]
  cases runtime.outcome other.log.length with
  | unreachable => exact ⟨ended none world other same, rfl⟩
  | fails => exact ⟨ended none world other same, rfl⟩
  | works => exact ⟨ended _ world other same, rfl⟩

theorem unread_alter (change : World → World) (only : ∀ world, MemoryOnly world (change world))
    (images : ∀ world other, SameBesides world other →
      (change world).imageManager.map Manager.number =
        (change other).imageManager.map Manager.number)
    (clients : ∀ world other, SameBesides world other →
      (change world).clientManager.map Manager.number =
        (change other).clientManager.map Manager.number) :
    Unread (alter change) :=
  alike_atomic _ fun world other same => ⟨same_of_memory world other _ _ same (only world)
    (only other) (images world other same) (clients world other same), rfl⟩

/-- Whether there is a manager is read, its dictionary is not. -/
theorem unread_image_instance : Unread (imageInstance runtime) := by
  have current : Unread (do
      let world ← look
      return Manager.current world.imageManager) :=
    alike_atomic_bind _ _ fun world other same => ⟨world, other, world, other, rfl, rfl, same, by
      rw [current_number _ _ same.images]
      exact alike_pure _⟩
  refine alike_atomic_bind _ _ fun world other same =>
    ⟨world, other, world, other, rfl, rfl, same, ?_⟩
  have images := same.images
  cases there : world.imageManager <;> cases there' : other.imageManager <;>
    rw [there, there'] at images
  · refine sees_bind _ _ (sees_bind _ _ (unread_select runtime _) fun _ => alike_lift _)
      fun dictionary => sees_bind _ _ (unread_alter _ (fun _ => ⟨rfl, rfl, rfl, rfl, rfl, rfl⟩)
        (fun _ _ both => congrArg some (build_number _ _ _ _ both.images))
        fun _ _ both => both.clients) fun _ => current
  · cases images
  · cases images
  · exact current

theorem unread_enter_image (manager : Nat) (id : Int32) :
    Unread (alter (ImageManager.enterAt manager id)) := by
  have images (world : World) :
      (ImageManager.enterAt manager id world).imageManager.map Manager.number =
        world.imageManager.map Manager.number := by
    unfold ImageManager.enterAt
    split_ifs
    · rw [ImageManager.enter, Option.map_map]
      rfl
    · rfl
  have clients (world : World) :
      (ImageManager.enterAt manager id world).clientManager = world.clientManager := by
    unfold ImageManager.enterAt
    split_ifs <;> rfl
  refine unread_alter _ (enter_image_only manager id) (fun world other same => ?_)
    fun world other same => ?_
  · rw [images, images, same.images]
  · rw [clients, clients, same.clients]

theorem unread_image_added (manager : Nat) (id : Int32) :
    Unread (imageAdded runtime manager id) :=
  sees_image_added runtime (fun query _ => unread_select runtime query)
    (fun text _ => unread_execute runtime text) unread_enter_image manager id

theorem unread_image_key : Unread (imageKey runtime) :=
  sees_image_key runtime (fun query _ => unread_select runtime query)
    (fun text _ => unread_execute runtime text) unread_enter_image (unread_image_instance runtime)

theorem unread_client_instance : Unread clientInstance := by
  have current : Unread (do
      let world ← look
      return Manager.current world.clientManager) :=
    alike_atomic_bind _ _ fun world other same => ⟨world, other, world, other, rfl, rfl, same, by
      rw [current_number _ _ same.clients]
      exact alike_pure _⟩
  refine alike_atomic_bind _ _ fun world other same =>
    ⟨world, other, world, other, rfl, rfl, same, ?_⟩
  have clients := same.clients
  cases there : world.clientManager <;> cases there' : other.clientManager <;>
    rw [there, there'] at clients
  · exact sees_bind _ _ (unread_alter _ (fun _ => ⟨rfl, rfl, rfl, rfl, rfl, rfl⟩)
      (fun _ _ both => both.images)
      fun _ _ both => congrArg some (build_number _ _ _ _ both.clients)) fun _ => current
  · cases clients
  · cases clients
  · exact current

theorem unread_enter_client (manager : Nat) (clt : Client) :
    Unread (alter (ClientManager.enterAt manager clt)) := by
  have clients (world : World) :
      (ClientManager.enterAt manager clt world).clientManager.map Manager.number =
        world.clientManager.map Manager.number := by
    unfold ClientManager.enterAt
    split_ifs
    · rw [ClientManager.enter, Option.map_map]
      rfl
    · rfl
  have images (world : World) :
      (ClientManager.enterAt manager clt world).imageManager = world.imageManager := by
    unfold ClientManager.enterAt
    split_ifs <;> rfl
  refine unread_alter _ (enter_client_only manager clt) (fun world other same => ?_)
    fun world other same => ?_
  · rw [images, images, same.images]
  · rw [clients, clients, same.clients]

theorem unread_memory (change : World → World) (only : ∀ world, MemoryOnly world (change world))
    (images : ∀ world, (change world).imageManager = world.imageManager)
    (clients : ∀ world, (change world).clientManager = world.clientManager) :
    Unread (alter change) :=
  unread_alter change only (fun world other same => by rw [images, images, same.images])
    fun world other same => by rw [clients, clients, same.clients]

theorem unread_enter_schedule (sch : Schedule) : Unread (alter (ScheduleManager.enter sch)) :=
  unread_memory _ (fun _ => ⟨rfl, rfl, rfl, rfl, rfl, rfl⟩) (fun _ => rfl) fun _ => rfl

theorem unread_is_new (query : Text) : Unread (isNew runtime query) := by
  refine sees_bind _ _ (unread_select runtime query) fun data => ?_
  split
  · exact sees_rows runtime query _ (unread_select runtime _) fun rows => alike_pure _
  · exact alike_pure _

theorem unread_store (upload : Upload) : Unread (store runtime upload) := by
  cases upload with
  | user clt =>
      refine sees_bind _ _ unread_client_instance fun manager => ?_
      refine sees_bind _ _ (unread_enter_client manager clt) fun _ =>
        sees_rows runtime _ _ (unread_select runtime _) fun rows => ?_
      split <;> exact unread_execute runtime _
  | schedule sch =>
      refine sees_bind _ _ (unread_is_new runtime _) fun new => ?_
      split <;>
        exact sees_bind _ _ (unread_enter_schedule sch) fun _ =>
          sees_bind _ _ (alike_lift _) fun document => unread_execute runtime _
  | shared sch =>
      refine sees_bind _ _ (unread_is_new runtime _) fun new => ?_
      split <;> exact sees_bind _ _ (unread_memory _ (fun _ => ⟨rfl, rfl, rfl, rfl, rfl, rfl⟩)
        (fun _ => rfl) fun _ => rfl) fun _ => unread_execute runtime _

theorem unread_recommend : Unread (recommend runtime) := by
  refine sees_rows runtime _ _ (unread_select runtime _) fun _ =>
    sees_rows runtime _ _ (unread_select runtime _) fun rows => ?_
  exact sees_bind _ _ (alike_lift _) fun list => alike_lift _

theorem unread_waypoints (keyword : Option Text) : Unread (waypoints runtime keyword) :=
  sees_waypoints runtime keyword (unread_select runtime _)

theorem unread_client_get (request : Request) : Unread (clientGet runtime request) := by
  unfold clientGet
  simp only
  split_ifs
  · exact sees_bind _ _ (unread_image_key runtime) fun _ => alike_pure _
  · exact sees_bind _ _ (unread_recommend runtime) fun _ => alike_pure _
  · exact sees_bind _ _ (unread_waypoints runtime request.keyword) fun _ => alike_pure _
  · exact alike_pure _

theorem unread_client_post (request : Request) : Unread (clientPost runtime request) := by
  unfold clientPost
  simp only
  split_ifs
  · exact sees_bind _ _ (alike_lift _) fun clt => unread_store runtime (.user clt)
  · exact sees_bind _ _ (alike_lift _) fun sch => unread_store runtime (.schedule sch)
  · refine alike_recover _ _ _ ?_ fun _ => alike_pure _
    exact sees_bind _ _ (alike_lift _) fun sch => unread_store runtime (.shared sch)
  · refine sees_bind _ _ (alike_lift _) fun found => ?_
    cases found with
    | none => exact alike_pure _
    | some id =>
        exact sees_bind _ _ (unread_image_instance runtime) fun manager =>
          sees_bind _ _ (alike_lift _) fun id => unread_image_added runtime manager id
  · exact alike_pure _

theorem unread_data_received (request : Request) : Unread (dataReceived runtime request) := by
  unfold dataReceived
  split_ifs
  · exact sees_bind _ _ (unread_client_get runtime request) fun _ => alike_pure _
  · exact sees_bind _ _ (unread_client_post runtime request) fun _ => alike_pure _
  · exact alike_pure _

theorem sees_get_context {related : World → World → Prop}
    (listener : ∀ world other, related world other → world.httpListener = other.httpListener)
    (listening : ∀ world other, related world other → world.listening = other.listening) :
    Sees related getContext := by
  refine alike_atomic_bind _ _ fun world other same =>
    ⟨world, other, world, other, rfl, rfl, same, ?_⟩
  rw [listener world other same]
  refine alike_atomic _ fun found again both => ⟨?_, ?_⟩
  · rwa [accept_state, accept_state]
  · simp only [accept, exec_bind, exec_get, listener found again both, listening found again both]
    split_ifs <;> rfl

theorem unread_loop (requests : List Request) : Unread (loop runtime requests) := by
  induction requests with
  | nil => exact alike_pure _
  | cons request requests ih =>
      refine sees_bind _ _ (sees_get_context (fun _ _ same => same.httpListener)
        fun _ _ same => same.listening) fun _ => ?_
      refine sees_bind _ _ (unread_data_received runtime request) fun written => ?_
      exact sees_bind _ _ ih fun rest => alike_pure _

theorem unread_load_rows (rows : List DataRow) : Unread (loadRows runtime rows) := by
  induction rows with
  | nil => exact alike_pure _
  | cons row rows ih =>
      refine sees_bind _ _ (alike_lift _) fun sch => ?_
      exact sees_bind _ _ (unread_enter_schedule sch) fun _ => ih

theorem unread_server_init : Unread (serverInit runtime) := by
  refine alike_atomic_bind _ _ fun world other same =>
    ⟨world, other, world, other, rfl, rfl, same, ?_⟩
  rw [same.listening]
  split
  · exact alike_pure _
  · refine sees_bind _ _ (alike_atomic _ fun found again both => ⟨?_, rfl⟩) fun _ => ?_
    · exact ⟨both.tables, both.log, both.failedCalls, congrArg (· + 1) both.httpListener,
        both.listening, both.serving, both.images, both.clients⟩
    refine sees_bind _ _ (unread_memory _ (fun _ => ⟨rfl, rfl, rfl, rfl, rfl, rfl⟩)
      (fun _ => rfl) fun _ => rfl) fun _ => ?_
    refine sees_bind _ _ (unread_select runtime _) fun data => ?_
    cases data with
    | nil => exact alike_pure _
    | cons rows more => exact unread_load_rows runtime rows

theorem unread_console (commands : List Bool) : Unread (console runtime commands) := by
  have flagged (change : World → World) (only : ∀ world other, SameBesides world other →
      SameBesides (change world) (change other)) : Unread (Script.atomic (modify change)) :=
    alike_atomic _ fun world other same => ⟨only world other same, rfl⟩
  have starts : Unread startServer := by
    refine flagged _ fun world other same => ?_
    rw [same.listening]
    split
    · exact same
    · exact ⟨same.tables, same.log, same.failedCalls, same.httpListener, rfl, rfl, same.images,
        same.clients⟩
  have stops : Unread stopServer := by
    refine flagged _ fun world other same => ?_
    rw [same.listening]
    split
    · exact ⟨same.tables, same.log, same.failedCalls, same.httpListener, rfl, rfl, same.images,
        same.clients⟩
    · exact same
  induction commands with
  | nil => exact alike_pure _
  | cons command commands ih =>
      cases command with
      | true =>
          refine sees_bind _ _ (unread_server_init runtime) fun _ => ?_
          exact sees_bind _ _ starts fun _ => ih
      | false => exact sees_bind _ _ stops fun _ => ih

end

end Steps

/-- Processes that differ in their dictionaries: in every order of turns, whatever calls fail,
the tables, the calls and the flags are the same, and so is what each thread has ended with. -/
theorem dictionaries_never_read (runtime : Runtime) (commands : List Bool)
    (loops : List (List Request)) (world other : World) (schedule : List Nat)
    (same : SameBesides world other) :
    let one := Pool.run schedule (process runtime commands loops world)
    let two := Pool.run schedule (process runtime commands loops other)
    SameBesides one.state two.state ∧
    ∀ (index : Nat) (result : Except Failure (List Text)),
      one.scripts[index]? = some (.ended result) → two.scripts[index]? = some (.ended result) := by
  have alike := Pool.run_alike schedule _ _ (Pool.alike_same world other
    (process runtime commands loops world).scripts same fun script member => by
      rcases List.mem_cons.mp member with rfl | loop
      · exact Steps.unread_console runtime commands
      · obtain ⟨requests, -, rfl⟩ := List.mem_map.mp loop
        exact Steps.unread_loop runtime requests)
  exact ⟨alike.state, Pool.alike_ended _ _ alike⟩

/-- One dictionary of users is empty, the other has a user for every id. -/
theorem dictionaries_never_read_keys :
    let nobody : World := ClientManager.build (.opened Tables.empty)
    let everyone : World := { World.opened Tables.empty with
      clientManager := some (Manager.build none fun uid => some ⟨uid, [], []⟩) }
    let loops := [[postUser "1" "A", keyRequest]]
    let turns := List.replicate 25 1
    ∃ texts,
      (Pool.run turns (process .standard [] loops nobody)).scripts[1]? = some (.ended (.ok texts)) ∧
      (Pool.run turns (process .standard [] loops everyone)).scripts[1]? =
        some (.ended (.ok texts)) := by
  intro nobody everyone loops turns
  obtain ⟨texts, ended⟩ := ended_well_at turns (process .standard [] loops nobody) 1 (by decide)
    (by decide +kernel)
  exact ⟨texts, ended, (dictionaries_never_read .standard [] loops nobody everyone turns
    ⟨rfl, rfl, rfl, rfl, rfl, rfl, rfl, rfl⟩).2 1 _ ended⟩

end TfuServer
