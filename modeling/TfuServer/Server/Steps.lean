import TfuServer.Pool
import TfuServer.Server.Console
import TfuServer.Server.Serving

/-!
# The steps of the process

The managers and the requests once more, cut where another thread can come between: at
each call of the database and at each access of the memory that the threads share. The
console has a thread of its own, and every loop of a listener has one. Whichever loop asks
first builds the manager of the images or of the users; two that ask at once build two.
-/

namespace TfuServer

set_option autoImplicit false

open Script (ImplementsFrom Implements implements_pure implements_lift implements_atomic
  implements_bind implements_recover implements_attempt)
open Sql (DataRow)
open Json (serialize)

abbrev Steps (Value : Type) := Script World Failure Value

namespace Steps

section
variable (runtime : Runtime)

def select (query : Text) : Steps DataSet := Script.atomic (DBManager.select runtime query)

def executeQuery (query : Text) : Steps Unit :=
  Script.atomic (DBManager.executeQuery runtime query)

def alter (change : World → World) : Steps PUnit := Script.atomic (modify change)

def look : Steps World := Script.atomic get

def syncStorageToDictionary : Steps (Dictionary Int32 Text) := do
  let data ← select runtime ImageManager.usedQuery
  Script.lift (do ImageManager.loadRows (fun _ => none) (← data.first))

/-- The field that was found empty is written; what is returned is read from it again. -/
def imageInstance : Steps Nat := do
  let world ← look
  match world.imageManager with
  | some _ =>
      let world ← look
      return Manager.current world.imageManager
  | none =>
      let dictionary ← syncStorageToDictionary runtime
      alter (ImageManager.build dictionary)
      let world ← look
      return Manager.current world.imageManager

def imageAdded (manager : Nat) (id : Int32) : Steps Unit := do
  alter (ImageManager.enterAt manager id)
  let data ← select runtime (ImageManager.rowQuery id)
  let rows ← Script.lift data.first
  if rows.length > 0 then executeQuery runtime (ImageManager.updateText id)
  else executeQuery runtime (ImageManager.insertText id)

def getEmptyKey (manager : Nat) : Steps Int32 := do
  let free ← select runtime ImageManager.freeQuery
  match ← Script.lift (do ImageManager.firstFree (← free.first)) with
  | some id =>
      imageAdded runtime manager id
      return id
  | none =>
      let used ← select runtime ImageManager.usedQuery
      let rows ← Script.lift used.first
      let id := Int32.ofNat rows.length
      imageAdded runtime manager id
      return id

def clientInstance : Steps Nat := do
  let world ← look
  match world.clientManager with
  | some _ =>
      let world ← look
      return Manager.current world.clientManager
  | none =>
      alter ClientManager.build
      let world ← look
      return Manager.current world.clientManager

def addClient (clt : Client) : Steps Unit := do
  let manager ← clientInstance
  alter (ClientManager.enterAt manager clt)
  let data ← select runtime (ClientManager.rowQuery clt.uid)
  let rows ← Script.lift data.first
  if rows.length > 0 then executeQuery runtime (ClientManager.updateText clt)
  else executeQuery runtime (ClientManager.insertText clt)

def isNew (query : Text) : Steps Bool := do
  let data ← select runtime query
  if data.length > 0 then
    let again ← select runtime query
    let rows ← Script.lift again.first
    return rows.length < 1
  else return false

def addSchedule (sch : Schedule) : Steps Unit := do
  let new ← isNew runtime (ScheduleManager.rowQuery sch.id)
  if new then
    alter (ScheduleManager.enter sch)
    let document ← Script.lift (listDocument Waypoint.document sch.waypoints)
    executeQuery runtime
      (ScheduleManager.insertText sch (serialize runtime.unicodeAll .compact document))
  else
    alter (ScheduleManager.enter sch)
    let document ← Script.lift (listDocument Waypoint.document sch.waypoints)
    executeQuery runtime
      (ScheduleManager.updateText sch (serialize .default .compact document))

def addSharedSchedule (sch : SharedSchedule) : Steps Unit := do
  let new ← isNew runtime (ScheduleManager.sharedRowQuery sch.scheduleId)
  if new then
    alter (ScheduleManager.enterShared sch)
    executeQuery runtime (ScheduleManager.insertSharedText sch
      (serialize runtime.unicodeAll .indented (ScheduleManager.descriptionsDocument sch)))
  else
    alter (ScheduleManager.enterShared sch)
    executeQuery runtime (ScheduleManager.updateSharedText sch
      (serialize runtime.unicodeAll .compact (ScheduleManager.descriptionsDocument sch)))

def loadRows : List DataRow → Steps Unit
  | [] => return
  | row :: rows => do
      let sch ← Script.lift (scheduleOfRow runtime.newtonsoft row)
      alter (ScheduleManager.enter sch)
      loadRows rows

def syncDBToDictionary : Steps Unit := do
  alter fun world => { world with scheduleDic := fun _ => none }
  let data ← select runtime "SELECT * FROM SCHEDULE;".toList
  match data with
  | rows :: _ => loadRows runtime rows
  | [] => return

def imageKey : Steps Text := do
  let manager ← imageInstance runtime
  let emptyKey ← getEmptyKey runtime manager
  let manager ← imageInstance runtime
  alter (ImageManager.enterAt manager emptyKey)
  return Server.keyResponse emptyKey

def recommend : Steps Text := do
  let query := "SELECT * FROM SHAREDSCHEDULE order by rand();".toList
  let counted ← select runtime query
  let _ ← Script.lift counted.first
  let data ← select runtime query
  let rows ← Script.lift data.first
  let list ← Script.lift ((rows.take Server.maxRecommended).mapM
    (convertDataRowToSharedSchedule runtime.newtonsoft))
  Script.lift (Server.recommendText runtime list)

def waypoints (keyword : Option Text) : Steps Text :=
  let keyword := (keyword.map runtime.urlDecode).getD []
  Script.recover (do
      let data ← select runtime (Server.waypointsQuery keyword)
      let rows ← Script.lift data.first
      let list ← Script.lift (rows.mapM (convertDataRowToWaypoint runtime.newtonsoft))
      Script.lift (Server.waypointsText runtime list))
    fun _ => return []

def clientGet (request : Request) : Steps Text := do
  let responseString ←
    if startsWith runtime request.rawUrl "/image" then imageKey runtime
    else if startsWith runtime request.rawUrl "/recommend" then recommend runtime
    else if startsWith runtime request.rawUrl "/waypoints" then waypoints runtime request.keyword
    else return "unknownUrlAccess".toList
  return restoreApostrophes responseString

def clientPost (request : Request) : Steps Unit := do
  let json := Server.parseBody runtime request.body
  if startsWith runtime request.rawUrl "/users" then
    let client ← Script.lift (readClient runtime.newtonsoft json)
    addClient runtime client
  else if startsWith runtime request.rawUrl "/schedule" then
    let schedule ← Script.lift (readSchedule runtime.newtonsoft json)
    addSchedule runtime schedule
  else if startsWith runtime request.rawUrl "/sharedschedule" then
    Script.recover (do
        let schedule ← Script.lift (readSharedSchedule runtime.newtonsoft json)
        addSharedSchedule runtime schedule)
      fun _ => return
  else if startsWith runtime request.rawUrl "/imageupload" then
    match ← Script.lift (heldUpload runtime.newtonsoft json) with
    | some id =>
        let manager ← imageInstance runtime
        let id ← Script.lift (uploadId runtime.newtonsoft id)
        imageAdded runtime manager id
    | none => return
  else return

def dataReceived (request : Request) : Steps (Option Text) := do
  if request.method = "GET".toList then
    let response ← clientGet runtime request
    return some response
  else if request.method = "POST".toList then
    clientPost runtime request
    return none
  else return none

/-- A call of `GetContext` on the listener with this number. -/
def accept (number : Nat) : Action Unit := do
  let world ← get
  if world.listening ∧ world.httpListener = number then return
  else Program.lift (.error .listener)

/-- The field is read, and the listener that it had is waited on. -/
def getContext : Steps Unit := do
  let world ← look
  Script.atomic (accept world.httpListener)

/-- A loop that gets these requests, up to the first exception. -/
def loop : List Request → Steps (List Text)
  | [] => return []
  | request :: requests => do
      getContext
      let written ← dataReceived runtime request
      let rest ← loop requests
      return written.toList ++ rest

def serverInit : Steps Unit := do
  let world ← look
  if world.listening then return
  else
    alter Server.makeListener
    syncDBToDictionary runtime

def startServer : Steps Unit := Script.atomic Server.startServer

def stopServer : Steps Unit := Script.atomic Server.stopServer

/-- The commands that open and close the listener; `true` is `start`. -/
def console : List Bool → Steps (List Text)
  | [] => return []
  | true :: commands => do
      serverInit runtime
      startServer
      console commands
  | false :: commands => do
      stopServer
      console commands

theorem exec_look_bind {Value : Type} (next : World → Steps Value) (world : World) :
    (look >>= next).exec world = (next world).exec world :=
  rfl

def ImagesAt (number : Nat) (world : World) : Prop :=
  world.imageManager.map Manager.number = some number

def ClientsAt (number : Nat) (world : World) : Prop :=
  world.clientManager.map Manager.number = some number

theorem images_at_ended (number : Nat) (call : Call) (result : Option (DataSet × Tables))
    (world : World) (here : ImagesAt number world) :
    ImagesAt number (callEnded call result world) := by
  cases result <;> exact here

theorem clients_at_ended (number : Nat) (call : Call) (result : Option (DataSet × Tables))
    (world : World) (here : ClientsAt number world) :
    ClientsAt number (callEnded call result world) := by
  cases result <;> exact here

theorem implements_enter_image (number : Nat) (id : Int32) :
    ImplementsFrom (ImagesAt number) (alter (ImageManager.enterAt number id))
      (modify (ImageManager.enter id)) := by
  intro world here
  refine ⟨Prod.ext rfl (if_pos here), ?_⟩
  have before : world.imageManager.map Manager.number = some number := here
  change (world.imageManager.map _).map Manager.number = some number
  rw [← before, Option.map_map]
  rfl

theorem implements_enter_client (number : Nat) (clt : Client) :
    ImplementsFrom (ClientsAt number) (alter (ClientManager.enterAt number clt))
      (modify (ClientManager.enter clt)) := by
  intro world here
  refine ⟨Prod.ext rfl (if_pos here), ?_⟩
  have before : world.clientManager.map Manager.number = some number := here
  change (world.clientManager.map _).map Manager.number = some number
  rw [← before, Option.map_map]
  rfl

theorem implements_sync_storage : Implements (syncStorageToDictionary runtime)
    (ImageManager.syncStorageToDictionary runtime) :=
  implements_bind _ _ _ _ (implements_atomic _) fun _ => implements_lift _

theorem exec_image_instance {Value : Type} (next : Nat → Steps Value) (rest : Action Value)
    (same : ∀ number, ImplementsFrom (ImagesAt number) (next number) rest) (world : World) :
    (imageInstance runtime >>= next).exec world =
      Program.exec (ImageManager.instance runtime >>= fun _ => rest) world := by
  have goes (manager : Manager Int32 Text) (after : World)
      (there : after.imageManager = some manager) :
      (next (Manager.current after.imageManager)).exec after = Program.exec rest after :=
    (same _ after (by rw [ImagesAt, there]; rfl)).1
  rw [Script.exec_bind, imageInstance, exec_look_bind, Program.exec_bind]
  cases there : world.imageManager with
  | some manager =>
      rw [ImageManager.exec_instance_there runtime world manager there]
      exact goes manager world there
  | none =>
      rw [ImageManager.exec_instance_absent runtime world there, Program.exec_bind,
        Script.exec_bind, (implements_sync_storage runtime world trivial).1]
      generalize Program.exec (ImageManager.syncStorageToDictionary runtime) world = ran
      obtain ⟨result, after⟩ := ran
      cases result with
      | error failure => rfl
      | ok dictionary =>
          exact goes (Manager.build after.imageManager dictionary)
            (ImageManager.build dictionary after) rfl

theorem exec_client_instance {Value : Type} (next : Nat → Steps Value) (rest : Action Value)
    (same : ∀ number, ImplementsFrom (ClientsAt number) (next number) rest) (world : World) :
    (clientInstance >>= next).exec world =
      Program.exec (ClientManager.instance >>= fun _ => rest) world := by
  have goes (manager : Manager Int64 Client) (after : World)
      (there : after.clientManager = some manager) :
      (next (Manager.current after.clientManager)).exec after = Program.exec rest after :=
    (same _ after (by rw [ClientsAt, there]; rfl)).1
  have ran : Program.exec (ClientManager.instance >>= fun _ => rest) world =
      Program.exec rest (ClientManager.ready world) := rfl
  rw [Script.exec_bind, clientInstance, exec_look_bind, ran, ClientManager.ready]
  cases there : world.clientManager with
  | some manager => exact goes manager world there
  | none =>
      exact goes (Manager.build world.clientManager fun _ => none) (ClientManager.build world) rfl

section
variable {invariant : World → Prop}
  (ended : ∀ call result world, invariant world → invariant (callEnded call result world))
include ended

theorem implements_select (query : Text) :
    ImplementsFrom invariant (select runtime query) (DBManager.select runtime query) := by
  refine Script.implements_atomic_from _ fun world holds => ?_
  rcases DBManager.select_cases runtime query world with
    ⟨data, tables, -, -, ran⟩ | ran | ⟨-, ran⟩ <;>
  · simp only [ran]
    exact ended _ _ _ holds

theorem implements_execute (text : Text) :
    ImplementsFrom invariant (executeQuery runtime text) (DBManager.executeQuery runtime text) := by
  refine Script.implements_atomic_from _ fun world holds => ?_
  rcases DBManager.execute_cases runtime text world with
    ⟨data, tables, -, -, ran⟩ | ran | ⟨-, ran⟩ <;>
  · simp only [ran]
    exact ended _ _ _ holds

theorem implements_rows {Value : Type} (query : Text) (next : List DataRow → Steps Value)
    (rest : List DataRow → Action Value)
    (same : ∀ rows, ImplementsFrom invariant (next rows) (rest rows)) :
    ImplementsFrom invariant
      (do
        let data ← select runtime query
        let rows ← Script.lift data.first
        next rows)
      (do
        let data ← DBManager.select runtime query
        let rows ← Program.lift data.first
        rest rows) :=
  implements_bind _ _ _ _ (implements_select runtime ended query) fun _ =>
    implements_bind _ _ _ _ (implements_lift _) same

end

theorem implements_image_added (number : Nat) (id : Int32) :
    ImplementsFrom (ImagesAt number) (imageAdded runtime number id)
      (ImageManager.imageAdded runtime id) := by
  refine implements_bind _ _ _ _ (implements_enter_image number id) fun _ => ?_
  refine implements_rows runtime (images_at_ended number) _ _ _ fun rows => ?_
  split <;> exact implements_execute runtime (images_at_ended number) _

theorem implements_get_empty_key (number : Nat) :
    ImplementsFrom (ImagesAt number) (getEmptyKey runtime number)
      (ImageManager.getEmptyKey runtime) := by
  have added (id : Int32) : ImplementsFrom (ImagesAt number)
      (do
        imageAdded runtime number id
        return id)
      (do
        ImageManager.imageAdded runtime id
        return id) :=
    implements_bind _ _ _ _ (implements_image_added runtime number id) fun _ => implements_pure _
  refine implements_bind _ _ _ _ (implements_select runtime (images_at_ended number) _)
    fun free => ?_
  refine implements_bind _ _ _ _ (implements_lift _) fun found => ?_
  cases found with
  | some id => exact added id
  | none => exact implements_rows runtime (images_at_ended number) _ _ _ fun rows => added _

theorem implements_add_client (clt : Client) :
    Implements (addClient runtime clt) (ClientManager.addClient runtime clt) := by
  refine fun world _ => ⟨exec_client_instance _ _ (fun number => ?_) world, trivial⟩
  refine implements_bind _ _ _ _ (implements_enter_client number clt) fun _ => ?_
  refine implements_rows runtime (clients_at_ended number) _ _ _ fun rows => ?_
  split <;> exact implements_execute runtime (clients_at_ended number) _

theorem implements_is_new (query : Text) :
    Implements (isNew runtime query) (ScheduleManager.isNew runtime query) := by
  refine implements_bind _ _ _ _ (implements_atomic _) fun data => ?_
  split
  · exact implements_rows runtime (fun _ _ _ _ => trivial) query _ _ fun rows => implements_pure _
  · exact implements_pure _

theorem implements_add_schedule (sch : Schedule) :
    Implements (addSchedule runtime sch) (ScheduleManager.addSchedule runtime sch) := by
  refine implements_bind _ _ _ _ (implements_is_new runtime _) fun new => ?_
  split <;>
    exact implements_bind _ _ _ _ (implements_atomic _) fun _ =>
      implements_bind _ _ _ _ (implements_lift _) fun document => implements_atomic _

theorem implements_add_shared (sch : SharedSchedule) :
    Implements (addSharedSchedule runtime sch)
      (ScheduleManager.addSharedSchedule runtime sch) := by
  refine implements_bind _ _ _ _ (implements_is_new runtime _) fun new => ?_
  split <;>
    exact implements_bind _ _ _ _ (implements_atomic _) fun _ => implements_atomic _

theorem implements_load_rows (rows : List DataRow) :
    Implements (loadRows runtime rows) (ScheduleManager.loadRows runtime rows) := by
  induction rows with
  | nil => exact implements_pure _
  | cons row rows ih =>
      refine implements_bind _ _ _ _ (implements_lift _) fun sch => ?_
      exact implements_bind _ _ _ _ (implements_atomic _) fun _ => ih

theorem implements_sync :
    Implements (syncDBToDictionary runtime) (ScheduleManager.syncDBToDictionary runtime) := by
  refine implements_bind _ _ _ _ (implements_atomic _) fun _ => ?_
  refine implements_bind _ _ _ _ (implements_atomic _) fun data => ?_
  cases data with
  | nil => exact implements_pure _
  | cons rows more => exact implements_load_rows runtime rows

theorem implements_image_key : Implements (imageKey runtime) (Server.imageKey runtime) := by
  refine fun world _ => ⟨exec_image_instance runtime _ _ (fun number => ?_) world, trivial⟩
  refine implements_bind _ _ _ _ (implements_get_empty_key runtime number) fun key => ?_
  intro after here
  obtain ⟨manager, there, -⟩ := Option.map_eq_some_iff.mp here
  -- The manager is there by now: the second getter only hands it out.
  have found : (do
      let manager ← imageInstance runtime
      alter (ImageManager.enterAt manager key)
      return Server.keyResponse key : Steps Text).exec after =
      (do
        alter (ImageManager.enterAt (Manager.current after.imageManager) key)
        return Server.keyResponse key : Steps Text).exec after := by
    rw [Script.exec_bind, imageInstance, exec_look_bind, there]
    simp only [exec_look_bind]
    rw [there]
    rfl
  have current : Manager.current after.imageManager = number := by
    rw [ImagesAt, there] at here
    rw [there]
    exact Option.some.inj here
  rw [found, current]
  exact implements_bind _ _ _ _ (implements_enter_image number key) (fun _ => implements_pure _)
    after here

theorem implements_recommend : Implements (recommend runtime) (Server.recommend runtime) := by
  refine implements_rows runtime (fun _ _ _ _ => trivial) _ _ _ fun _ => ?_
  refine implements_rows runtime (fun _ _ _ _ => trivial) _ _ _ fun rows => ?_
  exact implements_bind _ _ _ _ (implements_lift _) fun list => implements_lift _

theorem implements_waypoints (keyword : Option Text) :
    Implements (waypoints runtime keyword) (Server.waypoints runtime keyword) := by
  refine implements_recover _ _ _ _ ?_ fun _ => implements_pure _
  refine implements_rows runtime (fun _ _ _ _ => trivial) _ _ _ fun rows => ?_
  exact implements_bind _ _ _ _ (implements_lift _) fun list => implements_lift _

theorem implements_client_get (request : Request) :
    Implements (clientGet runtime request) (Server.clientGet runtime request) := by
  unfold clientGet Server.clientGet
  simp only
  split_ifs
  · exact implements_bind _ _ _ _ (implements_image_key runtime) fun _ => implements_pure _
  · exact implements_bind _ _ _ _ (implements_recommend runtime) fun _ => implements_pure _
  · exact implements_bind _ _ _ _ (implements_waypoints runtime request.keyword) fun _ =>
      implements_pure _
  · exact implements_pure _

theorem implements_client_post (request : Request) :
    Implements (clientPost runtime request) (Server.clientPost runtime request) := by
  unfold clientPost Server.clientPost
  simp only
  split_ifs
  · exact implements_bind _ _ _ _ (implements_lift _) (implements_add_client runtime)
  · exact implements_bind _ _ _ _ (implements_lift _) (implements_add_schedule runtime)
  · refine implements_attempt _ _ ?_
    exact implements_bind _ _ _ _ (implements_lift _) (implements_add_shared runtime)
  · refine implements_bind _ _ _ _ (implements_lift _) fun found => ?_
    cases found with
    | none => exact implements_pure _
    | some id =>
        refine fun world _ => ⟨exec_image_instance runtime _ _ (fun number => ?_) world, trivial⟩
        exact implements_bind _ _ _ _ (implements_lift _) (implements_image_added runtime number)
  · exact implements_pure _

/-- A request whose steps nobody comes between does what the request as a whole does. -/
theorem implements_data_received (request : Request) :
    Implements (dataReceived runtime request) (Server.dataReceived runtime request) := by
  unfold dataReceived Server.dataReceived
  split_ifs
  · exact implements_bind _ _ _ _ (implements_client_get runtime request) fun _ =>
      implements_pure _
  · exact implements_bind _ _ _ _ (implements_client_post runtime request) fun _ =>
      implements_pure _
  · exact implements_pure _

theorem implements_start :
    Implements
      (do
        serverInit runtime
        startServer)
      (Server.start runtime) := by
  refine implements_bind _ _ _ _ ?_ fun _ => implements_atomic _
  refine implements_bind _ _ _ _ (implements_atomic _) fun world => ?_
  split
  · exact implements_pure _
  · exact implements_bind _ _ _ _ (implements_atomic _) fun _ => implements_sync runtime

theorem exec_get_context {Value : Type} (next : Unit → Steps Value) (world : World)
    (listening : world.listening = true) :
    (getContext >>= next).exec world = (next ()).exec world := by
  have accepted : Program.exec (accept world.httpListener) world = (.ok (), world) := by
    simp [accept, Program.exec_bind, listening]
  rw [Script.exec_bind, getContext, exec_look_bind, Script.atomic, Script.exec, accepted]
  rfl

/-- A loop alone ends where its requests have been served, with their answers or with the
exception that has ended it. -/
theorem loop_alone (requests : List Request) (world : World) (listening : world.listening = true)
    (serving : world.serving = true) :
    let served := Server.serve runtime requests world
    ((loop runtime requests).exec world).2 = { served with serving := true } ∧
    (served.serving = true →
      ((loop runtime requests).exec world).1 = .ok (Server.responses runtime requests world)) ∧
    (served.serving = false →
      ∃ failure, ((loop runtime requests).exec world).1 = .error failure) := by
  induction requests generalizing world with
  | nil =>
      refine ⟨?_, fun _ => rfl, fun ended => ?_⟩
      · change world = { world with serving := true }
        rw [← serving]
      · rw [Server.serve, serving] at ended
        cases ended
  | cons request requests ih =>
      have flags := stable_data_received (flags_stay true true) runtime (fun _ => trivial) request
        world ⟨listening, serving⟩
      have first := (implements_data_received runtime request world trivial).1
      have opened : (world.listening && world.serving) = true := by rw [listening, serving]; rfl
      rw [Server.serve, Server.responses, loop, exec_get_context _ world listening,
        Script.exec_bind]
      cases ran : Program.exec (Server.dataReceived runtime request) world with
      | mk result after =>
          rw [ran] at first flags
          cases result with
          | error failure =>
              have handled : Server.handle runtime request world =
                  { after with serving := false } := by
                rw [Server.handle, if_pos opened, ran]
              rw [first, handled, serve_ended runtime requests _ rfl]
              refine ⟨?_, fun serves => absurd serves Bool.false_ne_true,
                fun _ => ⟨failure, rfl⟩⟩
              change after = { after with serving := true }
              rw [← flags.2]
          | ok written =>
              have handled : Server.handle runtime request world = after := by
                rw [Server.handle, if_pos opened, ran]
              have answered : Server.response runtime request world = written := by
                rw [Server.response, if_pos opened, ran]
              obtain ⟨state, goes, ends⟩ := ih after flags.1 flags.2
              rw [first, handled, answered]
              simp only [Script.exec_bind]
              cases last : (loop runtime requests).exec after with
              | mk result final =>
                  rw [last] at state goes ends
                  cases result with
                  | ok rest =>
                      refine ⟨state, fun serves => ?_, fun ended => ?_⟩
                      · rw [Except.ok.inj (goes serves)]
                        rfl
                      · obtain ⟨failure, never⟩ := ends ended
                        cases never
                  | error failure =>
                      refine ⟨state, fun serves => ?_, fun ended => ⟨failure, rfl⟩⟩
                      cases goes serves

end

end Steps

/-- Turns of one loop alone serve its requests: the finer steps add nothing. -/
theorem loop_alone_serves (runtime : Runtime) (requests : List Request) (world : World)
    (listening : world.listening = true) (serving : world.serving = true) :
    let served := Server.serve runtime requests world
    ∃ schedule,
      let after := Pool.run schedule ⟨world, [Steps.loop runtime requests]⟩
      after.state = { served with serving := true } ∧
      (served.serving = true →
        after.scripts = [.ended (.ok (Server.responses runtime requests world))]) ∧
      (served.serving = false → ∃ failure, after.scripts = [.ended (.error failure)]) := by
  obtain ⟨state, goes, ends⟩ := Steps.loop_alone runtime requests world listening serving
  obtain ⟨schedule, ran⟩ := Pool.run_alone 0 (Steps.loop runtime requests)
    ⟨world, [Steps.loop runtime requests]⟩ rfl
  refine ⟨schedule, ?_⟩
  rw [ran]
  refine ⟨state, fun serves => ?_, fun ended => ?_⟩
  · rw [← goes serves]
    rfl
  · obtain ⟨failure, same⟩ := ends ended
    refine ⟨failure, ?_⟩
    rw [← same]
    rfl

theorem loop_alone_serves_users :
    ∃ schedule, (Pool.run schedule ⟨.opened Tables.empty,
      [Steps.loop .standard [userRequest "\x7b\"uid\":5\x7d"]]⟩).scripts = [.ended (.ok [])] := by
  obtain ⟨schedule, -, goes, -⟩ := loop_alone_serves .standard
    [userRequest "\x7b\"uid\":5\x7d"] (.opened Tables.empty) rfl rfl
  exact ⟨schedule, goes rfl⟩

end TfuServer
