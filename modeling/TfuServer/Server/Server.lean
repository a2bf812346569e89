import TfuServer.Server.Managers
import TfuServer.Text.Replace

/-!
# The server

How a request is routed, what it answers, and the two console commands that
open and close the listener. A request that ends with an exception ends the
loop that serves them.
-/

namespace TfuServer

set_option autoImplicit false

open Numeral Program
open Json (parseObject attrValue orElse toText serialize)
open Replace (replace)

/-- `keyword` is what `QueryString` gives for the attribute of that name. -/
structure Request where
  method : Text
  rawUrl : Text
  keyword : Option Text
  body : Text
  deriving DecidableEq, Repr

/-- `StartsWith` with a string compares by the culture of the process. -/
def startsWith (runtime : Runtime) (text : Text) (start : String) : Bool :=
  runtime.culture.startsWith text start.toList

theorem starts_with_one {runtime : Runtime} {text : Text} {route : String}
    (found : startsWith runtime text route = true) (other : String)
    (differ : routesDiffer route.toList other.toList = true) :
    startsWith runtime text other = false :=
  runtime.one_route text route.toList other.toList differ found

/-- `Replace("u0027", "'")`. -/
def restoreApostrophes (text : Text) : Text := replace "u0027".toList ['\''] text

section
variable (runtime : Runtime)

namespace Server

def keyResponse (key : Int32) : Text :=
  textOfParts ["\x7b\n\t\"key\": ".toList, intText key.toInt, "\n\x7d".toList]

def imageKey : Action Text := do
  ImageManager.instance runtime
  let emptyKey ← ImageManager.getEmptyKey runtime
  modify (ImageManager.enter emptyKey)
  return keyResponse emptyKey

/-- The break stands after the row has been added: 22 rows at most. -/
def maxRecommended : Nat := 22

def recommendText (list : List SharedSchedule) : Except Failure Text :=
  (listDocument SharedSchedule.document list).map (serialize runtime.unicodeAll .compact)

def recommend : Action Text := do
  let query := "SELECT * FROM SHAREDSCHEDULE order by rand();".toList
  let counted ← DBManager.select runtime query
  let _ ← lift counted.first
  let data ← DBManager.select runtime query
  let rows ← lift data.first
  let list ← lift ((rows.take maxRecommended).mapM
    (convertDataRowToSharedSchedule runtime.newtonsoft))
  lift (recommendText runtime list)

def waypointsQuery (keyword : Text) : Text :=
  textOfParts ["SELECT * FROM WAYPOINT WHERE NAME LIKE '%".toList, keyword, "%'".toList]

def waypointsText (list : List Waypoint) : Except Failure Text :=
  (listDocument Waypoint.document list).map (serialize runtime.unicodeAll .compact)

/-- An exception is caught and leaves the response empty. -/
def waypoints (keyword : Option Text) : Action Text := do
  let keyword := (keyword.map runtime.urlDecode).getD []
  tryCatch (do
      let data ← DBManager.select runtime (waypointsQuery keyword)
      let rows ← lift data.first
      let list ← lift (rows.mapM (convertDataRowToWaypoint runtime.newtonsoft))
      lift (waypointsText runtime list))
    fun _ => return []

def clientGet (request : Request) : Action Text := do
  let responseString ←
    if startsWith runtime request.rawUrl "/image" then imageKey runtime
    else if startsWith runtime request.rawUrl "/recommend" then recommend runtime
    else if startsWith runtime request.rawUrl "/waypoints" then waypoints runtime request.keyword
    else return "unknownUrlAccess".toList
  return restoreApostrophes responseString

def trimQuotes (text : Text) : Text := Json.trim (· == '"') text

/-- The object a body holds, wrapped or not; the empty object when it cannot be parsed. -/
def parseBody (body : Text) : Members :=
  let body := restoreApostrophes body
  let parsed := do
    if startsWith runtime body "\x7b\"body\"" then
      let outer ← parseObject runtime.newtonsoft body
      let inner ← orElse toText [] (← attrValue runtime.newtonsoft outer "body")
      parseObject runtime.newtonsoft (trimQuotes inner)
    else parseObject runtime.newtonsoft body
  match parsed with
  | .ok json => json
  | .error _ => []

def clientPost (request : Request) : Action Unit := do
  let json := parseBody runtime request.body
  if startsWith runtime request.rawUrl "/users" then
    let client ← lift (readClient runtime.newtonsoft json)
    ClientManager.addClient runtime client
  else if startsWith runtime request.rawUrl "/schedule" then
    let schedule ← lift (readSchedule runtime.newtonsoft json)
    ScheduleManager.addSchedule runtime schedule
  else if startsWith runtime request.rawUrl "/sharedschedule" then
    attempt do
      let schedule ← lift (readSharedSchedule runtime.newtonsoft json)
      ScheduleManager.addSharedSchedule runtime schedule
  else if startsWith runtime request.rawUrl "/imageupload" then
    match ← lift (heldUpload runtime.newtonsoft json) with
    | some id =>
        ImageManager.instance runtime
        let id ← lift (uploadId runtime.newtonsoft id)
        ImageManager.imageAdded runtime id
    | none => return
  else return

/-- What is written to the socket, if anything. -/
def dataReceived (request : Request) : Action (Option Text) := do
  if request.method = "GET".toList then
    let response ← clientGet runtime request
    return some response
  else if request.method = "POST".toList then
    clientPost runtime request
    return none
  else return none

/-- The loop takes a request while it has not ended and the listener is open. -/
def handle (request : Request) (world : World) : World :=
  if world.listening && world.serving then
    match exec (dataReceived runtime request) world with
    | (.ok _, after) => after
    | (.error _, after) => { after with serving := false }
  else world

def serve : List Request → World → World
  | [], world => world
  | request :: requests, world => serve requests (handle runtime request world)

/-- The requests received one after another, whatever each of them ends with. -/
def receive : List Request → World → World
  | [], world => world
  | request :: requests, world => receive requests (exec (dataReceived runtime request) world).2

def response (request : Request) (world : World) : Option Text :=
  if world.listening && world.serving then
    match exec (dataReceived runtime request) world with
    | (.ok written, _) => written
    | (.error _, _) => none
  else none

def responses : List Request → World → List Text
  | [], _ => []
  | request :: requests, world =>
      (response runtime request world).toList ++
        responses requests (handle runtime request world)

/-- `httpListener = new HttpListener()`. -/
def makeListener (world : World) : World :=
  { world with httpListener := world.httpListener + 1 }

def serverInit : Action Unit := do
  let world ← get
  if world.listening then return
  else
    modify makeListener
    ScheduleManager.syncDBToDictionary runtime

def startServer : Action Unit :=
  modify fun world =>
    if world.listening then world else { world with listening := true, serving := true }

def stopServer : Action Unit :=
  modify fun world =>
    if world.listening then { world with listening := false, serving := false } else world

/-- The console command `start`. -/
def start : Action Unit := do
  serverInit runtime
  startServer

end Server
end
end TfuServer
