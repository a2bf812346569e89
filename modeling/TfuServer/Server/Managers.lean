import TfuServer.Server.Decode

/-!
# The managers

What the program does with the images, the users and the schedules: it keeps
each in a dictionary and in a table, and writes the tables with statements put
together from the fields of a record.
-/

namespace TfuServer

set_option autoImplicit false

open Numeral Program
open Json (serialize)
open Sql (Cell DataRow)

section
variable (runtime : Runtime)

def textOfParts (parts : List Text) : Text := parts.flatten

namespace ImageManager

def imageName (id : Int32) : Text := intText id.toInt ++ ".jpg".toList

def usedQuery : Text := "select * from S3 where status = 1;".toList

def freeQuery : Text := "select * from S3 where status = 0;".toList

def rowQuery (id : Int32) : Text :=
  textOfParts ["select * from S3 where id = ".toList, intText id.toInt, ";".toList]

def updateText (id : Int32) : Text :=
  textOfParts ["Update S3 SET status = 1 where id = ".toList, intText id.toInt, ";".toList]

def insertText (id : Int32) : Text :=
  textOfParts ["Insert into S3 values(".toList, intText id.toInt, ", 1);".toList]

def loadRows (dictionary : Dictionary Int32 Text) :
    List DataRow → Except Failure (Dictionary Int32 Text)
  | [] => .ok dictionary
  | row :: rows => do
      let status ← itemAt row 1
      if status = .text "1".toList then
        let id ← castInt (← itemAt row 0)
        loadRows (dictionary.set id (imageName id)) rows
      else loadRows dictionary rows

def syncStorageToDictionary : Action (Dictionary Int32 Text) := do
  let data ← DBManager.select runtime usedQuery
  lift (do loadRows (fun _ => none) (← data.first))

/-- `instance = new ImageManager()`, with the dictionary of its constructor. -/
def build (dictionary : Dictionary Int32 Text) (world : World) : World :=
  { world with imageManager := some (Manager.build world.imageManager dictionary) }

/-- The getter of `Instance`: the manager is built when it is first asked for. -/
def «instance» : Action Unit := do
  let world ← get
  match world.imageManager with
  | some _ => return
  | none =>
      let dictionary ← syncStorageToDictionary runtime
      modify (build dictionary)

/-- `imageDictionary[id] = id + ".jpg"`. -/
def enter (id : Int32) (world : World) : World :=
  { world with imageManager := world.imageManager.map (Manager.enter id (imageName id)) }

/-- An entry into the dictionary of the manager with this number; the entries of a manager
that another one has replaced are not read again. -/
def enterAt (number : Nat) (id : Int32) (world : World) : World :=
  if world.imageManager.map Manager.number = some number then enter id world else world

def imageAdded (id : Int32) : Action Unit := do
  modify (enter id)
  let data ← DBManager.select runtime (rowQuery id)
  let rows ← lift data.first
  if rows.length > 0 then DBManager.executeQuery runtime (updateText id)
  else DBManager.executeQuery runtime (insertText id)

/-- The id of the first free row. -/
def firstFree : List DataRow → Except Failure (Option Int32)
  | [] => .ok none
  | row :: rows => do
      let status ← itemAt row 1
      if status = .text "0".toList then
        let id ← castInt (← itemAt row 0)
        return some id
      else firstFree rows

def getEmptyKey : Action Int32 := do
  let free ← DBManager.select runtime freeQuery
  match ← lift (do firstFree (← free.first)) with
  | some id =>
      imageAdded runtime id
      return id
  | none =>
      let used ← DBManager.select runtime usedQuery
      let rows ← lift used.first
      let id := Int32.ofNat rows.length
      imageAdded runtime id
      return id

end ImageManager

namespace ClientManager

def rowQuery (uid : Int64) : Text :=
  textOfParts ["select * from USER where uid = ".toList, intText uid.toInt, ";".toList]

def updateText (clt : Client) : Text :=
  textOfParts ["Update USER SET name = '".toList, clt.name, "', profileUrl = '".toList,
    clt.profileUrl, "' WHERE uid = ".toList, intText clt.uid.toInt, ";".toList]

def insertText (clt : Client) : Text :=
  textOfParts ["Insert into USER values(".toList, intText clt.uid.toInt, ", '".toList, clt.name,
    "', '".toList, clt.profileUrl, "');".toList]

/-- `instance = new ClientManager()`. -/
def build (world : World) : World :=
  { world with clientManager := some (Manager.build world.clientManager fun _ => none) }

def ready (world : World) : World :=
  match world.clientManager with
  | some _ => world
  | none => build world

/-- The getter of `Instance`. -/
def «instance» : Action Unit := modify ready

/-- `clientDictionary[clt.uid] = clt`. -/
def enter (clt : Client) (world : World) : World :=
  { world with clientManager := world.clientManager.map (Manager.enter clt.uid clt) }

def enterAt (number : Nat) (clt : Client) (world : World) : World :=
  if world.clientManager.map Manager.number = some number then enter clt world else world

/-- `ClientManager.Instance.addClient(clt)`. -/
def addClient (clt : Client) : Action Unit := do
  ClientManager.instance
  modify (enter clt)
  let data ← DBManager.select runtime (rowQuery clt.uid)
  let rows ← lift data.first
  if rows.length > 0 then DBManager.executeQuery runtime (updateText clt)
  else DBManager.executeQuery runtime (insertText clt)

end ClientManager

namespace ScheduleManager

def enter (sch : Schedule) (world : World) : World :=
  { world with scheduleDic := world.scheduleDic.set sch.id sch }

def enterShared (sch : SharedSchedule) (world : World) : World :=
  { world with sharedScheduleDic := world.sharedScheduleDic.set sch.scheduleId sch }

def loadRows : List DataRow → Action Unit
  | [] => return
  | row :: rows => do
      let sch ← lift (scheduleOfRow runtime.newtonsoft row)
      modify (enter sch)
      loadRows rows

/-- The dictionary is emptied before the table is asked for. -/
def syncDBToDictionary : Action Unit := do
  modify fun world => { world with scheduleDic := fun _ => none }
  let data ← DBManager.select runtime "SELECT * FROM SCHEDULE;".toList
  match data with
  | rows :: _ => loadRows runtime rows
  | [] => return

def boolText (value : Bool) : Text := (if value then "True" else "False").toList

def rowQuery (id : Int32) : Text :=
  textOfParts ["SELECT * FROM SCHEDULE WHERE id = ".toList, intText id.toInt, ";".toList]

def insertText (sch : Schedule) (waypoints : Text) : Text :=
  textOfParts ["INSERT INTO SCHEDULE Values(".toList, intText sch.id.toInt, ", '".toList, sch.name,
    "', '".toList, sch.destination, "', ".toList, intText sch.days.toInt, ", '".toList,
    sch.startDate, "', '".toList, waypoints, "', ".toList, intText sch.memberGroupId.toInt,
    ", ".toList, boolText sch.isShared, ");".toList]

def updateText (sch : Schedule) (waypoints : Text) : Text :=
  textOfParts ["UPDATE SCHEDULE SET ".toList, "name = '".toList, sch.name,
    "', destination = '".toList, sch.destination, "', days = ".toList, intText sch.days.toInt,
    ", startDate = '".toList, sch.startDate, "', waypoints = '".toList, waypoints,
    "', memberGroupId = ".toList, intText sch.memberGroupId.toInt, ", isShared = ".toList,
    boolText sch.isShared, " WHERE id = ".toList, intText sch.id.toInt, ";".toList]

/-- `Select(query).Tables.Count > 0 && Select(query).Tables[0].Rows.Count < 1`, the
same query sent twice. -/
def isNew (query : Text) : Action Bool := do
  let data ← DBManager.select runtime query
  if data.length > 0 then
    let again ← DBManager.select runtime query
    let rows ← lift again.first
    return rows.length < 1
  else return false

def addSchedule (sch : Schedule) : Action Unit := do
  let new ← isNew runtime (rowQuery sch.id)
  if new then
    modify (enter sch)
    let document ← lift (listDocument Waypoint.document sch.waypoints)
    DBManager.executeQuery runtime
      (insertText sch (serialize runtime.unicodeAll .compact document))
  else
    modify (enter sch)
    let document ← lift (listDocument Waypoint.document sch.waypoints)
    DBManager.executeQuery runtime
      (updateText sch (serialize .default .compact document))

def sharedRowQuery (scheduleId : Int32) : Text :=
  textOfParts ["SELECT * FROM SHAREDSCHEDULE WHERE scheduleId = ".toList,
    intText scheduleId.toInt, ";".toList]

def insertSharedText (sch : SharedSchedule) (descriptions : Text) : Text :=
  textOfParts ["INSERT INTO SHAREDSCHEDULE Values(".toList, intText sch.scheduleId.toInt,
    ", ".toList, intText sch.ownerId.toInt, ", ".toList, sch.rating.text, ", ".toList,
    intText sch.likes.toInt, ", ".toList, intText sch.sharedCount.toInt, ", ".toList,
    intText sch.titleImgId.toInt, ", '".toList, sch.titleText, "', '".toList,
    sch.descriptionText, "', '".toList, descriptions, "');".toList]

def updateSharedText (sch : SharedSchedule) (descriptions : Text) : Text :=
  textOfParts ["UPDATE SHAREDSCHEDULE SET ".toList, "scheduleId = ".toList,
    intText sch.scheduleId.toInt, ", ownerId = ".toList, intText sch.ownerId.toInt,
    ", rating = ".toList, sch.rating.text, ", likes = ".toList, intText sch.likes.toInt,
    ", sharedCount = ".toList, intText sch.sharedCount.toInt, ", titleImgId = ".toList,
    intText sch.titleImgId.toInt, ", titleText = '".toList, sch.titleText,
    "', descriptionText = '".toList, sch.descriptionText, "', waypointDescription = '".toList,
    descriptions, "' WHERE scheduleId = ".toList, intText sch.scheduleId.toInt, ";".toList]

def descriptionsDocument (sch : SharedSchedule) : Document :=
  .arr (sch.descriptionList.map WaypointDescription.document)

def addSharedSchedule (sch : SharedSchedule) : Action Unit := do
  let new ← isNew runtime (sharedRowQuery sch.scheduleId)
  if new then
    modify (enterShared sch)
    DBManager.executeQuery runtime
      (insertSharedText sch (serialize runtime.unicodeAll .indented (descriptionsDocument sch)))
  else
    modify (enterShared sch)
    DBManager.executeQuery runtime
      (updateSharedText sch (serialize runtime.unicodeAll .compact (descriptionsDocument sch)))

end ScheduleManager

end
end TfuServer
