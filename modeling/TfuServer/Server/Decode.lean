import TfuServer.Server.DBManager

/-!
# Records from documents and rows

How a record is put together from the attributes of a JSON object or from the
cells of a row. An attribute that is absent or null gives its default; one of
the wrong type is an exception.
-/

namespace TfuServer

set_option autoImplicit false

open Numeral
open Json (Newtonsoft Held attrValue orElse toWhole toByte toText toDouble toSingle toBool
  parseObject parseArray parseToken)
open Sql (Cell DataRow)

theorem bind_ok_iff {Value Next : Type} (result : Except Failure Value)
    (next : Value → Except Failure Next) (value : Next) :
    (result >>= next) = .ok value ↔ ∃ first, result = .ok first ∧ next first = .ok value := by
  cases result with
  | error failure => simp [bind, Except.bind]
  | ok first => simp [bind, Except.bind]

theorem cast_int_iff (cell : Cell) (n : Int32) : castInt cell = .ok n ↔ cell = .int n := by
  cases cell <;> simp [castInt]

theorem cast_long_iff (cell : Cell) (n : Int64) :
    castLong cell = .ok n ↔ cell = .bigint n := by
  cases cell <;> simp [castLong]

theorem cast_text_iff (cell : Cell) (text : Text) :
    castText cell = .ok text ↔ cell = .text text := by
  cases cell <;> simp [castText]

theorem cast_date_iff (cell : Cell) (date : Sql.Date) :
    castDate cell = .ok date ↔ cell = .date date := by
  cases cell <;> simp [castDate]

theorem cast_bool_iff (cell : Cell) (value : Bool) :
    castBool cell = .ok value ↔ cell = .bool value := by
  cases cell <;> simp [castBool]

section
variable (library : Newtonsoft)

/-- `json[name] as JArray`. -/
def asArray (members : Members) (name : String) : Option (List Json) :=
  match Json.member members name.toList with
  | some (.arr items) => some items
  | _ => none

/-- The cast of a loop variable to `JObject`. -/
def asObject : Json → Except Failure Members
  | .obj members => .ok members
  | _ => .error .invalidCast

def itemInt (items : List Json) (index : Nat) : Except Failure Int32 :=
  match items[index]? with
  | some token => parseToken library token
  | none => .error .indexOutOfRange

/-- The first three image ids; zeros when there is no array. -/
def readImages (members : Members) (name : String) : Except Failure (Vector Int32 3) :=
  match asArray members name with
  | some items => do
      let first ← itemInt library items 0
      let second ← itemInt library items 1
      let third ← itemInt library items 2
      return #v[first, second, third]
  | none => .ok #v[0, 0, 0]

def readWaypoint (token : Json) : Except Failure Waypoint := do
  let obj ← asObject token
  let id ← attrValue library obj "id"
  let name ← attrValue library obj "name"
  let posX ← attrValue library obj "posX"
  let posY ← attrValue library obj "posY"
  let rating ← attrValue library obj "rating"
  let reviewCount ← attrValue library obj "reviewCount"
  let type ← attrValue library obj "type"
  let originLink ← attrValue library obj "originLink"
  let time ← attrValue library obj "time"
  return {
    id := ← orElse (toWhole library toInt32) 0 id
    name := ← orElse toText [] name
    posX := ← orElse (toDouble library) (.finite (.ofInt32 0)) posX
    posY := ← orElse (toDouble library) (.finite (.ofInt32 0)) posY
    rating := .ofInt32 (← orElse (toWhole library toByte) 0 rating)
    reviewCount := ← orElse (toWhole library toInt32) 0 reviewCount
    type := ← orElse (toWhole library toInt32) 0 type
    originLink := ← orElse toText [] originLink
    time := ← orElse (toWhole library toInt32) 0 time }

def readDescription (idName contentName imagesName : String) (token : Json) :
    Except Failure WaypointDescription := do
  let obj ← asObject token
  let id ← attrValue library obj idName
  let content ← attrValue library obj contentName
  return {
    waypointId := ← orElse (toWhole library toInt32) 0 id
    waypointImgId := ← readImages library obj imagesName
    waypointContent := ← orElse toText [] content }

/-- `/users`. -/
def readClient (json : Members) : Except Failure Client := do
  let uid ← attrValue library json "uid"
  let name ← attrValue library json "name"
  let profileUrl ← attrValue library json "profileUrl"
  return {
    uid := ← orElse (toWhole library toInt64) 0 uid
    name := ← orElse toText [] name
    profileUrl := ← orElse toText [] profileUrl }

/-- `/schedule`. -/
def readSchedule (json : Members) : Except Failure Schedule := do
  let id ← attrValue library json "id"
  let name ← attrValue library json "name"
  let destination ← attrValue library json "destination"
  let days ← attrValue library json "days"
  let startDate ← attrValue library json "startDate"
  let memberGroupId ← attrValue library json "memberGroupId"
  let isShared ← attrValue library json "isShared"
  return {
    id := ← orElse (toWhole library toInt32) 0 id
    name := ← orElse toText [] name
    destination := ← orElse toText "0".toList destination
    days := ← orElse (toWhole library toInt32) 0 days
    startDate := ← orElse toText "1900-00-00".toList startDate
    memberGroupId := ← orElse (toWhole library toInt32) 0 memberGroupId
    isShared := ← orElse toBool false isShared
    waypoints := ← ((asArray json "wayPointList").getD []).mapM (readWaypoint library) }

/-- `/sharedschedule`. -/
def readSharedSchedule (json : Members) : Except Failure SharedSchedule := do
  let scheduleId ← attrValue library json "scheduleId"
  let ownerId ← attrValue library json "ownerId"
  let rating ← attrValue library json "rating"
  let likes ← attrValue library json "likes"
  let sharedCount ← attrValue library json "sharedCount"
  let titleImgId ← attrValue library json "titleImgId"
  let titleText ← attrValue library json "titleText"
  let descriptionText ← attrValue library json "descriptionText"
  return {
    scheduleId := ← orElse (toWhole library toInt32) 0 scheduleId
    ownerId := ← orElse (toWhole library toInt64) 0 ownerId
    rating := ← orElse (toSingle library) (.finite (.ofInt32 0)) rating
    likes := ← orElse (toWhole library toInt32) 0 likes
    sharedCount := ← orElse (toWhole library toInt32) 0 sharedCount
    titleImgId := ← orElse (toWhole library toInt32) 0 titleImgId
    titleText := ← orElse toText [] titleText
    descriptionText := ← orElse toText [] descriptionText
    descriptionList := ← ((asArray json "descriptionList").getD []).mapM
      (readDescription library "waypointId" "waypointContent" "waypointImgId") }

/-- `/imageupload`: what there is for the id, when the result is a success. -/
def heldUpload (json : Members) : Except Failure (Option Held) := do
  let result ← match Json.member json "result".toList with
    | some token => Json.hold library token
    | none => .ok (.string "failure".toList)
  let id ← match Json.member json "id".toList with
    | some token => Json.hold library token
    | none => .ok (.long 0)
  if result.print = "success".toList then return some id else return none

def uploadId (id : Held) : Except Failure Int32 := orElse (toWhole library toInt32) 0 id

def scheduleOfRow (row : DataRow) : Except Failure Schedule := do
  let id ← castInt (← itemNamed row "id")
  let name ← castText (← itemNamed row "name")
  let destination ← castText (← itemNamed row "destination")
  let days ← castInt (← itemNamed row "days")
  let startDate ← castDate (← itemNamed row "startDate")
  let memberGroupId ← castInt (← itemNamed row "memberGroupId")
  let isShared ← castBool (← itemNamed row "isShared")
  let jarr ← parseArray library (← castText (← itemNamed row "waypoints"))
  let waypoints ← jarr.mapM (readWaypoint library)
  return {
    id, name, destination, days, memberGroupId, isShared, waypoints
    startDate := startDate.format }

/-- `SharedCount` is read from the column `likes`. -/
def convertDataRowToSharedSchedule (row : DataRow) : Except Failure SharedSchedule := do
  let scheduleId ← castInt (← itemNamed row "scheduleId")
  let ownerId ← castLong (← itemNamed row "ownerId")
  let rating ← match library.parseSingle (printCell (← itemNamed row "rating")) with
    | some rating => .ok rating
    | none => .error .format
  let likes ← castInt (← itemNamed row "likes")
  let sharedCount ← castInt (← itemNamed row "likes")
  let titleImgId ← castInt (← itemNamed row "titleImgId")
  let titleText ← castText (← itemNamed row "titleText")
  let descriptionText ← castText (← itemNamed row "descriptionText")
  let jarr ← parseArray library (← castText (← itemNamed row "waypointDescription"))
  let descriptionList ← jarr.mapM
    (readDescription library "WaypointId" "WaypointContent" "WaypointImgId")
  return {
    scheduleId, ownerId, rating, likes, sharedCount, titleImgId, titleText, descriptionText,
    descriptionList }

def parseCell (cell : Cell) : Except Failure Floating :=
  match library.parseDouble (printCell cell) with
  | some value => .ok value
  | none => .error .format

/-- The time is not taken from the row. -/
def convertDataRowToWaypoint (row : DataRow) : Except Failure Waypoint := do
  return {
    id := ← castInt (← itemNamed row "id")
    name := ← castText (← itemNamed row "name")
    posX := ← parseCell library (← itemNamed row "posX")
    posY := ← parseCell library (← itemNamed row "posY")
    rating := ← castDecimal (← itemNamed row "rating")
    reviewCount := ← castInt (← itemNamed row "reviewCount")
    type := ← castInt (← itemNamed row "type")
    originLink := ← castText (← itemNamed row "originLink")
    time := 0 }

end
end TfuServer
