import TfuServer.Json.Value
import TfuServer.Sql.Table

/-!
# Records

The classes the server passes around, the documents `JsonSerializer` makes of
them, and the tables they are stored in. A double or a decimal is kept as the
numeral it prints with.
-/

namespace TfuServer

set_option autoImplicit false

open Numeral
open Sql (Column Catalog Database DataRow)

structure Client where
  uid : Int64
  name : Text
  profileUrl : Text
  deriving DecidableEq

structure Waypoint where
  id : Int32
  name : Text
  posX : Floating
  posY : Floating
  rating : PrintedNumber
  reviewCount : Int32
  type : Int32
  originLink : Text
  time : Int32
  deriving DecidableEq

structure Schedule where
  id : Int32
  name : Text
  destination : Text
  days : Int32
  startDate : Text
  waypoints : List Waypoint
  memberGroupId : Int32
  isShared : Bool
  deriving DecidableEq

structure WaypointDescription where
  waypointId : Int32
  waypointImgId : Vector Int32 3
  waypointContent : Text
  deriving DecidableEq

/-- `TitleText` and `DescriptionText` are declared nullable; nothing sets them to null. -/
structure SharedSchedule where
  scheduleId : Int32
  ownerId : Int64
  rating : Floating
  likes : Int32
  sharedCount : Int32
  titleImgId : Int32
  titleText : Text
  descriptionText : Text
  descriptionList : List WaypointDescription
  deriving DecidableEq

def wholeDocument (n : Int) : Document := .number (.ofInt n)

/-- A double that is not finite cannot be written. -/
def floatingDocument : Floating → Except Failure Document
  | .finite number => .ok (.number number.toJsonNumber)
  | .nonFinite _ => .error .argument

def member (name : String) (value : Document) : Text × Document := (name.toList, value)

def Waypoint.document (waypoint : Waypoint) : Except Failure Document := do
  let posX ← floatingDocument waypoint.posX
  let posY ← floatingDocument waypoint.posY
  return .obj [
    member "ID" (wholeDocument waypoint.id.toInt),
    member "Name" (.str waypoint.name),
    member "PosX" posX,
    member "PosY" posY,
    member "Rating" (.number waypoint.rating.toJsonNumber),
    member "ReviewCount" (wholeDocument waypoint.reviewCount.toInt),
    member "Type" (wholeDocument waypoint.type.toInt),
    member "OriginLink" (.str waypoint.originLink),
    member "Time" (wholeDocument waypoint.time.toInt)]

def WaypointDescription.document (description : WaypointDescription) : Document :=
  .obj [
    member "WaypointId" (wholeDocument description.waypointId.toInt),
    member "WaypointImgId"
      (.arr (description.waypointImgId.toList.map fun id => wholeDocument id.toInt)),
    member "WaypointContent" (.str description.waypointContent)]

def SharedSchedule.document (sch : SharedSchedule) : Except Failure Document := do
  let rating ← floatingDocument sch.rating
  return .obj [
    member "ScheduleId" (wholeDocument sch.scheduleId.toInt),
    member "OwnerId" (wholeDocument sch.ownerId.toInt),
    member "Rating" rating,
    member "Likes" (wholeDocument sch.likes.toInt),
    member "SharedCount" (wholeDocument sch.sharedCount.toInt),
    member "TitleImgId" (wholeDocument sch.titleImgId.toInt),
    member "TitleText" (.str sch.titleText),
    member "DescriptionText" (.str sch.descriptionText),
    member "DescriptionList" (.arr (sch.descriptionList.map WaypointDescription.document))]

def listDocument {Value : Type} (document : Value → Except Failure Document)
    (values : List Value) : Except Failure Document :=
  (values.mapM document).map .arr

theorem list_document_cons {Value : Type} (document : Value → Except Failure Document)
    (value : Value) (values : List Value) :
    listDocument document (value :: values) =
      match document value, values.mapM document with
      | .ok first, .ok rest => .ok (.arr (first :: rest))
      | .ok _, .error failure => .error failure
      | .error failure, _ => .error failure := by
  simp only [listDocument, List.mapM_cons]
  cases document value with
  | error failure => rfl
  | ok first => cases values.mapM document <;> rfl

theorem list_document_iff {Value : Type} (document : Value → Except Failure Document)
    (values : List Value) (whole : Document) :
    listDocument document values = .ok whole ↔
      ∃ items, whole = .arr items ∧
        List.Forall₂ (fun value item => document value = .ok item) values items := by
  induction values generalizing whole with
  | nil =>
      constructor
      · intro written
        cases written
        exact ⟨[], rfl, .nil⟩
      · rintro ⟨items, rfl, each⟩
        cases each
        rfl
  | cons value values ih =>
      rw [list_document_cons]
      constructor
      · intro written
        cases first : document value with
        | error failure => simp [first] at written
        | ok item =>
            cases rest : values.mapM document with
            | error failure => simp [first, rest] at written
            | ok items =>
                simp only [first, rest, Except.ok.injEq] at written
                obtain ⟨others, same, each⟩ :=
                  (ih (.arr items)).mp (by simp [listDocument, rest, Except.map])
                cases same
                exact ⟨item :: items, written.symm, .cons first each⟩
      · rintro ⟨items, rfl, each⟩
        cases each with
        | cons first rest =>
            have tail := (ih _).mpr ⟨_, rfl, rest⟩
            simp only [listDocument] at tail
            rw [first]
            cases others : values.mapM document with
            | error failure => simp [others, Except.map] at tail
            | ok items => simpa [others, Except.map] using tail

theorem list_items_shape {Value : Type} (dialect : Json.Dialect)
    (document : Value → Except Failure Document) (texts : Value → List Text)
    (shape : ∀ value item, document value = .ok item →
      Json.isStr item = false ∧ Json.readable dialect 1 item = true ∧
        Json.strings item = texts value)
    (values : List Value) (items : List Document)
    (each : List.Forall₂ (fun value item => document value = .ok item) values items) :
    Json.readableItems dialect 1 items = true ∧
      Json.itemStrings items = values.flatMap texts := by
  induction each with
  | nil => exact ⟨rfl, rfl⟩
  | @cons value item values items written rest ih =>
      obtain ⟨notStr, readable, strings⟩ := shape value item written
      constructor
      · simp [Json.readableItems, notStr, readable, ih.1]
      · rw [Json.itemStrings, strings, ih.2, List.flatMap_cons]

theorem list_written_iff {Value : Type} (document : Value → Except Failure Document)
    (finite : Value → Bool)
    (written_iff : ∀ value, (∃ item, document value = .ok item) ↔ finite value = true)
    (values : List Value) :
    (∃ whole, listDocument document values = .ok whole) ↔
      ∀ value ∈ values, finite value = true := by
  induction values with
  | nil => exact ⟨fun _ => by simp, fun _ => ⟨.arr [], rfl⟩⟩
  | cons value values ih =>
      rw [List.forall_mem_cons, ← ih, ← written_iff]
      constructor
      · rintro ⟨whole, written⟩
        obtain ⟨items, -, each⟩ := (list_document_iff _ _ _).mp written
        cases each with
        | cons first rest =>
            exact ⟨⟨_, first⟩, _, (list_document_iff _ _ _).mpr ⟨_, rfl, rest⟩⟩
      · rintro ⟨⟨item, first⟩, whole, written⟩
        obtain ⟨items, -, rest⟩ := (list_document_iff _ _ _).mp written
        exact ⟨_, (list_document_iff _ _ _).mpr ⟨_, rfl, .cons first rest⟩⟩

def Waypoint.isFinite (waypoint : Waypoint) : Bool :=
  waypoint.posX.isFinite && waypoint.posY.isFinite

def Waypoint.texts (waypoint : Waypoint) : List Text := [waypoint.name, waypoint.originLink]

def SharedSchedule.texts (sch : SharedSchedule) : List Text :=
  sch.titleText :: sch.descriptionText ::
    sch.descriptionList.map WaypointDescription.waypointContent

theorem waypoint_document_iff (waypoint : Waypoint) :
    (∃ document, waypoint.document = .ok document) ↔ waypoint.isFinite = true := by
  cases posX : waypoint.posX <;> cases posY : waypoint.posY <;>
    simp [Waypoint.document, Waypoint.isFinite, posX, posY, floatingDocument, Floating.isFinite,
      bind, Except.bind, pure, Except.pure]

theorem shared_document_iff (sch : SharedSchedule) :
    (∃ document, sch.document = .ok document) ↔ sch.rating.isFinite = true := by
  cases rating : sch.rating <;>
    simp [SharedSchedule.document, rating, floatingDocument, Floating.isFinite, bind, Except.bind,
      pure, Except.pure]

theorem printed_number_allowed (dialect : Json.Dialect) (number : PrintedNumber) :
    Json.numberAllowed dialect number.text = true := by
  cases dialect with
  | rfc8259 => rfl
  | newtonsoft =>
      have within : number.text.length ≤ Json.maxIntegerLength :=
        Nat.le_trans number.short (by decide)
      simp only [Json.numberAllowed, Bool.or_eq_true, decide_eq_true_eq]
      exact Or.inl within

theorem int32_allowed (dialect : Json.Dialect) (level : Nat) (n : Int32) :
    Json.readable dialect level (wholeDocument n.toInt) = true :=
  printed_number_allowed dialect (.ofInt32 n)

theorem int64_allowed (dialect : Json.Dialect) (level : Nat) (n : Int64) :
    Json.readable dialect level (wholeDocument n.toInt) = true :=
  printed_number_allowed dialect (.ofInt64 n)

theorem whole_strings (n : Int) : Json.strings (wholeDocument n) = [] := rfl

theorem floating_allowed (dialect : Json.Dialect) (level : Nat) (value : Floating)
    (document : Document) (written : floatingDocument value = .ok document) :
    Json.readable dialect level document = true ∧ Json.strings document = [] := by
  cases value with
  | finite number =>
      cases written
      exact ⟨printed_number_allowed dialect number, rfl⟩
  | nonFinite kind => cases written

theorem images_document (dialect : Json.Dialect) (level : Nat) (images : List Int32) :
    Json.readableItems dialect level (images.map fun id => wholeDocument id.toInt) = true ∧
      Json.itemStrings (images.map fun id => wholeDocument id.toInt) = [] := by
  induction images with
  | nil => exact ⟨rfl, rfl⟩
  | cons id images ih =>
      constructor
      · rw [List.map_cons, Json.readableItems, int32_allowed, ih.1]
        rfl
      · rw [List.map_cons, Json.itemStrings, ih.2]
        rfl

theorem depth_allowed (dialect : Json.Dialect) (level : Nat) (shallow : level < Json.maxDepth) :
    Json.depthAllowed dialect level = true := by
  cases dialect with
  | rfc8259 => rfl
  | newtonsoft => exact decide_eq_true shallow

theorem descriptions_document (dialect : Json.Dialect) (level : Nat)
    (shallow : level + 1 < Json.maxDepth) (descriptions : List WaypointDescription) :
    Json.readableItems dialect level (descriptions.map WaypointDescription.document) = true ∧
      Json.itemStrings (descriptions.map WaypointDescription.document) =
        descriptions.map WaypointDescription.waypointContent := by
  induction descriptions with
  | nil => exact ⟨rfl, rfl⟩
  | cons description descriptions ih =>
      obtain ⟨imagesReadable, imagesStrings⟩ :=
        images_document dialect (level + 1 + 1) description.waypointImgId.toList
      constructor
      · simp only [List.map_cons, Json.readableItems, ih.1, WaypointDescription.document, member,
          Json.readable, Json.readableMembers, imagesReadable, int32_allowed,
          depth_allowed dialect level (by omega), depth_allowed dialect (level + 1) shallow]
        rfl
      · simp only [List.map_cons, Json.itemStrings, ih.2, WaypointDescription.document, member,
          Json.strings, Json.memberStrings, imagesStrings, whole_strings]
        rfl

theorem shared_document_shape (dialect : Json.Dialect) (sch : SharedSchedule)
    (document : Document) (written : sch.document = .ok document) :
    Json.isStr document = false ∧ Json.readable dialect 1 document = true ∧
      Json.strings document = sch.texts := by
  obtain ⟨descriptionsReadable, descriptionsStrings⟩ :=
    descriptions_document dialect 3 (by decide) sch.descriptionList
  cases rating : floatingDocument sch.rating with
  | error failure =>
      simp [SharedSchedule.document, rating, bind, Except.bind] at written
  | ok number =>
      obtain ⟨ratingReadable, ratingStrings⟩ := floating_allowed dialect 2 _ _ rating
      simp only [SharedSchedule.document, rating, bind, Except.bind, pure, Except.pure,
        Except.ok.injEq] at written
      subst written
      refine ⟨rfl, ?_, ?_⟩
      · simp only [member, Json.readable, Json.readableMembers, int32_allowed, int64_allowed,
          ratingReadable, descriptionsReadable, depth_allowed dialect 1 (by decide),
          depth_allowed dialect 2 (by decide)]
        rfl
      · simp only [member, Json.strings, Json.memberStrings, ratingStrings, descriptionsStrings,
          whole_strings]
        simp [SharedSchedule.texts]

theorem waypoint_document_shape (dialect : Json.Dialect) (waypoint : Waypoint)
    (document : Document) (written : waypoint.document = .ok document) :
    Json.isStr document = false ∧ Json.readable dialect 1 document = true ∧
      Json.strings document = waypoint.texts := by
  cases posX : floatingDocument waypoint.posX with
  | error failure => simp [Waypoint.document, posX, bind, Except.bind] at written
  | ok xNumber =>
      cases posY : floatingDocument waypoint.posY with
      | error failure => simp [Waypoint.document, posX, posY, bind, Except.bind] at written
      | ok yNumber =>
          obtain ⟨xReadable, xStrings⟩ := floating_allowed dialect 2 _ _ posX
          obtain ⟨yReadable, yStrings⟩ := floating_allowed dialect 2 _ _ posY
          have ratingReadable : Json.readable dialect 2
              (.number waypoint.rating.toJsonNumber) = true :=
            printed_number_allowed dialect waypoint.rating
          simp only [Waypoint.document, posX, posY, bind, Except.bind, pure, Except.pure,
            Except.ok.injEq] at written
          subst written
          refine ⟨rfl, ?_, ?_⟩
          · simp only [member, Json.readable.eq_4, Json.readableMembers, int32_allowed, xReadable,
              yReadable, ratingReadable, depth_allowed dialect 1 (by decide), Json.readable.eq_2]
            rfl
          · simp only [member, Json.strings, Json.memberStrings, xStrings, yStrings, whole_strings]
            rfl

inductive TableName where
  | user | schedule | sharedSchedule | s3 | waypoint
  deriving DecidableEq, Repr

def column (name : String) (type : Sql.ColumnType) : Column := ⟨name.toList, type⟩

def TableName.columns : TableName → List Column
  | .user => [column "uid" .bigint, column "name" .text, column "profileUrl" .text]
  | .schedule => [
      column "id" .int, column "name" .text, column "destination" .text, column "days" .int,
      column "startDate" .date, column "waypoints" .text, column "memberGroupId" .int,
      column "isShared" .bool]
  | .sharedSchedule => [
      column "scheduleId" .int, column "ownerId" .bigint, column "rating" .real,
      column "likes" .int, column "sharedCount" .int, column "titleImgId" .int,
      column "titleText" .text, column "descriptionText" .text,
      column "waypointDescription" .text]
  | .s3 => [column "id" .int, column "status" .text]
  | .waypoint => [
      column "id" .int, column "name" .text, column "posX" .real, column "posY" .real,
      column "rating" .decimal, column "reviewCount" .int, column "type" .int,
      column "originLink" .text, column "time" .int]

def findTable (name : Text) : Option TableName :=
  if name = "USER".toList then some .user
  else if name = "SCHEDULE".toList then some .schedule
  else if name = "SHAREDSCHEDULE".toList then some .sharedSchedule
  else if name = "S3".toList then some .s3
  else if name = "WAYPOINT".toList then some .waypoint
  else none

def TableName.title : TableName → Text
  | .user => "USER".toList
  | .schedule => "SCHEDULE".toList
  | .sharedSchedule => "SHAREDSCHEDULE".toList
  | .s3 => "S3".toList
  | .waypoint => "WAYPOINT".toList

theorem find_title (name : TableName) : findTable name.title = some name := by
  cases name <;> rfl

/-- The tables, their columns in the order of the inserts. -/
abbrev schema : Catalog := ⟨TableName, inferInstance, findTable, TableName.columns⟩

abbrev Tables := Database schema

end TfuServer
