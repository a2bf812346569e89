import Mathlib.Tactic.Linarith
import TfuServer.Server.Accepted
import TfuServer.Server.Documents
import TfuServer.Server.Images
import TfuServer.Server.Reload
import TfuServer.Server.Upserts

/-!
# Lists as they are posted

The lists inside a body are decoded element by element. A description needs three
image ids if it has an array of them at all; a rating is decoded as a byte.
-/

namespace TfuServer

set_option autoImplicit false

open Numeral Program
open Json (Newtonsoft Held attrValue orElse toWhole toByte toText toSingle hold holdNumber)

section
variable {Item Value : Type} {read : Json → Except Failure Value} {posts : Item → Json → Prop}

theorem map_ok_cons (read : Json → Except Failure Value) (token : Json) (tokens : List Json)
    (value : Value) (values : List Value) :
    (token :: tokens).mapM read = .ok (value :: values) ↔
      read token = .ok value ∧ tokens.mapM read = .ok values := by
  rw [List.mapM_cons]
  cases read token with
  | error failure => simp [bind, Except.bind]
  | ok first => cases tokens.mapM read <;> simp [bind, Except.bind, pure, Except.pure]

/-- A list is decoded to what its elements stand for exactly when each of them is. -/
theorem map_back_iff {items : List Item} {tokens : List Json}
    (each : List.Forall₂ posts items tokens) (back : Item → Value) (meets : Item → Prop)
    (one : ∀ item token, posts item token → (read token = .ok (back item) ↔ meets item)) :
    tokens.mapM read = .ok (items.map back) ↔ ∀ item ∈ items, meets item := by
  induction each with
  | nil => simp [pure, Except.pure]
  | cons head rest ih =>
      rw [List.map_cons, map_ok_cons, ih, one _ _ head, List.forall_mem_cons]

theorem map_related_iff {items : List Item} {tokens : List Json}
    (each : List.Forall₂ posts items tokens) (same : Value → Item → Prop) (meets : Item → Prop)
    (one : ∀ item token, posts item token →
      ∃ value, read token = .ok value ∧ (same value item ↔ meets item)) :
    ∃ values, tokens.mapM read = .ok values ∧
      (List.Forall₂ same values items ↔ ∀ item ∈ items, meets item) := by
  induction each with
  | nil => exact ⟨[], rfl, by simp⟩
  | cons head rest ih =>
      obtain ⟨value, first, agrees⟩ := one _ _ head
      obtain ⟨values, others, all⟩ := ih
      refine ⟨value :: values, (map_ok_cons read _ _ value values).mpr ⟨first, others⟩, ?_⟩
      rw [List.forall₂_cons, List.forall_mem_cons, agrees, all]

end

/-- A description as a client writes it, with any number of image ids or none. -/
structure PostedDescription where
  waypointId : Int32
  waypointContent : Text
  waypointImgId : Option (List Int32)

namespace PostedDescription

/-- The description without loss: the first three ids, zero where one is missing. -/
def kept (posted : PostedDescription) : WaypointDescription where
  waypointId := posted.waypointId
  waypointImgId :=
    let ids := posted.waypointImgId.getD []
    #v[ids[0]?.getD 0, ids[1]?.getD 0, ids[2]?.getD 0]
  waypointContent := posted.waypointContent

/-- The token has the fields of the description under their names. -/
def Posts (posted : PostedDescription) (token : Json) : Prop :=
  ∃ obj, token = .obj obj ∧
    Json.member obj "waypointId".toList = some (.number (.ofInt posted.waypointId.toInt)) ∧
    Json.member obj "waypointContent".toList = some (.str posted.waypointContent) ∧
    Json.member obj "waypointImgId".toList =
      posted.waypointImgId.map fun ids => .arr (ids.map fun id => .number (.ofInt id.toInt))

def filled (posted : PostedDescription) : Bool :=
  (posted.waypointImgId.map fun ids => decide (3 ≤ ids.length)).getD true

end PostedDescription

section
variable (library : Newtonsoft)

theorem held_text_iff (text : Text) :
    heldText library text = text ↔ library.dateText text = none := by
  unfold heldText
  cases taken : library.dateText text with
  | none => simp
  | some printed =>
      obtain ⟨marked, letter, slash⟩ := library.date_text_shape text printed taken
      simp only [Option.getD_some, reduceCtorEq, iff_false]
      rintro rfl
      exact marked.elim letter slash

theorem read_posted_images (posted : PostedDescription) (obj : Members)
    (found : Json.member obj "waypointImgId".toList =
      posted.waypointImgId.map fun ids => .arr (ids.map fun id => .number (.ofInt id.toInt))) :
    readImages library obj "waypointImgId" =
      if posted.filled then .ok posted.kept.waypointImgId else .error .indexOutOfRange := by
  obtain ⟨id, content, images⟩ := posted
  simp only [readImages, asArray, found, PostedDescription.filled, PostedDescription.kept]
  cases images with
  | none => rfl
  | some ids =>
      have token (n : Int32) := parse_token_int32 library n
      rcases ids with _ | ⟨first, _ | ⟨second, _ | ⟨third, rest⟩⟩⟩
      · rfl
      · simp [itemInt, token, bind, Except.bind]
      · simp [itemInt, token, bind, Except.bind]
      · simp [itemInt, token, bind, Except.bind, pure, Except.pure]

theorem read_posted (posted : PostedDescription) (token : Json) (posts : posted.Posts token) :
    readDescription library "waypointId" "waypointContent" "waypointImgId" token =
      if posted.filled then
        .ok (posted.kept.withContent (heldText library posted.waypointContent))
      else .error .indexOutOfRange := by
  obtain ⟨obj, rfl, hasId, hasContent, hasImages⟩ := posts
  have id : attrValue library obj "waypointId" = .ok (.long posted.waypointId.toInt64) := by
    rw [attrValue, hasId]
    exact hold_int32 library posted.waypointId
  have content : attrValue library obj "waypointContent" =
      .ok (Json.holdString library posted.waypointContent) := by
    rw [attrValue, hasContent]
    rfl
  simp only [readDescription, asObject, bind, Except.bind, id, content, whole_of_int32,
    read_posted_images library posted obj hasImages, text_of_hold]
  cases posted.filled <;> rfl

theorem read_posted_iff (posted : PostedDescription) (token : Json) (posts : posted.Posts token) :
    readDescription library "waypointId" "waypointContent" "waypointImgId" token =
        .ok posted.kept ↔
      posted.filled = true ∧ library.dateText posted.waypointContent = none := by
  rw [read_posted library posted token posts, ← held_text_iff]
  split_ifs with filled
  · simp only [filled, true_and, Except.ok.injEq]
    constructor
    · exact fun same => congrArg WaypointDescription.waypointContent same
    · intro same
      rw [same]
      rfl
  · simp [filled]

def singleAccepts : Json → Bool
  | .number numeral => fitsLong (some (.number numeral))
  | .str text => (library.dateText text).isNone && (library.parseSingle text).isSome
  | .arr _ | .obj _ | .call => false
  | _ => true

/-- Every attribute besides the list has the type of its field, or converts to it. -/
def sharedAccepts (json : Members) : Bool :=
  attrAccepts (wholeAccepts library toInt32) json "scheduleId" &&
    attrAccepts (wholeAccepts library toInt64) json "ownerId" &&
    attrAccepts (singleAccepts library) json "rating" &&
    attrAccepts (wholeAccepts library toInt32) json "likes" &&
    attrAccepts (wholeAccepts library toInt32) json "sharedCount" &&
    attrAccepts (wholeAccepts library toInt32) json "titleImgId" &&
    attrAccepts textAccepts json "titleText" && attrAccepts textAccepts json "descriptionText"

theorem converts_single (obj : Members) (name : String) :
    Converts library (toSingle library) (.finite (.ofInt32 0)) (fun _ => True) obj name ↔
      attrAccepts (singleAccepts library) obj name = true := by
  apply converts_iff
  · exact ⟨_, rfl, trivial⟩
  intro token
  simp only [and_true]
  cases token with
  | number numeral =>
      simp only [hold, Except.ok.injEq, exists_eq_left', singleAccepts, fitsLong, holdNumber]
      cases readInt numeral.text with
      | none => simp [toSingle]
      | some n => cases narrow : toInt64 n <;> simp [narrow, toSingle]
  | str text =>
      rw [hold_string_iff library text _ (by simp [toSingle]), singleAccepts, Bool.and_eq_true]
      apply and_congr_right'
      simp only [toSingle]
      cases library.parseSingle text <;> simp
  | null | bool | nonFinite | arr | obj | call => simp [hold, toSingle, singleAccepts]

def postedId (json : Members) : Except Failure Int32 := do
  orElse (toWhole library toInt32) 0 (← attrValue library json "scheduleId")

theorem read_shared_list (json : Members) (accepts : sharedAccepts library json = true) :
    ∃ sch : SharedSchedule, postedId library json = .ok sch.scheduleId ∧
      readSharedSchedule library json =
        (((asArray json "descriptionList").getD []).mapM
          (readDescription library "waypointId" "waypointContent" "waypointImgId")).map
            fun descriptions => { sch with descriptionList := descriptions } := by
  have int (name : String) := converts_whole library toInt32 0 json name
  have long (name : String) := converts_whole library toInt64 0 json name
  have string (name : String) := converts_text library [] json name
  simp only [sharedAccepts, Bool.and_eq_true, ← int, ← long, ← string, ← converts_single] at accepts
  simp only [Converts, and_true] at accepts
  obtain ⟨⟨⟨⟨⟨⟨⟨⟨id, hasId, ownId, asId⟩, owner, hasOwner, ownOwner, asOwner⟩,
    rating, hasRating, ownRating, asRating⟩, likes, hasLikes, ownLikes, asLikes⟩,
    shared, hasShared, ownShared, asShared⟩, image, hasImage, ownImage, asImage⟩,
    title, hasTitle, ownTitle, asTitle⟩, text, hasText, ownText, asText⟩ := accepts
  refine ⟨⟨ownId, ownOwner, ownRating, ownLikes, ownShared, ownImage, ownTitle, ownText, []⟩,
    ?_, ?_⟩
  · simp only [postedId, bind, Except.bind, hasId, asId]
  · simp only [readSharedSchedule, bind, Except.bind, hasId, hasOwner, hasRating, hasLikes,
      hasShared, hasImage, hasTitle, hasText, asId, asOwner, asRating, asLikes, asShared, asImage,
      asTitle, asText]
    generalize List.mapM (readDescription library "waypointId" "waypointContent" "waypointImgId")
      ((asArray json "descriptionList").getD []) = read
    cases read <;> rfl

end

section
variable (runtime : Runtime)

/-- The record is in memory and one of its statements has been handed to the database. -/
def Added (sch : SharedSchedule) (before after : World) : Prop :=
  after.sharedScheduleDic sch.scheduleId = some sch ∧
    ∃ branch text calls, (Upload.shared sch).text runtime branch = .ok text ∧
      after.log = before.log ++ calls ++ [.executeQuery text]

theorem store_added (sch : SharedSchedule) (world : World)
    (quiet : NoFailure (ScheduleManager.addSharedSchedule runtime sch) world) :
    Added runtime sch world (exec (ScheduleManager.addSharedSchedule runtime sch) world).2 ∧
      ∀ other, (exec (ScheduleManager.addSharedSchedule runtime sch) world).2.sharedScheduleDic
        sch.scheduleId = some other → other = sch := by
  obtain ⟨text, calls, built, ran, later⟩ := Upload.shared_reaches runtime sch world quiet
  obtain ⟨data, tables, -, executed⟩ := no_failure_execute runtime text _ later
  have whole : exec (ScheduleManager.addSharedSchedule runtime sch) world = _ := ran.trans executed
  have entered : (exec (ScheduleManager.addSharedSchedule runtime sch) world).2.sharedScheduleDic
      sch.scheduleId = some sch := by
    rw [whole]
    exact Function.update_self _ _ _
  refine ⟨⟨entered, _, text, calls, built, ?_⟩, fun other found => ?_⟩
  · rw [whole]
    rfl
  · exact Option.some.inj (found.symm.trans entered)

def isSharedRequest (runtime : Runtime) (request : Request) : Bool :=
  request.method == "POST".toList && startsWith runtime request.rawUrl "/sharedschedule"

theorem shared_upload (request : Request) (shared : isSharedRequest runtime request = true) :
    isRecordRequest runtime request = true ∧
      uploadOf runtime request =
        (readSharedSchedule runtime.newtonsoft (Server.parseBody runtime request.body)).map
          fun sch => some (.shared sch) := by
  obtain ⟨method, route⟩ := Bool.and_eq_true_iff.mp shared
  have users := starts_with_one route "/users" (by decide)
  have schedule := starts_with_one route "/schedule" (by decide)
  have post : request.method = "POST".toList := eq_of_beq method
  constructor
  · simp only [isRecordRequest, method, route, Bool.or_true, Bool.and_self]
  · simp only [uploadOf, if_neg (not_not.mpr post), users, schedule, route, Bool.false_eq_true,
      if_false, if_true]

/-- A posted list whose elements are all decoded is added as a part of its schedule; a list
with one that is not is lost with its schedule. -/
theorem received_list (request : Request) (world : World)
    (shared : isSharedRequest runtime request = true)
    (accepts : sharedAccepts runtime.newtonsoft (Server.parseBody runtime request.body) = true)
    (quiet : NoFailure (Server.dataReceived runtime request) world)
    (descriptions : List WaypointDescription) :
    (∃ sch, postedId runtime.newtonsoft (Server.parseBody runtime request.body) =
        .ok sch.scheduleId ∧
      Added runtime sch world (exec (Server.dataReceived runtime request) world).2 ∧
      sch.descriptionList = descriptions) ↔
    ((asArray (Server.parseBody runtime request.body) "descriptionList").getD []).mapM
      (readDescription runtime.newtonsoft "waypointId" "waypointContent" "waypointImgId") =
        .ok descriptions := by
  obtain ⟨record, upload⟩ := shared_upload runtime request shared
  obtain ⟨sch, id, read⟩ := read_shared_list runtime.newtonsoft _ accepts
  rw [read] at upload
  cases decoded : ((asArray (Server.parseBody runtime request.body) "descriptionList").getD []).mapM
      (readDescription runtime.newtonsoft "waypointId" "waypointContent" "waypointImgId") with
  | error failure =>
      rw [decoded] at upload
      have absent : carried runtime request = none := by
        rw [carried, upload]
        rfl
      rw [received_undecoded runtime request world record absent]
      constructor
      · rintro ⟨other, -, ⟨-, branch, text, calls, -, grown⟩, -⟩
        have lengths := congrArg List.length grown
        simp only [List.length_append, List.length_singleton] at lengths
        omega
      · intro never
        cases never
  | ok list =>
      rw [decoded] at upload
      have received := received_upload runtime request
        (.shared { sch with descriptionList := list }) world upload
      rw [NoFailure, Quiet, received] at quiet
      obtain ⟨added, only⟩ := store_added runtime { sch with descriptionList := list } world quiet
      rw [received]
      constructor
      · rintro ⟨other, sameId, ⟨entered, -⟩, rfl⟩
        obtain same : sch.scheduleId = other.scheduleId := Except.ok.inj (id.symm.trans sameId)
        rw [← same] at entered
        rw [only other entered]
      · rintro ⟨rfl⟩
        exact ⟨{ sch with descriptionList := descriptions }, id, added, rfl⟩

end

/-- The schedule is added with every posted description exactly when each array of image ids
has three of them and no content is a string that is taken for a date. -/
theorem descriptions_kept_iff (runtime : Runtime) (request : Request) (world : World)
    (shared : isSharedRequest runtime request = true)
    (accepts : sharedAccepts runtime.newtonsoft (Server.parseBody runtime request.body) = true)
    (items : List Json) (posted : List PostedDescription)
    (listed : Json.member (Server.parseBody runtime request.body) "descriptionList".toList =
      some (.arr items))
    (each : List.Forall₂ PostedDescription.Posts posted items)
    (quiet : NoFailure (Server.dataReceived runtime request) world) :
    (∃ sch, postedId runtime.newtonsoft (Server.parseBody runtime request.body) =
        .ok sch.scheduleId ∧
      Added runtime sch world (exec (Server.dataReceived runtime request) world).2 ∧
      sch.descriptionList = posted.map PostedDescription.kept) ↔
    ∀ description ∈ posted,
      (∀ ids, description.waypointImgId = some ids → 3 ≤ ids.length) ∧
        runtime.newtonsoft.dateText description.waypointContent = none := by
  rw [received_list runtime request world shared accepts quiet]
  have list :
      (asArray (Server.parseBody runtime request.body) "descriptionList").getD [] = items := by
    rw [asArray, listed]
    rfl
  rw [list]
  apply map_back_iff each
  intro description token posts
  rw [read_posted_iff runtime.newtonsoft description token posts]
  apply and_congr_left'
  unfold PostedDescription.filled
  cases description.waypointImgId <;> simp

def describedRequest (images others : String) : Request where
  method := "POST".toList
  rawUrl := "/sharedschedule".toList
  keyword := none
  body := "\x7b\"scheduleId\":1,\"descriptionList\":[\x7b\"waypointId\":2,".toList ++
    "\"waypointContent\":\"A\",\"waypointImgId\":[".toList ++ images.toList ++ "]\x7d".toList ++
    others.toList ++ "]\x7d".toList

def describedPost (images : List Int32) : PostedDescription := ⟨2, ['A'], some images⟩

def barePost : PostedDescription := ⟨3, ['B'], none⟩

def describedToken (ids : List Int32) : Json := .obj [("waypointId".toList, .number (.ofInt 2)),
  ("waypointContent".toList, .str ['A']),
  ("waypointImgId".toList, .arr (ids.map fun id => .number (.ofInt id.toInt)))]

def bareToken : Json := .obj [("waypointId".toList, .number (.ofInt 3)),
  ("waypointContent".toList, .str ['B'])]

def describedMembers (tokens : List Json) : Members :=
  [("scheduleId".toList, .number (.ofInt 1)), ("descriptionList".toList, .arr tokens)]

def threeRequest : Request :=
  describedRequest "5,6,7,8" ",\x7b\"waypointId\":3,\"waypointContent\":\"B\"\x7d"

def shortRequest : Request := describedRequest "5" ""

set_option maxRecDepth 8000 in
theorem parse_described :
    Server.parseBody .standard threeRequest.body =
        describedMembers [describedToken [5, 6, 7, 8], bareToken] ∧
      Server.parseBody .standard shortRequest.body = describedMembers [describedToken [5]] :=
  ⟨rfl, rfl⟩

theorem described_posts (images : List Int32) :
    (describedPost images).Posts (describedToken images) :=
  ⟨_, rfl, rfl, rfl, rfl⟩

theorem descriptions_kept_iff_three :
    (∃ sch, postedId standardNewtonsoft (Server.parseBody .standard threeRequest.body) =
        .ok sch.scheduleId ∧
      Added .standard sch (.fresh Tables.empty)
        (exec (Server.dataReceived .standard threeRequest) (.fresh Tables.empty)).2 ∧
      sch.descriptionList =
        [describedPost [5, 6, 7, 8], barePost].map PostedDescription.kept) ↔
    ∀ description ∈ [describedPost [5, 6, 7, 8], barePost],
      (∀ ids, description.waypointImgId = some ids → 3 ≤ ids.length) ∧
        standardNewtonsoft.dateText description.waypointContent = none :=
  descriptions_kept_iff .standard threeRequest (.fresh Tables.empty) rfl
    (by rw [parse_described.1]; decide +kernel) _ [describedPost [5, 6, 7, 8], barePost]
    (by rw [parse_described.1]; rfl)
    (.cons (described_posts _) (.cons ⟨_, rfl, rfl, rfl, rfl⟩ .nil))
    (by unfold NoFailure Quiet; decide +kernel)

/-- One image id instead of three: the schedule is neither in memory nor sent. -/
theorem short_array_loses_schedule :
    isSharedRequest .standard shortRequest = true ∧
    sharedAccepts standardNewtonsoft (Server.parseBody .standard shortRequest.body) = true ∧
    (∃ items, Json.member (Server.parseBody .standard shortRequest.body)
        "descriptionList".toList = some (.arr items) ∧
      List.Forall₂ PostedDescription.Posts [describedPost [5]] items) ∧
    NoFailure (Server.dataReceived .standard shortRequest) (.fresh Tables.empty) ∧
    ¬∃ sch, Added .standard sch (.fresh Tables.empty)
      (exec (Server.dataReceived .standard shortRequest) (.fresh Tables.empty)).2 := by
  have silent : (exec (Server.dataReceived .standard shortRequest)
      (.fresh Tables.empty)).2.log = [] ∧
      (exec (Server.dataReceived .standard shortRequest)
        (.fresh Tables.empty)).2.failedCalls = 0 := by decide +kernel
  rw [parse_described.2]
  refine ⟨rfl, by decide +kernel, ⟨_, rfl, .cons (described_posts _) .nil⟩, silent.2, ?_⟩
  rintro ⟨sch, -, branch, text, calls, -, grown⟩
  rw [silent.1] at grown
  simp at grown

def InIntRange (position : Floating) (number : PrintedNumber) : Prop :=
  position = .finite number ∧ -2 ^ 31 ≤ number.value ∧ number.value < 2 ^ 31

/-- The token has the fields of the waypoint under the names the decoder looks for. -/
def Waypoint.Posts (waypoint : Waypoint) (token : Json) : Prop :=
  ∃ obj posX posY, token = .obj obj ∧ InIntRange waypoint.posX posX ∧
    InIntRange waypoint.posY posY ∧
    Json.member obj "id".toList = some (.number (.ofInt waypoint.id.toInt)) ∧
    Json.member obj "name".toList = some (.str waypoint.name) ∧
    Json.member obj "posX".toList = some (.number posX.toJsonNumber) ∧
    Json.member obj "posY".toList = some (.number posY.toJsonNumber) ∧
    Json.member obj "rating".toList = some (.number waypoint.rating.toJsonNumber) ∧
    Json.member obj "reviewCount".toList = some (.number (.ofInt waypoint.reviewCount.toInt)) ∧
    Json.member obj "type".toList = some (.number (.ofInt waypoint.type.toInt)) ∧
    Json.member obj "originLink".toList = some (.str waypoint.originLink) ∧
    Json.member obj "time".toList = some (.number (.ofInt waypoint.time.toInt))

/-- The rating is a number of a byte's range, whole or not. -/
def Waypoint.InByteRange (waypoint : Waypoint) : Prop :=
  0 ≤ waypoint.rating.value ∧ waypoint.rating.value ≤ 255

/-- The rating is whole, and no string is taken for a date. -/
structure Waypoint.TakenWhole (library : Newtonsoft) (waypoint : Waypoint) : Prop where
  rating : ∃ n : Int, waypoint.rating.value = n
  name : library.dateText waypoint.name = none
  originLink : library.dateText waypoint.originLink = none

/-- `Convert.ToByte` of a double goes to a whole number next to it. -/
def RoundsNear (library : Newtonsoft) : Prop :=
  ∀ number : PrintedNumber, 0 ≤ number.value → number.value ≤ 255 →
    ∃ n : Int, library.doubleToInteger (library.roundDouble number.toJsonNumber) = some n ∧
      |(n : ℚ) - number.value| < 1

section
variable (library : Newtonsoft)

theorem byte_of_near (n : Int) (value : ℚ) (positive : 0 ≤ value) (small : value ≤ 255)
    (near : |(n : ℚ) - value| < 1) : 0 ≤ n ∧ n ≤ 255 := by
  obtain ⟨above, below⟩ := abs_lt.mp near
  constructor
  · have low : (-1 : ℚ) < n := by linarith
    have whole : (-1 : Int) < n := by exact_mod_cast low
    omega
  · have high : (n : ℚ) < 256 := by linarith
    have whole : n < 256 := by exact_mod_cast high
    omega

theorem hold_near (rounds : RoundsNear library) (rating : PrintedNumber)
    (positive : 0 ≤ rating.value) (small : rating.value ≤ 255) :
    ∃ n : Int, toWhole library toByte (holdNumber library rating.toJsonNumber) =
      Json.inRange toByte n ∧ |(n : ℚ) - rating.value| < 1 := by
  unfold holdNumber
  cases whole : readInt rating.text with
  | none =>
      obtain ⟨n, rounded, near⟩ := rounds rating positive small
      exact ⟨n, by simp [toWhole, rounded], near⟩
  | some n =>
      have value := value_of_read_int rating.toJsonNumber n whole
      have near : |(n : ℚ) - rating.value| < 1 := by simp [value]
      obtain ⟨low, high⟩ := byte_of_near n rating.value positive small near
      have narrow : toInt64 n = some (Int64.ofInt n) := by
        rw [toInt64, if_pos (by omega)]
      refine ⟨n, ?_, near⟩
      simp only [narrow, toWhole, to_int64_some n _ narrow]

theorem printed_value (n : Int32) : (PrintedNumber.ofInt32 n).value = n.toInt :=
  value_of_read_int _ _ (read_int_text n.toInt)

theorem read_rating (rounds : RoundsNear library) (rating : PrintedNumber)
    (positive : 0 ≤ rating.value) (small : rating.value ≤ 255) :
    ∃ byte : Int32, orElse (toWhole library toByte) 0 (holdNumber library rating.toJsonNumber) =
        .ok byte ∧
      ((PrintedNumber.ofInt32 byte).value = rating.value ↔ ∃ n : Int, rating.value = n) := by
  obtain ⟨n, converted, near⟩ := hold_near library rounds rating positive small
  obtain ⟨low, high⟩ := byte_of_near n rating.value positive small near
  have narrow : toByte n = some (Int32.ofInt n) := by rw [toByte, if_pos ⟨low, high⟩]
  have same : (Int32.ofInt n).toInt = n := Int32.toInt_ofInt_of_le (by omega) (by omega)
  have value : (PrintedNumber.ofInt32 (Int32.ofInt n)).value = n := by
    rw [printed_value, same]
  refine ⟨Int32.ofInt n, ?_, ?_⟩
  · simp [orElse, converted, Json.inRange, narrow, Except.map]
  · rw [value]
    constructor
    · exact fun equal => ⟨n, equal.symm⟩
    · rintro ⟨k, whole⟩
      rw [whole] at near ⊢
      have apart : |n - k| < 1 := by exact_mod_cast near
      rw [sub_eq_zero.mp (Int.abs_lt_one_iff.mp apart)]

theorem read_position (position : Floating) (number : PrintedNumber)
    (range : InIntRange position number) :
    ∃ value, orElse (Json.toDouble library) (.finite (.ofInt32 0))
      (holdNumber library number.toJsonNumber) = .ok value := by
  obtain ⟨-, low, high⟩ := range
  unfold holdNumber
  cases whole : readInt number.text with
  | none => exact ⟨_, rfl⟩
  | some n =>
      rw [value_of_read_int number.toJsonNumber n whole] at low high
      have above : -2 ^ 31 ≤ n := by exact_mod_cast low
      have below : n < 2 ^ 31 := by exact_mod_cast high
      have narrow : toInt64 n = some (Int64.ofInt n) := by
        rw [toInt64, if_pos (by omega)]
      simp only [narrow]
      exact ⟨_, rfl⟩

theorem read_posted_waypoint (rounds : RoundsNear library) (waypoint : Waypoint) (token : Json)
    (posts : waypoint.Posts token) (range : waypoint.InByteRange) :
    ∃ built, readWaypoint library token = .ok built ∧
      (SameWaypoint built waypoint ↔ waypoint.TakenWhole library) := by
  obtain ⟨obj, xNumber, yNumber, rfl, rangeX, rangeY, hasId, hasName, hasX, hasY, hasRating,
    hasCount, hasType, hasLink, hasTime⟩ := posts
  have int (name : String) (n : Int32)
      (found : Json.member obj name.toList = some (.number (.ofInt n.toInt))) :
      attrValue library obj name = .ok (.long n.toInt64) := by
    rw [attrValue, found]
    exact hold_int32 library n
  have number (name : String) (numeral : JsonNumber)
      (found : Json.member obj name.toList = some (.number numeral)) :
      attrValue library obj name = .ok (holdNumber library numeral) := by
    rw [attrValue, found]
    rfl
  have string (name : String) (text : Text)
      (found : Json.member obj name.toList = some (.str text)) :
      attrValue library obj name = .ok (Json.holdString library text) := by
    rw [attrValue, found]
    rfl
  obtain ⟨posX, readX⟩ := read_position library _ xNumber rangeX
  obtain ⟨posY, readY⟩ := read_position library _ yNumber rangeY
  obtain ⟨byte, readByte, whole⟩ := read_rating library rounds waypoint.rating range.1 range.2
  refine ⟨⟨waypoint.id, heldText library waypoint.name, posX, posY, .ofInt32 byte,
    waypoint.reviewCount, waypoint.type, heldText library waypoint.originLink, waypoint.time⟩,
    ?_, ?_⟩
  · simp only [readWaypoint, asObject, bind, Except.bind, int _ _ hasId, int _ _ hasCount,
      int _ _ hasType, int _ _ hasTime, number _ _ hasX, number _ _ hasY, number _ _ hasRating,
      string _ _ hasName, string _ _ hasLink, whole_of_int32, readX, readY, readByte, text_of_hold]
    rfl
  · simp only [SameWaypoint, true_and, and_true]
    rw [held_text_iff, held_text_iff, whole]
    constructor
    · rintro ⟨name, rating, originLink⟩
      exact ⟨rating, name, originLink⟩
    · rintro ⟨rating, name, originLink⟩
      exact ⟨name, rating, originLink⟩

end

theorem read_schedule_list (library : Newtonsoft) (json : Members) (sch : Schedule)
    (waypoints : List Waypoint) (read : readSchedule library json = .ok sch)
    (list : ((asArray json "wayPointList").getD []).mapM (readWaypoint library) = .ok waypoints) :
    sch.waypoints = waypoints := by
  simp only [readSchedule, list, bind_ok_iff, pure, Except.pure, Except.ok.injEq] at read
  obtain ⟨id, -, name, -, place, -, days, -, date, -, group, -, shared, -, _, -, _, -, _, -, _, -,
    _, -, _, -, _, -, _, rfl, rfl⟩ := read
  rfl

/-- The list that is built from the posted waypoints is the same list exactly when every
rating is a whole number and no string is taken for a date. -/
theorem waypoints_taken_iff (runtime : Runtime) (rounds : RoundsNear runtime.newtonsoft)
    (body : Text) (waypoints : List Waypoint) (items : List Json)
    (listed : Json.member (Server.parseBody runtime body) "wayPointList".toList =
      some (.arr items))
    (each : List.Forall₂ Waypoint.Posts waypoints items)
    (range : ∀ waypoint ∈ waypoints, waypoint.InByteRange) :
    ∃ built, ((asArray (Server.parseBody runtime body) "wayPointList").getD []).mapM
        (readWaypoint runtime.newtonsoft) = .ok built ∧
      (∀ sch, readSchedule runtime.newtonsoft (Server.parseBody runtime body) = .ok sch →
        sch.waypoints = built) ∧
      (List.Forall₂ SameWaypoint built waypoints ↔
        ∀ waypoint ∈ waypoints, waypoint.TakenWhole runtime.newtonsoft) := by
  have each := (List.forall₂_and_left _ _).mpr ⟨range, each⟩
  obtain ⟨built, decoded, same⟩ := map_related_iff each SameWaypoint _
    fun waypoint token both => read_posted_waypoint runtime.newtonsoft rounds waypoint token both.2
      both.1
  have list : (asArray (Server.parseBody runtime body) "wayPointList").getD [] = items := by
    rw [asArray, listed]
    rfl
  rw [list]
  exact ⟨built, decoded, fun sch read =>
    read_schedule_list runtime.newtonsoft _ sch built read (list ▸ decoded), same⟩

theorem standard_rounds_near : RoundsNear standardNewtonsoft := by
  intro number positive small
  have finite : ¬2 ^ 1024 ≤ |number.value| := by
    rw [abs_of_nonneg positive, not_le]
    have eight : (255 : ℚ) < 2 ^ 8 := by norm_num
    exact lt_of_le_of_lt small (lt_of_lt_of_le eight (pow_le_pow_right₀ (by norm_num) (by decide)))
  have double : standardNewtonsoft.roundDouble number.toJsonNumber = .finite number := by
    change standardDouble number.toJsonNumber = _
    rw [standardDouble, if_neg finite, finite_text_own]
    rfl
  refine ⟨number.value.floor, by rw [double]; rfl, ?_⟩
  have below := Rat.floor_le number.value
  have above := Rat.lt_floor_add_one number.value
  push_cast at above
  rw [abs_lt]
  constructor <;> linarith

def ratedWaypoint (rating : PrintedNumber) : Waypoint :=
  ⟨1, ['A'], .finite (.ofInt32 0), .finite (.ofInt32 0), rating, 0, 0, [], 0⟩

/-- A waypoint of which no field is its default. -/
def placedWaypoint : Waypoint :=
  ⟨2, ['B'], .finite (.ofInt32 37), .finite (.ofInt32 (-12)), .ofInt32 5, 8, 3, ['L'], 90⟩

def ratedText (rating : PrintedNumber) : Text :=
  "\x7b\"id\":1,\"name\":\"A\",\"posX\":0,\"posY\":0,\"rating\":".toList ++
    rating.text ++ ",\"reviewCount\":0,\"type\":0,\"originLink\":\"\",\"time\":0\x7d".toList

def placedText : Text :=
  ("\x7b\"id\":2,\"name\":\"B\",\"posX\":37,\"posY\":-12,\"rating\":5," ++
    "\"reviewCount\":8,\"type\":3,\"originLink\":\"L\",\"time\":90\x7d").toList

def listBody (list : Text) : Text :=
  "\x7b\"wayPointList\":[".toList ++ list ++ "]\x7d".toList

def wholeBody : Text := listBody (ratedText (.ofInt32 4) ++ ',' :: placedText)

def fourAndHalf : PrintedNumber := ⟨⟨"4.5".toList, rfl⟩, by decide⟩

def ratedMembers (rating : PrintedNumber) : Members := [("id".toList, .number (.ofInt 1)),
  ("name".toList, .str ['A']), ("posX".toList, .number (.ofInt 0)),
  ("posY".toList, .number (.ofInt 0)), ("rating".toList, .number rating.toJsonNumber),
  ("reviewCount".toList, .number (.ofInt 0)), ("type".toList, .number (.ofInt 0)),
  ("originLink".toList, .str []), ("time".toList, .number (.ofInt 0))]

def placedMembers : Members := [("id".toList, .number (.ofInt 2)),
  ("name".toList, .str ['B']), ("posX".toList, .number (.ofInt 37)),
  ("posY".toList, .number (.ofInt (-12))), ("rating".toList, .number (.ofInt 5)),
  ("reviewCount".toList, .number (.ofInt 8)), ("type".toList, .number (.ofInt 3)),
  ("originLink".toList, .str ['L']), ("time".toList, .number (.ofInt 90))]

theorem int_in_range (n : Int32) : InIntRange (.finite (.ofInt32 n)) (.ofInt32 n) := by
  refine ⟨rfl, ?_⟩
  rw [printed_value]
  exact ⟨by exact_mod_cast n.le_toInt, by exact_mod_cast n.toInt_lt⟩

theorem rated_posts (rating : PrintedNumber) :
    (ratedWaypoint rating).Posts (.obj (ratedMembers rating)) :=
  ⟨_, .ofInt32 0, .ofInt32 0, rfl, int_in_range 0, int_in_range 0, rfl, rfl, rfl, rfl, rfl,
    rfl, rfl, rfl, rfl⟩

theorem placed_posts : placedWaypoint.Posts (.obj placedMembers) :=
  ⟨_, .ofInt32 37, .ofInt32 (-12), rfl, int_in_range 37, int_in_range (-12), rfl, rfl, rfl, rfl,
    rfl, rfl, rfl, rfl, rfl⟩

set_option maxRecDepth 8000 in
theorem parse_rated :
    Server.parseBody .standard wholeBody = [("wayPointList".toList,
        .arr [.obj (ratedMembers (.ofInt32 4)), .obj placedMembers])] ∧
      Server.parseBody .standard (listBody (ratedText fourAndHalf)) =
        [("wayPointList".toList, .arr [.obj (ratedMembers fourAndHalf)])] :=
  ⟨rfl, rfl⟩

theorem waypoints_taken_iff_whole :
    let waypoints := [ratedWaypoint (.ofInt32 4), placedWaypoint]
    ∃ built, ((asArray (Server.parseBody .standard wholeBody) "wayPointList").getD []).mapM
        (readWaypoint standardNewtonsoft) = .ok built ∧
      (∀ sch, readSchedule standardNewtonsoft (Server.parseBody .standard wholeBody) = .ok sch →
        sch.waypoints = built) ∧
      (List.Forall₂ SameWaypoint built waypoints ↔
        ∀ waypoint ∈ waypoints, waypoint.TakenWhole standardNewtonsoft) :=
  waypoints_taken_iff .standard standard_rounds_near wholeBody
    [ratedWaypoint (.ofInt32 4), placedWaypoint] _ (by rw [parse_rated.1]; rfl)
    (.cons (rated_posts _) (.cons placed_posts .nil))
    (by unfold Waypoint.InByteRange; decide +kernel)

/-- A rating of 4.5 is taken over as 4. -/
theorem half_rating_rounded :
    (∃ items, Json.member (Server.parseBody .standard (listBody (ratedText fourAndHalf)))
        "wayPointList".toList = some (.arr items) ∧
      List.Forall₂ Waypoint.Posts [ratedWaypoint fourAndHalf] items) ∧
    (ratedWaypoint fourAndHalf).InByteRange ∧
    standardNewtonsoft.dateText (ratedWaypoint fourAndHalf).name = none ∧
    standardNewtonsoft.dateText (ratedWaypoint fourAndHalf).originLink = none ∧
    ((asArray (Server.parseBody .standard (listBody (ratedText fourAndHalf)))
      "wayPointList").getD []).mapM
        (readWaypoint standardNewtonsoft) = .ok [ratedWaypoint (.ofInt32 4)] ∧
    ¬List.Forall₂ SameWaypoint [ratedWaypoint (.ofInt32 4)] [ratedWaypoint fourAndHalf] := by
  rw [parse_rated.2]
  refine ⟨⟨_, rfl, .cons (rated_posts _) .nil⟩, ⟨by decide +kernel, by decide +kernel⟩, rfl, rfl,
    by decide +kernel, ?_⟩
  intro same
  cases same with
  | cons first rest => exact absurd first.2.2.1 (by decide +kernel)

end TfuServer
