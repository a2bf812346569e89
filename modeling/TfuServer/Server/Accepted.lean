import TfuServer.Server.Import

/-!
# What a request may carry

An attribute is read in two steps: its token must be a scalar, and the scalar must
convert to the type of the field. Each branch reads its own attributes; the ones of
the waypoints are read one waypoint after another.
-/

namespace TfuServer

set_option autoImplicit false

open Numeral
open Json (Newtonsoft Held attrValue orElse toWhole toByte toText toDouble hold holdNumber
  holdString parseInteger parseBool)

section
variable (library : Newtonsoft)

def roundsInto {Value : Type} (narrow : Int → Option Value) (value : Floating) : Bool :=
  ((library.doubleToInteger value).bind narrow).isSome

/-- A whole number of the range can be made of the token. -/
def wholeAccepts {Value : Type} (narrow : Int → Option Value) : Json → Bool
  | .null => true
  | .bool value => (narrow (if value then 1 else 0)).isSome
  | .number numeral =>
      match holdNumber library numeral with
      | .long n => (narrow n.toInt).isSome
      | .double value => roundsInto library narrow value
      | _ => false
  | .nonFinite kind => roundsInto library narrow (.nonFinite kind)
  | .str text => (library.dateText text).isNone && ((parseInteger text).bind narrow).isSome
  | .arr _ | .obj _ | .call => false

/-- A string can be made of the token: any scalar but a number beyond a `long`. -/
def textAccepts : Json → Bool
  | .number numeral => fitsLong (some (.number numeral))
  | .arr _ | .obj _ | .call => false
  | _ => true

def boolAccepts : Json → Bool
  | .number numeral => fitsLong (some (.number numeral))
  | .str text => (library.dateText text).isNone && (parseBool text).isSome
  | .arr _ | .obj _ | .call => false
  | _ => true

/-- A finite double can be made of the token. -/
def positionAccepts : Json → Bool
  | .number numeral =>
      match holdNumber library numeral with
      | .long n => (library.roundDouble (.ofInt n.toInt)).isFinite
      | .double value => value.isFinite
      | _ => false
  | .nonFinite _ => false
  | .str text =>
      (library.dateText text).isNone &&
        ((library.parseDouble text).map Floating.isFinite).getD false
  | .arr _ | .obj _ | .call => false
  | _ => true

/-- The attribute is absent, or its token is accepted. -/
def attrAccepts (accepts : Json → Bool) (obj : Members) (name : String) : Bool :=
  ((Json.member obj name.toList).map accepts).getD true

theorem ok_bind_iff {Value Next : Type} (result : Except Failure Value)
    (next : Value → Except Failure Next) :
    (∃ value, (result >>= next) = .ok value) ↔
      ∃ first, result = .ok first ∧ ∃ value, next first = .ok value := by
  cases result with
  | error failure => simp [bind, Except.bind]
  | ok first => simp [bind, Except.bind]

theorem in_range_iff {Value : Type} (narrow : Int → Option Value) (n : Int) :
    (∃ value, Json.inRange narrow n = .ok value) ↔ (narrow n).isSome = true := by
  unfold Json.inRange
  cases narrow n <;> simp

/-- What a conversion makes of an attribute meets the condition. -/
def Converts {Value : Type} (convert : Held → Except Failure (Option Value)) (fallback : Value)
    (condition : Value → Prop) (obj : Members) (name : String) : Prop :=
  ∃ held, attrValue library obj name = .ok held ∧
    ∃ value, orElse convert fallback held = .ok value ∧ condition value

theorem or_else_iff {Value : Type} (convert : Held → Except Failure (Option Value))
    (fallback : Value) (condition : Value → Prop) (held : Held) :
    (∃ value, orElse convert fallback held = .ok value ∧ condition value) ↔
      ∃ result, convert held = .ok result ∧ condition (result.getD fallback) := by
  unfold orElse
  cases convert held with
  | error failure => simp [Except.map]
  | ok result => simp [Except.map]

theorem converts_iff {Value : Type} (convert : Held → Except Failure (Option Value))
    (fallback : Value) (condition : Value → Prop) (accepts : Json → Bool)
    (absent : ∃ result, convert .null = .ok result ∧ condition (result.getD fallback))
    (present : ∀ token, (∃ held, hold library token = .ok held ∧
      ∃ result, convert held = .ok result ∧ condition (result.getD fallback)) ↔
        accepts token = true)
    (obj : Members) (name : String) :
    Converts library convert fallback condition obj name ↔ attrAccepts accepts obj name = true := by
  simp only [Converts, or_else_iff, attrValue, attrAccepts]
  cases Json.member obj name.toList with
  | none => simpa using absent
  | some token => exact present token

theorem rounds_into_iff {Value : Type} (narrow : Int → Option Value) (value : Floating) :
    (∃ result, toWhole library narrow (.double value) = .ok result) ↔
      roundsInto library narrow value = true := by
  simp only [toWhole, roundsInto]
  cases library.doubleToInteger value with
  | none => simp
  | some n => simpa using in_range_iff narrow n

theorem hold_string_iff (text : Text) (converted : Held → Prop)
    (date : ∀ printed, ¬converted (.dateTime printed)) :
    (∃ held, hold library (.str text) = .ok held ∧ converted held) ↔
      (library.dateText text).isNone = true ∧ converted (.string text) := by
  simp only [hold, Except.ok.injEq, exists_eq_left', holdString]
  cases library.dateText text with
  | none => simp
  | some printed => simpa using date printed

theorem converts_whole {Value : Type} (narrow : Int → Option Value) (fallback : Value)
    (obj : Members) (name : String) :
    Converts library (toWhole library narrow) fallback (fun _ => True) obj name ↔
      attrAccepts (wholeAccepts library narrow) obj name = true := by
  apply converts_iff
  · exact ⟨_, rfl, trivial⟩
  intro token
  simp only [and_true]
  cases token with
  | null => simp [hold, toWhole, wholeAccepts]
  | bool value =>
      simp only [hold, Except.ok.injEq, exists_eq_left', wholeAccepts]
      exact in_range_iff narrow _
  | number numeral =>
      simp only [hold, Except.ok.injEq, exists_eq_left', wholeAccepts]
      rcases hold_number_cases library numeral with ⟨n, held⟩ | ⟨n, held⟩ | ⟨value, held⟩
      · rw [held]
        exact in_range_iff narrow _
      · simp [held, toWhole]
      · rw [held]
        exact rounds_into_iff library narrow value
  | nonFinite kind =>
      simp only [hold, Except.ok.injEq, exists_eq_left', wholeAccepts]
      exact rounds_into_iff library narrow _
  | str text =>
      rw [hold_string_iff library text _ (by simp [toWhole]), wholeAccepts, Bool.and_eq_true]
      apply and_congr_right'
      simp only [toWhole]
      cases parseInteger text with
      | none => simp
      | some n => simpa using in_range_iff narrow n
  | arr | obj | call => simp [hold, wholeAccepts]

theorem converts_text (fallback : Text) (obj : Members) (name : String) :
    Converts library toText fallback (fun _ => True) obj name ↔
      attrAccepts textAccepts obj name = true := by
  apply converts_iff
  · exact ⟨_, rfl, trivial⟩
  intro token
  simp only [and_true]
  cases token with
  | number numeral =>
      simp only [hold, Except.ok.injEq, exists_eq_left', textAccepts, fitsLong, holdNumber]
      cases readInt numeral.text with
      | none => simp [toText]
      | some n => cases narrow : toInt64 n <;> simp [narrow, toText]
  | str text =>
      simp only [hold, Except.ok.injEq, exists_eq_left', textAccepts, holdString]
      cases library.dateText text <;> simp [toText]
  | null | bool | nonFinite | arr | obj | call => simp [hold, toText, textAccepts]

theorem converts_bool (fallback : Bool) (obj : Members) (name : String) :
    Converts library Json.toBool fallback (fun _ => True) obj name ↔
      attrAccepts (boolAccepts library) obj name = true := by
  apply converts_iff
  · exact ⟨_, rfl, trivial⟩
  intro token
  simp only [and_true]
  cases token with
  | number numeral =>
      simp only [hold, Except.ok.injEq, exists_eq_left', boolAccepts, fitsLong, holdNumber]
      cases readInt numeral.text with
      | none => cases rounded : library.roundDouble numeral <;> simp [Json.toBool]
      | some n => cases narrow : toInt64 n <;> simp [narrow, Json.toBool]
  | str text =>
      rw [hold_string_iff library text _ (by simp [Json.toBool]), boolAccepts, Bool.and_eq_true]
      apply and_congr_right'
      simp only [Json.toBool]
      cases parseBool text <;> simp
  | null | bool | nonFinite | arr | obj | call => simp [hold, Json.toBool, boolAccepts]

theorem converts_position (obj : Members) (name : String) :
    Converts library (toDouble library) (.finite (.ofInt32 0))
      (fun value => value.isFinite = true) obj name ↔
        attrAccepts (positionAccepts library) obj name = true := by
  apply converts_iff
  · exact ⟨_, rfl, rfl⟩
  intro token
  cases token with
  | number numeral =>
      simp only [hold, Except.ok.injEq, exists_eq_left', positionAccepts]
      rcases hold_number_cases library numeral with ⟨n, held⟩ | ⟨n, held⟩ | ⟨value, held⟩ <;>
        simp [held, toDouble]
  | str text =>
      rw [hold_string_iff library text _ (by simp [toDouble]), positionAccepts, Bool.and_eq_true]
      apply and_congr_right'
      simp only [toDouble]
      cases library.parseDouble text <;> simp
  | null => simp [hold, toDouble, positionAccepts, Floating.isFinite]
  | bool => simp [hold, toDouble, positionAccepts, Floating.isFinite]
  | nonFinite | arr | obj | call => simp [hold, toDouble, positionAccepts, Floating.isFinite]

def clientAccepts (json : Members) : Bool :=
  attrAccepts (wholeAccepts library toInt64) json "uid" &&
    attrAccepts textAccepts json "name" && attrAccepts textAccepts json "profileUrl"

/-- An object whose attributes convert, its positions to finite doubles. -/
def waypointAccepts : Json → Bool
  | .obj obj =>
      attrAccepts (wholeAccepts library toInt32) obj "id" && attrAccepts textAccepts obj "name" &&
        attrAccepts (positionAccepts library) obj "posX" &&
        attrAccepts (positionAccepts library) obj "posY" &&
        attrAccepts (wholeAccepts library toByte) obj "rating" &&
        attrAccepts (wholeAccepts library toInt32) obj "reviewCount" &&
        attrAccepts (wholeAccepts library toInt32) obj "type" &&
        attrAccepts textAccepts obj "originLink" &&
        attrAccepts (wholeAccepts library toInt32) obj "time"
  | _ => false

def scheduleAccepts (json : Members) : Bool :=
  attrAccepts (wholeAccepts library toInt32) json "id" && attrAccepts textAccepts json "name" &&
    attrAccepts textAccepts json "destination" &&
    attrAccepts (wholeAccepts library toInt32) json "days" &&
    attrAccepts textAccepts json "startDate" &&
    attrAccepts (wholeAccepts library toInt32) json "memberGroupId" &&
    attrAccepts (boolAccepts library) json "isShared" &&
    ((asArray json "wayPointList").getD []).all (waypointAccepts library)

/-- The token prints as an integer of the range. -/
def printsInt (token : Json) : Bool :=
  match hold library token with
  | .ok held => ((parseInteger held.print).bind toInt32).isSome
  | .error _ => false

/-- An array has three elements that print as integers. -/
def imagesAccepts (obj : Members) (name : String) : Bool :=
  match asArray obj name with
  | some (first :: second :: third :: _) =>
      printsInt library first && printsInt library second && printsInt library third
  | some _ => false
  | none => true

/-- An object whose attributes convert, with enough image ids. -/
def descriptionAccepts (idName contentName imagesName : String) : Json → Bool
  | .obj obj =>
      attrAccepts (wholeAccepts library toInt32) obj idName &&
        attrAccepts textAccepts obj contentName && imagesAccepts library obj imagesName
  | _ => false

theorem read_client_iff (json : Members) :
    (∃ clt, readClient library json = .ok clt) ↔ clientAccepts library json = true := by
  have uid := converts_whole library toInt64 0 json "uid"
  have name := converts_text library [] json "name"
  have profileUrl := converts_text library [] json "profileUrl"
  simp only [Converts, and_true] at uid name profileUrl
  simp only [clientAccepts, Bool.and_eq_true, ← uid, ← name, ← profileUrl]
  simp only [readClient, ok_bind_iff, pure, Except.pure, Except.ok.injEq, exists_eq', and_true]
  constructor
  · rintro ⟨uid, hasUid, name, hasName, url, hasUrl, long, asLong, called, asName, asUrl⟩
    exact ⟨⟨⟨uid, hasUid, long, asLong⟩, name, hasName, called, asName⟩, url, hasUrl, asUrl⟩
  · rintro ⟨⟨⟨uid, hasUid, long, asLong⟩, name, hasName, called, asName⟩, url, hasUrl, asUrl⟩
    exact ⟨uid, hasUid, name, hasName, url, hasUrl, long, asLong, called, asName, asUrl⟩

/-- Every item becomes a value that meets the condition. -/
theorem map_ok_iff {Item Value : Type} (read : Item → Except Failure Value)
    (condition : Value → Prop) (tokens : List Item) :
    (∃ values, tokens.mapM read = .ok values ∧ ∀ value ∈ values, condition value) ↔
      ∀ token ∈ tokens, ∃ value, read token = .ok value ∧ condition value := by
  induction tokens with
  | nil => exact ⟨fun _ => by simp, fun _ => ⟨[], rfl, by simp⟩⟩
  | cons token tokens ih =>
      rw [List.forall_mem_cons, ← ih, List.mapM_cons]
      constructor
      · rintro ⟨values, mapped, all⟩
        obtain ⟨value, first, tail⟩ := (bind_ok_iff _ _ _).mp mapped
        obtain ⟨others, rest, whole⟩ := (bind_ok_iff _ _ _).mp tail
        cases whole
        rw [List.forall_mem_cons] at all
        exact ⟨⟨value, first, all.1⟩, others, rest, all.2⟩
      · rintro ⟨⟨value, first, meets⟩, others, rest, all⟩
        refine ⟨value :: others, ?_, List.forall_mem_cons.mpr ⟨meets, all⟩⟩
        rw [first, rest]
        rfl

theorem read_waypoint_accepts (token : Json) :
    (∃ waypoint, readWaypoint library token = .ok waypoint ∧ waypoint.isFinite = true) ↔
      waypointAccepts library token = true := by
  cases token with
  | obj obj =>
      have int (name : String) := converts_whole library toInt32 0 obj name
      have byte (name : String) := converts_whole library toByte 0 obj name
      have string (name : String) := converts_text library [] obj name
      have position (name : String) := converts_position library obj name
      simp only [waypointAccepts, Bool.and_eq_true, ← int, ← byte, ← string, ← position]
      simp only [Converts, and_true]
      constructor
      · rintro ⟨waypoint, read, finite⟩
        simp only [readWaypoint, asObject, bind_ok_iff, pure, Except.pure, Except.ok.injEq,
          exists_eq_left'] at read
        obtain ⟨id, hasId, name, hasName, posX, hasX, posY, hasY, rating, hasRating, count,
          hasCount, type, hasType, link, hasLink, time, hasTime, _, asId, _, asName, _, asX, _, asY,
          _, asRating, _, asCount, _, asType, _, asLink, _, asTime, rfl⟩ := read
        obtain ⟨finiteX, finiteY⟩ := Bool.and_eq_true_iff.mp finite
        exact ⟨⟨⟨⟨⟨⟨⟨⟨⟨id, hasId, _, asId⟩, name, hasName, _, asName⟩, posX, hasX, _, asX, finiteX⟩,
          posY, hasY, _, asY, finiteY⟩, rating, hasRating, _, asRating⟩, count, hasCount, _,
          asCount⟩, type, hasType, _, asType⟩, link, hasLink, _, asLink⟩, time, hasTime, _, asTime⟩
      · rintro ⟨⟨⟨⟨⟨⟨⟨⟨⟨id, hasId, ownId, asId⟩, name, hasName, ownName, asName⟩,
          posX, hasX, ownX, asX, finiteX⟩, posY, hasY, ownY, asY, finiteY⟩,
          rating, hasRating, ownRating, asRating⟩, count, hasCount, ownCount, asCount⟩,
          type, hasType, ownType, asType⟩, link, hasLink, ownLink, asLink⟩,
          time, hasTime, ownTime, asTime⟩
        refine ⟨⟨ownId, ownName, ownX, ownY, .ofInt32 ownRating, ownCount, ownType, ownLink,
          ownTime⟩, ?_, Bool.and_eq_true_iff.mpr ⟨finiteX, finiteY⟩⟩
        simp only [readWaypoint, asObject, bind, Except.bind, hasId, hasName, hasX, hasY, hasRating,
          hasCount, hasType, hasLink, hasTime, asId, asName, asX, asY, asRating, asCount, asType,
          asLink, asTime]
        rfl
  | null | bool | number | nonFinite | str | arr | call =>
      simp [readWaypoint, asObject, waypointAccepts, bind, Except.bind]

theorem read_schedule_accepts (json : Members) :
    (∃ sch, readSchedule library json = .ok sch ∧ ∀ waypoint ∈ sch.waypoints,
      waypoint.isFinite = true) ↔ scheduleAccepts library json = true := by
  have int (name : String) := converts_whole library toInt32 0 json name
  have string (name : String) (fallback : Text) := converts_text library fallback json name
  have bool (name : String) := converts_bool library false json name
  simp only [scheduleAccepts, Bool.and_eq_true, ← int, ← string "name" [],
    ← string "destination" "0".toList, ← string "startDate" "1900-00-00".toList, ← bool,
    List.all_eq_true, ← read_waypoint_accepts, ← map_ok_iff]
  simp only [Converts, and_true]
  constructor
  · rintro ⟨sch, read, finite⟩
    simp only [readSchedule, bind_ok_iff, pure, Except.pure, Except.ok.injEq] at read
    obtain ⟨id, hasId, name, hasName, place, hasPlace, days, hasDays, date, hasDate, group,
      hasGroup, shared, hasShared, _, asId, _, asName, _, asPlace, _, asDays, _, asDate, _, asGroup,
      _, asShared, waypoints, mapped, rfl⟩ := read
    exact ⟨⟨⟨⟨⟨⟨⟨⟨id, hasId, _, asId⟩, name, hasName, _, asName⟩, place, hasPlace, _, asPlace⟩,
      days, hasDays, _, asDays⟩, date, hasDate, _, asDate⟩, group, hasGroup, _, asGroup⟩,
      shared, hasShared, _, asShared⟩, waypoints, mapped, finite⟩
  · rintro ⟨⟨⟨⟨⟨⟨⟨⟨id, hasId, ownId, asId⟩, name, hasName, ownName, asName⟩,
      place, hasPlace, ownPlace, asPlace⟩, days, hasDays, ownDays, asDays⟩,
      date, hasDate, ownDate, asDate⟩, group, hasGroup, ownGroup, asGroup⟩,
      shared, hasShared, ownShared, asShared⟩, waypoints, mapped, finite⟩
    refine ⟨⟨ownId, ownName, ownPlace, ownDays, ownDate, waypoints, ownGroup, ownShared⟩, ?_,
      finite⟩
    simp only [readSchedule, bind, Except.bind, hasId, hasName, hasPlace, hasDays, hasDate,
      hasGroup, hasShared, asId, asName, asPlace, asDays, asDate, asGroup, asShared, mapped]
    rfl

theorem parse_token_iff (token : Json) :
    (∃ value, Json.parseToken library token = .ok value) ↔ printsInt library token = true := by
  unfold Json.parseToken printsInt
  cases hold library token with
  | error failure => simp
  | ok held =>
      cases read : parseInteger held.print with
      | none => simp [read]
      | some n => cases narrow : toInt32 n <;> simp [read, narrow]

theorem read_images_accepts (obj : Members) (name : String) :
    (∃ images, readImages library obj name = .ok images) ↔
      imagesAccepts library obj name = true := by
  unfold readImages imagesAccepts
  match asArray obj name with
  | none => exact ⟨fun _ => rfl, fun _ => ⟨_, rfl⟩⟩
  | some [] => simp [itemInt, bind, Except.bind]
  | some [first] =>
      cases found : Json.parseToken library first <;> simp [itemInt, found, bind, Except.bind]
  | some [first, second] =>
      cases found : Json.parseToken library first <;>
        cases also : Json.parseToken library second <;>
        simp [itemInt, found, also, bind, Except.bind]
  | some (first :: second :: third :: rest) =>
      simp only [itemInt, List.getElem?_cons_zero, List.getElem?_cons_succ, ok_bind_iff, pure,
        Except.pure, Except.ok.injEq, exists_eq', and_true, Bool.and_eq_true, ← parse_token_iff]
      constructor
      · rintro ⟨image, one, other, two, three⟩
        exact ⟨⟨⟨image, one⟩, other, two⟩, three⟩
      · rintro ⟨⟨⟨image, one⟩, other, two⟩, three⟩
        exact ⟨image, one, other, two, three⟩

theorem read_description_accepts (idName contentName imagesName : String) (token : Json) :
    (∃ description, readDescription library idName contentName imagesName token =
        .ok description) ↔
      descriptionAccepts library idName contentName imagesName token = true := by
  cases token with
  | obj obj =>
      simp only [descriptionAccepts, Bool.and_eq_true,
        ← converts_whole library toInt32 0 obj idName, ← converts_text library [] obj contentName,
        ← read_images_accepts]
      simp only [Converts, and_true, readDescription, asObject, ok_bind_iff, pure, Except.pure,
        Except.ok.injEq, exists_eq', exists_eq_left']
      constructor
      · rintro ⟨id, hasId, content, hasContent, own, asId, images, read, text, asText⟩
        exact ⟨⟨⟨id, hasId, own, asId⟩, content, hasContent, text, asText⟩, images, read⟩
      · rintro ⟨⟨⟨id, hasId, own, asId⟩, content, hasContent, text, asText⟩, images, read⟩
        exact ⟨id, hasId, content, hasContent, own, asId, images, read, text, asText⟩
  | null | bool | number | nonFinite | str | arr | call =>
      simp [readDescription, asObject, descriptionAccepts, bind, Except.bind]

def scalarAccepts : Json → Bool
  | .arr _ | .obj _ | .call => false
  | _ => true

def succeeds (json : Members) : Bool :=
  match Json.member json "result".toList with
  | some token =>
      match hold library token with
      | .ok held => held.print = "success".toList
      | .error _ => false
  | none => false

/-- Both attributes are scalars, and the id of a success is a whole number. -/
def uploadAccepts (json : Members) : Bool :=
  attrAccepts scalarAccepts json "result" && attrAccepts scalarAccepts json "id" &&
    (!succeeds library json || attrAccepts (wholeAccepts library toInt32) json "id")

theorem scalar_accepts_hold (token : Json) :
    scalarAccepts token = match hold library token with
      | .ok _ => true
      | .error _ => false := by
  cases token <;> rfl

theorem upload_of_held (result id : Held) :
    (∃ found, (if result.print = "success".toList then
        (do return some (← orElse (toWhole library toInt32) 0 id) : Except Failure (Option Int32))
      else return none) = .ok found) ↔
      (result.print = "success".toList →
        ∃ value, orElse (toWhole library toInt32) 0 id = .ok value) := by
  split_ifs with success
  · simp only [ok_bind_iff, pure, Except.pure, Except.ok.injEq, exists_eq', and_true, success,
      forall_const]
  · exact ⟨fun _ same => absurd same success, fun _ => ⟨none, rfl⟩⟩

/-- What a token holds, or something else when there is none. -/
def heldOr (other : Held) (token : Option Json) : Except Failure Held :=
  match token with
  | some token => hold library token
  | none => .ok other

theorem held_or_ok (other : Held) (obj : Members) (name : String) :
    attrAccepts scalarAccepts obj name = true ↔
      ∃ held, heldOr library other (Json.member obj name.toList) = .ok held := by
  unfold attrAccepts heldOr
  cases Json.member obj name.toList with
  | none => simp
  | some token =>
      simp only [Option.map_some, Option.getD_some, scalar_accepts_hold library token]
      cases hold library token <;> simp

theorem succeeds_held (json : Members) (result : Held)
    (held : heldOr library (.string "failure".toList) (Json.member json "result".toList) =
      .ok result) : succeeds library json = true ↔ result.print = "success".toList := by
  unfold heldOr at held
  unfold succeeds
  cases found : Json.member json "result".toList with
  | none =>
      rw [found] at held
      cases held
      exact ⟨fun never => (nomatch never), fun same => absurd same (by decide)⟩
  | some token =>
      rw [found] at held
      simp only at held
      simp only [held, decide_eq_true_eq]

theorem converts_held (json : Members) (id : Held)
    (held : heldOr library (.long 0) (Json.member json "id".toList) = .ok id) :
    Converts library (toWhole library toInt32) 0 (fun _ => True) json "id" ↔
      ∃ value, orElse (toWhole library toInt32) 0 id = .ok value := by
  unfold heldOr at held
  unfold Converts attrValue
  cases found : Json.member json "id".toList with
  | none =>
      rw [found] at held
      cases held
      exact ⟨fun _ => ⟨0, rfl⟩, fun _ => ⟨.null, rfl, 0, rfl, trivial⟩⟩
  | some token =>
      rw [found] at held
      simp only at held
      simp only [held, Except.ok.injEq, exists_eq_left', and_true]

theorem held_upload_held (json : Members) :
    heldUpload library json =
      heldOr library (.string "failure".toList) (Json.member json "result".toList) >>= fun result =>
        heldOr library (.long 0) (Json.member json "id".toList) >>= fun id =>
          if result.print = "success".toList then return some id else return none := by
  unfold heldUpload heldOr
  cases Json.member json "result".toList <;> cases Json.member json "id".toList <;> rfl

def readUpload (json : Members) : Except Failure (Option Int32) := do
  match ← heldUpload library json with
  | some id => return some (← uploadId library id)
  | none => return none

theorem read_upload (json : Members) : readUpload library json =
    match heldUpload library json with
    | .error failure => .error failure
    | .ok none => .ok none
    | .ok (some id) => (uploadId library id).map some := by
  unfold readUpload
  rcases heldUpload library json with failure | (- | id)
  · rfl
  · rfl
  · change (uploadId library id >>= fun found => pure (some found)) =
      (uploadId library id).map some
    cases uploadId library id <;> rfl

theorem read_upload_held (json : Members) :
    readUpload library json =
      heldOr library (.string "failure".toList) (Json.member json "result".toList) >>= fun result =>
        heldOr library (.long 0) (Json.member json "id".toList) >>= fun id =>
          if result.print = "success".toList then
            (do return some (← orElse (toWhole library toInt32) 0 id))
          else return none := by
  unfold readUpload
  rw [held_upload_held, bind_assoc]
  refine congrArg _ (funext fun result => ?_)
  rw [bind_assoc]
  refine congrArg _ (funext fun id => ?_)
  split_ifs
  · rfl
  · rfl

theorem read_upload_some (json : Members) (found : Option Int32)
    (read : readUpload library json = .ok found) :
    found.isSome = true ↔ succeeds library json = true := by
  simp only [read_upload_held, bind_ok_iff] at read
  obtain ⟨result, held, id, -, converted⟩ := read
  rw [succeeds_held library json result held]
  split_ifs at converted with success
  · obtain ⟨value, -, some_value⟩ := (bind_ok_iff _ _ _).mp converted
    cases some_value
    exact iff_of_true rfl success
  · cases converted
    exact iff_of_false nofun success

theorem read_upload_accepts (json : Members) :
    (∃ found, readUpload library json = .ok found) ↔ uploadAccepts library json = true := by
  have converts := converts_whole library toInt32 0 json "id"
  simp only [read_upload_held, ok_bind_iff, upload_of_held]
  unfold uploadAccepts
  rw [Bool.and_eq_true, Bool.and_eq_true, Bool.or_eq_true, ← converts,
    held_or_ok library (.string "failure".toList), held_or_ok library (.long 0)]
  have outcome (result id : Held)
      (hasResult : heldOr library (.string "failure".toList)
        (Json.member json "result".toList) = .ok result)
      (hasId : heldOr library (.long 0) (Json.member json "id".toList) = .ok id) :
      (!succeeds library json) = true ∨
          Converts library (toWhole library toInt32) 0 (fun _ => True) json "id" ↔
        (result.print = "success".toList →
          ∃ value, orElse (toWhole library toInt32) 0 id = .ok value) := by
    rw [← succeeds_held library json result hasResult, ← converts_held library json id hasId]
    cases succeeds library json <;> simp
  constructor
  · rintro ⟨result, hasResult, id, hasId, read⟩
    exact ⟨⟨⟨result, hasResult⟩, id, hasId⟩, (outcome result id hasResult hasId).mpr read⟩
  · rintro ⟨⟨⟨result, hasResult⟩, id, hasId⟩, either⟩
    exact ⟨result, hasResult, id, hasId, (outcome result id hasResult hasId).mp either⟩

end

end TfuServer
