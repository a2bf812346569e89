import TfuServer.Server.Uploads

/-!
# Stored documents read again

What the program gets when it parses a document that it stored earlier. The
waypoints of a schedule are written under capitalised names and looked up under
others, so each comes back with every attribute at its default. The descriptions
of a shared schedule are looked up as they were written.
-/

namespace TfuServer

set_option autoImplicit false

open Numeral
open Json (Newtonsoft Held readBody stored survives attrValue orElse toWhole toText hold parseArray
  parseInteger parseToken)

theorem drop_while_none {drop : Char → Bool} (text : Text) (kept : ∀ c ∈ text, drop c = false) :
    text.dropWhile drop = text := by
  cases text with
  | nil => rfl
  | cons c rest => rw [List.dropWhile_cons, kept c (by simp), if_neg Bool.false_ne_true]

theorem trim_none {drop : Char → Bool} (text : Text) (kept : ∀ c ∈ text, drop c = false) :
    Json.trim drop text = text := by
  unfold Json.trim
  rw [drop_while_none text kept, drop_while_none text.reverse, List.reverse_reverse]
  intro c member
  exact kept c (List.mem_reverse.mp member)

theorem trim_end_none {drop : Char → Bool} (text : Text) (kept : ∀ c ∈ text, drop c = false) :
    Json.trimEnd drop text = text := by
  unfold Json.trimEnd
  rw [drop_while_none text.reverse, List.reverse_reverse]
  intro c member
  exact kept c (List.mem_reverse.mp member)

theorem trimmed_bare {text : Text} (kept : ∀ c ∈ text, Json.isBlank c = false ∧ c ≠ '\x00') :
    Json.trim Json.isBlank (Json.trimEnd (· == '\x00') text) = text := by
  rw [trim_end_none text fun c member => beq_eq_false_iff_ne.mpr (kept c member).2,
    trim_none text fun c member => (kept c member).1]

theorem digit_not_blank (c : Char) (digit : c.isDigit = true) : Json.isBlank c = false := by
  simp only [Char.isDigit, Bool.and_eq_true, decide_eq_true_eq, ge_iff_le, UInt32.le_iff_toNat_le]
    at digit
  have low : 48 ≤ c.toNat := digit.1
  have space : c ≠ ' ' := by
    rintro rfl
    exact absurd low (by decide)
  simp only [Json.isBlank, Bool.or_eq_false_iff, beq_eq_false_iff_ne, ne_eq, space,
    not_false_eq_true, Bool.and_eq_false_iff, decide_eq_false_iff_not, true_and]
  exact Or.inr (by omega)

theorem to_digits_bare (n : Nat) :
    ∀ c ∈ Nat.toDigits 10 n, Json.isBlank c = false ∧ c ≠ '\x00' := by
  intro c member
  have digit : c.isDigit = true := Nat.isDigit_of_mem_toDigits (by decide) (by decide) member
  refine ⟨digit_not_blank c digit, ?_⟩
  rintro rfl
  exact absurd digit (by decide)

theorem parse_integer_text (n : Int) : parseInteger (intText n) = some n := by
  unfold parseInteger
  cases n with
  | ofNat n =>
      rw [intText, trimmed_bare (to_digits_bare n)]
      have digits := read_nat_to_digits n
      cases shape : Nat.toDigits 10 n with
      | nil => exact absurd shape Nat.toDigits_ne_nil
      | cons c rest =>
          have digit : c.isDigit = true :=
            Nat.isDigit_of_mem_toDigits (by decide) (by decide) (shape ▸ List.mem_cons_self)
          have minus : c ≠ '-' := by
            rintro rfl
            exact absurd digit (by decide)
          have plus : c ≠ '+' := by
            rintro rfl
            exact absurd digit (by decide)
          rw [shape] at digits
          split
          · rename_i same
            exact absurd (List.cons.inj same).1 minus
          · rename_i same
            exact absurd (List.cons.inj same).1 plus
          · rw [digits]
            rfl
  | negSucc n =>
      have kept : ∀ c ∈ '-' :: Nat.toDigits 10 (n + 1), Json.isBlank c = false ∧ c ≠ '\x00' := by
        intro c member
        rcases List.mem_cons.mp member with rfl | digit
        · exact ⟨rfl, by decide⟩
        · exact to_digits_bare _ c digit
      rw [intText, trimmed_bare kept]
      simp only [read_nat_to_digits, Int.negSucc_eq]
      rfl

section
variable (library : Newtonsoft)

theorem hold_int32 (n : Int32) :
    hold library (.number (.ofInt n.toInt)) = .ok (.long n.toInt64) := by
  have whole := Json.hold_number_int library n.toInt64
  rw [Int32.toInt_toInt64] at whole
  rw [hold, whole]

theorem whole_of_int32 (n fallback : Int32) :
    orElse (toWhole library toInt32) fallback (.long n.toInt64) = .ok n := by
  simp [orElse, toWhole, Json.inRange, Except.map]

theorem parse_token_int32 (n : Int32) :
    parseToken library (.number (.ofInt n.toInt)) = .ok n := by
  simp [parseToken, hold_int32, Held.print, parse_integer_text]

end

section
variable (library : Newtonsoft) (encoder : Json.JavaScriptEncoder) (layout : Layout)

/-- The string that comes back for a stored one, if any does. -/
def storedRead (text : Text) : Option Text := readBody .newtonsoft (stored encoder text)

theorem parse_array_stored (items : List Document)
    (fits : Json.readableItems .newtonsoft 1 items = true) :
    parseArray library (storedDocument encoder layout (.arr items)) =
      if ∀ text ∈ Json.itemStrings items, (storedRead encoder text).isSome = true then
        .ok (Json.itemsToJson (fun text => (storedRead encoder text).getD []) items)
      else .error .jsonReader := by
  have whole : Json.readable .newtonsoft 0 (.arr items) = true := by
    simp [Json.readable, Json.depthAllowed, Json.maxDepth, fits]
  have outcome := Json.read_written .newtonsoft (Json.storedSpelling encoder) layout _ whole
  unfold parseArray storedDocument
  split_ifs with every
  · rw [Json.read_back_changed .newtonsoft _ (fun text => (storedRead encoder text).getD []) _
      fun text member => ?_] at outcome
    · rw [library.parse_value _ _ outcome]
      rfl
    · obtain ⟨back, read⟩ := Option.isSome_iff_exists.mp (every text member)
      rw [read]
      exact read
  · obtain ⟨text, lost⟩ := not_forall.mp every
    obtain ⟨member, unread⟩ := Classical.not_imp.mp lost
    have refused : storedRead encoder text = none := Option.not_isSome_iff_eq_none.mp unread
    rw [Json.read_back_refused .newtonsoft (Json.storedSpelling encoder) (.arr items) text member
      refused] at outcome
    rw [library.parse_malformed _ outcome]

def Waypoint.blank : Waypoint :=
  ⟨0, [], .finite (.ofInt32 0), .finite (.ofInt32 0), .ofInt32 0, 0, 0, [], 0⟩

/-- None of the nine attributes is looked up under the name it was written with. -/
theorem read_written_waypoint (change : Text → Text) (waypoint : Waypoint) (item : Document)
    (written : waypoint.document = .ok item) :
    readWaypoint library (Json.toJson change item) = .ok .blank := by
  cases posX : floatingDocument waypoint.posX with
  | error failure => simp [Waypoint.document, posX, bind, Except.bind] at written
  | ok xNumber =>
      cases posY : floatingDocument waypoint.posY with
      | error failure => simp [Waypoint.document, posX, posY, bind, Except.bind] at written
      | ok yNumber =>
          simp only [Waypoint.document, posX, posY, bind, Except.bind, pure, Except.pure,
            Except.ok.injEq] at written
          subst written
          rfl

theorem read_written_waypoints (change : Text → Text) (waypoints : List Waypoint)
    (items : List Document)
    (each : List.Forall₂ (fun waypoint item => Waypoint.document waypoint = .ok item) waypoints
      items) :
    (Json.itemsToJson change items).mapM (readWaypoint library) =
      .ok (waypoints.map fun _ => .blank) := by
  induction each with
  | nil => rfl
  | @cons waypoint item waypoints items written rest ih =>
      rw [Json.itemsToJson, List.mapM_cons,
        read_written_waypoint library change waypoint item written,
        ih]
      rfl

/-- Stored waypoints come back blank when each of their strings can be read, and not at all
otherwise. -/
theorem reload_waypoints (waypoints : List Waypoint) (whole : Document)
    (written : listDocument Waypoint.document waypoints = .ok whole) :
    (do
      let jarr ← parseArray library (storedDocument encoder layout whole)
      jarr.mapM (readWaypoint library)) =
      if ∀ text ∈ waypoints.flatMap Waypoint.texts, (storedRead encoder text).isSome = true then
        .ok (waypoints.map fun _ => .blank)
      else .error .jsonReader := by
  obtain ⟨items, rfl, each⟩ := (list_document_iff _ _ _).mp written
  obtain ⟨fits, texts⟩ := list_items_shape .newtonsoft _ _
    (waypoint_document_shape .newtonsoft) waypoints items each
  rw [parse_array_stored library encoder layout items fits, texts]
  split_ifs
  · exact read_written_waypoints library _ waypoints items each
  · rfl

/-- The string an attribute gives: a date prints in its own way. -/
def heldText (text : Text) : Text := (library.dateText text).getD text

theorem text_of_hold (text : Text) :
    orElse toText [] (Json.holdString library text) = .ok (heldText library text) := by
  unfold Json.holdString heldText
  cases library.dateText text <;> rfl

theorem read_written_images (images : Vector Int32 3) (members : Members)
    (found : asArray members "WaypointImgId" = some
      (images.toList.map fun id => Json.number (.ofInt id.toInt))) :
    readImages library members "WaypointImgId" = .ok images := by
  obtain ⟨⟨list⟩, size⟩ := images
  match list, size with
  | [first, second, third], _ =>
      simp only [readImages, found]
      simp only [itemInt, Vector.toList_mk, List.map_cons, List.map_nil, List.getElem?_cons_zero,
        List.getElem?_cons_succ, parse_token_int32]
      rfl

theorem images_to_json (change : Text → Text) (images : List Int32) :
    Json.itemsToJson change (images.map fun id => wholeDocument id.toInt) =
      images.map fun id => Json.number (.ofInt id.toInt) := by
  induction images with
  | nil => rfl
  | cons id images ih => rw [List.map_cons, Json.itemsToJson, ih]; rfl

def WaypointDescription.withContent (description : WaypointDescription) (content : Text) :
    WaypointDescription :=
  { description with waypointContent := content }

theorem read_written_description (change : Text → Text) (description : WaypointDescription) :
    readDescription library "WaypointId" "WaypointContent" "WaypointImgId"
      (Json.toJson change description.document) =
        .ok (description.withContent (heldText library (change description.waypointContent))) := by
  have written : Json.toJson change description.document = .obj
      [("WaypointId".toList, .number (.ofInt description.waypointId.toInt)),
        ("WaypointImgId".toList,
          .arr (description.waypointImgId.toList.map fun id => .number (.ofInt id.toInt))),
        ("WaypointContent".toList, .str (change description.waypointContent))] := by
    rw [← images_to_json change]
    rfl
  rw [written]
  generalize shape : [("WaypointId".toList, Json.number (.ofInt description.waypointId.toInt)),
    ("WaypointImgId".toList,
      Json.arr (description.waypointImgId.toList.map fun id => .number (.ofInt id.toInt))),
    ("WaypointContent".toList, Json.str (change description.waypointContent))] = members
  have id : attrValue library members "WaypointId" =
      .ok (.long description.waypointId.toInt64) := by
    subst shape
    exact hold_int32 library description.waypointId
  have content : attrValue library members "WaypointContent" =
      .ok (Json.holdString library (change description.waypointContent)) := by
    subst shape
    rfl
  have images : readImages library members "WaypointImgId" = .ok description.waypointImgId := by
    apply read_written_images
    subst shape
    rfl
  simp only [readDescription, asObject, bind, Except.bind, id, content, whole_of_int32, images,
    text_of_hold, pure, Except.pure]
  rfl

theorem read_written_descriptions (change : Text → Text)
    (descriptions : List WaypointDescription) :
    (Json.itemsToJson change (descriptions.map WaypointDescription.document)).mapM
        (readDescription library "WaypointId" "WaypointContent" "WaypointImgId") =
      .ok (descriptions.map fun description =>
        description.withContent (heldText library (change description.waypointContent))) := by
  induction descriptions with
  | nil => rfl
  | cons description descriptions ih =>
      rw [List.map_cons, Json.itemsToJson, List.mapM_cons, read_written_description, ih]
      rfl

/-- Stored descriptions come back with the texts that are read for theirs, or not at all. -/
theorem reload_descriptions (sch : SharedSchedule) :
    (do
      let jarr ← parseArray library
        (storedDocument encoder layout (ScheduleManager.descriptionsDocument sch))
      jarr.mapM (readDescription library "WaypointId" "WaypointContent" "WaypointImgId")) =
      if ∀ description ∈ sch.descriptionList,
          (storedRead encoder description.waypointContent).isSome = true then
        .ok (sch.descriptionList.map fun description => description.withContent
          (heldText library ((storedRead encoder description.waypointContent).getD [])))
      else .error .jsonReader := by
  obtain ⟨fits, texts⟩ := descriptions_document .newtonsoft 1 (by decide) sch.descriptionList
  rw [ScheduleManager.descriptionsDocument, parse_array_stored library encoder layout _ fits, texts]
  simp only [List.forall_mem_map]
  split_ifs
  · exact read_written_descriptions library _ sch.descriptionList
  · rfl

end

end TfuServer
