import TfuServer.Json.Masked
import TfuServer.Server.Statements
import TfuServer.Text.Replace

/-!
# The dataset of waypoints

The console command `syncWP` puts the waypoints of a file into their table. The
fields of an item are listed twice in its statement, by position for a new row and
by name for one that is there. Printing the progress is left out.
-/

namespace TfuServer

set_option autoImplicit false

open Numeral Program
open Json (parseObject attrValue orElse toText holdNumber holdString maskText)
open Sql (Token Further Spells Field Gap Ending statementText statementTokens lexes_fixed)

/-- `Replace(@"'", "u0027")`. -/
def maskApostrophes (text : Text) : Text := Replace.replace ['\''] "u0027".toList text

theorem mask_apostrophes (text : Text) : maskApostrophes text = maskText text :=
  Replace.replace_char '\'' _ text

namespace DBManager

section
variable (library : Json.Newtonsoft)

/-- `jObj[name]?.Value<string>() ?? fallback`. -/
def attrText (obj : Members) (name fallback : String) : Except Failure Text := do
  orElse toText fallback.toList (← attrValue library obj name)

def insertQuery (obj : Members) : Except Failure Text := do
  let text := attrText library obj
  return textOfParts ["Insert Into WAYPOINT Values(".toList, ← text "id" "0", ", '".toList,
    ← text "name" "", "', ".toList, ← text "posX" "0.0", ", ".toList, ← text "posY" "0.0",
    ", ".toList, ← text "rating" "0", ", ".toList, ← text "reviewCount" "0", ", ".toList,
    ← text "type" "0", ", '".toList, ← text "originLink" "", "', ".toList, ← text "time" "0",
    ") ON DUPLICATE KEY UPDATE name = '".toList, ← text "name" "", "', posX = ".toList,
    ← text "posX" "0.0", ", posY = ".toList, ← text "posY" "0.0", ", rating = ".toList,
    ← text "rating" "0", ", reviewCount = ".toList, ← text "reviewCount" "0",
    ", type = ".toList, ← text "type" "0", ", originLink = '".toList, ← text "originLink" "",
    "', time = ".toList, ← text "time" "0", ";".toList]

end

def itemQuery (library : Json.Newtonsoft) (item : Json) : Except Failure Text := do
  insertQuery library (← asObject item)

section
variable (runtime : Runtime)

/-- The printing of the result aside, `ExecuteQuery`. -/
def executeQueryNoSpace (query : Text) : Action Unit := executeQuery runtime query

def insertItems : List Json → Action Unit
  | [] => return
  | item :: items => do
      let query ← lift (itemQuery runtime.newtonsoft item)
      executeQueryNoSpace runtime query
      insertItems items

def countQuery : Text := "Select id from WAYPOINT;".toList

/-- `JObject.Parse(file)["items"] as JArray`; what is no array is passed over. -/
def datasetItems (dataset : Members) : List Json := (asArray dataset "items").getD []

/-- `file` is what the file at the path of the dataset holds, if it exists. -/
def insertWaypointIntoDB (file : Option Text) : Action Unit := do
  match file with
  | none => return
  | some file =>
      let dataset ← lift (parseObject runtime.newtonsoft (maskApostrophes file))
      insertItems runtime (datasetItems dataset)
      let loaded ← select runtime countQuery
      let _ ← lift loaded.first
      return

end

end DBManager

def isNumberField : Option Json → Bool
  | none | some .null | some (.number _) => true
  | _ => false

def isStringField : Option Json → Bool
  | none | some .null | some (.str _) => true
  | _ => false

def numberFields : List String :=
  ["id", "posX", "posY", "rating", "reviewCount", "type", "time"]

def stringFields : List String := ["name", "originLink"]

def isItem (obj : Members) : Bool :=
  numberFields.all (fun name => isNumberField (Json.member obj name.toList)) &&
    stringFields.all fun name => isStringField (Json.member obj name.toList)

structure ItemNumbers where
  id : Floating
  posX : Floating
  posY : Floating
  rating : Floating
  reviewCount : Floating
  type : Floating
  time : Floating
  deriving DecidableEq

structure DatasetItem extends ItemNumbers where
  name : Text
  originLink : Text
  deriving DecidableEq

def zero : PrintedNumber := ⟨⟨"0".toList, by decide⟩, by decide⟩

def zeroPointZero : PrintedNumber := ⟨⟨"0.0".toList, by decide⟩, by decide⟩

section
variable (library : Json.Newtonsoft)

def numberAttr (obj : Members) (name : String) (fallback : PrintedNumber) :
    Except Failure Floating :=
  match Json.member obj name.toList with
  | some (.number numeral) =>
      match holdNumber library numeral with
      | .long n => .ok (.finite (.ofInt64 n))
      | .double value => .ok value
      | _ => .error .invalidCast
  | _ => .ok (.finite fallback)

def stringAttr (obj : Members) (name : String) : Text :=
  match Json.member obj name.toList with
  | some (.str text) => text
  | _ => []

/-- A string that is taken for a date is written as the date prints. -/
def writtenText (text : Text) : Text := (library.dateText text).getD text

def readNumbers (obj : Members) : Except Failure ItemNumbers := do
  return {
    id := ← numberAttr library obj "id" zero
    posX := ← numberAttr library obj "posX" zeroPointZero
    posY := ← numberAttr library obj "posY" zeroPointZero
    rating := ← numberAttr library obj "rating" zero
    reviewCount := ← numberAttr library obj "reviewCount" zero
    type := ← numberAttr library obj "type" zero
    time := ← numberAttr library obj "time" zero }

def readItem (obj : Members) : Except Failure DatasetItem :=
  (readNumbers library obj).map fun numbers =>
    { numbers with
      name := stringAttr obj "name"
      originLink := stringAttr obj "originLink" }

def insertText (item : DatasetItem) (name originLink : Text) : Text :=
  textOfParts ["Insert Into WAYPOINT Values(".toList, item.id.text, ", '".toList, name,
    "', ".toList, item.posX.text, ", ".toList, item.posY.text, ", ".toList, item.rating.text,
    ", ".toList, item.reviewCount.text, ", ".toList, item.type.text, ", '".toList, originLink,
    "', ".toList, item.time.text, ") ON DUPLICATE KEY UPDATE name = '".toList, name,
    "', posX = ".toList, item.posX.text, ", posY = ".toList, item.posY.text,
    ", rating = ".toList, item.rating.text, ", reviewCount = ".toList, item.reviewCount.text,
    ", type = ".toList, item.type.text, ", originLink = '".toList, originLink,
    "', time = ".toList, item.time.text, ";".toList]

theorem hold_number_cases (numeral : JsonNumber) :
    (∃ n, holdNumber library numeral = .long n) ∨
      (∃ n, holdNumber library numeral = .bigInteger n) ∨
      ∃ value, holdNumber library numeral = .double value := by
  unfold holdNumber
  cases readInt numeral.text with
  | none => exact Or.inr (Or.inr ⟨_, rfl⟩)
  | some n =>
      cases narrow : toInt64 n with
      | none => exact Or.inr (Or.inl ⟨n, by simp only [narrow]⟩)
      | some long => exact Or.inl ⟨long, by simp only [narrow]⟩

theorem attr_text_number (obj : Members) (name fallback : String) (printed : PrintedNumber)
    (same : printed.text = fallback.toList)
    (shape : isNumberField (Json.member obj name.toList) = true) :
    DBManager.attrText library obj name fallback =
      (numberAttr library obj name printed).map Floating.text := by
  unfold DBManager.attrText attrValue numberAttr
  cases found : Json.member obj name.toList with
  | none => exact (congrArg Except.ok same).symm
  | some token =>
      rw [found] at shape
      cases token with
      | null => exact (congrArg Except.ok same).symm
      | number numeral =>
          simp only [Json.hold]
          rcases hold_number_cases library numeral with ⟨n, held⟩ | ⟨n, held⟩ | ⟨value, held⟩ <;>
            rw [held] <;> rfl
      | bool | nonFinite | str | arr | obj | call => cases shape

theorem attr_text_string (obj : Members) (name : String)
    (shape : isStringField (Json.member obj name.toList) = true) :
    DBManager.attrText library obj name "" =
      .ok (writtenText library (stringAttr obj name)) := by
  have blank : writtenText library [] = [] := by
    unfold writtenText
    cases printed : library.dateText [] with
    | none => rfl
    | some text => simpa using (library.date_text_shape [] text printed).1
  unfold DBManager.attrText attrValue stringAttr
  cases found : Json.member obj name.toList with
  | none => exact (congrArg Except.ok blank).symm
  | some token =>
      rw [found] at shape
      cases token with
      | null => exact (congrArg Except.ok blank).symm
      | str text =>
          simp only [Json.hold, holdString, writtenText]
          cases library.dateText text <;> rfl
      | bool | nonFinite | number | arr | obj | call => cases shape

def DatasetItem.query (item : DatasetItem) : Text :=
  insertText item (writtenText library item.name) (writtenText library item.originLink)

theorem insert_query_item (obj : Members) (shape : isItem obj = true) :
    DBManager.insertQuery library obj =
      (readItem library obj).map (DatasetItem.query library) := by
  obtain ⟨numbers, strings⟩ := Bool.and_eq_true_iff.mp shape
  rw [List.all_eq_true] at numbers strings
  have number (name fallback : String) (printed : PrintedNumber) (within : name ∈ numberFields)
      (same : printed.text = fallback.toList) :
      DBManager.attrText library obj name fallback =
        (numberAttr library obj name printed).map Floating.text :=
    attr_text_number library obj name fallback printed same (numbers name within)
  unfold DBManager.insertQuery readItem readNumbers
  simp only [number "id" "0" zero (by decide) rfl,
    number "posX" "0.0" zeroPointZero (by decide) rfl,
    number "posY" "0.0" zeroPointZero (by decide) rfl, number "rating" "0" zero (by decide) rfl,
    number "reviewCount" "0" zero (by decide) rfl, number "type" "0" zero (by decide) rfl,
    number "time" "0" zero (by decide) rfl,
    attr_text_string library obj "name" (strings "name" (by decide)),
    attr_text_string library obj "originLink" (strings "originLink" (by decide))]
  -- Where a field cannot be converted, both end there; else both have the same fields.
  rcases numberAttr library obj "id" zero with failure | id
  · rfl
  rcases numberAttr library obj "posX" zeroPointZero with failure | posX
  · rfl
  rcases numberAttr library obj "posY" zeroPointZero with failure | posY
  · rfl
  rcases numberAttr library obj "rating" zero with failure | rating
  · rfl
  rcases numberAttr library obj "reviewCount" zero with failure | reviewCount
  · rfl
  rcases numberAttr library obj "type" zero with failure | type
  · rfl
  rcases numberAttr library obj "time" zero with failure | time
  · rfl
  · rfl

end

theorem floating_single (value : Floating) : .sym ';' ∉ floatingTokens value := by
  cases value with
  | finite number => simp [floatingTokens]
  | nonFinite kind => cases kind <;> simp [floatingTokens, word]

theorem spells_floating (value : Floating) :
    Spells (floatingTokens value) (floatingValue value) := by
  cases value with
  | finite number => exact .plain _ _ rfl
  | nonFinite kind =>
      cases kind with
      | nan | infinity => exact .plain _ _ rfl
      | negativeInfinity => exact .negated _ _ rfl

theorem spells_literal (value : Text) : Spells [literal value] (.literal value) := .plain _ _ rfl

namespace DatasetItem

section
variable (item : DatasetItem) (writtenName writtenLink name originLink : Text)

def fields : List Field := [
  ⟨.ofLexes ((lexes_fixed "Insert Into WAYPOINT Values(" [word "Insert", word "Into",
      word "WAYPOINT", word "Values", .sym '('] fun _ => rfl).append
      (lexes_floating item.id rfl (lexes_fixed ", " [comma] fun _ => rfl)))
    ⟨'I', _, rfl, by decide, by decide⟩ (by simp [word, comma, floating_single]),
    writtenName, name⟩,
  ⟨.ofLexes ((lexes_fixed ", " [comma] fun _ => rfl).append
      (lexes_floating item.posX rfl ((lexes_fixed ", " [comma] fun _ => rfl).append
        (lexes_floating item.posY rfl ((lexes_fixed ", " [comma] fun _ => rfl).append
          (lexes_floating item.rating rfl ((lexes_fixed ", " [comma] fun _ => rfl).append
            (lexes_floating item.reviewCount rfl ((lexes_fixed ", " [comma] fun _ => rfl).append
              (lexes_floating item.type rfl
                (lexes_fixed ", " [comma] fun _ => rfl)))))))))))
    ⟨',', _, rfl, by decide, by decide⟩ (by simp [comma, floating_single]),
    writtenLink, originLink⟩,
  ⟨.ofLexes ((lexes_fixed ", " [comma] fun _ => rfl).append
      (lexes_floating item.time rfl (lexes_fixed ") ON DUPLICATE KEY UPDATE name = "
        [.sym ')', word "ON", word "DUPLICATE", word "KEY", word "UPDATE", word "name", .sym '=']
        fun _ => rfl)))
    ⟨',', _, rfl, by decide, by decide⟩ (by simp [word, comma, floating_single]),
    writtenName, name⟩,
  ⟨.ofLexes ((lexes_fixed ", posX = " [comma, word "posX", .sym '='] fun _ => rfl).append
      (lexes_floating item.posX rfl
        ((lexes_fixed ", posY = " [comma, word "posY", .sym '='] fun _ => rfl).append
        (lexes_floating item.posY rfl
          ((lexes_fixed ", rating = " [comma, word "rating", .sym '='] fun _ => rfl).append
          (lexes_floating item.rating rfl
            ((lexes_fixed ", reviewCount = " [comma, word "reviewCount", .sym '=']
              fun _ => rfl).append
            (lexes_floating item.reviewCount rfl
              ((lexes_fixed ", type = " [comma, word "type", .sym '='] fun _ => rfl).append
              (lexes_floating item.type rfl (lexes_fixed ", originLink = "
                [comma, word "originLink", .sym '='] fun _ => rfl)))))))))))
    ⟨',', _, rfl, by decide, by decide⟩ (by simp [word, comma, floating_single]),
    writtenLink, originLink⟩]

def ending : Ending :=
  .ofLexes ([comma, word "time", .sym '='] ++ floatingTokens item.time)
    (by
      rw [List.append_assoc]
      exact (lexes_fixed ", time = " [comma, word "time", .sym '='] fun _ => rfl).append
        (lexes_floating item.time rfl (lexes_fixed ";" [.sym ';'] fun _ => rfl)))
    ⟨',', _, rfl, by decide, by decide⟩ (by simp [word, comma, floating_single])

def rowTokens (after : List Token) : List Token :=
  floatingTokens item.id ++ comma :: ([literal name] ++ comma ::
    (floatingTokens item.posX ++ comma :: (floatingTokens item.posY ++ comma ::
    (floatingTokens item.rating ++ comma :: (floatingTokens item.reviewCount ++ comma ::
    (floatingTokens item.type ++ comma :: ([literal originLink] ++ comma ::
    (floatingTokens item.time ++ .sym ')' :: after))))))))

def assignmentTokens : List Token :=
  word "name" :: .sym '=' :: ([literal name] ++ comma ::
    word "posX" :: .sym '=' :: (floatingTokens item.posX ++ comma ::
    word "posY" :: .sym '=' :: (floatingTokens item.posY ++ comma ::
    word "rating" :: .sym '=' :: (floatingTokens item.rating ++ comma ::
    word "reviewCount" :: .sym '=' :: (floatingTokens item.reviewCount ++ comma ::
    word "type" :: .sym '=' :: (floatingTokens item.type ++ comma ::
    word "originLink" :: .sym '=' :: ([literal originLink] ++ comma ::
    word "time" :: .sym '=' :: floatingTokens item.time)))))))

def tokens : List Token :=
  word "Insert" :: word "Into" :: word "WAYPOINT" :: word "Values" :: .sym '(' ::
    item.rowTokens name originLink (word "ON" :: word "DUPLICATE" :: word "KEY" ::
      word "UPDATE" :: item.assignmentTokens name originLink)

def values : List Sql.Value := [
  floatingValue item.id, .literal name, floatingValue item.posX, floatingValue item.posY,
  floatingValue item.rating, floatingValue item.reviewCount, floatingValue item.type,
  .literal originLink, floatingValue item.time]

def assignments : List (Text × Sql.Value) := [
  ("name".toList, .literal name), ("posX".toList, floatingValue item.posX),
  ("posY".toList, floatingValue item.posY), ("rating".toList, floatingValue item.rating),
  ("reviewCount".toList, floatingValue item.reviewCount),
  ("type".toList, floatingValue item.type), ("originLink".toList, .literal originLink),
  ("time".toList, floatingValue item.time)]

theorem insert_text : insertText item writtenName writtenLink =
    statementText (item.fields writtenName writtenLink name originLink) item.ending := by
  -- The quotes that the fixed texts start and end with.
  have before : ", '".toList = ", ".toList ++ ['\''] := rfl
  have after : "', ".toList = '\'' :: ", ".toList := rfl
  have name : ") ON DUPLICATE KEY UPDATE name = '".toList =
      ") ON DUPLICATE KEY UPDATE name = ".toList ++ ['\''] := rfl
  have posX : "', posX = ".toList = '\'' :: ", posX = ".toList := rfl
  have link : ", originLink = '".toList = ", originLink = ".toList ++ ['\''] := rfl
  have time : "', time = ".toList = '\'' :: ", time = ".toList := rfl
  simp only [insertText, textOfParts, List.flatten_cons, List.flatten_nil, List.append_nil,
    statementText, fields, ending, Gap.ofLexes, Ending.ofLexes, List.append_assoc, before, after,
    name, posX, link, time, List.cons_append, List.nil_append]
  rfl

theorem insert_tokens :
    statementTokens (item.fields writtenName writtenLink name originLink) item.ending =
      item.tokens name originLink := by
  simp only [statementTokens, fields, ending, Gap.ofLexes, Ending.ofLexes]
  unfold tokens rowTokens assignmentTokens
  simp only [List.append_assoc, List.cons_append, List.nil_append, literal]

theorem parse_row_tokens (after : List Token) :
    Sql.parseRow (item.rowTokens name originLink after) =
      some (item.values name originLink, after) := by
  unfold rowTokens comma
  simp only [Sql.parse_row_value (spells_floating _), Sql.parse_row_value (spells_literal _),
    Sql.parse_row_last (spells_floating _), Option.map_some, values]

theorem parse_assignment_tokens :
    Sql.parseAssignments (item.assignmentTokens name originLink) =
      some (item.assignments name originLink, []) := by
  unfold assignmentTokens comma word
  simp only [Sql.parse_assignment (spells_floating _), Sql.parse_assignment (spells_literal _),
    Sql.parse_assignment_last (spells_floating _), Option.map_some, assignments]

/-- It is an insert that updates the rows of its key. -/
theorem parse_tokens : Sql.parseFurther (item.tokens name originLink) =
    some (.upsert "WAYPOINT".toList (item.values name originLink)
      (item.assignments name originLink)) := by
  have keywords : (Sql.isKeyword "insert" "Insert".toList && Sql.isKeyword "into" "Into".toList &&
      Sql.isKeyword "values" "Values".toList) = true := by decide
  have duplicate : (Sql.isKeyword "on" "ON".toList &&
      Sql.isKeyword "duplicate" "DUPLICATE".toList && Sql.isKeyword "key" "KEY".toList &&
      Sql.isKeyword "update" "UPDATE".toList) = true := by decide
  unfold tokens word
  simp only [Sql.parseFurther, keywords, if_true, parse_row_tokens, Option.bind_eq_bind,
    Option.bind_some, Sql.parseOnDuplicate, duplicate, parse_assignment_tokens]

theorem parse_tokens_plain : Sql.parseStatement (item.tokens name originLink) = none := by
  have open_ (after : List Token) (next : Token) :
      Sql.parseValues (item.rowTokens name originLink (next :: after)) = none := by
    unfold rowTokens comma
    simp only [Sql.parse_values_value (spells_floating _),
      Sql.parse_values_value (spells_literal _), Sql.parse_values_open (spells_floating _),
      Option.map_none]
  have insert (rest : List Token) :
      Sql.parseStatement (word "Insert" :: word "Into" :: word "WAYPOINT" :: word "Values" ::
        .sym '(' :: rest) = (Sql.parseValues rest).map (.insert "WAYPOINT".toList) := rfl
  rw [tokens, insert, open_]
  rfl

/-- Whatever the literals hold, the statement is the intended one if they decode so. -/
theorem read_iff (names : Sql.Determined writtenName name)
    (links : Sql.Determined writtenLink originLink) :
    Sql.readStatements (insertText item writtenName writtenLink) =
        some [item.tokens name originLink] ↔
      Sql.decodeLiteral writtenName = some name ∧
        Sql.decodeLiteral writtenLink = some originLink := by
  refine (Sql.read_builder_iff (item.insert_text writtenName writtenLink name originLink)
    (item.insert_tokens _ _ _ _) (List.cons_ne_nil _ _) ?_).trans ?_
  · simp only [fields, List.forall_mem_cons, List.not_mem_nil, false_implies, implies_true,
      and_true]
    exact ⟨names, links, names, links⟩
  · simp only [fields, List.forall_mem_cons, List.not_mem_nil, false_implies, implies_true,
      and_true]
    tauto

end
end DatasetItem

end TfuServer
