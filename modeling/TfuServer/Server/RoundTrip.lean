import Mathlib.Data.List.Nodup
import TfuServer.Server.Import
import TfuServer.Server.Search

/-!
# From the dataset to a client

What a search without a keyword answers after an import into an empty table: one
waypoint for each item. A waypoint has no time of its own, since the column is not
read; the other fields come back, but for strings that are taken for dates and for
ratings that a double does not keep.
-/

namespace TfuServer

set_option autoImplicit false

open Numeral Program
open Json (Newtonsoft)
open Sql (Cell Row DataRow Settings coerce insertCells firstKey)

section
variable (settings : Settings)

theorem non_finite_no_cell (type : Sql.ColumnType) (notBool : type ≠ .bool)
    (kind : NonFinite) : coerce settings type (floatingValue (.nonFinite kind)) = none := by
  cases type with
  | bool => exact absurd rfl notBool
  | int | bigint | real | decimal | text | date => cases kind <;> rfl

theorem coerce_int_floating (value : Floating) (cell : Cell) :
    coerce settings .int (floatingValue value) = some cell →
      ∃ number n, value = .finite number ∧ cell = .int n ∧
        settings.whole number.text = some n.toInt := by
  intro coerced
  cases value with
  | nonFinite kind => rw [non_finite_no_cell settings .int (by decide)] at coerced; cases coerced
  | finite number =>
      simp only [floatingValue, coerce, Option.bind_eq_some_iff, Option.map_eq_some_iff] at coerced
      obtain ⟨n, whole, narrow, fits, rfl⟩ := coerced
      exact ⟨number, narrow, rfl, rfl, by rw [whole, to_int32_some n narrow fits]⟩

theorem coerce_number_floating (type : Sql.ColumnType) (make : JsonNumber → Cell)
    (kind : type = .real ∧ make = .real ∨ type = .decimal ∧ make = .decimal) (value : Floating)
    (cell : Cell) (coerced : coerce settings type (floatingValue value) = some cell) :
    ∃ number : PrintedNumber, value = .finite number ∧ cell = make number.toJsonNumber := by
  cases value with
  | nonFinite word =>
      rw [non_finite_no_cell settings type (by rcases kind with ⟨rfl, -⟩ | ⟨rfl, -⟩ <;> decide)]
        at coerced
      cases coerced
  | finite number =>
      have cellOf : Sql.numberCell make number.text = some (make number.toJsonNumber) := by
        simp [Sql.numberCell, number.wellFormed]
      refine ⟨number, rfl, ?_⟩
      rcases kind with ⟨rfl, rfl⟩ | ⟨rfl, rfl⟩ <;>
        exact (Option.some.inj (cellOf.symm.trans coerced)).symm

structure StoredItem where
  id : Int32
  name : Text
  posX : PrintedNumber
  posY : PrintedNumber
  rating : PrintedNumber
  reviewCount : Int32
  type : Int32
  originLink : Text
  time : Int32

def StoredItem.cells (stored : StoredItem) : List Cell := [
  .int stored.id, .text stored.name, .real stored.posX.toJsonNumber,
  .real stored.posY.toJsonNumber, .decimal stored.rating.toJsonNumber, .int stored.reviewCount,
  .int stored.type, .text stored.originLink, .int stored.time]

def StoresWhole (value : Floating) (n : Int32) : Prop :=
  ∃ number, value = .finite number ∧ settings.whole number.text = some n.toInt

structure StoredItem.Holds (library : Newtonsoft) (own : DatasetItem) (stored : StoredItem) :
    Prop where
  id : StoresWhole settings own.id stored.id
  name : stored.name = writtenText library own.name
  posX : own.posX = .finite stored.posX
  posY : own.posY = .finite stored.posY
  rating : own.rating = .finite stored.rating
  reviewCount : StoresWhole settings own.reviewCount stored.reviewCount
  type : StoresWhole settings own.type stored.type
  originLink : stored.originLink = writtenText library own.originLink
  time : StoresWhole settings own.time stored.time

end

section
variable (runtime : Runtime)

theorem stored_of_row (own : DatasetItem) (row : Row (schema.columns .waypoint))
    (inserted : own.row runtime = some row) :
    ∃ stored : StoredItem, row.cells = stored.cells ∧
      stored.Holds runtime.settings runtime.newtonsoft own := by
  have cells : insertCells runtime.settings TableName.waypoint.columns (own.written runtime) =
      some row.cells := (Sql.insert_row_some runtime.settings _ _ row).mp inserted
  generalize row.cells = found at cells ⊢
  rw [TableName.columns, DatasetItem.written, DatasetItem.values] at cells
  obtain ⟨_, _, idCell, afterId, rfl⟩ := (Sql.insert_cells_cons _ _ _ _ _ _).mp cells
  obtain ⟨_, _, nameCell, afterName, rfl⟩ := (Sql.insert_cells_cons _ _ _ _ _ _).mp afterId
  obtain ⟨_, _, xCell, afterX, rfl⟩ := (Sql.insert_cells_cons _ _ _ _ _ _).mp afterName
  obtain ⟨_, _, yCell, afterY, rfl⟩ := (Sql.insert_cells_cons _ _ _ _ _ _).mp afterX
  obtain ⟨_, _, ratingCell, afterRating, rfl⟩ := (Sql.insert_cells_cons _ _ _ _ _ _).mp afterY
  obtain ⟨_, _, countCell, afterCount, rfl⟩ := (Sql.insert_cells_cons _ _ _ _ _ _).mp afterRating
  obtain ⟨_, _, typeCell, afterType, rfl⟩ := (Sql.insert_cells_cons _ _ _ _ _ _).mp afterCount
  obtain ⟨_, _, linkCell, afterLink, rfl⟩ := (Sql.insert_cells_cons _ _ _ _ _ _).mp afterType
  obtain ⟨_, _, timeCell, afterTime, rfl⟩ := (Sql.insert_cells_cons _ _ _ _ _ _).mp afterLink
  obtain rfl := Option.some.inj afterTime
  obtain ⟨idNumber, id, ownId, rfl, wholeId⟩ := coerce_int_floating _ _ _ idCell
  obtain rfl := Option.some.inj nameCell
  obtain ⟨posX, ownX, rfl⟩ := coerce_number_floating _ _ _ (Or.inl ⟨rfl, rfl⟩) _ _ xCell
  obtain ⟨posY, ownY, rfl⟩ := coerce_number_floating _ _ _ (Or.inl ⟨rfl, rfl⟩) _ _ yCell
  obtain ⟨rating, ownRating, rfl⟩ :=
    coerce_number_floating _ _ _ (Or.inr ⟨rfl, rfl⟩) _ _ ratingCell
  obtain ⟨countNumber, count, ownCount, rfl, wholeCount⟩ := coerce_int_floating _ _ _ countCell
  obtain ⟨typeNumber, type, ownType, rfl, wholeType⟩ := coerce_int_floating _ _ _ typeCell
  obtain rfl := Option.some.inj linkCell
  obtain ⟨timeNumber, time, ownTime, rfl, wholeTime⟩ := coerce_int_floating _ _ _ timeCell
  exact ⟨⟨id, _, posX, posY, rating, count, type, _, time⟩, rfl, {
    id := ⟨idNumber, ownId, wholeId⟩
    name := rfl
    posX := ownX
    posY := ownY
    rating := ownRating
    reviewCount := ⟨countNumber, ownCount, wholeCount⟩
    type := ⟨typeNumber, ownType, wholeType⟩
    originLink := rfl
    time := ⟨timeNumber, ownTime, wholeTime⟩ }⟩

/-- The waypoint that is read from the row, with its positions as they are parsed. -/
def StoredItem.waypoint (stored : StoredItem) (posX posY : PrintedNumber) : Waypoint where
  id := stored.id
  name := stored.name
  posX := .finite posX
  posY := .finite posY
  rating := stored.rating
  reviewCount := stored.reviewCount
  type := stored.type
  originLink := stored.originLink
  time := 0

theorem convert_stored (library : Newtonsoft) (stored : StoredItem) (posX posY : PrintedNumber)
    (parsedX : library.parseDouble stored.posX.text = some (.finite posX))
    (parsedY : library.parseDouble stored.posY.text = some (.finite posY)) :
    convertDataRowToWaypoint library ⟨TableName.waypoint.columns, stored.cells⟩ =
      .ok (stored.waypoint posX posY) := by
  have x : parseCell library (.real stored.posX.toJsonNumber) = .ok (.finite posX) := by
    rw [parseCell, printCell, parsedX]
  have y : parseCell library (.real stored.posY.toJsonNumber) = .ok (.finite posY) := by
    rw [parseCell, printCell, parsedY]
  have rating : castDecimal (.decimal stored.rating.toJsonNumber) = .ok stored.rating := by
    rw [castDecimal, dif_pos stored.rating.short]
  change (do
    return {
      id := ← castInt (.int stored.id)
      name := ← castText (.text stored.name)
      posX := ← parseCell library (.real stored.posX.toJsonNumber)
      posY := ← parseCell library (.real stored.posY.toJsonNumber)
      rating := ← castDecimal (.decimal stored.rating.toJsonNumber)
      reviewCount := ← castInt (.int stored.reviewCount)
      type := ← castInt (.int stored.type)
      originLink := ← castText (.text stored.originLink)
      time := 0 : Waypoint }) = _
  rw [x, y, rating]
  rfl

def StoredItem.answer (stored : StoredItem) (posX posY : PrintedNumber) : Members := [
  ("ID".toList, .number (.ofInt stored.id.toInt)),
  ("Name".toList, .str (restoreApostrophes stored.name)),
  ("PosX".toList, .number posX.toJsonNumber),
  ("PosY".toList, .number posY.toJsonNumber),
  ("Rating".toList, .number stored.rating.toJsonNumber),
  ("ReviewCount".toList, .number (.ofInt stored.reviewCount.toInt)),
  ("Type".toList, .number (.ofInt stored.type.toInt)),
  ("OriginLink".toList, .str (restoreApostrophes stored.originLink)),
  ("Time".toList, .number (.ofInt 0))]

theorem stored_document (stored : StoredItem) (posX posY : PrintedNumber) :
    ∃ document, (stored.waypoint posX posY).document = .ok document ∧
      Json.toJson restoreApostrophes document = .obj (stored.answer posX posY) :=
  ⟨_, rfl, rfl⟩

def wholeAttr (obj : Members) (name : String) : Option Int :=
  match Json.member obj name.toList with
  | some (.number numeral) => readInt numeral.text
  | none | some .null => some 0
  | _ => none

def ratingValue (obj : Members) : ℚ :=
  match Json.member obj "rating".toList with
  | some (.number numeral) => numeral.value
  | _ => 0

def wholeFields : List (String × String) :=
  [("id", "ID"), ("reviewCount", "ReviewCount"), ("type", "Type"), ("time", "Time")]

structure Answers (obj : Members) (answer : Members) : Prop where
  whole : ∀ field ∈ wholeFields, Json.member answer field.2.toList =
    (wholeAttr obj field.1).map fun n => .number (.ofInt n)
  name : Json.member answer "Name".toList = some (.str (stringAttr obj "name"))
  originLink : Json.member answer "OriginLink".toList = some (.str (stringAttr obj "originLink"))
  rating : ∃ numeral : JsonNumber, Json.member answer "Rating".toList = some (.number numeral) ∧
    numeral.value = ratingValue obj

/-- The time is zero, the strings are no dates, and the rating prints as the number it is. -/
structure KeptByRow (library : Newtonsoft) (obj : Members) : Prop where
  time : wholeAttr obj "time" = some 0
  undated : ∀ name ∈ stringFields, library.dateText (stringAttr obj name) = none
  rating : ∀ printed, numberAttr library obj "rating" zero = .ok (.finite printed) →
    printed.value = ratingValue obj

section
variable (library : Newtonsoft) (obj : Members)

theorem read_item_numbers (own : DatasetItem) (decoded : readItem library obj = .ok own) :
    numberAttr library obj "id" zero = .ok own.id ∧
      numberAttr library obj "posX" zeroPointZero = .ok own.posX ∧
      numberAttr library obj "posY" zeroPointZero = .ok own.posY ∧
      numberAttr library obj "rating" zero = .ok own.rating ∧
      numberAttr library obj "reviewCount" zero = .ok own.reviewCount ∧
      numberAttr library obj "type" zero = .ok own.type ∧
      numberAttr library obj "time" zero = .ok own.time := by
  unfold readItem at decoded
  cases numbers : readNumbers library obj with
  | error failure => simp [numbers, Except.map] at decoded
  | ok own =>
      rw [numbers] at decoded
      cases decoded
      simp only [readNumbers, bind_ok_iff, pure, Except.pure, Except.ok.injEq] at numbers
      obtain ⟨id, hasId, posX, hasX, posY, hasY, rating, hasRating, count, hasCount, type, hasType,
        time, hasTime, rfl⟩ := numbers
      exact ⟨hasId, hasX, hasY, hasRating, hasCount, hasType, hasTime⟩

theorem whole_attr_printed (name : String) (n : Int) (value : Floating)
    (whole : wholeAttr obj name = some n) (attr : numberAttr library obj name zero = .ok value) :
    ∃ printed, value = .finite printed ∧ printed.text = intText n := by
  unfold wholeAttr at whole
  unfold numberAttr at attr
  cases found : Json.member obj name.toList with
  | none =>
      rw [found] at whole attr
      cases attr
      obtain rfl := Option.some.inj whole
      exact ⟨zero, rfl, rfl⟩
  | some token =>
      rw [found] at whole attr
      cases token with
      | null =>
          cases attr
          obtain rfl := Option.some.inj whole
          exact ⟨zero, rfl, rfl⟩
      | number numeral =>
          simp only [Json.holdNumber, whole] at attr
          cases narrow : toInt64 n with
          | none => simp [narrow] at attr
          | some long =>
              simp only [narrow, Except.ok.injEq] at attr
              refine ⟨.ofInt64 long, attr.symm, ?_⟩
              rw [← to_int64_some n long narrow]
              rfl
      | bool | nonFinite | str | arr | obj | call => cases whole

theorem stores_whole (settings : Settings) (name : String) (n : Int) (value : Floating)
    (stored : Int32) (whole : wholeAttr obj name = some n)
    (attr : numberAttr library obj name zero = .ok value)
    (stores : StoresWhole settings value stored) : stored.toInt = n := by
  obtain ⟨printed, rfl, text⟩ := whole_attr_printed library obj name n value whole attr
  obtain ⟨number, same, found⟩ := stores
  obtain rfl := Floating.finite.inj same
  rw [text, Sql.whole_int_text] at found
  exact (Option.some.inj found).symm

/-- A date that is answered is not the string that was taken for it. -/
theorem restored_date_ne (text printed : Text) (taken : library.dateText text = some printed) :
    restoreApostrophes printed ≠ text := by
  intro same
  obtain ⟨marked, letter, start⟩ := library.date_text_shape text printed taken
  rcases marked with time | slashed
  · rw [← same] at time
    rcases Replace.replace_chars _ _ _ _ time with new | old
    · exact absurd new (by decide)
    · exact letter old
  · rw [← same] at slashed
    cases printed with
    | nil => cases slashed
    | cons c rest =>
        by_cases found : mark <+: c :: rest
        · obtain ⟨after, whole⟩ := found
          rw [← whole, restore_mark] at slashed
          cases slashed
        · rw [restore_kept c rest found] at slashed
          exact start slashed

theorem restored_text_iff (text : Text) (unmarked : ¬mark <:+: text) :
    restoreApostrophes (writtenText library text) = text ↔ library.dateText text = none := by
  unfold writtenText
  cases taken : library.dateText text with
  | none => exact ⟨fun _ => rfl, fun _ => Replace.replace_absent _ _ text unmarked⟩
  | some printed =>
      exact iff_of_false (restored_date_ne library text printed taken) nofun

theorem answers_iff (settings : Settings) (own : DatasetItem) (stored : StoredItem)
    (posX posY : PrintedNumber) (decoded : readItem library obj = .ok own)
    (holds : stored.Holds settings library own)
    (whole : ∀ field ∈ wholeFields, ∃ n, wholeAttr obj field.1 = some n)
    (unmarked : ∀ name ∈ stringFields, ¬mark <:+: stringAttr obj name) :
    Answers obj (stored.answer posX posY) ↔ KeptByRow library obj := by
  obtain ⟨id, -, -, rating, count, type, -⟩ := read_item_numbers library obj own decoded
  obtain ⟨nameShape, linkShape⟩ := read_item_strings library obj own decoded
  have name := restored_text_iff library _ (unmarked "name" (by decide))
  have link := restored_text_iff library _ (unmarked "originLink" (by decide))
  rw [← nameShape, ← holds.name] at name
  rw [← linkShape, ← holds.originLink] at link
  have ratingIff : stored.rating.value = ratingValue obj ↔
      ∀ printed, numberAttr library obj "rating" zero = .ok (.finite printed) →
        printed.value = ratingValue obj := by
    rw [rating, holds.rating]
    simp only [Except.ok.injEq, Floating.finite.injEq, forall_eq']
  have number (n m : Int) : JsonNumber.ofInt n = .ofInt m ↔ n = m := by
    constructor
    · intro same
      exact int_text_injective (congrArg JsonNumber.text same)
    · exact congrArg _
  constructor
  · rintro ⟨wholes, names, links, numeral, found, value⟩
    refine ⟨?_, ?_, ?_⟩
    · obtain ⟨n, time⟩ := whole ("time", "Time") (by decide)
      have same := wholes ("time", "Time") (by decide)
      rw [time] at same ⊢
      have zeroTime : JsonNumber.ofInt 0 = .ofInt n :=
        Json.number.inj (Option.some.inj same)
      rw [← (number 0 n).mp zeroTime]
    · rw [stringFields, List.forall_mem_cons, List.forall_mem_singleton, ← nameShape, ← linkShape]
      refine ⟨name.mp ?_, link.mp ?_⟩
      · rw [nameShape]
        exact Json.str.inj (Option.some.inj names)
      · rw [linkShape]
        exact Json.str.inj (Option.some.inj links)
    · apply ratingIff.mp
      rw [← value]
      exact congrArg JsonNumber.value (Json.number.inj (Option.some.inj found))
  · rintro ⟨time, undated, kept⟩
    have stores (field : String × String) (within : field ∈ wholeFields) (value : Floating)
        (n : Int32) (attr : numberAttr library obj field.1 zero = .ok value)
        (held : StoresWhole settings value n) :
        (wholeAttr obj field.1).map (fun n => Json.number (.ofInt n)) =
          some (.number (.ofInt n.toInt)) := by
      obtain ⟨m, wholeShape⟩ := whole field within
      rw [wholeShape, stores_whole library obj settings field.1 m value n wholeShape attr held]
      rfl
    refine ⟨?_, ?_, ?_, stored.rating.toJsonNumber, rfl, ratingIff.mpr kept⟩
    · rw [wholeFields]
      simp only [List.forall_mem_cons, List.not_mem_nil, false_implies, implies_true, and_true]
      refine ⟨?_, ?_, ?_, ?_⟩
      · exact (stores ("id", "ID") (by decide) _ _ id holds.id).symm
      · exact (stores ("reviewCount", "ReviewCount") (by decide) _ _ count holds.reviewCount).symm
      · exact (stores ("type", "Type") (by decide) _ _ type holds.type).symm
      · rw [time]
        rfl
    · rw [← nameShape, ← name.mpr (by rw [nameShape]; exact undated "name" (by decide))]
      rfl
    · rw [← linkShape, ← link.mpr (by rw [linkShape]; exact undated "originLink" (by decide))]
      rfl

end

/-- `double.Parse` reads what a position prints as. -/
structure ParsesPrinted (library : Newtonsoft) : Prop where
  double : ∀ numeral printed, library.roundDouble numeral = .finite printed →
    ∃ again, library.parseDouble printed.text = some (.finite again)
  long : ∀ n : Int64, ∃ again, library.parseDouble (intText n.toInt) = some (.finite again)
  zero : ∃ again, library.parseDouble zeroPointZero.text = some (.finite again)

theorem position_parses (library : Newtonsoft) (parses : ParsesPrinted library) (obj : Members)
    (name : String) (printed : PrintedNumber)
    (attr : numberAttr library obj name zeroPointZero = .ok (.finite printed)) :
    ∃ again, library.parseDouble printed.text = some (.finite again) := by
  have default (same : Except.ok (.finite zeroPointZero) =
      (.ok (.finite printed) : Except Failure Floating)) :
      ∃ again, library.parseDouble printed.text = some (.finite again) := by
    cases same
    exact parses.zero
  unfold numberAttr at attr
  cases found : Json.member obj name.toList with
  | none =>
      rw [found] at attr
      exact default attr
  | some token =>
      rw [found] at attr
      cases token with
      | number numeral =>
          simp only at attr
          rcases hold_number_cases library numeral with ⟨n, held⟩ | ⟨n, held⟩ | ⟨value, held⟩
          · rw [held] at attr
            cases attr
            exact parses.long n
          · rw [held] at attr
            cases attr
          · have rounded : library.roundDouble numeral = value := by
              unfold Json.holdNumber at held
              split at held
              · split at held <;> cases held
              · exact Json.Held.double.inj held
            rw [held] at attr
            cases attr
            exact parses.double numeral printed rounded
      | null | bool | nonFinite | str | arr | obj | call => exact default attr

section
variable (runtime : Runtime)

/-- What an item of a dataset is asked to be: whole numbers where they are meant, and strings
that the replacements leave alone. -/
structure Returnable (obj : Members) : Prop where
  item : isItem obj = true
  whole : ∀ field ∈ wholeFields, ∃ n, wholeAttr obj field.1 = some n
  clean : CleanStrings obj
  unmarked : ∀ name ∈ stringFields, ¬mark <:+: stringAttr obj name

structure RowAnswers (obj : Members) (k : Int) (row : Row (schema.columns .waypoint))
    (waypoint : Waypoint) (document : Document) (answer : Members) : Prop where
  key : wholeAttr obj "id" = some k
  found : nameContains runtime [] row = true
  converted : convertDataRowToWaypoint runtime.newtonsoft row.dataRow = .ok waypoint
  written : waypoint.document = .ok document
  answered : Json.toJson restoreApostrophes document = .obj answer
  plain : ∀ text ∈ waypoint.texts, '\'' ∉ text
  same : Answers obj answer ↔ KeptByRow runtime.newtonsoft obj

theorem item_write_own (obj : Members) (k : Int) (row : Row (schema.columns .waypoint))
    (write : itemWrite runtime (.obj obj) = some (k, row)) :
    ∃ own, readItem runtime.newtonsoft obj = .ok own ∧ own.row runtime = some row ∧
      firstKey row = some k := by
  have decoded : itemOf runtime.newtonsoft (.obj obj) = readItem runtime.newtonsoft obj := rfl
  unfold itemWrite at write
  rw [decoded] at write
  cases read : readItem runtime.newtonsoft obj with
  | error failure => simp [read] at write
  | ok own =>
      simp only [read, Option.bind_eq_bind, Option.bind_eq_some_iff, Option.some.injEq,
        Prod.mk.injEq] at write
      obtain ⟨other, inserted, key, has, rfl, rfl⟩ := write
      exact ⟨own, rfl, inserted, has⟩

theorem item_answers (dates : DatesArePlain runtime.newtonsoft)
    (parses : ParsesPrinted runtime.newtonsoft) (obj : Members) (returnable : Returnable obj)
    (k : Int) (row : Row (schema.columns .waypoint))
    (write : itemWrite runtime (.obj obj) = some (k, row)) :
    ∃ waypoint document answer, RowAnswers runtime obj k row waypoint document answer := by
  obtain ⟨own, decoded, inserted, has⟩ := item_write_own runtime obj k row write
  obtain ⟨stored, cells, holds⟩ := stored_of_row runtime own row inserted
  obtain ⟨hasId, hasX, hasY, -⟩ := read_item_numbers runtime.newtonsoft obj own decoded
  obtain ⟨nameShape, linkShape⟩ := read_item_strings runtime.newtonsoft obj own decoded
  rw [holds.posX] at hasX
  rw [holds.posY] at hasY
  obtain ⟨posX, parsedX⟩ := position_parses runtime.newtonsoft parses obj "posX" _ hasX
  obtain ⟨posY, parsedY⟩ := position_parses runtime.newtonsoft parses obj "posY" _ hasY
  obtain ⟨document, written, answered⟩ := stored_document stored posX posY
  have unquoted (text : Text) (quote : '\'' ∉ text) :
      '\'' ∉ writtenText runtime.newtonsoft text := by
    unfold writtenText
    cases printed : runtime.newtonsoft.dateText text with
    | none => exact quote
    | some date => exact (dates text date printed).1
  have name := unquoted _ (returnable.clean "name" (by decide)).1
  have link := unquoted _ (returnable.clean "originLink" (by decide)).1
  rw [← nameShape, ← holds.name] at name
  rw [← linkShape, ← holds.originLink] at link
  have ownKey : stored.id.toInt = k := by
    unfold firstKey at has
    rw [cells] at has
    exact Option.some.inj has
  refine ⟨stored.waypoint posX posY, document, stored.answer posX posY, ?_, ?_, ?_, written,
    answered, ?_, ?_⟩
  · obtain ⟨n, whole⟩ := returnable.whole ("id", "ID") (by decide)
    rw [whole, ← ownKey, stores_whole runtime.newtonsoft obj runtime.settings "id" n own.id _ whole
      hasId holds.id]
  · unfold nameContains
    rw [cells]
    exact Sql.contains_nil _ stored.name
  · rw [Row.dataRow, cells]
    exact convert_stored runtime.newtonsoft stored posX posY parsedX parsedY
  · simp only [Waypoint.texts, StoredItem.waypoint, List.forall_mem_cons, List.not_mem_nil,
      false_implies, implies_true, and_true]
    exact ⟨name, link⟩
  · exact answers_iff runtime.newtonsoft obj runtime.settings own stored posX posY decoded holds
      returnable.whole returnable.unmarked

theorem all_iff_of_each {Item Other : Type} {kept : Item → Other → Prop} {held : Item → Prop}
    {items : List Item} {others : List Other}
    (each : List.Forall₂ (fun item other => kept item other ↔ held item) items others) :
    List.Forall₂ kept items others ↔ ∀ item ∈ items, held item := by
  induction each with
  | nil => simp
  | cons head rest ih => rw [List.forall₂_cons, head, ih, List.forall_mem_cons]

theorem items_answer (dates : DatesArePlain runtime.newtonsoft)
    (parses : ParsesPrinted runtime.newtonsoft) (objs : List Members)
    (returnable : ∀ obj ∈ objs, Returnable obj)
    (written : ∀ obj ∈ objs, ∃ write, itemWrite runtime (.obj obj) = some write) :
    ∃ waypoints documents answers,
      let writes := (objs.map .obj).filterMap (itemWrite runtime)
      writes.map (fun write => some write.1) = objs.map (wholeAttr · "id") ∧
      (∀ row ∈ writes.map Prod.snd, nameContains runtime [] row = true) ∧
      ((writes.map Prod.snd).map Row.dataRow).mapM
        (convertDataRowToWaypoint runtime.newtonsoft) = .ok waypoints ∧
      List.Forall₂ (fun waypoint item => Waypoint.document waypoint = .ok item) waypoints
        documents ∧
      Json.itemsToJson restoreApostrophes documents = answers.map .obj ∧
      (∀ text ∈ waypoints.flatMap Waypoint.texts, '\'' ∉ text) ∧
      List.Forall₂ (fun obj answer => Answers obj answer ↔ KeptByRow runtime.newtonsoft obj)
        objs answers := by
  induction objs with
  | nil => exact ⟨[], [], [], rfl, by simp, rfl, .nil, rfl, by simp, .nil⟩
  | cons obj objs ih =>
      rw [List.forall_mem_cons] at returnable written
      obtain ⟨⟨k, row⟩, write⟩ := written.1
      obtain ⟨waypoint, document, answer, own⟩ :=
        item_answers runtime dates parses obj returnable.1 k row write
      obtain ⟨waypoints, documents, answers, keys, found, converted, each, answered, plain, same⟩ :=
        ih returnable.2 written.2
      refine ⟨waypoint :: waypoints, document :: documents, answer :: answers, ?_, ?_, ?_,
        .cons own.written each, ?_, ?_, .cons own.same same⟩
      · rw [List.map_cons, List.filterMap_cons, write, List.map_cons, keys, List.map_cons, own.key]
      · rw [List.map_cons, List.filterMap_cons, write, List.map_cons, List.forall_mem_cons]
        exact ⟨own.found, found⟩
      · rw [List.map_cons, List.filterMap_cons, write, List.map_cons, List.map_cons,
          List.mapM_cons, own.converted, converted]
        rfl
      · rw [Json.itemsToJson, own.answered, answered, List.map_cons]
      · rw [List.flatMap_cons]
        intro text member
        rcases List.mem_append.mp member with here | later
        · exact own.plain text here
        · exact plain text later

theorem listed_answers (rows : List DataRow) (waypoints : List Waypoint)
    (documents : List Document) (answers : List Members)
    (converted : rows.mapM (convertDataRowToWaypoint runtime.newtonsoft) = .ok waypoints)
    (each : List.Forall₂ (fun waypoint item => Waypoint.document waypoint = .ok item) waypoints
      documents)
    (answered : Json.itemsToJson restoreApostrophes documents = answers.map .obj)
    (plain : ∀ text ∈ waypoints.flatMap Waypoint.texts, '\'' ∉ text) :
    Json.read .rfc8259 (restoreApostrophes (listed runtime rows)) =
      .value (.arr (answers.map .obj)) := by
  have written := (list_document_iff _ _ _).mpr ⟨documents, rfl, each⟩
  obtain ⟨readable, strings⟩ :=
    list_items_shape .rfc8259 _ _ waypointKind.shape waypoints documents each
  have fits : Json.readable .rfc8259 0 (.arr documents) = true := by
    simp [Json.readable, Json.depthAllowed, readable]
  have text :
      listed runtime rows = Json.serialize runtime.unicodeAll .compact (.arr documents) := by
    simp only [listed, converted, Server.waypointsText, written, Except.map, Except.toOption,
      Option.getD_some]
  rw [text, read_restored_document runtime.unicodeAll .compact _ fits, if_pos, Json.toJson,
    answered]
  rw [Json.strings, strings]
  exact plain

theorem imported_converts (file : Text) (members : Members) (items : List Json)
    (held : Json.read .newtonsoft file = .value (.obj members))
    (array : Json.member members "items".toList = some (.arr items))
    (shape : ∀ item ∈ items, ∃ obj, item = .obj obj ∧ isItem obj = true) (world : World)
    (filled : (exec (DBManager.insertWaypointIntoDB runtime (some file)) world).1 = .ok ()) :
    ∀ item ∈ items, ∃ own, itemOf runtime.newtonsoft item = .ok own := by
  obtain ⟨dataset, parsed, each, -⟩ :=
    masked_dataset runtime.newtonsoft file members items held array
  have both := (List.forall₂_and_left items (DBManager.datasetItems dataset)).mpr ⟨shape, each⟩
  have built : ∀ other ∈ DBManager.datasetItems dataset, ∃ query,
      DBManager.itemQuery runtime.newtonsoft other = .ok query := by
    apply insert_items_built runtime _ world
    simp only [DBManager.insertWaypointIntoDB, parsed, exec_bind, exec_lift] at filled
    generalize exec (DBManager.insertItems runtime (DBManager.datasetItems dataset)) world = ran
      at filled
    obtain ⟨result, after⟩ := ran
    cases result with
    | error failure => cases filled
    | ok done => rfl
  intro item member
  obtain ⟨other, within, form, related⟩ := (related_mem both).1 item member
  obtain ⟨query, queried⟩ := built other within
  obtain ⟨own, decoded, -⟩ := masked_own runtime.newtonsoft item other query related form queried
  exact ⟨own, decoded⟩

/-- After an import into an empty table a search without a keyword answers each item with
its values exactly when the time of each is zero, no string is taken for a date, and each
rating is kept by the number it is read as. -/
theorem round_trip_iff (dates : DatesArePlain runtime.newtonsoft)
    (parses : ParsesPrinted runtime.newtonsoft) (file : Text) (members : Members)
    (objs : List Members) (held : Json.read .newtonsoft file = .value (.obj members))
    (array : Json.member members "items".toList = some (.arr (objs.map .obj)))
    (returnable : ∀ obj ∈ objs, Returnable obj)
    (distinct : (objs.map (wholeAttr · "id")).Nodup)
    (world : World) (empty : world.tables .waypoint = [])
    (filled : (exec (DBManager.insertWaypointIntoDB runtime (some file)) world).1 = .ok ())
    (quiet : NoFailure (DBManager.insertWaypointIntoDB runtime (some file)) world)
    (request : Request) (search : isSearch runtime request = true)
    (keyword : searchedKeyword runtime request = [])
    (answering : NoFailure (Server.dataReceived runtime request)
      (exec (DBManager.insertWaypointIntoDB runtime (some file)) world).2) :
    let after := (exec (DBManager.insertWaypointIntoDB runtime (some file)) world).2
    (∃ text answers, (exec (Server.dataReceived runtime request) after).1 = .ok (some text) ∧
      Json.read .rfc8259 text = .value (.arr (answers.map .obj)) ∧
      List.Forall₂ Answers objs answers) ↔
      ∀ obj ∈ objs, KeptByRow runtime.newtonsoft obj := by
  have shape : ∀ item ∈ objs.map Json.obj,
      ∃ obj, item = .obj obj ∧ isItem obj = true ∧ CleanStrings obj := by
    simp only [List.forall_mem_map]
    exact fun obj member => ⟨obj, rfl, (returnable obj member).item, (returnable obj member).clean⟩
  have converts := imported_converts runtime file members _ held array
    (fun item member => let ⟨obj, form, typed, _⟩ := shape item member; ⟨obj, form, typed⟩)
    world filled
  obtain ⟨written, calls, ran⟩ :=
    import_clean runtime dates file members _ held array shape converts world quiet
  rw [List.forall_mem_map] at written
  obtain ⟨waypoints, documents, answers, keys, found, converted, each, answered, plain, same⟩ :=
    items_answer runtime dates parses objs returnable written
  intro after
  have afterShape : after = _ := congrArg Prod.snd ran
  change NoFailure _ after at answering
  have rows : after.tables .waypoint =
      ((objs.map Json.obj).filterMap (itemWrite runtime)).map Prod.snd := by
    rw [afterShape, World.logs_tables, World.put_table, empty,
      Keyed.upsert_all_fresh firstKey (item_write_keyed runtime _) [] (fun _ _ => rfl),
      List.nil_append]
    refine List.Nodup.of_map some ?_
    rw [List.map_map]
    exact keys ▸ distinct
  have text := search_answer runtime request after search ['%', '%']
    (by rw [keyword]; exact read_plain_query [] (by simp) (by simp)) answering
  rw [show (['%', '%'] : Text) = '%' :: [] ++ ['%'] from rfl, rows_found runtime _ [] (by simp),
    rowsContaining, rows, List.filter_eq_self.mpr found] at text
  have read := listed_answers runtime _ waypoints documents answers converted each answered plain
  rw [← all_iff_of_each same]
  constructor
  · rintro ⟨other, others, otherText, otherRead, agree⟩
    rw [text] at otherText
    cases otherText
    rw [read] at otherRead
    have objects : Function.Injective Json.obj := fun left right equal => Json.obj.inj equal
    rw [← List.map_injective_iff.mpr objects
      (Json.arr.inj (Json.Reading.value.inj otherRead))] at agree
    exact agree
  · intro agree
    exact ⟨_, answers, text, read, agree⟩

end

end

def Runtime.parsing : Runtime :=
  { Runtime.standard with newtonsoft := { standardNewtonsoft with parseDouble := finiteText } }

theorem round_trip_iff_rated :
    let obj : Members := [("id".toList, .number (.ofInt 1)), ("name".toList, .str ['a']),
      ("rating".toList, .number ⟨"4.5".toList, by decide⟩)]
    let file := datasetOf ["\"id\":1,\"name\":\"a\",\"rating\":4.5"]
    let after := (exec (DBManager.insertWaypointIntoDB .parsing (some file))
      (.fresh Tables.empty)).2
    ∃ text answers,
      (exec (Server.dataReceived .parsing (searchRequest "")) after).1 = .ok (some text) ∧
        Json.read .rfc8259 text = .value (.arr (answers.map .obj)) ∧
        List.Forall₂ Answers [obj] answers := by
  intro obj file
  refine (round_trip_iff .parsing (fun _ _ printed => by cases printed) ?_ file
    [("items".toList, .arr [.obj obj])] [obj] rfl rfl ?_ (List.nodup_singleton _)
    (.fresh Tables.empty) rfl ?_ ?_ (searchRequest "") rfl rfl ?_).mpr ?_
  · exact ⟨fun _ printed _ => ⟨printed, finite_text_own printed⟩,
      fun n => ⟨.ofInt64 n, finite_text_own (.ofInt64 n)⟩,
      ⟨zeroPointZero, finite_text_own zeroPointZero⟩⟩
  · rw [List.forall_mem_singleton]
    refine ⟨rfl, ?_, by unfold CleanStrings; decide, by decide⟩
    rw [wholeFields]
    simp only [List.forall_mem_cons, List.not_mem_nil, false_implies, implies_true, and_true]
    exact ⟨⟨1, rfl⟩, ⟨0, rfl⟩, ⟨0, rfl⟩, ⟨0, rfl⟩⟩
  · decide +kernel
  · unfold NoFailure Quiet
    decide +kernel
  · unfold NoFailure Quiet
    decide +kernel
  · rw [List.forall_mem_singleton]
    have kept : numberAttr Runtime.parsing.newtonsoft obj "rating" zero =
        .ok (.finite ⟨⟨"4.5".toList, by decide⟩, by decide⟩) := by
      decide +kernel
    refine ⟨rfl, fun _ _ => rfl, fun printed attr => ?_⟩
    rw [kept] at attr
    cases attr
    rfl

def timedObj : Members :=
  [("id".toList, .number (.ofInt 1)), ("time".toList, .number (.ofInt 90))]

def timedFile : Text := datasetOf ["\"id\":1,\"time\":90"]

/-- An item with a time: the client gets it with none. -/
theorem time_is_dropped :
    let world := World.fresh Tables.empty
    let imported := exec (DBManager.insertWaypointIntoDB .parsing (some timedFile)) world
    let answered := exec (Server.dataReceived .parsing (searchRequest "")) imported.2
    Json.read .newtonsoft timedFile = .value (.obj [("items".toList, .arr [.obj timedObj])]) ∧
      imported.1 = .ok () ∧
      NoFailure (DBManager.insertWaypointIntoDB .parsing (some timedFile)) world ∧
      NoFailure (Server.dataReceived .parsing (searchRequest "")) imported.2 ∧
      ¬∃ text answers, answered.1 = .ok (some text) ∧
        Json.read .rfc8259 text = .value (.arr (answers.map .obj)) ∧
        List.Forall₂ Answers [timedObj] answers := by
  intro world imported answered
  have sent : answered.1 = .ok (some ("[\x7b\"ID\":1,\"Name\":\"\",\"PosX\":0.0,\"PosY\":0.0," ++
      "\"Rating\":0,\"ReviewCount\":0,\"Type\":0,\"OriginLink\":\"\",\"Time\":0\x7d]").toList) := by
    decide +kernel
  refine ⟨rfl, by decide +kernel, ?_, ?_, ?_⟩
  · unfold NoFailure Quiet
    decide +kernel
  · unfold NoFailure Quiet
    decide +kernel
  · rintro ⟨text, answers, same, read, agree⟩
    rw [sent] at same
    cases same
    have stopped : ∃ answer, Json.read .rfc8259
        ("[\x7b\"ID\":1,\"Name\":\"\",\"PosX\":0.0,\"PosY\":0.0," ++
          "\"Rating\":0,\"ReviewCount\":0,\"Type\":0,\"OriginLink\":\"\",\"Time\":0\x7d]").toList =
          .value (.arr [.obj answer]) ∧
        Json.member answer "Time".toList = some (.number (.ofInt 0)) := ⟨_, rfl, rfl⟩
    obtain ⟨answer, answerRead, zeroTime⟩ := stopped
    cases agree with
    | @cons _ other _ others first rest =>
        cases rest
        have equal : Json.arr [.obj answer] = .arr [.obj other] :=
          Json.Reading.value.inj (answerRead.symm.trans read)
        obtain rfl := Json.obj.inj (List.cons.inj (Json.arr.inj equal)).1
        have time := first.whole ("time", "Time") (by decide)
        rw [zeroTime] at time
        exact absurd (congrArg JsonNumber.text (Json.number.inj (Option.some.inj time))) (by decide)

end TfuServer
