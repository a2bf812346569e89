import TfuServer.Json.Spelled
import TfuServer.Server.Dataset
import TfuServer.Server.Standard

/-!
# Apostrophes of the dataset

The apostrophes of the file are replaced before it is parsed. The ones written as
escapes are not found there, and come out of the parser as apostrophes between the
quotes of a statement.
-/

namespace TfuServer

set_option autoImplicit false

open Numeral Program
open Json (parseObject maskText apostrophesRaw Masked MaskedJson MaskedMembers maskedSpelling
  spelling RelatedJson RelatedMembers)
open Sql (Plain readStatements decodeLiteral)

/-- No date prints with an apostrophe or a backslash. -/
def DatesArePlain (library : Json.Newtonsoft) : Prop :=
  ∀ text printed, library.dateText text = some printed → '\'' ∉ printed ∧ '\\' ∉ printed

/-- Each apostrophe of the string stands raw in its spelling, a literal keeps the
backslashes, and the masked string is not taken for a date. -/
structure Maskable (library : Json.Newtonsoft) (text spelled : Text) : Prop where
  raw : apostrophesRaw spelled = true
  plain : Plain (maskText text)
  undated : library.dateText (maskText text) = none

section
variable (library : Json.Newtonsoft) (dates : DatesArePlain library) {text masked : Text}
  (related : Masked text masked)
include dates related

theorem written_determined : Sql.Determined (writtenText library masked) (maskText text) := by
  unfold writtenText
  cases printed : library.dateText masked with
  | none =>
      exact Sql.determined_of_no_quote _ _ (Json.no_quote_in_mask text) related.length_mask
  | some date =>
      obtain ⟨quote, slash⟩ := dates masked date printed
      exact Sql.determined_of_decode _ date _
        (Sql.decode_plain date (Sql.plain_of_no_special date quote slash))

theorem written_decodes_iff (spelled : Text)
    (raw : masked = maskText text ↔ apostrophesRaw spelled = true) :
    decodeLiteral (writtenText library masked) = some (maskText text) ↔
      Maskable library text spelled := by
  constructor
  · intro decoded
    unfold writtenText at decoded
    cases printed : library.dateText masked with
    | none =>
        rw [printed, Option.getD_none] at decoded
        have same : masked = maskText text := related.eq_mask fun quote =>
          Json.no_quote_in_mask text (Sql.quote_of_decode .none masked _ decoded quote)
        refine ⟨raw.mp same, ?_, same ▸ printed⟩
        rw [same] at decoded
        exact (Sql.decode_iff_plain _).mp decoded
    | some date =>
        obtain ⟨quote, slash⟩ := dates masked date printed
        obtain ⟨marked, letter, start⟩ := library.date_text_shape masked date printed
        rw [printed, Option.getD_some,
          Sql.decode_plain date (Sql.plain_of_no_special date quote slash)] at decoded
        obtain rfl := Option.some.inj decoded
        rcases marked with time | slashed
        · exact absurd (related.mem_mask 'T' (by decide) time) letter
        · exact absurd (related.head_mask '/' (by decide) slashed) start
  · rintro ⟨spelledRaw, plain, undated⟩
    rw [raw.mpr spelledRaw, writtenText, undated]
    exact Sql.decode_plain _ plain

end

section
variable (library : Json.Newtonsoft)

def itemOf (item : Json) : Except Failure DatasetItem := do
  readItem library (← asObject item)

theorem masked_number_attr {obj other : Members} (related : MaskedMembers obj other)
    (name : String) (fallback : PrintedNumber) (within : name ∈ numberFields) :
    numberAttr library other name fallback = numberAttr library obj name fallback ∧
      isNumberField (Json.member other name.toList) =
        isNumberField (Json.member obj name.toList) := by
  have plain : '\'' ∉ name.toList ∧ '0' ∉ name.toList := by
    revert within
    revert name
    decide
  have same := Json.masked_member related name.toList plain.1 plain.2
  unfold numberAttr
  generalize Json.member obj name.toList = mine at same ⊢
  generalize Json.member other name.toList = theirs at same ⊢
  cases same with
  | none => exact ⟨rfl, rfl⟩
  | some value => cases value <;> exact ⟨rfl, rfl⟩

theorem masked_string_attr {obj other : Members} (related : MaskedMembers obj other)
    (name : String) (within : name ∈ stringFields) :
    Masked (stringAttr obj name) (stringAttr other name) ∧
      isStringField (Json.member other name.toList) =
        isStringField (Json.member obj name.toList) := by
  have plain : '\'' ∉ name.toList ∧ '0' ∉ name.toList := by
    revert within
    revert name
    decide
  have same := Json.masked_member related name.toList plain.1 plain.2
  unfold stringAttr
  generalize Json.member obj name.toList = mine at same ⊢
  generalize Json.member other name.toList = theirs at same ⊢
  cases same with
  | none => exact ⟨.nil, rfl⟩
  | some value =>
      cases value with
      | str strings => exact ⟨strings, rfl⟩
      | null | bool | number | nonFinite | arr | obj | call => exact ⟨.nil, rfl⟩

theorem masked_item {obj other : Members} (related : MaskedMembers obj other) :
    readItem library other = (readItem library obj).map (fun item =>
        { item with
          name := stringAttr other "name"
          originLink := stringAttr other "originLink" }) ∧
      isItem other = isItem obj := by
  have number (name : String) (fallback : PrintedNumber) (within : name ∈ numberFields) :=
    masked_number_attr library related name fallback within
  have numbers : readNumbers library other = readNumbers library obj := by
    unfold readNumbers
    simp only [(number "id" zero (by decide)).1, (number "posX" zeroPointZero (by decide)).1,
      (number "posY" zeroPointZero (by decide)).1, (number "rating" zero (by decide)).1,
      (number "reviewCount" zero (by decide)).1, (number "type" zero (by decide)).1,
      (number "time" zero (by decide)).1]
  constructor
  · unfold readItem
    rw [numbers]
    cases readNumbers library obj <;> rfl
  · unfold isItem
    congr 1
    · apply Bool.eq_iff_iff.mpr
      rw [List.all_eq_true, List.all_eq_true]
      exact forall₂_congr fun name within => by rw [(number name zero within).2]
    · apply Bool.eq_iff_iff.mpr
      rw [List.all_eq_true, List.all_eq_true]
      exact forall₂_congr fun name within => by rw [(masked_string_attr related name within).2]

def spelledAttr (item : Json) (name : String) : Text :=
  match item with
  | .obj members => stringAttr members name
  | _ => []

def spelledItems (file : Text) : List Json :=
  match Json.readSpelled file with
  | .value (.obj members) => DBManager.datasetItems members
  | _ => []

/-- The strings of the item are decoded from these spellings. -/
structure SpelledItem (item : DatasetItem) (spelled : Json) : Prop where
  name : Json.readBody .newtonsoft (spelledAttr spelled "name") = some item.name
  originLink : Json.readBody .newtonsoft (spelledAttr spelled "originLink") = some item.originLink

theorem unquoted_string_attr {other spelled : Members}
    (related : RelatedMembers maskedSpelling other spelled) (name : String)
    (within : name ∈ stringFields) :
    '\'' ∉ stringAttr other name ↔ apostrophesRaw (stringAttr spelled name) = true := by
  have plain : '\'' ∉ name.toList ∧ '0' ∉ name.toList := by
    revert within
    revert name
    decide
  have same := Json.related_member related name.toList
    fun _ _ same => (same.same_name name.toList plain.1 plain.2).symm
  unfold stringAttr
  generalize Json.member other name.toList = mine at same ⊢
  generalize Json.member spelled name.toList = theirs at same ⊢
  cases same with
  | none => simp [apostrophesRaw]
  | some value =>
      cases value with
      | str decoded => exact Json.unquoted_iff_raw _ _ decoded
      | null | bool | number | nonFinite | arr | obj | call => simp [apostrophesRaw]

theorem spelled_string_attr {obj spelled : Members} (related : RelatedMembers spelling obj spelled)
    (name : String) :
    Json.readBody .newtonsoft (stringAttr spelled name) = some (stringAttr obj name) := by
  have same := Json.related_member related name.toList fun text other (same : text = other) => by
    rw [same]
  unfold stringAttr
  generalize Json.member obj name.toList = mine at same ⊢
  generalize Json.member spelled name.toList = theirs at same ⊢
  cases same with
  | none => rfl
  | some value =>
      cases value with
      | str decoded => exact decoded
      | null | bool | number | nonFinite | arr | obj | call => rfl

theorem read_item_strings (obj : Members) (item : DatasetItem)
    (decoded : readItem library obj = .ok item) :
    item.name = stringAttr obj "name" ∧ item.originLink = stringAttr obj "originLink" := by
  unfold readItem at decoded
  cases numbers : readNumbers library obj with
  | error failure => simp [numbers, Except.map] at decoded
  | ok own =>
      rw [numbers] at decoded
      cases decoded
      exact ⟨rfl, rfl⟩

theorem masked_own (item other : Json) (query : Text) (related : MaskedJson item other)
    (shape : ∃ obj, item = .obj obj ∧ isItem obj = true)
    (built : DBManager.itemQuery library other = .ok query) :
    ∃ own, itemOf library item = .ok own ∧
      query = DatasetItem.query library { own with
        name := spelledAttr other "name"
        originLink := spelledAttr other "originLink" } := by
  obtain ⟨obj, rfl, typed⟩ := shape
  obtain ⟨others, rfl, members⟩ := related.of_obj
  obtain ⟨same, typedOther⟩ := masked_item library members
  have query_shape : DBManager.insertQuery library others = .ok query := built
  rw [insert_query_item library others (typedOther.trans typed), same] at query_shape
  cases decoded : readItem library obj with
  | error failure => simp [decoded, Except.map] at query_shape
  | ok own =>
      rw [decoded] at query_shape
      exact ⟨own, decoded, (Except.ok.inj query_shape).symm⟩

theorem masked_query (dates : DatesArePlain library) (item spelled other : Json) (query : Text)
    (related : MaskedJson item other) (spells : RelatedJson spelling item spelled)
    (spellsMasked : RelatedJson maskedSpelling other spelled)
    (shape : ∃ obj, item = .obj obj ∧ isItem obj = true)
    (built : DBManager.itemQuery library other = .ok query) :
    ∃ own, itemOf library item = .ok own ∧ SpelledItem own spelled ∧
      (readStatements query =
          some [own.tokens (maskText own.name) (maskText own.originLink)] ↔
        Maskable library own.name (spelledAttr spelled "name") ∧
          Maskable library own.originLink (spelledAttr spelled "originLink")) := by
  obtain ⟨own, decoded, rfl⟩ := masked_own library item other query related shape built
  obtain ⟨obj, rfl, typed⟩ := shape
  obtain ⟨others, rfl, members⟩ := related.of_obj
  obtain ⟨spelled, rfl, spellsObj⟩ := spells.of_obj
  obtain ⟨_, same, spellsOther⟩ := spellsMasked.of_obj
  obtain rfl := Json.obj.inj same
  obtain ⟨nameShape, linkShape⟩ := read_item_strings library obj own decoded
  have nameMasked := (masked_string_attr members "name" (by decide)).1
  have linkMasked := (masked_string_attr members "originLink" (by decide)).1
  rw [← nameShape] at nameMasked
  rw [← linkShape] at linkMasked
  refine ⟨own, decoded, ⟨?_, ?_⟩, ?_⟩
  · rw [nameShape]
    exact spelled_string_attr spellsObj "name"
  · rw [linkShape]
    exact spelled_string_attr spellsObj "originLink"
  have read := DatasetItem.read_iff own _ _ _ _
    (written_determined library dates nameMasked)
    (written_determined library dates linkMasked)
  rw [written_decodes_iff library dates nameMasked _
      (nameMasked.eq_mask_iff.trans (unquoted_string_attr spellsOther "name" (by decide))),
    written_decodes_iff library dates linkMasked _
      (linkMasked.eq_mask_iff.trans (unquoted_string_attr spellsOther "originLink" (by decide)))]
    at read
  exact read

end

theorem related_items {like : Json.Likeness} (dataset other : Members)
    (related : RelatedMembers like dataset other)
    (alike : ∀ text name, like.names text name →
      (text = "items".toList ↔ name = "items".toList)) :
    List.Forall₂ (RelatedJson like) (DBManager.datasetItems dataset)
      (DBManager.datasetItems other) := by
  have found := Json.related_member related "items".toList alike
  unfold DBManager.datasetItems asArray
  generalize Json.member dataset "items".toList = mine at found ⊢
  generalize Json.member other "items".toList = theirs at found ⊢
  cases found with
  | none => exact .nil
  | some value =>
      cases value with
      | arr each => exact each
      | null | bool | number | nonFinite | str | obj | call => exact .nil

/-- The parser gets the items of the file, masked, and both belong to its spellings. -/
theorem masked_dataset (library : Json.Newtonsoft) (file : Text) (members : Members)
    (items : List Json) (held : Json.read .newtonsoft file = .value (.obj members))
    (array : Json.member members "items".toList = some (.arr items)) :
    ∃ dataset, parseObject library (maskApostrophes file) = .ok dataset ∧
      List.Forall₂ MaskedJson items (DBManager.datasetItems dataset) ∧
      List.Forall₂ (RelatedJson spelling) items (spelledItems file) ∧
      List.Forall₂ (RelatedJson maskedSpelling) (DBManager.datasetItems dataset)
        (spelledItems file) := by
  obtain ⟨other, heldMasked, related⟩ := Json.read_masked .newtonsoft file _ held
  obtain ⟨spelled, heldSpelled, spells, spellsMasked⟩ :=
    Json.read_masked_spelled file _ other held heldMasked
  obtain ⟨others, rfl, masked⟩ := related.of_obj
  obtain ⟨spelled, rfl, spellsFile⟩ := spells.of_obj
  obtain ⟨_, same, spellsMasked⟩ := spellsMasked.of_obj
  obtain rfl := Json.obj.inj same
  have own : items = DBManager.datasetItems members := by
    simp only [DBManager.datasetItems, asArray, array, Option.getD_some]
  have items : spelledItems file = DBManager.datasetItems spelled := by
    simp only [spelledItems, heldSpelled]
  have masks (text masked : Text) (same : Masked text masked) :=
    same.same_name "items".toList (by decide) (by decide)
  rw [items, own]
  refine ⟨others, ?_, ?_, ?_, ?_⟩
  · rw [mask_apostrophes, parseObject, library.parse_value _ _ heldMasked]
  · exact related_items members others masked masks
  · exact related_items members spelled spellsFile fun text other (same : text = other) =>
      by rw [same]
  · exact related_items others spelled spellsMasked fun text name same =>
      (masks name text same).symm

section
variable (runtime : Runtime)

theorem insert_items_log (items : List Json) (world : World) :
    ∃ sent, (exec (DBManager.insertItems runtime items) world).2.log =
        world.log ++ sent.map .executeQuery ∧
      List.Forall₂ (fun item query => DBManager.itemQuery runtime.newtonsoft item = .ok query)
        (items.take sent.length) sent := by
  induction items generalizing world with
  | nil => exact ⟨[], by simp [DBManager.insertItems], .nil⟩
  | cons item items ih =>
      unfold DBManager.insertItems
      rw [exec_bind, exec_lift]
      cases built : DBManager.itemQuery runtime.newtonsoft item with
      | error failure => exact ⟨[], by simp, .nil⟩
      | ok query =>
          have logged := DBManager.execute_log runtime query world
          simp only [DBManager.executeQueryNoSpace, exec_bind]
          generalize exec (DBManager.executeQuery runtime query) world = ran at logged
          obtain ⟨result, after⟩ := ran
          cases result with
          | error failure => exact ⟨[query], by simpa using logged, .cons built .nil⟩
          | ok done =>
              obtain ⟨sent, rest, each⟩ := ih after
              refine ⟨query :: sent, ?_, .cons built each⟩
              simp only at logged
              rw [rest, logged]
              simp

theorem insert_items_built (items : List Json) (world : World)
    (ended : (exec (DBManager.insertItems runtime items) world).1 = .ok ()) :
    ∀ item ∈ items, ∃ query, DBManager.itemQuery runtime.newtonsoft item = .ok query := by
  induction items generalizing world with
  | nil => simp
  | cons item items ih =>
      unfold DBManager.insertItems at ended
      rw [exec_bind, exec_lift] at ended
      cases built : DBManager.itemQuery runtime.newtonsoft item with
      | error failure => simp [built] at ended
      | ok query =>
          simp only [built, exec_bind] at ended
          generalize exec (DBManager.executeQueryNoSpace runtime query) world = ran at ended
          obtain ⟨result, after⟩ := ran
          cases result with
          | error failure => cases ended
          | ok done =>
              rw [List.forall_mem_cons]
              exact ⟨⟨query, built⟩, ih after ended⟩

theorem import_log (file : Text) (dataset : Members)
    (parsed : parseObject runtime.newtonsoft (maskApostrophes file) = .ok dataset)
    (world : World) :
    ∃ sent counted,
      (exec (DBManager.insertWaypointIntoDB runtime (some file)) world).2.log =
        world.log ++ sent.map .executeQuery ++ counted ∧
      (counted = [] ∨ counted = [.select DBManager.countQuery]) ∧
      List.Forall₂ (fun item query => DBManager.itemQuery runtime.newtonsoft item = .ok query)
        ((DBManager.datasetItems dataset).take sent.length) sent := by
  obtain ⟨sent, logged, each⟩ := insert_items_log runtime (DBManager.datasetItems dataset) world
  simp only [DBManager.insertWaypointIntoDB, parsed, exec_bind, exec_lift]
  generalize exec (DBManager.insertItems runtime (DBManager.datasetItems dataset)) world = ran
    at logged
  obtain ⟨result, after⟩ := ran
  cases result with
  | error failure => exact ⟨sent, [], by simpa using logged, Or.inl rfl, each⟩
  | ok done =>
      have counted := DBManager.select_log runtime DBManager.countQuery after
      refine ⟨sent, [.select DBManager.countQuery], ?_, Or.inr rfl, each⟩
      simp only at logged ⊢
      generalize exec (DBManager.select runtime DBManager.countQuery) after = asked at counted
      obtain ⟨answered, final⟩ := asked
      simp only at counted
      cases answered with
      | error failure =>
          simp only
          rw [counted, logged]
      | ok data =>
          cases first : data.first <;>
          · simp only [first, exec_pure]
            rw [counted, logged]

theorem zip_related {Item Spelled Other : Type} {first : Item → Other → Prop}
    {second : Item → Spelled → Prop} {third : Other → Spelled → Prop} {items : List Item}
    {spelled : List Spelled} {others : List Other} (firsts : List.Forall₂ first items others)
    (seconds : List.Forall₂ second items spelled) (thirds : List.Forall₂ third others spelled) :
    List.Forall₂ (fun pair other => first pair.1 other ∧ second pair.1 pair.2 ∧ third other pair.2)
      (items.zip spelled) others := by
  induction firsts generalizing spelled with
  | nil => cases seconds; exact .nil
  | cons one rest ih =>
      cases seconds with
      | cons two others =>
          cases thirds with
          | cons three each => exact .cons ⟨one, two, three⟩ (ih others each)

/-- A file whose text is an object with an array of items: the statements that are sent
are those of the items, in order, and a statement is read as the one insert or update
that it is meant to be, with the masked strings in its literals, exactly when the name
and the originLink of the item are maskable as they are spelled in the file. -/
theorem masked_statements_iff (dates : DatesArePlain runtime.newtonsoft) (file : Text)
    (members : Members) (items : List Json)
    (held : Json.read .newtonsoft file = .value (.obj members))
    (array : Json.member members "items".toList = some (.arr items))
    (shape : ∀ item ∈ items, ∃ obj, item = .obj obj ∧ isItem obj = true) :
    ∃ dataset, parseObject runtime.newtonsoft (maskApostrophes file) = .ok dataset ∧
      (spelledItems file).length = items.length ∧
      List.Forall₂ (fun pair other => ∀ query,
          DBManager.itemQuery runtime.newtonsoft other = .ok query →
          ∃ own, itemOf runtime.newtonsoft pair.1 = .ok own ∧ SpelledItem own pair.2 ∧
            (readStatements query =
                some [own.tokens (maskText own.name) (maskText own.originLink)] ↔
              Maskable runtime.newtonsoft own.name (spelledAttr pair.2 "name") ∧
                Maskable runtime.newtonsoft own.originLink (spelledAttr pair.2 "originLink")))
        (items.zip (spelledItems file)) (DBManager.datasetItems dataset) ∧
      ∀ world, ∃ sent counted,
        (exec (DBManager.insertWaypointIntoDB runtime (some file)) world).2.log =
          world.log ++ sent.map .executeQuery ++ counted ∧
        (counted = [] ∨ counted = [.select DBManager.countQuery]) ∧
        List.Forall₂ (fun item query => DBManager.itemQuery runtime.newtonsoft item = .ok query)
          ((DBManager.datasetItems dataset).take sent.length) sent := by
  obtain ⟨dataset, parsed, masked, spells, spellsMasked⟩ :=
    masked_dataset runtime.newtonsoft file members items held array
  have typed := (List.forall₂_and_left items (DBManager.datasetItems dataset)).mpr ⟨shape, masked⟩
  refine ⟨dataset, parsed, spells.length_eq.symm, ?_, import_log runtime file dataset parsed⟩
  exact (zip_related typed spells spellsMasked).imp fun pair other related query built =>
    masked_query runtime.newtonsoft dates pair.1 pair.2 other query related.1.2 related.2.1
      related.2.2 related.1.1 built

end

def namedDataset (name : String) : Text :=
  textOfParts ["\x7b\"items\":[\x7b\"id\":1,\"name\":\"".toList, name.toList,
    "\"\x7d]\x7d".toList]

def namedItem (name : String) : Members :=
  [("id".toList, .number (.ofInt 1)), ("name".toList, .str name.toList)]

/-- A raw apostrophe beside a tab that is written as an escape. -/
theorem masked_statements_iff_raw :
    let file := namedDataset "it's\\t"
    ∃ dataset, parseObject standardNewtonsoft (maskApostrophes file) = .ok dataset ∧
      (spelledItems file).length = 1 ∧
      List.Forall₂ (fun pair other => ∀ query,
          DBManager.itemQuery standardNewtonsoft other = .ok query →
          ∃ own, itemOf standardNewtonsoft pair.1 = .ok own ∧ SpelledItem own pair.2 ∧
            (readStatements query =
                some [own.tokens (maskText own.name) (maskText own.originLink)] ↔
              Maskable standardNewtonsoft own.name (spelledAttr pair.2 "name") ∧
                Maskable standardNewtonsoft own.originLink (spelledAttr pair.2 "originLink")))
        ([.obj (namedItem "it's\t")].zip (spelledItems file)) (DBManager.datasetItems dataset) ∧
      ∀ world, ∃ sent counted,
        (exec (DBManager.insertWaypointIntoDB .standard (some file)) world).2.log =
          world.log ++ sent.map .executeQuery ++ counted ∧
        (counted = [] ∨ counted = [.select DBManager.countQuery]) ∧
        List.Forall₂ (fun item query => DBManager.itemQuery standardNewtonsoft item = .ok query)
          ((DBManager.datasetItems dataset).take sent.length) sent :=
  masked_statements_iff .standard (fun _ _ printed => by cases printed) (namedDataset "it's\\t")
    [("items".toList, .arr [.obj (namedItem "it's\t")])] [.obj (namedItem "it's\t")] rfl rfl
    (fun item member => ⟨namedItem "it's\t", List.mem_singleton.mp member, rfl⟩)

/-- An apostrophe that is written as an escape ends its literal. -/
theorem escaped_apostrophe_unmasked :
    let file := namedDataset "\\u0027"
    ∃ item other own query,
      Json.read .newtonsoft file = .value (.obj [("items".toList, .arr [.obj item])]) ∧
      isItem item = true ∧
      parseObject standardNewtonsoft (maskApostrophes file) =
        .ok [("items".toList, .arr [.obj other])] ∧
      readItem standardNewtonsoft item = .ok own ∧ own.name = "'".toList ∧
      DBManager.insertQuery standardNewtonsoft other = .ok query ∧
      readStatements query ≠ some [own.tokens (maskText own.name) (maskText own.originLink)] :=
  ⟨namedItem "'", namedItem "'", _, _, rfl, rfl, rfl, rfl, rfl, rfl, by decide +kernel⟩

end TfuServer
