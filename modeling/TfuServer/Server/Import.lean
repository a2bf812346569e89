import TfuServer.Server.Calls
import TfuServer.Server.Masking

/-!
# What an import leaves in the table

Each item of the dataset becomes a row that is inserted under its key or takes the
place of the row there, so the last item of a key decides, and a second import of the
same file finds every row as it would write it.
-/

namespace TfuServer

set_option autoImplicit false

open Numeral Program
open Json (parseObject MaskedJson MaskedMembers)
open Sql (Plain Row Further readStatement readFurther firstKey)

section
variable (runtime : Runtime)

namespace DatasetItem

def written (item : DatasetItem) : List Sql.Value :=
  item.values (writtenText runtime.newtonsoft item.name)
    (writtenText runtime.newtonsoft item.originLink)

def row (item : DatasetItem) : Option (Row (schema.columns .waypoint)) :=
  Sql.insertRow runtime.settings (schema.columns .waypoint) (item.written runtime)

def Clean (item : DatasetItem) : Prop :=
  ('\'' ∉ item.name ∧ '\\' ∉ item.name) ∧ '\'' ∉ item.originLink ∧ '\\' ∉ item.originLink

end DatasetItem

def itemWrite (item : Json) : Option (Int × Row (schema.columns .waypoint)) :=
  match itemOf runtime.newtonsoft item with
  | .ok own => do
      let row ← own.row runtime
      let k ← firstKey row
      some (k, row)
  | .error _ => none

theorem item_write_keyed (items : List Json) :
    ∀ write ∈ items.filterMap (itemWrite runtime), firstKey write.2 = some write.1 := by
  intro write member
  obtain ⟨item, -, found⟩ := List.mem_filterMap.mp member
  unfold itemWrite at found
  split at found
  · simp only [Option.bind_eq_bind, Option.bind_eq_some_iff, Option.some.injEq] at found
    obtain ⟨row, -, k, has, rfl⟩ := found
    exact has
  · cases found

theorem grows_insert_items (items : List Json) :
    Grows World.failedCalls (DBManager.insertItems runtime items) := by
  intro bound
  induction items with
  | nil => exact preserves_pure _
  | cons item items ih =>
      refine preserves_bind _ _ (preserves_lift _) fun query => ?_
      exact preserves_bind _ _ (grows_execute runtime query bound) fun _ => ih

theorem count_step (world : World)
    (quiet : NoFailure (DBManager.select runtime DBManager.countQuery) world) :
    ∃ rows calls, exec (DBManager.select runtime DBManager.countQuery) world =
      (.ok [rows], world.logs calls) := by
  obtain ⟨data, tables, answered, ran⟩ := no_failure_select runtime _ world quiet
  have notPlain : readStatement DBManager.countQuery = none := rfl
  have read : readFurther DBManager.countQuery =
      some (.column "id".toList "WAYPOINT".toList) := rfl
  unfold answer at answered
  rw [notPlain, read] at answered
  simp only at answered
  split at answered
  · rename_i rows found
    split_ifs at answered
    · obtain ⟨rfl, rfl⟩ := Prod.mk.inj (Option.some.inj answered)
      exact ⟨rows, _, ran⟩
  · cases answered

variable (dates : DatesArePlain runtime.newtonsoft)
include dates

theorem written_plain (text : Text) (quote : '\'' ∉ text) (slash : '\\' ∉ text) :
    Plain (writtenText runtime.newtonsoft text) := by
  unfold writtenText
  cases printed : runtime.newtonsoft.dateText text with
  | none => exact Sql.plain_of_no_special text quote slash
  | some date =>
      exact Sql.plain_of_no_special date (dates text date printed).1 (dates text date printed).2

theorem read_item_query (item : DatasetItem) (clean : item.Clean) :
    readStatement (item.query runtime.newtonsoft) = none ∧
      readFurther (item.query runtime.newtonsoft) =
        some (.upsert "WAYPOINT".toList (item.written runtime)
          (item.assignments (writtenText runtime.newtonsoft item.name)
            (writtenText runtime.newtonsoft item.originLink))) := by
  have name := written_plain runtime dates item.name clean.1.1 clean.1.2
  have link := written_plain runtime dates item.originLink clean.2.1 clean.2.2
  have read := (DatasetItem.read_iff item _ _ _ _ (Sql.determined_self _)
    (Sql.determined_self _)).mpr ⟨Sql.decode_plain _ name, Sql.decode_plain _ link⟩
  constructor
  · rw [DatasetItem.query, Sql.read_statement_single read]
    exact item.parse_tokens_plain _ _
  · rw [DatasetItem.query, readFurther, read]
    exact item.parse_tokens _ _

/-- An item whose statement does not fail has a row, which is written under its key. -/
theorem item_step (item : DatasetItem) (clean : item.Clean) (world : World)
    (quiet : NoFailure (DBManager.executeQuery runtime (item.query runtime.newtonsoft)) world) :
    ∃ row k calls, item.row runtime = some row ∧ firstKey row = some k ∧
      exec (DBManager.executeQuery runtime (item.query runtime.newtonsoft)) world =
        (.ok (), (written .waypoint k row world).logs calls) := by
  obtain ⟨notPlain, read⟩ := read_item_query runtime dates item clean
  obtain ⟨data, tables, answered, ran⟩ := no_failure_execute runtime _ world quiet
  simp only [answer, notPlain, read, Option.map_eq_some_iff, Prod.mk.injEq] at answered
  obtain ⟨other, executed, -, rfl⟩ := answered
  obtain ⟨typed, distinct⟩ := keyed_columns .waypoint
  obtain ⟨row, k, inserted, has, rfl⟩ := @Sql.execute_upsert_covers runtime.settings schema
    _ _ _ TableName.waypoint rfl (item.written runtime) _ rfl rfl typed distinct executed
  exact ⟨row, k, _, inserted, has, ran⟩

def Imported (item : Json) : Prop :=
  ∃ own, itemOf runtime.newtonsoft item = .ok own ∧
    DBManager.itemQuery runtime.newtonsoft item = .ok (own.query runtime.newtonsoft) ∧ own.Clean

theorem insert_items_run (items : List Json) (world : World)
    (imported : ∀ item ∈ items, Imported runtime item)
    (quiet : NoFailure (DBManager.insertItems runtime items) world) :
    (∀ item ∈ items, ∃ write, itemWrite runtime item = some write) ∧
      ∃ calls, exec (DBManager.insertItems runtime items) world =
        (.ok (), (world.put .waypoint (Keyed.upsertAll firstKey
          (items.filterMap (itemWrite runtime)) (world.tables .waypoint))).logs calls) := by
  induction items generalizing world with
  | nil =>
      refine ⟨by simp, [], ?_⟩
      simp [DBManager.insertItems, Keyed.upsertAll, World.put, World.logs]
  | cons item items ih =>
      rw [List.forall_mem_cons] at imported
      obtain ⟨⟨own, decoded, built, clean⟩, others⟩ := imported
      unfold DBManager.insertItems at quiet ⊢
      have sent := quiet_rest _ _ world world _ (by rw [exec_lift, built]) rfl quiet
      rw [exec_bind_ok _ _ world world _ (by rw [exec_lift, built])]
      obtain ⟨first, rest⟩ := quiet_bind _ _ world (grows_execute runtime _)
        (fun _ => grows_insert_items runtime items) sent
      obtain ⟨row, k, calls, inserted, has, ran⟩ := item_step runtime dates own clean world first
      obtain ⟨written, more, finished⟩ := ih _ others (rest _ _ ran)
      have write : itemWrite runtime item = some (k, row) := by
        simp [itemWrite, decoded, inserted, has]
      refine ⟨?_, calls ++ more, ?_⟩
      · rw [List.forall_mem_cons]
        exact ⟨⟨_, write⟩, written⟩
      · rw [DBManager.executeQueryNoSpace, exec_bind_ok _ _ world _ _ ran, finished,
          List.filterMap_cons, write]
        simp [TfuServer.written, Keyed.upsertAll]

theorem import_run (file : Text) (dataset : Members) (world : World)
    (parsed : parseObject runtime.newtonsoft (maskApostrophes file) = .ok dataset)
    (imported : ∀ item ∈ DBManager.datasetItems dataset, Imported runtime item)
    (quiet : NoFailure (DBManager.insertWaypointIntoDB runtime (some file)) world) :
    (∀ item ∈ DBManager.datasetItems dataset, ∃ write, itemWrite runtime item = some write) ∧
      ∃ calls, exec (DBManager.insertWaypointIntoDB runtime (some file)) world =
        (.ok (), (world.put .waypoint (Keyed.upsertAll firstKey
          ((DBManager.datasetItems dataset).filterMap (itemWrite runtime))
            (world.tables .waypoint))).logs calls) := by
  unfold DBManager.insertWaypointIntoDB at quiet ⊢
  simp only at quiet ⊢
  have filled := quiet_rest _ _ world world _ (by rw [exec_lift, parsed]) rfl quiet
  rw [exec_bind_ok _ _ world world _ (by rw [exec_lift, parsed])]
  have counting : Grows World.failedCalls (do
      let loaded ← DBManager.select runtime DBManager.countQuery
      let _ ← lift loaded.first
      return) :=
    fun bound => preserves_bind _ _ (grows_select runtime _ bound) fun _ =>
      preserves_bind _ _ (preserves_lift _) fun _ => preserves_pure _
  obtain ⟨items, rest⟩ := quiet_bind _ _ world
    (grows_insert_items runtime (DBManager.datasetItems dataset)) (fun _ => counting) filled
  obtain ⟨written, calls, ran⟩ := insert_items_run runtime dates _ world imported items
  obtain ⟨asked, -⟩ := quiet_bind _ _ _ (grows_select runtime _)
    (fun _ bound => preserves_bind _ _ (preserves_lift _) fun _ => preserves_pure _)
    (rest _ _ ran)
  obtain ⟨rows, more, counted⟩ := count_step runtime _ asked
  refine ⟨written, calls ++ more, ?_⟩
  rw [exec_bind_ok _ _ world _ _ ran, exec_bind_ok _ _ _ _ _ counted, World.logs_logs]
  rfl

end

section
variable (runtime : Runtime)

/-- The string fields have no apostrophe and no backslash. -/
def CleanStrings (obj : Members) : Prop :=
  ∀ name ∈ stringFields, '\'' ∉ stringAttr obj name ∧ '\\' ∉ stringAttr obj name

theorem masked_clean (item other : Json) (related : MaskedJson item other)
    (shape : ∃ obj, item = .obj obj ∧ isItem obj = true ∧ CleanStrings obj) :
    itemOf runtime.newtonsoft other = itemOf runtime.newtonsoft item ∧
      ∀ own, itemOf runtime.newtonsoft item = .ok own → Imported runtime other := by
  obtain ⟨obj, rfl, typed, clean⟩ := shape
  cases related with
  | @obj _ others names values =>
      have members : MaskedMembers obj others := ⟨names, values⟩
      obtain ⟨same, typedOther⟩ := masked_item runtime.newtonsoft members
      have string (name : String) (within : name ∈ stringFields) :
          stringAttr others name = stringAttr obj name :=
        (masked_string_attr members name within).1.eq_of_absent (clean name within).1
      have decoded : readItem runtime.newtonsoft others = readItem runtime.newtonsoft obj := by
        rw [same, string "name" (by decide), string "originLink" (by decide)]
        unfold readItem
        cases readNumbers runtime.newtonsoft obj <;> rfl
      refine ⟨decoded, fun own ownShape => ⟨own, decoded.trans ownShape, ?_, ?_⟩⟩
      · have built := insert_query_item runtime.newtonsoft others (typedOther.trans typed)
        rw [decoded, show readItem runtime.newtonsoft obj = .ok own from ownShape] at built
        exact built
      · obtain ⟨name, link⟩ := read_item_strings runtime.newtonsoft obj own ownShape
        rw [DatasetItem.Clean, name, link]
        exact ⟨clean "name" (by decide), clean "originLink" (by decide)⟩

/-- A whole number that is more than a `long` has no text. -/
def fitsLong : Option Json → Bool
  | some (.number numeral) =>
      match readInt numeral.text with
      | some n => (toInt64 n).isSome
      | none => true
  | _ => true

def convertible (obj : Members) : Bool :=
  numberFields.all fun name => fitsLong (Json.member obj name.toList)

theorem number_attr_iff (library : Json.Newtonsoft) (obj : Members) (name : String)
    (fallback : PrintedNumber) :
    (∃ value, numberAttr library obj name fallback = .ok value) ↔
      fitsLong (Json.member obj name.toList) = true := by
  unfold numberAttr fitsLong
  cases Json.member obj name.toList with
  | none => exact ⟨fun _ => rfl, fun _ => ⟨_, rfl⟩⟩
  | some token =>
      cases token with
      | number numeral =>
          simp only [Json.holdNumber]
          cases readInt numeral.text with
          | none => exact ⟨fun _ => rfl, fun _ => ⟨_, rfl⟩⟩
          | some n => cases narrow : toInt64 n <;> simp [narrow]
      | null | bool | nonFinite | str | arr | obj | call =>
          exact ⟨fun _ => rfl, fun _ => ⟨_, rfl⟩⟩

theorem read_numbers_iff (library : Json.Newtonsoft) (obj : Members) :
    (∃ numbers, readNumbers library obj = .ok numbers) ↔ convertible obj = true := by
  have number (name : String) (fallback : PrintedNumber) :=
    number_attr_iff library obj name fallback
  simp only [convertible, numberFields, List.all_cons, List.all_nil, Bool.and_true,
    Bool.and_eq_true, ← number _ zero]
  rw [number "posX" zero, ← number "posX" zeroPointZero, number "posY" zero,
    ← number "posY" zeroPointZero]
  unfold readNumbers
  rcases numberAttr library obj "id" zero with failure | id
  · simp [bind, Except.bind]
  rcases numberAttr library obj "posX" zeroPointZero with failure | posX
  · simp [bind, Except.bind]
  rcases numberAttr library obj "posY" zeroPointZero with failure | posY
  · simp [bind, Except.bind]
  rcases numberAttr library obj "rating" zero with failure | rating
  · simp [bind, Except.bind]
  rcases numberAttr library obj "reviewCount" zero with failure | reviewCount
  · simp [bind, Except.bind]
  rcases numberAttr library obj "type" zero with failure | type
  · simp [bind, Except.bind]
  rcases numberAttr library obj "time" zero with failure | time
  · simp [bind, Except.bind]
  · simp [bind, Except.bind, pure, Except.pure]

theorem related_mem {Item Other : Type} {related : Item → Other → Prop} {items : List Item}
    {others : List Other} (each : List.Forall₂ related items others) :
    (∀ item ∈ items, ∃ other ∈ others, related item other) ∧
      ∀ other ∈ others, ∃ item ∈ items, related item other := by
  induction each with
  | nil => simp
  | cons head rest ih =>
      simp only [List.forall_mem_cons, List.exists_mem_cons_iff]
      exact ⟨⟨Or.inl head, fun item member => Or.inr (ih.1 item member)⟩,
        Or.inl head, fun other member => Or.inr (ih.2 other member)⟩

theorem filter_map_related {Item Other Value : Type} {related : Item → Other → Prop}
    {first : Item → Option Value} {second : Other → Option Value} {items : List Item}
    {others : List Other} (each : List.Forall₂ related items others)
    (same : ∀ item other, related item other → second other = first item) :
    others.filterMap second = items.filterMap first := by
  induction each with
  | nil => rfl
  | cons head rest ih => rw [List.filterMap_cons, List.filterMap_cons, same _ _ head, ih]

def lastItem (items : List Json) (k : Int) : Option Json :=
  (items.filter fun item => (itemWrite runtime item).map Prod.fst = some k).getLast?

theorem last_write_item (items : List Json) (k : Int) :
    Keyed.lastWrite (items.filterMap (itemWrite runtime)) k =
      (lastItem runtime items k).bind fun item => (itemWrite runtime item).map Prod.snd := by
  induction items using List.reverseRecOn with
  | nil => rfl
  | append_singleton items item ih =>
      unfold lastItem at ih ⊢
      rw [List.filterMap_append, List.filter_append]
      cases write : itemWrite runtime item with
      | none => simpa [write] using ih
      | some pair =>
          rw [List.filterMap_cons, write, List.filterMap_nil, Keyed.last_write_concat]
          by_cases here : pair.1 = k
          · simp [here, write]
          · simp [here, write, ih]

/-- Each item has a key, whose row is the one of the last item with the key; the rows of
other keys and the other tables are as they were. -/
structure Upserted (items : List Json) (before after : World) : Prop where
  rows : ∀ item ∈ items, ∃ own last k row, itemWrite runtime item = some (k, own) ∧
    lastItem runtime items k = some last ∧ itemWrite runtime last = some (k, row) ∧
    Keyed.rowsOf firstKey (after.tables .waypoint) k = [row]
  others : ∀ pick : Option Int → Bool,
    (∀ item ∈ items, ∀ k row, itemWrite runtime item = some (k, row) → pick (some k) = false) →
    ((after.tables .waypoint).filter fun row => pick (firstKey row)) =
      (before.tables .waypoint).filter fun row => pick (firstKey row)
  tables : ∀ name, name ≠ .waypoint → after.tables name = before.tables name

theorem upserted_of_writes (items : List Json) (world : World) (calls : List Call)
    (unique : Keyed.Unique firstKey (world.tables .waypoint))
    (written : ∀ item ∈ items, ∃ write, itemWrite runtime item = some write) :
    Upserted runtime items world
      ((world.put .waypoint (Keyed.upsertAll firstKey (items.filterMap (itemWrite runtime))
        (world.tables .waypoint))).logs calls) := by
  have keyed := item_write_keyed runtime items
  constructor
  · intro item member
    obtain ⟨⟨k, own⟩, write⟩ := written item member
    have within : (k, own) ∈ items.filterMap (itemWrite runtime) :=
      List.mem_filterMap.mpr ⟨item, member, write⟩
    obtain ⟨row, final⟩ := Keyed.last_write_some _ _ within
    have last := final
    rw [last_write_item] at last
    obtain ⟨lastOne, found, lastRow⟩ := Option.bind_eq_some_iff.mp last
    obtain ⟨pair, lastWrite, rfl⟩ := Option.map_eq_some_iff.mp lastRow
    have lastKey : pair.1 = k := by
      have kept := (List.mem_filter.mp (List.mem_of_getLast? found)).2
      simpa [lastWrite] using kept
    refine ⟨own, lastOne, k, pair.2, write, found, ?_, ?_⟩
    · rw [lastWrite, ← lastKey]
    · rw [World.logs_tables, World.put_table]
      apply Keyed.rows_of_lookup
      · exact Keyed.unique_upsert_all firstKey keyed (world.tables .waypoint) unique
      · rw [Keyed.lookup_upsert_all firstKey keyed, final, Option.some_or]
  · intro pick avoids
    rw [World.logs_tables, World.put_table]
    apply Keyed.filter_upsert_all firstKey keyed
    intro write member
    obtain ⟨item, within, found⟩ := List.mem_filterMap.mp member
    exact avoids item within write.1 write.2 found
  · intro name differs
    exact World.put_other world _ _ name differs

theorem import_clean (dates : DatesArePlain runtime.newtonsoft) (file : Text)
    (members : Members) (items : List Json)
    (held : Json.read .newtonsoft file = .value (.obj members))
    (array : Json.member members "items".toList = some (.arr items))
    (shape : ∀ item ∈ items, ∃ obj, item = .obj obj ∧ isItem obj = true ∧ CleanStrings obj)
    (converts : ∀ item ∈ items, ∃ own, itemOf runtime.newtonsoft item = .ok own)
    (world : World)
    (quiet : NoFailure (DBManager.insertWaypointIntoDB runtime (some file)) world) :
    (∀ item ∈ items, ∃ write, itemWrite runtime item = some write) ∧
      ∃ calls, exec (DBManager.insertWaypointIntoDB runtime (some file)) world =
        (.ok (), (world.put .waypoint (Keyed.upsertAll firstKey
          (items.filterMap (itemWrite runtime)) (world.tables .waypoint))).logs calls) := by
  obtain ⟨dataset, parsed, each, -⟩ :=
    masked_dataset runtime.newtonsoft file members items held array
  have both := (List.forall₂_and_left items (DBManager.datasetItems dataset)).mpr
    ⟨fun item member => And.intro (shape item member) (converts item member), each⟩
  obtain ⟨fromItems, fromOthers⟩ := related_mem both
  have kept (item other : Json) (related : MaskedJson item other)
      (form : ∃ obj, item = .obj obj ∧ isItem obj = true ∧ CleanStrings obj) :
      itemWrite runtime other = itemWrite runtime item := by
    unfold itemWrite
    rw [(masked_clean runtime item other related form).1]
  have imported : ∀ other ∈ DBManager.datasetItems dataset, Imported runtime other := by
    intro other member
    obtain ⟨item, -, ⟨form, own, decoded⟩, related⟩ := fromOthers other member
    exact (masked_clean runtime item other related form).2 own decoded
  obtain ⟨written, calls, ran⟩ := import_run runtime dates file dataset world parsed imported quiet
  rw [filter_map_related both fun item other pair => kept item other pair.2 pair.1.1] at ran
  refine ⟨?_, calls, ran⟩
  intro item member
  obtain ⟨other, within, ⟨form, -⟩, related⟩ := fromItems item member
  rw [← kept item other related form]
  exact written other within

/-- A clean file is imported as the upsert of its items, and importing it again changes
nothing, exactly when no number of an item is a whole number beyond a `long`. -/
theorem import_upserts_iff (dates : DatesArePlain runtime.newtonsoft) (file : Text)
    (members : Members) (items : List Json)
    (held : Json.read .newtonsoft file = .value (.obj members))
    (array : Json.member members "items".toList = some (.arr items))
    (shape : ∀ item ∈ items, ∃ obj, item = .obj obj ∧ isItem obj = true ∧ CleanStrings obj)
    (world : World) (unique : Keyed.Unique firstKey (world.tables .waypoint))
    (quiet : NoFailure (DBManager.insertWaypointIntoDB runtime (some file)) world) :
    let ran := exec (DBManager.insertWaypointIntoDB runtime (some file)) world
    (ran.1 = .ok () ∧ Upserted runtime items world ran.2 ∧
      (NoFailure (DBManager.insertWaypointIntoDB runtime (some file)) ran.2 →
        (exec (DBManager.insertWaypointIntoDB runtime (some file)) ran.2).2.tables =
          ran.2.tables)) ↔
      ∀ obj, .obj obj ∈ items → convertible obj = true := by
  intro ran
  constructor
  · rintro ⟨-, upserted, -⟩ obj member
    obtain ⟨own, last, k, row, written, -⟩ := upserted.rows (.obj obj) member
    rw [← read_numbers_iff runtime.newtonsoft obj]
    have decoded : itemOf runtime.newtonsoft (.obj obj) = readItem runtime.newtonsoft obj := rfl
    unfold itemWrite at written
    rw [decoded, readItem] at written
    cases numbers : readNumbers runtime.newtonsoft obj with
    | ok own => exact ⟨own, rfl⟩
    | error failure => simp [numbers, Except.map] at written
  · intro convertible
    have converts : ∀ item ∈ items, ∃ own, itemOf runtime.newtonsoft item = .ok own := by
      intro item member
      obtain ⟨obj, rfl, -⟩ := shape item member
      obtain ⟨numbers, read⟩ :=
        (read_numbers_iff runtime.newtonsoft obj).mpr (convertible obj member)
      exact ⟨_, congrArg (Except.map _) read⟩
    obtain ⟨written, calls, done⟩ :=
      import_clean runtime dates file members items held array shape converts world quiet
    have finished : ran = _ := done
    rw [finished]
    refine ⟨rfl, upserted_of_writes runtime items world calls unique written, fun again => ?_⟩
    obtain ⟨-, more, redone⟩ :=
      import_clean runtime dates file members items held array shape converts _ again
    rw [redone]
    simp only [World.logs_tables, World.logs_put, World.put_put, World.put_table,
      Keyed.upsert_all_again firstKey (item_write_keyed runtime items)]

end

def datasetOf (items : List String) : Text :=
  textOfParts ["\x7b\"items\":[".toList,
    List.intercalate [','] (items.map fun item => '\x7b' :: item.toList ++ ['\x7d']),
    "]\x7d".toList]

theorem import_upserts_iff_again :
    let file := datasetOf ["\"id\":1,\"name\":\"a\"", "\"id\":1,\"posX\":2.5,\"name\":null"]
    let items : List Json := [.obj [("id".toList, .number (.ofInt 1)), ("name".toList, .str ['a'])],
      .obj [("id".toList, .number (.ofInt 1)),
        ("posX".toList, .number ⟨"2.5".toList, by decide⟩), ("name".toList, .null)]]
    let world := World.fresh Tables.empty
    let ran := exec (DBManager.insertWaypointIntoDB .standard (some file)) world
    ran.1 = .ok () ∧ Upserted .standard items world ran.2 ∧
      (NoFailure (DBManager.insertWaypointIntoDB .standard (some file)) ran.2 →
        (exec (DBManager.insertWaypointIntoDB .standard (some file)) ran.2).2.tables =
          ran.2.tables) := by
  intro file items world
  refine (import_upserts_iff .standard (fun _ _ printed => by cases printed) file
    [("items".toList, .arr items)] items rfl rfl ?_ world (Keyed.unique_nil firstKey) ?_).mpr ?_
  · intro item member
    simp only [items, List.mem_cons, List.not_mem_nil, or_false] at member
    rcases member with rfl | rfl
    · exact ⟨_, rfl, rfl, by unfold CleanStrings; decide⟩
    · exact ⟨_, rfl, rfl, by unfold CleanStrings; decide⟩
  · unfold NoFailure Quiet
    decide +kernel
  · intro obj member
    simp only [items, List.mem_cons, List.not_mem_nil, or_false, Json.obj.injEq] at member
    rcases member with rfl | rfl
    · rfl
    · rfl

/-- A number beyond a `long` ends the import: the item after it never gets its row. -/
theorem long_number_ends_import :
    let file := datasetOf ["\"id\":1,\"posX\":100000000000000000000", "\"id\":2"]
    let first : Members := [("id".toList, .number (.ofInt 1)),
      ("posX".toList, .number (.ofInt 100000000000000000000))]
    let second : Members := [("id".toList, .number (.ofInt 2))]
    let world := World.fresh Tables.empty
    let ran := exec (DBManager.insertWaypointIntoDB .standard (some file)) world
    Json.read .newtonsoft file =
        .value (.obj [("items".toList, .arr [.obj first, .obj second])]) ∧
      (isItem first && isItem second) = true ∧
      NoFailure (DBManager.insertWaypointIntoDB .standard (some file)) world ∧
      ran.1 = .error .invalidCast ∧
      (∃ row, itemWrite .standard (.obj second) = some (2, row)) ∧
      Keyed.rowsOf firstKey (ran.2.tables .waypoint) 2 = [] := by
  refine ⟨rfl, by decide, ?_, ?_, ?_, ?_⟩
  · unfold NoFailure Quiet
    decide +kernel
  · rfl
  · exact ⟨_, rfl⟩
  · rfl

end TfuServer
