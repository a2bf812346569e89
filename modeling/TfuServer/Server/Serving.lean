import TfuServer.Server.Accepted
import TfuServer.Server.Search

/-!
# How long the loop serves

An exception that leaves a request ends the loop. With every call of the database
working, it comes from an attribute that does not convert, a position that cannot be
written, or a row that cannot be read.
-/

namespace TfuServer

set_option autoImplicit false

open Numeral Program
open Sql (DataRow Cell readStatement)

structure Ending {Value : Type} (program : Action Value) : Prop where
  grows : Grows World.failedCalls program
  ends : ∀ world, NoFailure program world → ∃ value, (exec program world).1 = .ok value

section
variable {Value Next : Type}

theorem ending_pure (value : Value) : Ending (pure value : Action Value) :=
  ⟨fun _ => preserves_pure value, fun _ _ => ⟨value, rfl⟩⟩

theorem ending_modify (change : World → World) (only : ∀ world, MemoryOnly world (change world)) :
    Ending (modify change : Action PUnit) :=
  ⟨grows_modify change only, fun _ _ => ⟨⟨⟩, rfl⟩⟩

theorem ending_lift (result : Except Failure Value) (value : Value) (same : result = .ok value) :
    Ending (lift result : Action Value) :=
  ⟨grows_lift result, fun _ _ => ⟨value, same⟩⟩

theorem ending_bind (program : Action Value) (next : Value → Action Next)
    (first : Ending program) (second : ∀ value, Ending (next value)) :
    Ending (program >>= next) where
  grows := fun bound =>
    preserves_bind _ _ (first.grows bound) fun value => (second value).grows bound
  ends := by
    intro world quiet
    obtain ⟨start, later⟩ :=
      quiet_bind program next world first.grows (fun value => (second value).grows) quiet
    obtain ⟨value, ended⟩ := first.ends world start
    have ran : exec program world = (.ok value, (exec program world).2) := by rw [← ended]
    rw [exec_bind_ok _ _ _ _ _ ran]
    exact (second value).ends _ (later _ _ ran)

variable (runtime : Runtime)

theorem ending_execute (text : Text) : Ending (DBManager.executeQuery runtime text) where
  grows := grows_execute runtime text
  ends := by
    intro world quiet
    obtain ⟨data, tables, -, ran⟩ := no_failure_execute runtime text world quiet
    exact ⟨(), by rw [ran]⟩

theorem ending_rows {query table : Text} {condition : Sql.Condition} {name : TableName}
    (read : readStatement query = some (.select table condition false))
    (found : findTable table = some name) (next : List DataRow → Action Next)
    (rest : ∀ rows, Ending (next rows)) :
    Ending (do
      let data ← DBManager.select runtime query
      let rows ← lift data.first
      next rows) where
  grows := fun bound => preserves_bind _ _ (grows_select runtime query bound) fun _ =>
    preserves_bind _ _ (preserves_lift _) fun rows => (rest rows).grows bound
  ends := by
    intro world quiet
    obtain ⟨ran, later, -⟩ :=
      rows_step runtime next world read found (fun rows => (rest rows).grows) quiet
    rw [ran]
    exact (rest _).ends _ later

theorem ending_is_new {query table : Text} {condition : Sql.Condition} {name : TableName}
    (read : readStatement query = some (.select table condition false))
    (found : findTable table = some name) : Ending (ScheduleManager.isNew runtime query) where
  grows := fun bound => stable_is_new (failures_stay bound) runtime query
  ends := by
    intro world quiet
    have again := ending_rows runtime read found
      (fun rows => (pure (rows.length < 1) : Action Bool)) fun rows => ending_pure _
    obtain ⟨ran, later, -⟩ := select_step runtime _ world read found (fun data bound => by
      split
      · exact again.grows bound
      · exact preserves_pure _) quiet
    have start : exec (ScheduleManager.isNew runtime query) world = _ := ran
    rw [start]
    exact again.ends _ later

theorem ending_add_client (clt : Client) : Ending (ClientManager.addClient runtime clt) := by
  refine ending_bind _ _ (ending_modify _ client_ready_only) fun _ => ?_
  refine ending_bind _ _ (ending_modify _ fun _ => ⟨rfl, rfl, rfl, rfl, rfl, rfl⟩) fun _ => ?_
  refine ending_rows runtime (ClientManager.read_row_query clt.uid) rfl _ fun rows => ?_
  split
  · exact ending_execute runtime _
  · exact ending_execute runtime _

theorem ending_add_schedule (sch : Schedule) (document : Document)
    (written : listDocument Waypoint.document sch.waypoints = .ok document) :
    Ending (ScheduleManager.addSchedule runtime sch) := by
  refine ending_bind _ _
    (ending_is_new runtime (ScheduleManager.read_row_query sch.id) rfl) fun new => ?_
  have send (make : Document → Text) : Ending (do
      modify (ScheduleManager.enter sch)
      let document ← lift (listDocument Waypoint.document sch.waypoints)
      DBManager.executeQuery runtime (make document)) := by
    refine ending_bind _ _ (ending_modify _ fun _ => ⟨rfl, rfl, rfl, rfl, rfl, rfl⟩) fun _ => ?_
    exact ending_bind _ _ (ending_lift _ document written) fun _ => ending_execute runtime _
  split
  · exact send _
  · exact send _

theorem ending_image_added (id : Int32) : Ending (ImageManager.imageAdded runtime id) := by
  refine ending_bind _ _ (ending_modify _ fun _ => ⟨rfl, rfl, rfl, rfl, rfl, rfl⟩) fun _ => ?_
  refine ending_rows runtime (ImageManager.read_row_query id) rfl _ fun rows => ?_
  split
  · exact ending_execute runtime _
  · exact ending_execute runtime _

end

def hasStatus (status : String) (row : DataRow) : Bool :=
  row.cells[1]? == some (.text status.toList)

/-- The first cell is a whole number: an id is no null. -/
def hasId (row : DataRow) : Bool :=
  match row.cells with
  | .int _ :: _ => true
  | _ => false

/-- A row of the images has an id and a status, in this order. -/
theorem storage_items (row : ImageManager.StorageRow) :
    ∃ id status, row.dataRow.cells = [id, status] ∧ itemAt row.dataRow 0 = .ok id ∧
      itemAt row.dataRow 1 = .ok status := by
  obtain ⟨cells, fits⟩ := row
  rcases cells with _ | ⟨id, _ | ⟨status, _ | ⟨other, rest⟩⟩⟩
  · cases fits
  · simp [Sql.cellsFit, TableName.columns] at fits
  · exact ⟨id, status, rfl, rfl, rfl⟩
  · simp [Sql.cellsFit, TableName.columns] at fits

theorem id_of_row (row : DataRow) (id status : Cell) (cells : row.cells = [id, status]) :
    (∃ n, castInt id = .ok n) ↔ hasId row = true := by
  unfold hasId
  rw [cells]
  cases id <;> simp [castInt]

theorem load_rows_iff (rows : List ImageManager.StorageRow)
    (dictionary : Dictionary Int32 Text) :
    (∃ loaded, ImageManager.loadRows dictionary (rows.map Sql.Row.dataRow) = .ok loaded) ↔
      ∀ row ∈ rows, hasStatus "1" row.dataRow = true → hasId row.dataRow = true := by
  induction rows generalizing dictionary with
  | nil => simp [ImageManager.loadRows]
  | cons row rows ih =>
      obtain ⟨id, status, cells, idAt, statusAt⟩ := storage_items row
      have used : hasStatus "1" row.dataRow = true ↔ status = .text "1".toList := by
        simp [hasStatus, cells]
      have whole := id_of_row row.dataRow id status cells
      rw [List.map_cons, List.forall_mem_cons, used, ← whole]
      simp only [ImageManager.loadRows, statusAt, idAt, bind, Except.bind]
      split_ifs with marked
      · simp only [marked, forall_const]
        cases castInt id with
        | error failure => simp
        | ok n => simp [ih]
      · rw [ih]
        exact ⟨fun all => ⟨fun same => absurd same marked, all⟩, fun all => all.2⟩

theorem first_free_iff (rows : List ImageManager.StorageRow) :
    (∃ found, ImageManager.firstFree (rows.map Sql.Row.dataRow) = .ok found) ↔
      ∀ row, (rows.map Sql.Row.dataRow).find? (hasStatus "0") = some row → hasId row = true := by
  induction rows with
  | nil => simp [ImageManager.firstFree]
  | cons row rows ih =>
      obtain ⟨id, status, cells, idAt, statusAt⟩ := storage_items row
      have free : hasStatus "0" row.dataRow = decide (status = .text "0".toList) := by
        rw [Bool.eq_iff_iff]
        simp [hasStatus, cells]
      have whole := id_of_row row.dataRow id status cells
      simp only [List.map_cons, List.find?_cons, free, ImageManager.firstFree, statusAt, idAt, bind,
        Except.bind]
      split_ifs with marked
      · simp only [marked, decide_true, Option.some.injEq, forall_eq', ← whole]
        cases castInt id <;> simp [pure, Except.pure]
      · simp only [marked, decide_false]
        exact ih

section
variable (runtime : Runtime)

/-- The rows of the images with this status, as the database compares it with a number. -/
def storageRows (status : String) (tables : Tables) : List DataRow :=
  rowsMeeting runtime tables .s3 (.equals "status".toList (.number status.toList))

/-- Each used image has an id, where they are still to be loaded. -/
def ImagesLoad (world : World) : Prop :=
  world.imageDictionary = none →
    ∀ row ∈ storageRows runtime "1" world.tables, hasStatus "1" row = true → hasId row = true

def FreeHasId (tables : Tables) : Prop :=
  ∀ row, (storageRows runtime "0" tables).find? (hasStatus "0") = some row → hasId row = true

def Ends {Value : Type} (program : Action Value) (world : World) : Prop :=
  ∃ value, (exec program world).1 = .ok value

theorem ends_bind {Value Next : Type} (program : Action Value) (next : Value → Action Next)
    (world : World) : Ends (program >>= next) world ↔
      ∃ value, (exec program world).1 = .ok value ∧ Ends (next value) (exec program world).2 := by
  unfold Ends
  rw [exec_bind]
  generalize exec program world = ran
  obtain ⟨result, after⟩ := ran
  cases result <;> simp

theorem ends_lift {Value Next : Type} (result : Except Failure Value) (next : Value → Action Next)
    (world : World) : Ends (lift result >>= next) world ↔
      ∃ value, result = .ok value ∧ Ends (next value) world := by
  rw [ends_bind]
  rfl

theorem bind_ends {Value Next : Type} (program : Action Value) (next : Value → Action Next)
    (world : World) (grows : Grows World.failedCalls program)
    (rest : ∀ value, Ending (next value)) (quiet : NoFailure (program >>= next) world) :
    Ends (program >>= next) world ↔ Ends program world := by
  obtain ⟨-, later⟩ :=
    quiet_bind program next world grows (fun value => (rest value).grows) quiet
  rw [ends_bind]
  constructor
  · rintro ⟨value, ended, -⟩
    exact ⟨value, ended⟩
  · rintro ⟨value, ended⟩
    have ran : exec program world = (.ok value, (exec program world).2) := by rw [← ended]
    exact ⟨value, ended, (rest value).ends _ (later _ _ ran)⟩

theorem instance_ends (world : World) (quiet : NoFailure (ImageManager.instance runtime) world) :
    (Ends (ImageManager.instance runtime) world ↔ ImagesLoad runtime world) ∧
      (exec (ImageManager.instance runtime) world).2.tables = world.tables := by
  unfold ImagesLoad
  cases there : world.imageManager with
  | some manager =>
      have same := ImageManager.exec_instance_there runtime world manager there
      have dictionary : world.imageDictionary = some manager.dictionary :=
        congrArg (Option.map Manager.dictionary) there
      refine ⟨⟨?_, ?_⟩, by rw [same]⟩
      · intro _ never
        rw [dictionary] at never
        cases never
      · intro _
        exact ⟨(), by rw [same]⟩
  | none =>
      have start := ImageManager.exec_instance_absent runtime world there
      have absent : world.imageDictionary = none := congrArg (Option.map Manager.dictionary) there
      rw [NoFailure, Quiet, start] at quiet
      obtain ⟨first, -⟩ := quiet_bind _ _ _ (ImageManager.grows_sync_storage runtime)
        ImageManager.grows_build quiet
      obtain ⟨ran, -, -⟩ := select_step runtime _ world ImageManager.read_used_query rfl
        (fun data bound => preserves_lift _) first
      have loaded : exec (ImageManager.syncStorageToDictionary runtime) world =
          (ImageManager.loadRows (fun _ => none) (storageRows runtime "1" world.tables),
            world.logs [.select ImageManager.usedQuery]) := ran
      have ended : Ends (ImageManager.instance runtime) world ↔ ∃ dictionary,
          ImageManager.loadRows (fun _ => none) (storageRows runtime "1" world.tables) =
            .ok dictionary := by
        rw [Ends, start, ← Ends, ends_bind, loaded]
        exact exists_congr fun dictionary => and_iff_left ⟨⟨⟩, rfl⟩
      refine ⟨?_, ?_⟩
      · rw [ended, storageRows, rowsMeeting, load_rows_iff, List.forall_mem_map]
        exact ⟨fun all _ => all, fun all => all absent⟩
      · rw [start, exec_bind, loaded]
        cases ImageManager.loadRows (fun _ => none) (storageRows runtime "1" world.tables) <;> rfl

/-- The key is the free id that was found, or as many as there are used ones. -/
def keyOf : Option Int32 → Action Int32
  | some id => do
      ImageManager.imageAdded runtime id
      return id
  | none => do
      let used ← DBManager.select runtime ImageManager.usedQuery
      let rows ← lift used.first
      let id := Int32.ofNat rows.length
      ImageManager.imageAdded runtime id
      return id

theorem empty_key_ends (world : World)
    (quiet : NoFailure (ImageManager.getEmptyKey runtime) world) :
    Ends (ImageManager.getEmptyKey runtime) world ↔ FreeHasId runtime world.tables := by
  have added (id : Int32) : Ending (do
      ImageManager.imageAdded runtime id
      return id) :=
    ending_bind _ _ (ending_image_added runtime id) fun _ => ending_pure id
  have rest (found : Option Int32) : Ending (keyOf runtime found) := by
    cases found with
    | some id => exact added id
    | none => exact ending_rows runtime ImageManager.read_used_query rfl _ fun rows => added _
  obtain ⟨ran, later, -⟩ := select_step runtime _ world ImageManager.read_free_query rfl
    (fun data bound => preserves_bind _ _ (preserves_lift _) fun found => (rest found).grows bound)
    quiet
  have start : exec (ImageManager.getEmptyKey runtime) world = _ := ran
  rw [Ends, start, ← Ends, bind_ends _ _ _ (grows_lift _) rest later]
  exact first_free_iff _

theorem image_key_ends (world : World) (quiet : NoFailure (Server.imageKey runtime) world) :
    Ends (Server.imageKey runtime) world ↔
      ImagesLoad runtime world ∧ FreeHasId runtime world.tables := by
  have answered (key : Int32) : Ending (do
      modify (ImageManager.enter key)
      return Server.keyResponse key) :=
    ending_bind _ _ (ending_modify _ fun _ => ⟨rfl, rfl, rfl, rfl, rfl, rfl⟩) fun _ => ending_pure _
  have growsKey : Grows World.failedCalls (ImageManager.getEmptyKey runtime) :=
    fun bound => stable_get_empty_key (failures_stay bound) runtime (fun _ => trivial)
      fun _ => trivial
  obtain ⟨first, later⟩ := quiet_bind _ _ world
    (fun bound => stable_instance (failures_stay bound) runtime)
    (fun _ bound => preserves_bind _ _ (growsKey bound) fun key => (answered key).grows bound) quiet
  obtain ⟨loads, tables⟩ := instance_ends runtime world first
  have start : Ends (Server.imageKey runtime) world ↔ _ :=
    ends_bind (ImageManager.instance runtime) _ world
  have both : Ends (ImageManager.instance runtime) world ∧ FreeHasId runtime world.tables ↔
      ∃ value, (exec (ImageManager.instance runtime) world).1 = .ok value ∧
        FreeHasId runtime world.tables := exists_and_right.symm
  rw [start, ← loads, both]
  refine exists_congr fun value => and_congr_right fun ended => ?_
  have ran : exec (ImageManager.instance runtime) world =
      (.ok value, (exec (ImageManager.instance runtime) world).2) := by rw [← ended]
  have keyed := later _ _ ran
  obtain ⟨key, -⟩ := quiet_bind _ _ _ growsKey (fun key => (answered key).grows) keyed
  rw [bind_ends _ _ _ growsKey answered keyed, empty_key_ends runtime _ key, tables]

end

/-- Every column but that of the shares holds something, the rating prints as a finite single, and
the descriptions are an array of which every element is accepted. -/
structure Recommendable (library : Json.Newtonsoft) (row : DataRow) : Prop where
  scheduleId : ∃ n, itemNamed row "scheduleId" = .ok (.int n)
  ownerId : ∃ n, itemNamed row "ownerId" = .ok (.bigint n)
  rating : ∃ cell number, itemNamed row "rating" = .ok cell ∧
    library.parseSingle (printCell cell) = some (.finite number)
  likes : ∃ n, itemNamed row "likes" = .ok (.int n)
  titleImgId : ∃ n, itemNamed row "titleImgId" = .ok (.int n)
  titleText : ∃ text, itemNamed row "titleText" = .ok (.text text)
  descriptionText : ∃ text, itemNamed row "descriptionText" = .ok (.text text)
  waypointDescription : ∃ document items,
    itemNamed row "waypointDescription" = .ok (.text document) ∧
      library.parse document = some (.arr items) ∧ ∀ item ∈ items,
        descriptionAccepts library "WaypointId" "WaypointContent" "WaypointImgId" item = true

theorem parse_array_iff (library : Json.Newtonsoft) (text : Text) (items : List Json) :
    Json.parseArray library text = .ok items ↔ library.parse text = some (.arr items) := by
  unfold Json.parseArray
  cases library.parse text with
  | none => simp
  | some json => cases json <;> simp

/-- These are the rows that can be read into something that can be written. -/
theorem recommendable_iff (library : Json.Newtonsoft) (row : DataRow) :
    (∃ sch, convertDataRowToSharedSchedule library row = .ok sch ∧ sch.rating.isFinite = true) ↔
      Recommendable library row := by
  have descriptions (items : List Json) := map_ok_iff
    (readDescription library "WaypointId" "WaypointContent" "WaypointImgId") (fun _ => True) items
  simp only [and_true, implies_true, read_description_accepts] at descriptions
  constructor
  · rintro ⟨sch, read, finite⟩
    simp only [convertDataRowToSharedSchedule, bind_ok_iff, cast_int_iff, cast_long_iff] at read
    obtain ⟨_, hasId, id, rfl, _, hasOwner, owner, rfl, cell, hasRating, read⟩ := read
    cases parsed : library.parseSingle (printCell cell) with
    | none =>
        rw [parsed] at read
        cases read
    | some rating =>
        rw [parsed] at read
        simp only [bind_ok_iff, cast_int_iff, cast_text_iff, parse_array_iff, pure, Except.pure,
          Except.ok.injEq, exists_eq_left'] at read
        obtain ⟨_, hasLikes, likes, rfl, _, -, _, -, _, hasImage, image, rfl, _, hasTitle, title,
          rfl, _, hasText, text, rfl, _, hasList, document, rfl, items, parsedList, list, mapped,
          rfl⟩ := read
        cases rating with
        | nonFinite kind => cases finite
        | finite number =>
            exact ⟨⟨id, hasId⟩, ⟨owner, hasOwner⟩, ⟨cell, number, hasRating, parsed⟩,
              ⟨likes, hasLikes⟩, ⟨image, hasImage⟩, ⟨title, hasTitle⟩, ⟨text, hasText⟩,
              document, items, hasList, parsedList, (descriptions items).mp ⟨list, mapped⟩⟩
  · rintro ⟨⟨id, hasId⟩, ⟨owner, hasOwner⟩, ⟨cell, number, hasRating, parsed⟩, ⟨likes, hasLikes⟩,
      ⟨image, hasImage⟩, ⟨title, hasTitle⟩, ⟨text, hasText⟩, document, items, hasList, parsedList,
      each⟩
    obtain ⟨list, mapped⟩ := (descriptions items).mpr each
    refine ⟨⟨id, owner, .finite number, likes, likes, image, title, text, list⟩, ?_, rfl⟩
    simp only [convertDataRowToSharedSchedule, bind, Except.bind, hasId, hasOwner, hasRating,
      parsed, hasLikes, hasImage, hasTitle, hasText, hasList, castInt, castLong, castText,
      (parse_array_iff library document items).mpr parsedList, mapped]
    rfl

section
variable (runtime : Runtime)

/-- The shared schedules as a call with this number hands them out. -/
def shuffledRows (call : Nat) (tables : Tables) : List DataRow :=
  runtime.shuffle call ((tables .sharedSchedule).map Sql.Row.dataRow)

def recommendQuery : Text := "SELECT * FROM SHAREDSCHEDULE order by rand();".toList

theorem read_recommend_query : readStatement recommendQuery =
    some (.select "SHAREDSCHEDULE".toList .all true) := rfl

theorem shuffled_step {Value : Type} (next : DataSet → Action Value) (world : World)
    (grows : ∀ data, Grows World.failedCalls (next data))
    (quiet : NoFailure (DBManager.select runtime recommendQuery >>= next) world) :
    exec (DBManager.select runtime recommendQuery >>= next) world =
        exec (next [shuffledRows runtime world.log.length world.tables])
          (world.logs [.select recommendQuery]) ∧
      NoFailure (next [shuffledRows runtime world.log.length world.tables])
        (world.logs [.select recommendQuery]) := by
  obtain ⟨selected, later⟩ := quiet_bind _ _ world (grows_select runtime _) grows quiet
  obtain ⟨data, tables, answered, ran⟩ := no_failure_select runtime _ world selected
  have queried : Sql.query runtime.settings (runtime.shuffle world.log.length) world.tables
      (.select "SHAREDSCHEDULE".toList .all true) =
        some (shuffledRows runtime world.log.length world.tables) :=
    @Sql.query_all runtime.settings schema world.tables "SHAREDSCHEDULE".toList .sharedSchedule
      (find_title .sharedSchedule) (runtime.shuffle world.log.length) true
  simp only [answer, read_recommend_query, queried] at answered
  split_ifs at answered
  obtain ⟨rfl, rfl⟩ := Prod.mk.inj (Option.some.inj answered)
  rw [exec_bind_ok _ _ world _ _ ran]
  exact ⟨rfl, later _ _ ran⟩

/-- The query is sent twice; what is recommended comes from the second answer. -/
def recommendedRows (world : World) : List DataRow :=
  (shuffledRows runtime (world.log.length + 1) world.tables).take Server.maxRecommended

theorem recommend_ends (world : World) (quiet : NoFailure (Server.recommend runtime) world) :
    Ends (Server.recommend runtime) world ↔
      ∀ row ∈ recommendedRows runtime world, Recommendable runtime.newtonsoft row := by
  have growsList (data : DataSet) : Grows World.failedCalls (do
      let rows ← lift data.first
      let list ← lift ((rows.take Server.maxRecommended).mapM
        (convertDataRowToSharedSchedule runtime.newtonsoft))
      lift (Server.recommendText runtime list)) :=
    fun bound => preserves_bind _ _ (preserves_lift _) fun rows =>
      preserves_bind _ _ (preserves_lift _) fun list => preserves_lift _
  obtain ⟨counted, again⟩ := shuffled_step runtime _ world (fun data bound =>
    preserves_bind _ _ (preserves_lift _) fun _ => preserves_bind _ _
      (grows_select runtime recommendQuery bound) fun data => growsList data bound) quiet
  have start : exec (Server.recommend runtime) world = _ := counted
  obtain ⟨listed, -⟩ :=
    shuffled_step runtime _ (world.logs [.select recommendQuery]) growsList again
  have length : (world.logs [.select recommendQuery]).log.length = world.log.length + 1 := by
    simp [World.logs]
  rw [length] at listed
  have ended : Ends (Server.recommend runtime) world ↔ ∃ list,
      (recommendedRows runtime world).mapM
        (convertDataRowToSharedSchedule runtime.newtonsoft) = .ok list ∧
      Ends (lift (Server.recommendText runtime list))
        (World.logs [.select recommendQuery] (world.logs [.select recommendQuery])) := by
    rw [Ends, start, ← ends_lift]
    exact Iff.of_eq (congrArg (fun ran => ∃ text, ran.1 = .ok text) listed)
  have written (list : List SharedSchedule) (after : World) :
      Ends (lift (Server.recommendText runtime list)) after ↔
        ∀ sch ∈ list, sch.rating.isFinite = true := by
    rw [← list_written_iff _ _ shared_document_iff]
    unfold Ends Server.recommendText
    rw [exec_lift]
    cases listDocument SharedSchedule.document list <;> simp [Except.map]
  rw [ended]
  simp only [written, ← recommendable_iff]
  exact map_ok_iff _ _ _

theorem waypoints_ends (keyword : Option Text) (world : World) :
    Ends (Server.waypoints runtime keyword) world := by
  unfold Ends Server.waypoints
  rw [exec_try_catch]
  split
  · exact ⟨_, rfl⟩
  · exact ⟨_, rfl⟩

theorem post_schedule_ends (json : Members) (world : World)
    (quiet : NoFailure (do
      let schedule ← lift (readSchedule runtime.newtonsoft json)
      ScheduleManager.addSchedule runtime schedule) world) :
    Ends (do
      let schedule ← lift (readSchedule runtime.newtonsoft json)
      ScheduleManager.addSchedule runtime schedule) world ↔
      scheduleAccepts runtime.newtonsoft json = true := by
  rw [ends_lift, ← read_schedule_accepts]
  refine exists_congr fun sch => and_congr_right fun read => ?_
  rw [← list_written_iff _ _ waypoint_document_iff]
  constructor
  · intro ends
    obtain ⟨new, -, sent⟩ := (ends_bind _ _ _).mp ends
    cases new with
    | true =>
        obtain ⟨_, -, later⟩ := (ends_bind _ _ _).mp sent
        obtain ⟨document, written, -⟩ := (ends_lift _ _ _).mp later
        exact ⟨document, written⟩
    | false =>
        obtain ⟨_, -, later⟩ := (ends_bind _ _ _).mp sent
        obtain ⟨document, written, -⟩ := (ends_lift _ _ _).mp later
        exact ⟨document, written⟩
  · rintro ⟨document, written⟩
    have ran : exec (lift (readSchedule runtime.newtonsoft json) : Action Schedule) world =
      (.ok sch, world) := by rw [exec_lift, read]
    exact (ending_add_schedule runtime sch document written).ends world
      (quiet_rest _ _ _ _ _ ran rfl quiet)

theorem post_image_ends (json : Members) (world : World)
    (quiet : NoFailure (do
      match ← lift (heldUpload runtime.newtonsoft json) with
      | some id =>
          ImageManager.instance runtime
          let id ← lift (uploadId runtime.newtonsoft id)
          ImageManager.imageAdded runtime id
      | none => return) world) :
    Ends (do
      match ← lift (heldUpload runtime.newtonsoft json) with
      | some id =>
          ImageManager.instance runtime
          let id ← lift (uploadId runtime.newtonsoft id)
          ImageManager.imageAdded runtime id
      | none => return) world ↔
      uploadAccepts runtime.newtonsoft json = true ∧
        (succeeds runtime.newtonsoft json = true → ImagesLoad runtime world) := by
  rw [ends_lift, ← read_upload_accepts]
  have upload : readUpload runtime.newtonsoft json = _ := read_upload runtime.newtonsoft json
  have succeeds_ := read_upload_some runtime.newtonsoft json
  rw [upload] at succeeds_ ⊢
  cases held : heldUpload runtime.newtonsoft json with
  | error failure => simp
  | ok found =>
      rw [held] at succeeds_
      have ran : exec (lift (heldUpload runtime.newtonsoft json) : Action (Option Json.Held))
          world = (.ok found, world) := by rw [exec_lift, held]
      have later := quiet_rest _ _ _ _ _ ran rfl quiet
      simp only [Except.ok.injEq, exists_eq_left']
      cases found with
      | none =>
          have failed := (succeeds_ none rfl).not.mp Bool.false_ne_true
          exact iff_of_true ⟨(), rfl⟩ ⟨⟨none, rfl⟩, fun success => absurd success failed⟩
      | some id =>
          obtain ⟨first, -⟩ := quiet_bind _ _ world
            (fun bound => stable_instance (failures_stay bound) runtime)
            (fun _ bound => preserves_bind _ _ (preserves_lift _) fun id =>
              ImageManager.grows_image_added runtime id bound) later
          rw [← (instance_ends runtime world first).1]
          simp only at later succeeds_ ⊢
          cases converted : uploadId runtime.newtonsoft id with
          | error failure =>
              refine iff_of_false ?_ ?_
              · rintro ends
                obtain ⟨_, -, never⟩ := (ends_bind _ _ _).mp ends
                obtain ⟨_, never, -⟩ := (ends_lift _ _ _).mp never
                cases never
              · rintro ⟨⟨found, never⟩, -⟩
                cases never
          | ok key =>
              rw [converted] at later
              have success := (succeeds_ (some key) (by rw [converted]; rfl)).mp rfl
              have ended := bind_ends (ImageManager.instance runtime)
                (fun _ => ImageManager.imageAdded runtime key) world
                (fun bound => stable_instance (failures_stay bound) runtime)
                (fun _ => ending_image_added runtime key) later
              exact Iff.trans ended ⟨fun ends => ⟨⟨some key, rfl⟩, fun _ => ends⟩, fun both =>
                both.2 success⟩

/-- What a request must find, in its body and in the tables, not to end the loop. -/
def Meets (request : Request) (world : World) : Prop :=
  let json := Server.parseBody runtime request.body
  if request.method = "GET".toList then
    if startsWith runtime request.rawUrl "/image" then
      ImagesLoad runtime world ∧ FreeHasId runtime world.tables
    else if startsWith runtime request.rawUrl "/recommend" then
      ∀ row ∈ recommendedRows runtime world, Recommendable runtime.newtonsoft row
    else True
  else if request.method = "POST".toList then
    if startsWith runtime request.rawUrl "/users" then clientAccepts runtime.newtonsoft json = true
    else if startsWith runtime request.rawUrl "/schedule" then
      scheduleAccepts runtime.newtonsoft json = true
    else if startsWith runtime request.rawUrl "/sharedschedule" then True
    else if startsWith runtime request.rawUrl "/imageupload" then
      uploadAccepts runtime.newtonsoft json = true ∧
        (succeeds runtime.newtonsoft json = true → ImagesLoad runtime world)
    else True
  else True

theorem last_ends {Value Next : Type} (program : Action Value) (next : Value → Next)
    (world : World) :
    Ends (program >>= fun value => (pure (next value) : Action Next)) world ↔
      Ends program world := by
  rw [ends_bind]
  exact exists_congr fun value => and_iff_left ⟨next value, rfl⟩

theorem quiet_last {Value Next : Type} (program : Action Value) (next : Value → Next)
    (world : World) (grows : Grows World.failedCalls program)
    (quiet : NoFailure (program >>= fun value => (pure (next value) : Action Next)) world) :
    NoFailure program world :=
  (quiet_bind program _ world grows (fun _ _ => preserves_pure _) quiet).1

theorem get_ends_iff (request : Request) (world : World) (get : request.method = "GET".toList)
    (quiet : NoFailure (Server.clientGet runtime request) world) :
    Ends (Server.clientGet runtime request) world ↔ Meets runtime request world := by
  have growsKey : Grows World.failedCalls (Server.imageKey runtime) := fun bound =>
    stable_image_key (failures_stay bound) runtime (fun _ => trivial) fun _ => trivial
  have growsList : Grows World.failedCalls (Server.recommend runtime) := fun bound =>
    stable_recommend (failures_stay bound) runtime
  unfold Server.clientGet at quiet ⊢
  unfold Meets
  rw [if_pos get]
  simp only at quiet ⊢
  split_ifs at quiet ⊢ with image recommend waypoints
  · rw [last_ends]
    exact image_key_ends runtime world (quiet_last _ _ world growsKey quiet)
  · rw [last_ends]
    exact recommend_ends runtime world (quiet_last _ _ world growsList quiet)
  · rw [last_ends]
    exact iff_of_true (waypoints_ends runtime request.keyword world) trivial
  · exact iff_of_true ⟨_, rfl⟩ trivial

theorem post_ends_iff (request : Request) (world : World) (post : request.method = "POST".toList)
    (quiet : NoFailure (Server.clientPost runtime request) world) :
    Ends (Server.clientPost runtime request) world ↔ Meets runtime request world := by
  have notGet : ¬request.method = "GET".toList := by rw [post]; decide
  unfold Server.clientPost at quiet ⊢
  unfold Meets
  rw [if_neg notGet, if_pos post]
  simp only at quiet ⊢
  split_ifs at quiet ⊢ with users schedule shared upload
  · rw [bind_ends _ _ world (grows_lift _) (ending_add_client runtime) quiet, ← read_client_iff]
    rfl
  · exact post_schedule_ends runtime _ world quiet
  · exact iff_of_true ⟨(), rfl⟩ trivial
  · exact post_image_ends runtime _ world quiet
  · exact iff_of_true ⟨(), rfl⟩ trivial

/-- A request that fails no call ends without an exception exactly when it finds what it
must find. -/
theorem received_ends_iff (request : Request) (world : World)
    (quiet : NoFailure (Server.dataReceived runtime request) world) :
    Ends (Server.dataReceived runtime request) world ↔ Meets runtime request world := by
  have growsGet : Grows World.failedCalls (Server.clientGet runtime request) := fun bound =>
    stable_client_get (failures_stay bound) runtime (fun _ => trivial) (fun _ => trivial) request
  have growsPost : Grows World.failedCalls (Server.clientPost runtime request) := fun bound =>
    stable_client_post (failures_stay bound) runtime (fun _ => trivial) request
  unfold Server.dataReceived at quiet ⊢
  split_ifs at quiet ⊢ with get post
  · rw [last_ends]
    exact get_ends_iff runtime request world get (quiet_last _ _ world growsGet quiet)
  · rw [last_ends]
    exact post_ends_iff runtime request world post (quiet_last _ _ world growsPost quiet)
  · unfold Meets
    rw [if_neg get, if_neg post]
    exact iff_of_true ⟨none, rfl⟩ trivial

theorem flags_stay (listening serving : Bool) :
    Stable (fun world => world.listening = listening ∧ world.serving = serving)
      (fun _ => True) where
  call := fun call result world _ same => by cases result <;> exact same
  memory := fun before after only same => by rwa [only.listening, only.serving]

theorem handle_serving (request : Request) (world : World) (listening : world.listening = true)
    (serving : world.serving = true) :
    (Server.handle runtime request world).listening = true ∧
      ((Server.handle runtime request world).serving = true ↔
        Ends (Server.dataReceived runtime request) world) ∧
      (Server.handle runtime request world).failedCalls =
        (exec (Server.dataReceived runtime request) world).2.failedCalls := by
  have flags := stable_data_received (flags_stay true true) runtime (fun _ => trivial) request
    world ⟨listening, serving⟩
  unfold Server.handle Ends
  rw [listening, serving, Bool.and_self, if_pos rfl]
  generalize exec (Server.dataReceived runtime request) world = ran at flags ⊢
  obtain ⟨result, after⟩ := ran
  cases result with
  | ok value => exact ⟨flags.1, ⟨fun _ => ⟨value, rfl⟩, fun _ => flags.2⟩, rfl⟩
  | error failure =>
      refine ⟨flags.1, iff_of_false Bool.false_ne_true ?_, rfl⟩
      rintro ⟨value, never⟩
      cases never

theorem serve_ended (requests : List Request) (world : World) (ended : world.serving = false) :
    Server.serve runtime requests world = world := by
  induction requests with
  | nil => rfl
  | cons request requests ih =>
      have stays : Server.handle runtime request world = world := by simp [Server.handle, ended]
      rw [Server.serve, stays, ih]

def MeetsEach : List Request → World → Prop
  | [], _ => True
  | request :: requests, world =>
      Meets runtime request world ∧ MeetsEach requests (Server.handle runtime request world)

theorem serve_serving_iff (requests : List Request) (world : World)
    (listening : world.listening = true) (serving : world.serving = true)
    (quiet : NoFailures runtime requests world) :
    (Server.serve runtime requests world).listening = true ∧
      ((Server.serve runtime requests world).serving = true ↔
        MeetsEach runtime requests world) := by
  induction requests generalizing world with
  | nil => exact ⟨listening, iff_of_true serving trivial⟩
  | cons request requests ih =>
      obtain ⟨first, rest⟩ := no_failures_cons runtime request requests world quiet
      obtain ⟨stillListening, serves, failures⟩ :=
        handle_serving runtime request world listening serving
      have received := received_ends_iff runtime request world (failures.symm.trans first)
      rw [Server.serve, MeetsEach, ← received, ← serves]
      cases stillServing : (Server.handle runtime request world).serving with
      | true =>
          obtain ⟨opened, each⟩ := ih _ stillListening stillServing rest
          exact ⟨opened, each.trans (and_iff_right rfl).symm⟩
      | false =>
          rw [serve_ended runtime requests _ stillServing, stillServing]
          refine ⟨stillListening, iff_of_false Bool.false_ne_true ?_⟩
          rintro ⟨never, -⟩
          exact Bool.false_ne_true never

end

/-- Where no database call fails, the loop goes on as long as the listener does exactly when
each request finds what it must find. -/
theorem loop_serves_iff (runtime : Runtime) (requests : List Request) (world : World)
    (listening : world.listening = true) (serving : world.serving = true)
    (quiet : NoFailures runtime requests world) :
    ((Server.serve runtime requests world).listening = true →
        (Server.serve runtime requests world).serving = true) ↔
      MeetsEach runtime requests world := by
  obtain ⟨opened, each⟩ := serve_serving_iff runtime requests world listening serving quiet
  rw [← each]
  exact ⟨fun goes => goes opened, fun serves _ => serves⟩

theorem loop_serves_iff_users :
    let requests := [userRequest "\x7b\"uid\":5\x7d", userRequest "\x7b\"uid\":7\x7d"]
    ((Server.serve .standard requests (.opened Tables.empty)).listening = true →
      (Server.serve .standard requests (.opened Tables.empty)).serving = true) ↔
    MeetsEach .standard requests (.opened Tables.empty) := by
  refine loop_serves_iff .standard _ (.opened Tables.empty) rfl rfl ?_
  unfold NoFailures
  decide +kernel

/-- The cast of the id stands outside of any `try`. -/
theorem word_for_id_ends_loop :
    let requests := [userRequest "\x7b\"uid\":\"abc\"\x7d"]
    NoFailures .standard requests (.opened Tables.empty) ∧
    ¬((Server.serve .standard requests (.opened Tables.empty)).listening = true →
      (Server.serve .standard requests (.opened Tables.empty)).serving = true) := by
  constructor
  · unfold NoFailures
    decide +kernel
  · decide +kernel

end TfuServer
