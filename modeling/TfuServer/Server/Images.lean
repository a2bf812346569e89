import TfuServer.Server.Calls
import TfuServer.Server.Standard
import TfuServer.Server.Statements

/-!
# The images and their table

Every image of the dictionary is a row of the table with the status 1, through
the free row, the counted key and the ids the clients choose. The counted key is
a new one only while the ids stay below the number of rows.
-/

namespace TfuServer

set_option autoImplicit false

open Numeral Program
open Sql (Cell DataRow Row firstKey)

namespace ImageManager

abbrev StorageRow := Row (schema.columns .s3)

def storageRow (id : Int32) (status : String) : StorageRow :=
  ⟨[.int id, .text status.toList], rfl⟩

def markUsed (id : Int32) (rows : List StorageRow) : List StorageRow :=
  Keyed.upsert firstKey id.toInt (storageRow id "1") (fun _ => storageRow id "1") rows

/-- One row for each id, free or used. -/
structure StorageTable (rows : List StorageRow) : Prop where
  unique : Keyed.Unique firstKey rows
  status : ∀ row ∈ rows, ∃ id, row = storageRow id "0" ∨ row = storageRow id "1"

def storedImages (rows : List StorageRow) : Dictionary Int32 Text :=
  fun id => if storageRow id "1" ∈ rows then some (imageName id) else none

@[simp] theorem storage_row_key (id : Int32) (status : String) :
    firstKey (storageRow id status) = some id.toInt := rfl

theorem storage_row_injective (left right : Int32) (leftStatus rightStatus : String)
    (same : storageRow left leftStatus = storageRow right rightStatus) : left = right := by
  have keys := congrArg firstKey same
  exact Int32.toInt_inj.mp (Option.some.inj keys)

theorem statuses_differ (left right : Int32) : storageRow left "0" ≠ storageRow right "1" := by
  intro same
  have cells := congrArg (fun row : StorageRow => row.cells[1]?) same
  exact absurd cells (by simp [storageRow])

theorem mem_mark_used (id : Int32) (row : StorageRow) (rows : List StorageRow) :
    row ∈ markUsed id rows ↔
      row = storageRow id "1" ∨ row ∈ rows ∧ firstKey row ≠ some id.toInt :=
  Keyed.mem_upsert_iff firstKey id.toInt _ row rows rfl

theorem mark_used_table (id : Int32) (rows : List StorageRow) (table : StorageTable rows) :
    StorageTable (markUsed id rows) where
  unique := Keyed.unique_upsert firstKey id.toInt _ _ rows rfl (fun _ _ => rfl) table.unique
  status := fun row member => by
    rcases (mem_mark_used id row rows).mp member with rfl | ⟨old, -⟩
    · exact ⟨id, Or.inr rfl⟩
    · exact table.status row old

theorem stored_mark_used (id : Int32) (rows : List StorageRow) :
    storedImages (markUsed id rows) = (storedImages rows).set id (imageName id) := by
  funext other
  by_cases same : other = id
  · subst same
    simp [storedImages, Dictionary.set, mem_mark_used]
  · have differs : ¬storageRow other "1" = storageRow id "1" := fun eq =>
      same (storage_row_injective _ _ _ _ eq)
    have otherKey : ¬other.toInt = id.toInt := fun eq => same (Int32.toInt_inj.mp eq)
    simp [storedImages, Dictionary.set, mem_mark_used, differs, otherKey,
      Function.update_of_ne same]

section
variable (runtime : Runtime)

theorem grows_write (rows : List DataRow) (id : Int32) :
    Grows World.failedCalls (if rows.length > 0 then
      DBManager.executeQuery runtime (updateText id)
      else DBManager.executeQuery runtime (insertText id)) := by
  split
  · exact grows_execute runtime _
  · exact grows_execute runtime _

@[simp] theorem enter_tables (id : Int32) (world : World) :
    (enter id world).tables = world.tables := rfl

theorem exec_image_added (id : Int32) (world : World)
    (quiet : NoFailure (imageAdded runtime id) world) :
    ∃ calls, exec (imageAdded runtime id) world =
      (.ok (), ((enter id world).put .s3 (markUsed id (world.tables .s3))).logs calls) := by
  have entered := quiet_rest _ _ world (enter id world) ⟨⟩ rfl rfl quiet
  obtain ⟨ran, later, -⟩ := rows_step runtime _ _ (read_row_query id) rfl
    (fun rows => grows_write runtime rows id) entered
  have start : exec (imageAdded runtime id) world = _ := ran
  rw [start]
  rw [enter_tables, rows_of_key runtime world.tables .s3 "id".toList rfl] at later ⊢
  simp only [List.length_map, gt_iff_lt] at later ⊢
  have fresh (row : StorageRow) (inserted : Sql.insertCells runtime.settings
      TableName.s3.columns [.number (intText id.toInt), .number ['1']] = some row.cells) :
      row = storageRow id "1" := by
    refine Sql.Row.ext_cells (Option.some.inj (inserted.symm.trans ?_))
    simp [Sql.insertCells, TableName.columns, column, Sql.coerce, storageRow]
  by_cases absent : Keyed.rowsOf firstKey (world.tables .s3) id.toInt = []
  · simp only [absent, List.length_nil, Nat.lt_irrefl, if_false] at later ⊢
    obtain ⟨row, inserted, ran⟩ := insert_step runtime id.toInt (World.logs _ (enter id world))
      rfl (read_insert_text id) absent later
    rw [ran, fresh row inserted]
    exact ⟨_, congrArg (Prod.mk (Except.ok ())) (World.logs_logs
      ((enter id world).put .s3 (markUsed id (world.tables .s3))) _ _)⟩
  · simp only [List.length_pos_iff.mpr absent, if_true] at later ⊢
    have covers : Sql.Covers TableName.s3.columns
        [.number (intText id.toInt), .number ['1']] [("status".toList, .number ['1'])] := Or.inr rfl
    obtain ⟨row, inserted, ran⟩ := update_step runtime id.toInt (World.logs _ (enter id world))
      rfl rfl (read_update_text id) covers rfl absent later
    rw [ran, fresh row inserted]
    exact ⟨_, congrArg (Prod.mk (Except.ok ())) (World.logs_logs
      ((enter id world).put .s3 (markUsed id (world.tables .s3))) _ _)⟩

def idOf (status : String) (row : StorageRow) : Option Int32 :=
  match row.cells with
  | [.int id, .text value] => if value = status.toList then some id else none
  | _ => none

def idsWith (status : String) (rows : List StorageRow) : List Int32 := rows.filterMap (idOf status)

theorem id_of_iff (status : String) (row : StorageRow) (id : Int32) :
    idOf status row = some id ↔ row = storageRow id status := by
  constructor
  · intro has
    unfold idOf at has
    split at has
    · rename_i other value shape
      split_ifs at has with same
      refine Sql.Row.ext_cells (shape.trans ?_)
      rw [same, Option.some.inj has]
      rfl
    · cases has
  · rintro rfl
    simp [idOf, storageRow]

theorem mem_ids_with (status : String) (rows : List StorageRow) (id : Int32) :
    id ∈ idsWith status rows ↔ storageRow id status ∈ rows := by
  simp [idsWith, List.mem_filterMap, id_of_iff]

theorem ids_with_cons (status value : String) (id : Int32) (rows : List StorageRow) :
    idsWith status (storageRow id value :: rows) =
      if value = status then id :: idsWith status rows else idsWith status rows := by
  have same : value.toList = status.toList ↔ value = status := String.toList_inj
  by_cases wanted : value = status
  · simp [idsWith, idOf, storageRow, wanted]
  · have other := mt same.mp wanted
    have absent : idOf status (storageRow id value) = none := by simp [idOf, storageRow, other]
    rw [if_neg wanted, idsWith, List.filterMap_cons_none absent, idsWith]

theorem ids_of_statuses (status other : String) (rows : List StorageRow)
    (differ : status ≠ other)
    (each : ∀ row ∈ rows, ∃ id, row = storageRow id status ∨ row = storageRow id other) :
    (idsWith status rows).length + (idsWith other rows).length = rows.length := by
  induction rows with
  | nil => rfl
  | cons row rows ih =>
      have rest := ih fun next member => each next (List.mem_cons_of_mem _ member)
      obtain ⟨id, rfl | rfl⟩ := each row (by simp)
      · rw [ids_with_cons, ids_with_cons, if_pos rfl, if_neg differ, List.length_cons,
          List.length_cons]
        omega
      · rw [ids_with_cons, ids_with_cons, if_pos rfl, if_neg differ.symm, List.length_cons,
          List.length_cons]
        omega

theorem rows_with_status (tables : Tables) (status : String) (number : Text)
    (equal : Sql.cellEquals (.text "0".toList) (.number number) = ("0" == status) ∧
      Sql.cellEquals (.text "1".toList) (.number number) = ("1" == status))
    (table : ∀ row ∈ tables .s3, ∃ id, row = storageRow id "0" ∨ row = storageRow id "1") :
    rowsMeeting runtime tables .s3 (.equals "status".toList (.number number)) =
      (idsWith status (tables .s3)).map fun id => (storageRow id status).dataRow := by
  have meets (id : Int32) (value : String) :
      (Sql.Condition.equals "status".toList (.number number)).holds runtime.settings
        (schema.columns .s3) (storageRow id value).cells =
          Sql.cellEquals (.text value.toList) (.number number) := rfl
  unfold rowsMeeting
  revert table
  generalize tables .s3 = rows
  intro each
  induction rows with
  | nil => rfl
  | cons row rows ih =>
      have rest := ih fun next member => each next (List.mem_cons_of_mem _ member)
      have first (id : Int32) (value : String)
          (holds : Sql.cellEquals (.text value.toList) (.number number) = (value == status)) :
          ((storageRow id value :: rows).filter fun row =>
            (Sql.Condition.equals "status".toList (.number number)).holds runtime.settings
              (schema.columns .s3) row.cells).map Row.dataRow =
            (idsWith status (storageRow id value :: rows)).map
              fun id => (storageRow id status).dataRow := by
        rw [List.filter_cons, meets, holds, ids_with_cons]
        by_cases wanted : value = status
        · subst wanted
          simp only [beq_self_eq_true, if_true, List.map_cons]
          exact congrArg (List.cons _) rest
        · simp only [beq_eq_false_iff_ne.mpr wanted, Bool.false_eq_true, if_false, wanted]
          exact rest
      obtain ⟨id, rfl | rfl⟩ := each row (by simp)
      · exact first id "0" equal.1
      · exact first id "1" equal.2

theorem load_rows_used (dictionary : Dictionary Int32 Text) (ids : List Int32) :
    loadRows dictionary (ids.map fun id => (storageRow id "1").dataRow) =
      .ok fun id => if id ∈ ids then some (imageName id) else dictionary id := by
  induction ids generalizing dictionary with
  | nil => rfl
  | cons id ids ih =>
      have step : loadRows dictionary ((id :: ids).map fun id => (storageRow id "1").dataRow) =
          loadRows (dictionary.set id (imageName id))
            (ids.map fun id => (storageRow id "1").dataRow) := rfl
      rw [step, ih]
      refine congrArg Except.ok (funext fun other => ?_)
      by_cases same : other = id
      · subst same
        simp [Dictionary.set]
      · simp [Dictionary.set, same]

theorem first_free_rows (ids : List Int32) :
    firstFree (ids.map fun id => (storageRow id "0").dataRow) = .ok ids.head? := by
  cases ids <;> rfl

theorem grows_image_added (id : Int32) : Grows World.failedCalls (imageAdded runtime id) :=
  fun bound => stable_image_added (failures_stay bound) runtime id trivial trivial

/-- A free row's id, or the number of rows. -/
def EmptyKey (rows : List StorageRow) (key : Int32) : Prop :=
  storageRow key "0" ∈ rows ∨ key.toInt = rows.length

theorem grows_added_key (id : Int32) : Grows World.failedCalls (do
    imageAdded runtime id
    return id : Action Int32) :=
  fun bound => preserves_bind _ _ (grows_image_added runtime id bound) fun _ => preserves_pure _

theorem exec_added_key (id : Int32) (world : World) (calls : List Call)
    (empty : EmptyKey (world.tables .s3) id)
    (quiet : NoFailure (do
      imageAdded runtime id
      return id : Action Int32) (world.logs calls)) :
    ∃ key more, exec (do
        imageAdded runtime id
        return id : Action Int32) (world.logs calls) =
        (.ok key, ((enter key world).put .s3 (markUsed key (world.tables .s3))).logs more) ∧
      EmptyKey (world.tables .s3) key := by
  obtain ⟨first, -⟩ := quiet_bind _ _ _ (grows_image_added runtime id)
    (fun _ bound => preserves_pure _) quiet
  obtain ⟨more, ran⟩ := exec_image_added runtime id (world.logs calls) first
  rw [exec_bind_ok _ _ _ _ _ ran]
  exact ⟨id, calls ++ more, congrArg (Prod.mk (Except.ok id))
    (World.logs_logs ((enter id world).put .s3 (markUsed id (world.tables .s3))) calls more),
    empty⟩

theorem exec_get_empty_key (world : World) (table : StorageTable (world.tables .s3))
    (quiet : NoFailure (getEmptyKey runtime) world) :
    ∃ key calls, exec (getEmptyKey runtime) world =
        (.ok key, ((enter key world).put .s3 (markUsed key (world.tables .s3))).logs calls) ∧
      EmptyKey (world.tables .s3) key := by
  have zeros := rows_with_status runtime world.tables "0" ['0'] (by decide) table.status
  have ones := rows_with_status runtime world.tables "1" ['1'] (by decide) table.status
  obtain ⟨ran, later, -⟩ := select_step runtime _ world read_free_query rfl (fun data bound => by
    refine preserves_bind _ _ (preserves_lift _) fun found => ?_
    cases found with
    | some id => exact grows_added_key runtime id bound
    | none =>
        exact stable_rows (failures_stay bound) runtime _ _ fun rows =>
          grows_added_key runtime _ bound) quiet
  have start : exec (getEmptyKey runtime) world = _ := ran
  rw [start]
  rw [zeros] at later ⊢
  have found : exec (lift (do
      firstFree (← DataSet.first
        [(idsWith "0" (world.tables .s3)).map fun id => (storageRow id "0").dataRow])) :
          Action (Option Int32)) (world.logs [.select freeQuery]) =
      (.ok (idsWith "0" (world.tables .s3)).head?, world.logs [.select freeQuery]) :=
    congrArg (fun result => (result, world.logs [.select freeQuery])) (first_free_rows _)
  have picked := quiet_rest _ _ _ _ _ found rfl later
  rw [exec_bind_ok _ _ _ _ _ found]
  cases free : idsWith "0" (world.tables .s3) with
  | cons id rest =>
      have member : id ∈ idsWith "0" (world.tables .s3) := by simp [free]
      simp only [free, List.head?_cons] at picked ⊢
      exact exec_added_key runtime id world _ (Or.inl ((mem_ids_with "0" _ id).mp member)) picked
  | nil =>
      have count := ids_of_statuses "0" "1" (world.tables .s3) (by decide) table.status
      simp only [free, List.head?_nil] at picked ⊢
      obtain ⟨counted, last, few⟩ := rows_step runtime
        (fun rows => do
          imageAdded runtime (Int32.ofNat rows.length)
          return Int32.ofNat rows.length)
        _ read_used_query rfl (fun rows => grows_added_key runtime (Int32.ofNat rows.length)) picked
      have total : (idsWith "1" (world.tables .s3)).length = (world.tables .s3).length := by
        simpa [free] using count
      rw [counted]
      simp only [World.logs_tables, ones, List.length_map, total, World.logs_logs] at few last ⊢
      have small : (world.tables .s3).length < 2 ^ 31 := by
        unfold maxRows at few
        omega
      have key : (Int32.ofNat (world.tables .s3).length).toInt = (world.tables .s3).length :=
        Int32.toInt_ofNat_of_lt small
      exact exec_added_key runtime (Int32.ofNat (world.tables .s3).length) world _ (Or.inr key) last

def built (dictionary : Dictionary Int32 Text) (world : World) : World :=
  let number := match world.imageManager with
    | some manager => manager.number
    | none => 0
  { world with imageManager := some { number, dictionary } }

theorem built_there (world : World) (manager : Manager Int32 Text)
    (there : world.imageManager = some manager) : built manager.dictionary world = world := by
  cases world
  cases there
  rfl

theorem build_absent (dictionary : Dictionary Int32 Text) (world : World)
    (absent : world.imageManager = none) : build dictionary world = built dictionary world := by
  cases world
  cases absent
  rfl

/-- The dictionary there is, or the one that the first access builds. -/
def BuiltFrom (world : World) (dictionary : Dictionary Int32 Text) : Prop :=
  world.imageDictionary = some dictionary ∨
    world.imageDictionary = none ∧ dictionary = storedImages (world.tables .s3)

theorem exec_sync_storage (world : World) (table : StorageTable (world.tables .s3))
    (quiet : NoFailure (syncStorageToDictionary runtime) world) :
    exec (syncStorageToDictionary runtime) world =
      (.ok (storedImages (world.tables .s3)), world.logs [.select usedQuery]) := by
  obtain ⟨ran, -, -⟩ := select_step runtime _ world read_used_query rfl
    (fun data bound => preserves_lift _) quiet
  have start : exec (syncStorageToDictionary runtime) world = _ := ran
  rw [start, rows_with_status runtime world.tables "1" ['1'] (by decide) table.status]
  refine congrArg (fun result => (result, world.logs [.select usedQuery]))
    ((load_rows_used (fun _ => none) (idsWith "1" (world.tables .s3))).trans ?_)
  refine congrArg Except.ok (funext fun id => ?_)
  simp only [mem_ids_with, storedImages]

theorem grows_sync_storage : Grows World.failedCalls (syncStorageToDictionary runtime) :=
  fun bound => preserves_bind _ _ (grows_select runtime _ bound) fun _ => preserves_lift _

theorem exec_instance_there (world : World) (manager : Manager Int32 Text)
    (there : world.imageManager = some manager) :
    exec (ImageManager.instance runtime) world = (.ok (), world) := by
  simp only [ImageManager.instance, exec_bind, exec_get, there]
  rfl

theorem exec_instance_absent (world : World) (absent : world.imageManager = none) :
    exec (ImageManager.instance runtime) world = exec (do
      let dictionary ← syncStorageToDictionary runtime
      modify (build dictionary) : Action Unit) world := by
  simp only [ImageManager.instance, exec_bind, exec_get, absent]

theorem grows_build (dictionary : Dictionary Int32 Text) :
    Grows World.failedCalls (modify (build dictionary) : Action PUnit) :=
  grows_modify _ fun _ => ⟨rfl, rfl, rfl, rfl, rfl, rfl⟩

theorem exec_instance (world : World) (table : StorageTable (world.tables .s3))
    (quiet : NoFailure (ImageManager.instance runtime) world) :
    ∃ dictionary calls, exec (ImageManager.instance runtime) world =
      (.ok (), (built dictionary world).logs calls) ∧ BuiltFrom world dictionary := by
  cases there : world.imageManager with
  | some manager =>
      refine ⟨manager.dictionary, [], ?_, Or.inl (congrArg (Option.map Manager.dictionary) there)⟩
      have same : (built manager.dictionary world).logs [] = world := by
        rw [built_there world manager there]
        simp [World.logs]
      rw [same, exec_instance_there runtime world manager there]
  | none =>
      have start := exec_instance_absent runtime world there
      rw [NoFailure, Quiet, start] at quiet
      obtain ⟨first, -⟩ := quiet_bind _ _ _ (grows_sync_storage runtime) grows_build quiet
      have ran := exec_sync_storage runtime world table first
      refine ⟨storedImages (world.tables .s3), [.select usedQuery], ?_,
        Or.inr ⟨congrArg (Option.map Manager.dictionary) there, rfl⟩⟩
      rw [start, exec_bind_ok _ _ _ _ _ ran, ← build_absent _ world there]
      rfl

def added (dictionary : Dictionary Int32 Text) (id : Int32) (world : World) : World :=
  (enter id (built dictionary world)).put .s3 (markUsed id (world.tables .s3))

theorem exec_image_key (world : World) (table : StorageTable (world.tables .s3))
    (quiet : NoFailure (Server.imageKey runtime) world) :
    ∃ key dictionary calls, exec (Server.imageKey runtime) world =
        (.ok (Server.keyResponse key), (added dictionary key world).logs calls) ∧
      EmptyKey (world.tables .s3) key ∧ BuiltFrom world dictionary := by
  have growsEnter (key : Int32) : Grows World.failedCalls (do
      modify (enter key)
      return Server.keyResponse key : Action Text) :=
    fun bound => preserves_bind _ _ (grows_modify (enter key)
      (fun _ => ⟨rfl, rfl, rfl, rfl, rfl, rfl⟩) bound) fun _ => preserves_pure _
  have growsKey : Grows World.failedCalls (getEmptyKey runtime) :=
    fun bound => stable_get_empty_key (failures_stay bound) runtime (fun _ => trivial)
      fun _ => trivial
  obtain ⟨first, later⟩ := quiet_bind _ _ world
    (fun bound => stable_instance (failures_stay bound) runtime)
    (fun _ bound => preserves_bind _ _ (growsKey bound) fun key => growsEnter key bound) quiet
  obtain ⟨dictionary, calls, ran, from_⟩ := exec_instance runtime world table first
  obtain ⟨second, -⟩ := quiet_bind _ _ _ growsKey growsEnter (later _ _ ran)
  obtain ⟨key, more, issued, empty⟩ :=
    exec_get_empty_key runtime ((built dictionary world).logs calls) table second
  refine ⟨key, dictionary, calls ++ more, ?_, empty, from_⟩
  have start : exec (Server.imageKey runtime) world = exec (do
      let key ← getEmptyKey runtime
      modify (enter key)
      return Server.keyResponse key : Action Text) ((built dictionary world).logs calls) :=
    exec_bind_ok _ _ _ _ _ ran
  rw [start, exec_bind_ok _ _ _ _ _ issued]
  refine congrArg (Prod.mk (Except.ok (Server.keyResponse key))) ?_
  have again : (dictionary.set key (imageName key)).set key (imageName key) =
      dictionary.set key (imageName key) := Function.update_idem _ _ _
  simp only [added, enter, built, World.put, World.logs, Option.map_some, Manager.enter, again,
    List.append_assoc]

end

end ImageManager

open ImageManager

section
variable (runtime : Runtime)

def isUploadRequest (request : Request) : Bool :=
  request.method == "POST".toList && startsWith runtime request.rawUrl "/imageupload"

def isImageRequest (request : Request) : Bool :=
  request.method == "GET".toList && startsWith runtime request.rawUrl "/image" ||
    isUploadRequest runtime request

/-- The id a request uploads, if its result is a success. -/
def uploadedId (request : Request) : Option Int32 :=
  if request.method = "POST".toList then
    match heldUpload runtime.newtonsoft (Server.parseBody runtime request.body) with
    | .ok (some held) => (uploadId runtime.newtonsoft held).toOption
    | _ => none
  else none

theorem key_response_restored (key : Int32) :
    restoreApostrophes (Server.keyResponse key) = Server.keyResponse key := by
  refine Replace.replace_of_char_not_mem _ _ _ 'u' (by decide) fun member => ?_
  simp only [Server.keyResponse, textOfParts, List.flatten_cons, List.flatten_nil,
    List.append_nil, List.mem_append] at member
  rcases member with start | digits | close
  · exact absurd start (by decide)
  · exact absurd (number_chars _ (int_text_is_number key.toInt) 'u' digits) (by decide)
  · exact absurd close (by decide)

theorem key_response_injective (left right : Int32)
    (same : Server.keyResponse left = Server.keyResponse right) : left = right := by
  simp only [Server.keyResponse, textOfParts, List.flatten_cons, List.flatten_nil,
    List.append_nil] at same
  have digits := List.append_cancel_right (List.append_cancel_left same)
  exact Int32.toInt_inj.mp (int_text_injective digits)

theorem received_image_upload (request : Request) (world : World)
    (upload : isUploadRequest runtime request = true) :
    exec (Server.dataReceived runtime request) world =
      match heldUpload runtime.newtonsoft (Server.parseBody runtime request.body) with
      | .error failure => (.error failure, world)
      | .ok none => (.ok none, world)
      | .ok (some held) => exec (do
          ImageManager.instance runtime
          let id ← lift (uploadId runtime.newtonsoft held)
          imageAdded runtime id
          return none) world := by
  obtain ⟨method, route⟩ := Bool.and_eq_true_iff.mp upload
  have isPost : request.method = "POST".toList := eq_of_beq method
  have notGet : ¬request.method = "GET".toList := by rw [isPost]; decide
  have users := starts_with_one route "/users" (by decide)
  have schedule := starts_with_one route "/schedule" (by decide)
  have shared := starts_with_one route "/sharedschedule" (by decide)
  simp only [Server.dataReceived, if_neg notGet, if_pos isPost, Server.clientPost, users, schedule,
    shared, route, Bool.false_eq_true, if_false, if_true, exec_bind, exec_lift]
  rcases heldUpload runtime.newtonsoft (Server.parseBody runtime request.body) with
    failure | (- | held)
  · rfl
  · rfl
  · simp only [exec_bind, exec_lift]
    generalize exec (ImageManager.instance runtime) world = ran
    obtain ⟨result, after⟩ := ran
    cases result with
    | error failure => rfl
    | ok _ => cases uploadId runtime.newtonsoft held <;> rfl

/-- What an image request that fails no call does: it answers a key and adds it, or
adds the id it uploads, or adds nothing. The manager is there before the id is converted. -/
inductive ImageStep (request : Request) (world : World) : Prop where
  | issued (key : Int32) (dictionary : Dictionary Int32 Text) (calls : List Call)
      (ran : exec (Server.dataReceived runtime request) world =
        (.ok (some (Server.keyResponse key)), (added dictionary key world).logs calls))
      (empty : EmptyKey (world.tables .s3) key) (from_ : BuiltFrom world dictionary)
  | uploaded (id : Int32) (dictionary : Dictionary Int32 Text) (calls : List Call)
      (ran : exec (Server.dataReceived runtime request) world =
        (.ok none, (added dictionary id world).logs calls))
      (sent : uploadedId runtime request = some id) (from_ : BuiltFrom world dictionary)
  | unread (failure : Failure) (dictionary : Dictionary Int32 Text) (calls : List Call)
      (ran : exec (Server.dataReceived runtime request) world =
        (.error failure, (built dictionary world).logs calls))
      (from_ : BuiltFrom world dictionary)
  | ignored (result : Except Failure (Option Text))
      (ran : exec (Server.dataReceived runtime request) world = (result, world))
      (silent : ∀ text, result ≠ .ok (some text))

theorem image_key_step (request : Request) (world : World)
    (method : request.method = "GET".toList)
    (route : startsWith runtime request.rawUrl "/image" = true)
    (table : StorageTable (world.tables .s3))
    (quiet : NoFailure (Server.dataReceived runtime request) world) :
    ImageStep runtime request world := by
  have shape : Server.dataReceived runtime request = (do
      let key ← Server.imageKey runtime
      return some (restoreApostrophes key)) := by
    simp [Server.dataReceived, method, Server.clientGet, route]
  rw [shape] at quiet
  obtain ⟨first, -⟩ := quiet_bind _ _ world
    (fun bound => stable_image_key (failures_stay bound) runtime (fun _ => trivial)
      fun _ => trivial) (fun _ bound => preserves_pure _) quiet
  obtain ⟨key, dictionary, calls, ran, empty, from_⟩ := exec_image_key runtime world table first
  refine .issued key dictionary calls ?_ empty from_
  rw [shape, exec_bind_ok _ _ _ _ _ ran, exec_pure, key_response_restored]

theorem image_upload_step (request : Request) (world : World)
    (upload : isUploadRequest runtime request = true) (table : StorageTable (world.tables .s3))
    (quiet : NoFailure (Server.dataReceived runtime request) world) :
    ImageStep runtime request world := by
  have received := received_image_upload runtime request world upload
  have sent : uploadedId runtime request =
      match heldUpload runtime.newtonsoft (Server.parseBody runtime request.body) with
      | .ok (some held) => (uploadId runtime.newtonsoft held).toOption
      | _ => none := if_pos (eq_of_beq (Bool.and_eq_true_iff.mp upload).1)
  rw [NoFailure, Quiet, received] at quiet
  generalize heldUpload runtime.newtonsoft (Server.parseBody runtime request.body) = found
    at received sent quiet
  rcases found with failure | (- | held)
  · exact .ignored (.error failure) received fun text => by simp
  · exact .ignored (.ok none) received fun text => by simp
  · have growsRest (found : Except Failure Int32) : Grows World.failedCalls (do
        let id ← lift found
        imageAdded runtime id
        return none : Action (Option Text)) :=
      fun bound => preserves_bind _ _ (preserves_lift _) fun id =>
        preserves_bind _ _ (grows_image_added runtime id bound) fun _ => preserves_pure _
    obtain ⟨first, later⟩ := quiet_bind _ _ world
      (fun bound => stable_instance (failures_stay bound) runtime)
      (fun _ => growsRest (uploadId runtime.newtonsoft held)) quiet
    obtain ⟨dictionary, calls, built_, from_⟩ := exec_instance runtime world table first
    have rest := later _ _ built_
    have started := received.trans (exec_bind_ok _ _ _ _ _ built_)
    simp only at sent
    generalize uploadId runtime.newtonsoft held = converted at sent rest started
    cases converted with
    | error failure => exact .unread failure dictionary calls started from_
    | ok id =>
        obtain ⟨second, -⟩ := quiet_bind _ _ _ (grows_image_added runtime id)
          (fun _ bound => preserves_pure _) rest
        obtain ⟨more, ran⟩ :=
          exec_image_added runtime id ((built dictionary world).logs calls) second
        refine .uploaded id dictionary (calls ++ more) ?_ sent from_
        have last : exec (do
            imageAdded runtime id
            return none : Action (Option Text)) ((built dictionary world).logs calls) = _ :=
          exec_bind_ok _ _ _ _ _ ran
        exact started.trans (last.trans (congrArg (Prod.mk (Except.ok none))
          (World.logs_logs (added dictionary id world) calls more)))

theorem image_step (request : Request) (world : World)
    (image : isImageRequest runtime request = true)
    (table : StorageTable (world.tables .s3))
    (quiet : NoFailure (Server.dataReceived runtime request) world) :
    ImageStep runtime request world := by
  rcases Bool.or_eq_true_iff.mp image with get | post
  · obtain ⟨method, route⟩ := Bool.and_eq_true_iff.mp get
    exact image_key_step runtime request world (eq_of_beq method) route table quiet
  · exact image_upload_step runtime request world post table quiet

/-- The dictionary, once built, has exactly the used rows. -/
structure Mirrors (world : World) : Prop where
  table : StorageTable (world.tables .s3)
  dictionary : ∀ dictionary, world.imageDictionary = some dictionary →
    dictionary = storedImages (world.tables .s3)

theorem built_mirrors (world : World) (dictionary : Dictionary Int32 Text)
    (mirrors : Mirrors world) (from_ : BuiltFrom world dictionary)
    (current : Dictionary Int32 Text)
    (same : (built dictionary world).imageDictionary = some current) :
    current = storedImages (world.tables .s3) := by
  obtain rfl : dictionary = current := Option.some.inj same
  rcases from_ with there | ⟨-, fresh⟩
  · exact mirrors.dictionary dictionary there
  · exact fresh

theorem added_mirrors (world : World) (dictionary : Dictionary Int32 Text) (id : Int32)
    (mirrors : Mirrors world) (from_ : BuiltFrom world dictionary) :
    Mirrors (added dictionary id world) where
  table := by
    rw [added, World.put_table]
    exact mark_used_table id _ mirrors.table
  dictionary := fun current same => by
    have before := built_mirrors world dictionary mirrors from_ dictionary rfl
    have entered : dictionary.set id (imageName id) = current := Option.some.inj same
    rw [added, World.put_table, stored_mark_used, ← before, entered]

theorem image_step_mirrors (request : Request) (world : World) (mirrors : Mirrors world)
    (step : ImageStep runtime request world) :
    Mirrors (exec (Server.dataReceived runtime request) world).2 := by
  cases step with
  | issued key dictionary calls ran empty from_ =>
      have kept := added_mirrors world dictionary key mirrors from_
      rw [ran]
      exact ⟨kept.table, kept.dictionary⟩
  | uploaded id dictionary calls ran sent from_ =>
      have kept := added_mirrors world dictionary id mirrors from_
      rw [ran]
      exact ⟨kept.table, kept.dictionary⟩
  | unread failure dictionary calls ran from_ =>
      rw [ran]
      exact ⟨mirrors.table, built_mirrors world dictionary mirrors from_⟩
  | ignored result ran silent =>
      rw [ran]
      exact mirrors

theorem handle_mirrors (request : Request) (world : World)
    (image : isImageRequest runtime request = true)
    (mirrors : Mirrors world)
    (quiet : (Server.handle runtime request world).failedCalls = world.failedCalls) :
    Mirrors (Server.handle runtime request world) := by
  rcases handle_cases runtime request world with ⟨⟨serving, handled⟩, -⟩ | ⟨handled, -⟩
  · rw [handled] at quiet ⊢
    have kept := image_step_mirrors runtime request world mirrors
      (image_step runtime request world image mirrors.table quiet)
    exact ⟨kept.table, kept.dictionary⟩
  · rw [handled]
    exact mirrors

theorem image_step_built (request : Request) (world : World)
    (step : ImageStep runtime request world) :
    let ran := exec (Server.dataReceived runtime request) world
    (world.imageDictionary.isSome = true → ran.2.imageDictionary.isSome = true) ∧
    ∀ text, ran.1 = .ok (some text) → ran.2.imageDictionary.isSome = true := by
  cases step with
  | issued key dictionary calls ran empty from_ => rw [ran]; exact ⟨fun _ => rfl, fun _ _ => rfl⟩
  | uploaded id dictionary calls ran sent from_ => rw [ran]; exact ⟨fun _ => rfl, fun _ _ => rfl⟩
  | unread failure dictionary calls ran from_ => rw [ran]; exact ⟨fun _ => rfl, fun _ _ => rfl⟩
  | ignored result ran silent =>
      rw [ran]
      exact ⟨fun there => there, fun text answered => absurd answered (silent text)⟩

theorem handle_built (request : Request) (world : World)
    (image : isImageRequest runtime request = true) (mirrors : Mirrors world)
    (quiet : (Server.handle runtime request world).failedCalls = world.failedCalls)
    (built : world.imageDictionary.isSome = true ∨
      Server.response runtime request world ≠ none) :
    (Server.handle runtime request world).imageDictionary.isSome = true := by
  rcases handle_cases runtime request world with ⟨⟨serving, handled⟩, opened⟩ | ⟨handled, silent⟩
  · rw [handled] at quiet ⊢
    obtain ⟨stays, answers⟩ := image_step_built runtime request world
      (image_step runtime request world image mirrors.table quiet)
    rcases built with there | answered
    · exact stays there
    · simp only [Server.response, opened, if_true] at answered
      split at answered
      · rename_i written after ran
        obtain ⟨text, rfl⟩ := Option.ne_none_iff_exists'.mp answered
        exact answers text (by rw [ran])
      · exact absurd rfl answered
  · rw [handled]
    exact built.resolve_right fun answered => answered silent

theorem answered_built (requests : List Request) (world : World)
    (images : ∀ request ∈ requests, isImageRequest runtime request = true)
    (mirrors : Mirrors world) (quiet : NoFailures runtime requests world)
    (built : world.imageDictionary.isSome = true ∨ Server.responses runtime requests world ≠ []) :
    (Server.serve runtime requests world).imageDictionary.isSome = true := by
  induction requests generalizing world with
  | nil => exact built.resolve_right fun answered => answered rfl
  | cons request requests ih =>
      obtain ⟨first, rest⟩ := no_failures_cons runtime request requests world quiet
      have image := images request (by simp)
      refine ih _ (fun next member => images next (List.mem_cons_of_mem _ member))
        (handle_mirrors runtime request world image mirrors first) rest ?_
      have now := handle_built runtime request world image mirrors first
      rcases built with there | answered
      · exact Or.inl (now (Or.inl there))
      · by_cases silent : Server.response runtime request world = none
        · rw [Server.responses, silent] at answered
          exact Or.inr answered
        · exact Or.inl (now (Or.inr silent))

end

/-- After every run of image requests the table has one row for each id, the
dictionary exactly its used ids, and a restart builds the same dictionary again. The
dictionary is there once a key has been answered. -/
theorem image_dictionary_mirrors_table (runtime : Runtime) (requests : List Request)
    (world : World) (images : ∀ request ∈ requests, isImageRequest runtime request = true)
    (table : StorageTable (world.tables .s3)) (started : world.imageDictionary = none)
    (quiet : NoFailures runtime requests world) :
    let rows := (Server.serve runtime requests world).tables .s3
    let used : Dictionary Int32 Text :=
      fun id => if storageRow id "1" ∈ rows then some (imageName id) else none
    StorageTable rows ∧
    (∀ dictionary, (Server.serve runtime requests world).imageDictionary = some dictionary →
      dictionary = used) ∧
    (Server.responses runtime requests world ≠ [] →
      (Server.serve runtime requests world).imageDictionary = some used) ∧
    (NoFailure (syncStorageToDictionary runtime) (Server.serve runtime requests world) →
      (exec (syncStorageToDictionary runtime) (Server.serve runtime requests world)).1 =
        .ok used) := by
  have start : Mirrors world := ⟨table, fun dictionary there => by simp [started] at there⟩
  have mirrors : Mirrors (Server.serve runtime requests world) :=
    serve_keeps runtime (handle_mirrors runtime) requests world images start quiet
  refine ⟨mirrors.table, mirrors.dictionary, fun answered => ?_, fun restarted => ?_⟩
  · obtain ⟨dictionary, there⟩ := Option.isSome_iff_exists.mp
      (answered_built runtime requests world images start quiet (Or.inr answered))
    rw [there, mirrors.dictionary dictionary there]
    rfl
  · rw [exec_sync_storage runtime _ mirrors.table restarted]
    rfl

def keyRequest : Request where
  method := "GET".toList
  rawUrl := "/image".toList
  keyword := none
  body := []

def uploadOne : Request where
  method := "POST".toList
  rawUrl := "/imageupload".toList
  keyword := none
  body := "\x7b\"result\":\"success\",\"id\":1\x7d".toList

theorem image_dictionary_mirrors_table_run :
    StorageTable
        ((Server.serve .standard [keyRequest, uploadOne] (.opened Tables.empty)).tables .s3) ∧
    ∃ dictionary,
      (Server.serve .standard [keyRequest, uploadOne] (.opened Tables.empty)).imageDictionary =
        some dictionary ∧
      dictionary 0 = some "0.jpg".toList ∧ dictionary 1 = some "1.jpg".toList ∧
      dictionary 2 = none := by
  obtain ⟨table, -, mirrors, -⟩ := image_dictionary_mirrors_table .standard
    [keyRequest, uploadOne] (.opened Tables.empty) (by decide)
    ⟨Keyed.unique_nil firstKey, by simp [World.opened, World.fresh, Tables.empty]⟩ rfl rfl
  exact ⟨table, _, mirrors (by decide), rfl, rfl, rfl⟩

/-- Every id is below the number of rows. -/
def Dense (rows : List StorageRow) : Prop :=
  ∀ row ∈ rows, ∀ k, firstKey row = some k → k < rows.length

theorem unused_of_empty_key (rows : List StorageRow) (key : Int32) (table : StorageTable rows)
    (dense : Dense rows) (empty : EmptyKey rows key) : storageRow key "1" ∉ rows := by
  intro used
  rcases empty with free | count
  · have first := Keyed.lookup_of_mem firstKey rows key.toInt _ table.unique free rfl
    have second := Keyed.lookup_of_mem firstKey rows key.toInt _ table.unique used rfl
    exact statuses_differ key key (Option.some.inj (first.symm.trans second))
  · have below := dense _ used key.toInt rfl
    omega

theorem length_mark_used (id : Int32) (rows : List StorageRow) :
    rows.length ≤ (markUsed id rows).length ∧
      ((markUsed id rows).length = rows.length → ∃ row ∈ rows, firstKey row = some id.toInt) := by
  rw [markUsed, Keyed.length_upsert]
  split_ifs with absent
  · exact ⟨Nat.le_succ _, fun same => by omega⟩
  · obtain ⟨row, within⟩ := List.exists_mem_of_ne_nil _ absent
    obtain ⟨member, has⟩ := List.mem_filter.mp within
    exact ⟨Nat.le_refl _, fun _ => ⟨row, member, by simpa using has⟩⟩

theorem mark_used_dense (id : Int32) (rows : List StorageRow) (dense : Dense rows)
    (low : id.toInt ≤ rows.length) : Dense (markUsed id rows) := by
  obtain ⟨longer, there⟩ := length_mark_used id rows
  intro row member k has
  rcases (mem_mark_used id row rows).mp member with rfl | ⟨old, -⟩
  · obtain rfl : id.toInt = k := Option.some.inj has
    by_cases same : (markUsed id rows).length = rows.length
    · obtain ⟨row, present, key⟩ := there same
      have below := dense row present id.toInt key
      omega
    · omega
  · have below := dense row old k has
    omega

theorem empty_key_low (rows : List StorageRow) (key : Int32) (dense : Dense rows)
    (empty : EmptyKey rows key) : key.toInt ≤ rows.length := by
  rcases empty with free | count
  · exact Int.le_of_lt (dense _ free key.toInt rfl)
  · omega

section
variable (runtime : Runtime)

/-- No upload of the run names an id past the number of rows there are. -/
def UploadsWithin : List Request → World → Prop
  | [], _ => True
  | request :: requests, world =>
      (∀ id, uploadedId runtime request = some id → id.toInt ≤ (world.tables .s3).length) ∧
        UploadsWithin requests (Server.handle runtime request world)

theorem image_step_rows (request : Request) (world : World)
    (step : ImageStep runtime request world) :
    (exec (Server.dataReceived runtime request) world).2.tables .s3 = world.tables .s3 ∨
      ∃ id, (EmptyKey (world.tables .s3) id ∨ uploadedId runtime request = some id) ∧
        (exec (Server.dataReceived runtime request) world).2.tables .s3 =
          markUsed id (world.tables .s3) := by
  cases step with
  | issued key dictionary calls ran empty from_ =>
      exact Or.inr ⟨key, Or.inl empty, by rw [ran, World.logs_tables, added, World.put_table]⟩
  | uploaded id dictionary calls ran sent from_ =>
      exact Or.inr ⟨id, Or.inr sent, by rw [ran, World.logs_tables, added, World.put_table]⟩
  | unread failure dictionary calls ran from_ => exact Or.inl (by rw [ran]; rfl)
  | ignored result ran silent => exact Or.inl (by rw [ran])

theorem image_step_keeps (request : Request) (world : World)
    (table : StorageTable (world.tables .s3))
    (dense : Dense (world.tables .s3))
    (within : ∀ id, uploadedId runtime request = some id → id.toInt ≤ (world.tables .s3).length)
    (step : ImageStep runtime request world) :
    let after := (exec (Server.dataReceived runtime request) world).2.tables .s3
    StorageTable after ∧ Dense after ∧
      ∀ id, storageRow id "1" ∈ world.tables .s3 → storageRow id "1" ∈ after := by
  rcases image_step_rows runtime request world step with same | ⟨id, origin, marked⟩
  · rw [same]
    exact ⟨table, dense, fun id used => used⟩
  · rw [marked]
    have low : id.toInt ≤ (world.tables .s3).length := by
      rcases origin with empty | sent
      · exact empty_key_low _ id dense empty
      · exact within id sent
    refine ⟨mark_used_table id _ table, mark_used_dense id _ dense low, fun other used => ?_⟩
    refine (mem_mark_used id _ _).mpr ?_
    by_cases same : id = other
    · exact Or.inl (by rw [same])
    · exact Or.inr ⟨used, fun key => same (Int32.toInt_inj.mp (Option.some.inj key)).symm⟩

/-- What a run needs for its keys to be new. -/
structure Ready (requests : List Request) (world : World) : Prop where
  images : ∀ request ∈ requests, isImageRequest runtime request = true
  table : StorageTable (world.tables .s3)
  dense : Dense (world.tables .s3)
  within : UploadsWithin runtime requests world
  quiet : NoFailures runtime requests world

theorem ready_step (request : Request) (requests : List Request) (world : World)
    (ready : Ready runtime (request :: requests) world) :
    Ready runtime requests (Server.handle runtime request world) ∧
      (∀ id, storageRow id "1" ∈ world.tables .s3 →
        storageRow id "1" ∈ (Server.handle runtime request world).tables .s3) ∧
      ∀ text, Server.response runtime request world = some text →
        ∃ key, text = Server.keyResponse key ∧ storageRow key "1" ∉ world.tables .s3 ∧
          storageRow key "1" ∈ (Server.handle runtime request world).tables .s3 := by
  obtain ⟨first, rest⟩ := no_failures_cons runtime request requests world ready.quiet
  have image := ready.images request (by simp)
  have later := fun next member => ready.images next (List.mem_cons_of_mem request member)
  rcases handle_cases runtime request world with ⟨⟨serving, handled⟩, open_⟩ | ⟨handled, silent⟩
  · have quiet : NoFailure (Server.dataReceived runtime request) world := by
      rw [handled] at first
      exact first
    have step := image_step runtime request world image ready.table quiet
    have tables : (Server.handle runtime request world).tables =
        (exec (Server.dataReceived runtime request) world).2.tables := by rw [handled]
    have within := ready.within
    obtain ⟨keptTable, keptDense, keptUsed⟩ :=
      image_step_keeps runtime request world ready.table ready.dense within.1 step
    refine ⟨⟨later, by rwa [tables], by rwa [tables], within.2, rest⟩, by rwa [tables], ?_⟩
    intro text answered
    simp only [Server.response, open_, if_true] at answered
    rw [tables]
    cases step with
    | issued key dictionary calls ran empty from_ =>
        rw [ran] at answered ⊢
        refine ⟨key, (Option.some.inj answered).symm,
          unused_of_empty_key _ key ready.table ready.dense empty, ?_⟩
        rw [World.logs_tables, added, World.put_table]
        exact (mem_mark_used key _ _).mpr (Or.inl rfl)
    | uploaded id dictionary calls ran sent from_ => simp [ran] at answered
    | unread failure dictionary calls ran from_ => simp [ran] at answered
    | ignored result ran silent =>
        rw [ran] at answered
        cases result with
        | ok written => exact absurd (congrArg Except.ok answered) (silent text)
        | error failure => cases answered
  · refine ⟨⟨later, by rw [handled]; exact ready.table, by rw [handled]; exact ready.dense,
      ready.within.2, rest⟩, by rw [handled]; exact fun id used => used, ?_⟩
    intro text answered
    rw [silent] at answered
    cases answered

theorem later_keys_unused (requests : List Request) (world : World)
    (ready : Ready runtime requests world) (text : Text)
    (answered : text ∈ Server.responses runtime requests world) :
    ∃ key, text = Server.keyResponse key ∧ storageRow key "1" ∉ world.tables .s3 := by
  induction requests generalizing world with
  | nil => cases answered
  | cons request requests ih =>
      obtain ⟨rest, kept, issued⟩ := ready_step runtime request requests world ready
      rcases List.mem_append.mp answered with now | later
      · obtain ⟨key, same, unused, -⟩ := issued text (Option.mem_toList.mp now)
        exact ⟨key, same, unused⟩
      · obtain ⟨key, same, unused⟩ := ih _ rest later
        exact ⟨key, same, fun used => unused (kept key used)⟩

theorem responses_nodup (requests : List Request) (world : World)
    (ready : Ready runtime requests world) :
    (Server.responses runtime requests world).Nodup := by
  induction requests generalizing world with
  | nil => exact List.nodup_nil
  | cons request requests ih =>
      obtain ⟨rest, -, issued⟩ := ready_step runtime request requests world ready
      simp only [Server.responses]
      cases now : Server.response runtime request world with
      | none => simpa using ih _ rest
      | some text =>
          obtain ⟨key, rfl, -, used⟩ := issued text now
          refine List.nodup_cons.mpr ⟨fun again => ?_, ih _ rest⟩
          obtain ⟨other, same, unused⟩ := later_keys_unused runtime requests _ rest _ again
          rw [key_response_injective key other same] at used
          exact unused used

theorem responses_unused (requests : List Request) (world : World)
    (ready : Ready runtime requests world) (before : List Request) (request : Request)
    (after : List Request) (split : requests = before ++ request :: after) (text : Text)
    (answered :
      Server.response runtime request (Server.serve runtime before world) = some text) :
    ∃ key, text = Server.keyResponse key ∧
      storageRow key "1" ∉ (Server.serve runtime before world).tables .s3 := by
  induction before generalizing requests world with
  | nil =>
      subst split
      obtain ⟨-, -, issued⟩ := ready_step runtime request after world ready
      obtain ⟨key, same, unused, -⟩ := issued text answered
      exact ⟨key, same, unused⟩
  | cons first before ih =>
      subst split
      obtain ⟨later, -, -⟩ := ready_step runtime first (before ++ request :: after) world ready
      exact ih _ _ later rfl answered

end

/-- While the table is dense and no upload names an id past the number of rows,
every key that is answered is unused, and none is answered twice. -/
theorem issued_keys_are_fresh (runtime : Runtime) (requests : List Request) (world : World)
    (images : ∀ request ∈ requests, isImageRequest runtime request = true)
    (table : StorageTable (world.tables .s3)) (dense : Dense (world.tables .s3))
    (within : UploadsWithin runtime requests world) (quiet : NoFailures runtime requests world) :
    (∀ before request after, requests = before ++ request :: after →
      ∀ text, Server.response runtime request (Server.serve runtime before world) = some text →
        ∃ key, text = Server.keyResponse key ∧
          storageRow key "1" ∉ (Server.serve runtime before world).tables .s3) ∧
    (Server.responses runtime requests world).Nodup := by
  have start : Ready runtime requests world := ⟨images, table, dense, within, quiet⟩
  exact ⟨responses_unused runtime requests world start,
    responses_nodup runtime requests world start⟩

theorem issued_keys_are_fresh_run :
    (Server.responses .standard [keyRequest, uploadOne, keyRequest]
      (.opened Tables.empty)).Nodup := by
  have none_sent : uploadedId .standard keyRequest = none := rfl
  have one_sent : uploadedId .standard uploadOne = some 1 := rfl
  have within : UploadsWithin .standard [keyRequest, uploadOne, keyRequest]
      (.opened Tables.empty) := by
    refine ⟨fun id sent => ?_, fun id sent => ?_, fun id sent => ?_, trivial⟩
    · simp [none_sent] at sent
    · rw [one_sent] at sent
      cases sent
      decide
    · simp [none_sent] at sent
  exact (issued_keys_are_fresh .standard [keyRequest, uploadOne, keyRequest]
    (.opened Tables.empty) (by decide)
    ⟨Keyed.unique_nil firstKey, by simp [World.opened, World.fresh, Tables.empty]⟩
    (by simp [Dense, World.opened, World.fresh, Tables.empty]) within rfl).2

/-- An upload of the id 1 into the empty table: the next key is the number of rows, 1. -/
theorem counted_key_in_use :
    isImageRequest .standard uploadOne = true ∧ isImageRequest .standard keyRequest = true ∧
    NoFailures .standard [uploadOne, keyRequest] (.opened Tables.empty) ∧
    Server.response .standard keyRequest
      (Server.serve .standard [uploadOne] (.opened Tables.empty)) = some (Server.keyResponse 1) ∧
    storageRow 1 "1" ∈ (Server.serve .standard [uploadOne] (.opened Tables.empty)).tables .s3 :=
  ⟨rfl, rfl, rfl, rfl, List.mem_singleton.mpr rfl⟩

end TfuServer
