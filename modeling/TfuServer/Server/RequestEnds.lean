import TfuServer.Server.ImageRaces
import TfuServer.Server.Recommended

/-!
# Requests served beside one another

The tables that a request asks may have grown since its last call. While no call fails, each
request is answered from tables that the run has passed through, what it stores stays stored,
and no loop whose bodies are accepted ends with an exception, whatever the others do.
-/

namespace TfuServer

set_option autoImplicit false

open Numeral Program
open Script (Unspoiled valid_bind valid_mono valid_unspoiled_atomic valid_unspoiled_bind)
open Sql (DataRow Row firstKey)
open ImageManager (storageRow)

/-- Where the script ends beside the requests, unless a call fails. -/
abbrev EndsBeside (runtime : Runtime) (requests : List Request) (bound : Nat) {Value : Type}
    (holds : Except Failure Value → World → Prop) (script : Steps Value) (world : World) : Prop :=
  Script.Ends (Moves runtime requests) (Unspoiled World.failedCalls bound holds) script world

section
variable {runtime : Runtime} {requests : List Request} {bound : Nat} {Value Next : Type}

abbrev Adds (script : Steps Value) : Prop :=
  script.Always fun before after _ => before.failedCalls ≤ after.failedCalls

theorem adds_select (query : Text) : Adds (Steps.select runtime query) :=
  Script.always_atomic _ _ fun found _ =>
    grows_select runtime query found.failedCalls found le_rfl

theorem adds_execute (text : Text) : Adds (Steps.executeQuery runtime text) :=
  Script.always_atomic _ _ fun found _ =>
    grows_execute runtime text found.failedCalls found le_rfl

theorem adds_bind (script : Steps Value) (next : Value → Steps Next) (first : Adds script)
    (later : ∀ value, Adds (next value)) : Adds (script >>= next) :=
  Steps.makes_bind script next first later

/-- What has been shown need not be shown again while the others move. -/
theorem ends_pure (value : Value) (world : World) (least : bound ≤ world.failedCalls)
    {holds : Except Failure Value → World → Prop}
    (stays : ∀ later, OnlyGrown runtime requests world.tables later.tables →
      holds (.ok value) later) :
    EndsBeside runtime requests bound holds (pure value) world :=
  fun later moved => ⟨le_trans least moved.2, fun _ => stays later moved.1⟩

theorem ends_bind_beside {first : Except Failure Value → World → Prop}
    {holds : Except Failure Next → World → Prop} (script : Steps Value)
    (next : Value → Steps Next) (world : World)
    (ends : EndsBeside runtime requests bound first script world)
    (adds : ∀ value, Adds (next value))
    (goes : ∀ value later, bound ≤ later.failedCalls → first (.ok value) later →
      EndsBeside runtime requests bound holds (next value) later)
    (never : ∀ failure later, ¬first (.error failure) later) :
    EndsBeside runtime requests bound holds (script >>= next) world :=
  valid_unspoiled_bind (fun _ _ moved => moved.2) moves_refl script next world ends adds
    (fun value later quiet shown => goes value later quiet.ge shown)
    fun failure later _ shown => absurd shown (never failure later)

theorem ends_weaken {first holds : Except Failure Value → World → Prop} (script : Steps Value)
    (world : World) (weaker : ∀ result later, first result later → holds result later)
    (ends : EndsBeside runtime requests bound first script world) :
    EndsBeside runtime requests bound holds script world :=
  valid_mono script world (fun _ _ _ _ => trivial)
    (fun result later ended => ⟨ended.1, fun quiet => weaker result later (ended.2 quiet)⟩) ends

theorem ends_grown {start : Tables} {holds : Except Failure Value → World → Prop}
    (script : Steps Value) (world : World)
    (grown : OnlyGrown runtime requests start world.tables)
    (moves : script.Always fun before after _ => Moves runtime requests before after)
    (ends : EndsBeside runtime requests bound holds script world) :
    EndsBeside runtime requests bound
      (fun result later => holds result later ∧ OnlyGrown runtime requests start later.tables)
      script world := by
  have moved := Script.valid_moved moves_trans (fun _ _ _ step => step) script world world
    (moves_refl world) (Script.valid_of_always script world moves ends)
  refine valid_mono script world (fun _ _ _ _ => trivial) (fun result later ended => ?_) moved
  exact ⟨ended.1.1, fun quiet => ⟨ended.1.2 quiet, only_grown_trans _ _ _ grown ended.2.1⟩⟩

theorem ends_map {shown : Value → World → Prop} (make : Value → Next)
    (stays : ∀ value before after, shown value before →
      OnlyGrown runtime requests before.tables after.tables → shown value after)
    (script : Steps Value) (world : World)
    (ends : EndsBeside runtime requests bound
      (fun result later => ∃ value, result = .ok value ∧ shown value later) script world) :
    EndsBeside runtime requests bound
      (fun result later => ∃ value, result = .ok (make value) ∧ shown value later)
      (script >>= fun value => pure (make value)) world := by
  refine ends_bind_beside _ _ world ends (fun _ => Script.always_pure _ _)
    (fun value later enough found => ?_) fun failure later found => ?_
  · obtain ⟨_, same, holds⟩ := found
    obtain rfl := Except.ok.inj same
    exact ends_pure _ later enough fun last grown => ⟨value, rfl, stays value _ _ holds grown⟩
  · obtain ⟨_, same, -⟩ := found
    cases same

/-- A query is answered from the tables as they are then. -/
theorem select_ends (query table : Text) (condition : Sql.Condition) (shuffled : Bool)
    (read : Sql.readStatement query = some (.select table condition shuffled)) (world : World)
    (least : bound ≤ world.failedCalls) :
    EndsBeside runtime requests bound
      (fun result later => ∃ data call tables, result = .ok data ∧
        answer runtime call tables query = some (data, tables) ∧
        OnlyGrown runtime requests world.tables tables ∧
        OnlyGrown runtime requests tables later.tables)
      (Steps.select runtime query) world := by
  refine valid_unspoiled_atomic (fun _ _ moved => moved.2) _ world least
    (fun found => grows_select runtime _ found.failedCalls found le_rfl)
    fun found moved quiet later further _ => ?_
  have enough := le_trans least moved.2
  rcases DBManager.select_cases runtime query found with
    ⟨data, tables, -, answered, ran⟩ | ran | ⟨-, ran⟩ <;> rw [ran] at further quiet ⊢
  · obtain rfl := answer_reads runtime _ _ _ _ _ _ _ _ read answered
    exact ⟨data, _, _, rfl, answered, moved.1, further.1⟩
  · have more : found.failedCalls + 1 = bound := quiet
    omega
  · have more : found.failedCalls + 1 = bound := quiet
    omega

theorem execute_ends (text : Text) (world : World) (least : bound ≤ world.failedCalls) :
    EndsBeside runtime requests bound
      (fun result later => ∃ data call tables after, result = .ok () ∧
        answer runtime call tables text = some (data, after) ∧
        OnlyGrown runtime requests world.tables tables ∧
        OnlyGrown runtime requests after later.tables)
      (Steps.executeQuery runtime text) world := by
  refine valid_unspoiled_atomic (fun _ _ moved => moved.2) _ world least
    (fun found => grows_execute runtime _ found.failedCalls found le_rfl)
    fun found moved quiet later further _ => ?_
  have enough := le_trans least moved.2
  rcases DBManager.execute_cases runtime text found with
    ⟨data, tables, -, answered, ran⟩ | ran | ⟨-, ran⟩ <;> rw [ran] at further quiet ⊢
  · exact ⟨data, _, _, tables, rfl, answered, moved.1, further.1⟩
  · have more : found.failedCalls + 1 = bound := quiet
    omega
  · have more : found.failedCalls + 1 = bound := quiet
    omega

variable (runtime requests) in
def FoundBetween (name : TableName) (condition : Sql.Condition) (before : Tables)
    (rows : List DataRow) (after : World) : Prop :=
  ∃ tables, rows = rowsMeeting runtime tables name condition ∧
    OnlyGrown runtime requests before tables ∧ OnlyGrown runtime requests tables after.tables

theorem table_ends {query table : Text} {condition : Sql.Condition} {name : TableName}
    (read : Sql.readStatement query = some (.select table condition false))
    (found : findTable table = some name) (world : World) (least : bound ≤ world.failedCalls) :
    EndsBeside runtime requests bound
      (fun result later => ∃ rows, result = .ok [rows] ∧
        FoundBetween runtime requests name condition world.tables rows later)
      (Steps.select runtime query) world := by
  refine ends_weaken _ world (fun result later shown => ?_)
    (select_ends query table condition false read world least)
  obtain ⟨_, call, tables, same, answered, before, further⟩ := shown
  obtain ⟨rfl, -, -⟩ := answer_select runtime _ _ _ _ _ _ _ _ read found answered
  exact ⟨_, same, tables, rfl, before, further⟩

theorem first_ends {asked : List DataRow → World → Prop}
    {holds : Except Failure Next → World → Prop}
    (script : Steps DataSet) (next : List DataRow → Steps Next) (world : World)
    (ends : EndsBeside runtime requests bound
      (fun result later => ∃ rows, result = .ok [rows] ∧ asked rows later) script world)
    (adds : ∀ rows, Adds (next rows))
    (goes : ∀ rows later, bound ≤ later.failedCalls → asked rows later →
      EndsBeside runtime requests bound holds (next rows) later) :
    EndsBeside runtime requests bound holds (do
      let data ← script
      let rows ← Script.lift data.first
      next rows) world := by
  refine ends_bind_beside _ _ world ends
    (fun data => adds_bind _ _ (Script.always_lift _ _) adds) (fun data later enough shown => ?_)
    fun failure later shown => ?_
  · obtain ⟨rows, same, shown⟩ := shown
    obtain rfl := Except.ok.inj same
    exact goes rows later enough shown
  · obtain ⟨_, same, -⟩ := shown
    cases same

theorem alter_ends (change : World → World) (next : PUnit → Steps Next)
    (only : ∀ world, MemoryOnly world (change world)) {holds : Except Failure Next → World → Prop}
    (world : World) (least : bound ≤ world.failedCalls)
    (goes : ∀ later, bound ≤ later.failedCalls →
      OnlyGrown runtime requests world.tables later.tables →
      EndsBeside runtime requests bound holds (next ⟨⟩) later) :
    EndsBeside runtime requests bound holds (Steps.alter change >>= next) world := by
  refine Script.valid_atomic_bind _ _ world fun found moved =>
    ⟨⟨⟩, change found, rfl, trivial, goes _ ?_ ?_⟩
  · rw [(only found).failedCalls]
    exact le_trans least moved.2
  · rw [(only found).tables]
    exact moved.1

end

section
variable {runtime : Runtime} {requests : List Request} {bound : Nat}

theorem every_call (call : Call) (_ : ImageCall (fun _ => True) call) : Permits.all.calls call :=
  trivial

theorem adds_image_added (number : Nat) (id : Int32) :
    Adds (Steps.imageAdded runtime number id) :=
  adds_of_makes runtime .all _
    (Steps.makes_image_added runtime every_call trivial number id trivial)

theorem adds_alter (change : World → World) (only : ∀ world, MemoryOnly world (change world)) :
    Adds (Steps.alter change) :=
  Script.always_atomic _ _ fun found _ => (only found).failedCalls.ge

theorem write_image_ends (text : Text) (id : Int32) (world : World)
    (least : bound ≤ world.failedCalls)
    (writes : ∀ call tables data after, OnlyGrown runtime requests world.tables tables →
      answer runtime call tables text = some (data, after) → storageRow id "1" ∈ after .s3) :
    EndsBeside runtime requests bound (fun result later => result = .ok () ∧ Used id later)
      (Steps.executeQuery runtime text) world := by
  refine ends_weaken _ world (fun result later shown => ?_) (execute_ends text world least)
  obtain ⟨data, call, tables, after, same, answered, before, further⟩ := shown
  exact ⟨same, further.used id (writes call tables data after before answered)⟩

theorem image_added_ends (number : Nat) (id : Int32) (world : World)
    (least : bound ≤ world.failedCalls) :
    EndsBeside runtime requests bound (fun result later => result = .ok () ∧ Used id later)
      (Steps.imageAdded runtime number id) world := by
  refine alter_ends (ImageManager.enterAt number id) _ (enter_image_only number id) world least
    fun entered enough _ => ?_
  refine first_ends _ _ entered (table_ends (ImageManager.read_row_query id) rfl entered enough)
    (fun rows => ?_) fun rows later more found => ?_
  · split <;> exact adds_execute _
  · obtain ⟨tables, rfl, -, grown⟩ := found
    rw [rows_of_key runtime tables .s3 _ rfl, List.length_map]
    split
    · rename_i some
      refine write_image_ends _ id later more fun call asked data after moved answered => ?_
      have there := grown.present .s3 _ (List.length_pos_iff.mp some)
      exact update_image_used id (moved.present .s3 _ there) answered
    · exact write_image_ends _ id later more fun call asked data after moved answered =>
        insert_image_used id answered

/-- No id of an image is null. -/
def HaveIds (tables : Tables) : Prop := ∀ row ∈ tables .s3, hasId row.dataRow = true

theorem have_ids_grown (tables after : Tables) (ids : HaveIds tables)
    (grown : OnlyGrown runtime requests tables after) : HaveIds after := by
  intro row member
  rcases grown.whole .s3 row member with old | ⟨k, written⟩
  · exact ids row old
  · obtain ⟨id, -, cells⟩ := writes_image _ k row written rfl
    simp [hasId, Row.dataRow, cells, storageRow]

theorem rows_load (tables : Tables) (condition : Sql.Condition) (ids : HaveIds tables) :
    ∃ dictionary, ImageManager.loadRows (fun _ => none)
      (rowsMeeting runtime tables .s3 condition) = .ok dictionary :=
  (load_rows_iff _ _).mpr fun row member _ => ids row (List.mem_of_mem_filter member)

theorem rows_free (tables : Tables) (condition : Sql.Condition) (ids : HaveIds tables) :
    ∃ found, ImageManager.firstFree (rowsMeeting runtime tables .s3 condition) = .ok found := by
  refine (first_free_iff _).mpr fun row first => ?_
  obtain ⟨own, member, rfl⟩ := List.mem_map.mp (List.mem_of_find?_eq_some first)
  exact ids own (List.mem_of_mem_filter member)

theorem sync_storage_ends (world : World) (least : bound ≤ world.failedCalls)
    (ids : HaveIds world.tables) :
    EndsBeside runtime requests bound
      (fun result later => (∃ dictionary, result = .ok dictionary) ∧
        OnlyGrown runtime requests world.tables later.tables)
      (Steps.syncStorageToDictionary runtime) world := by
  refine ends_bind_beside _ _ world (table_ends ImageManager.read_used_query rfl world least)
    (fun data => Script.always_lift _ _) (fun data later enough asked => ?_)
    fun failure later asked => ?_
  · obtain ⟨_, same, tables, rfl, before, further⟩ := asked
    obtain rfl := Except.ok.inj same
    obtain ⟨dictionary, loaded⟩ := rows_load tables _ (have_ids_grown _ _ ids before)
    change EndsBeside _ _ _ _ (Script.lift (ImageManager.loadRows (fun _ => none) _)) later
    rw [loaded]
    exact ends_pure dictionary later enough fun last grown =>
      ⟨⟨dictionary, rfl⟩, only_grown_trans _ _ _ before (only_grown_trans _ _ _ further grown)⟩
  · obtain ⟨_, same, -⟩ := asked
    cases same

theorem current_ends_beside (start : Tables) (world : World) (least : bound ≤ world.failedCalls)
    (grown : OnlyGrown runtime requests start world.tables) :
    EndsBeside runtime requests bound
      (fun result later => (∃ number, result = .ok number) ∧
        OnlyGrown runtime requests start later.tables)
      (do
        let world ← Steps.look
        return Manager.current world.imageManager) world :=
  Script.valid_atomic_bind _ _ world fun found moved => ⟨found, found, rfl, trivial,
    ends_pure _ found (le_trans least moved.2) fun _ beyond => ⟨⟨_, rfl⟩,
      only_grown_trans _ _ _ grown (only_grown_trans _ _ _ moved.1 beyond)⟩⟩

theorem instance_ends_beside (world : World) (least : bound ≤ world.failedCalls)
    (ids : HaveIds world.tables) :
    EndsBeside runtime requests bound
      (fun result later => (∃ number, result = .ok number) ∧
        OnlyGrown runtime requests world.tables later.tables)
      (Steps.imageInstance runtime) world := by
  refine Script.valid_atomic_bind _ _ world fun found moved => ⟨found, found, rfl, trivial, ?_⟩
  have enough := le_trans least moved.2
  cases found.imageManager with
  | some manager => exact current_ends_beside world.tables found enough moved.1
  | none =>
      refine ends_bind_beside _ _ found
        (sync_storage_ends found enough (have_ids_grown _ _ ids moved.1))
        (fun dictionary => adds_bind _ _
          (adds_alter _ fun _ => ⟨rfl, rfl, rfl, rfl, rfl, rfl⟩)
          fun _ => adds_bind _ _ (Script.always_atomic _ _ fun _ _ => le_rfl)
            fun _ => Script.always_pure _ _)
        (fun dictionary later more shown => ?_) fun failure later shown => ?_
      · exact alter_ends (ImageManager.build dictionary) _
          (fun _ => ⟨rfl, rfl, rfl, rfl, rfl, rfl⟩) later more
          fun last much beyond => current_ends_beside world.tables last much
            (only_grown_trans _ _ _ moved.1 (only_grown_trans _ _ _ shown.2 beyond))
      · obtain ⟨⟨_, same⟩, -⟩ := shown
        cases same

/-- The key that is found is used from then on, whoever else found it. -/
theorem empty_key_ends_beside (number : Nat) (world : World) (least : bound ≤ world.failedCalls)
    (ids : HaveIds world.tables) :
    EndsBeside runtime requests bound (fun result later => ∃ id, result = .ok id ∧ Used id later)
      (Steps.getEmptyKey runtime number) world := by
  have added (id : Int32) (later : World) (enough : bound ≤ later.failedCalls) :
      EndsBeside runtime requests bound (fun result later => ∃ id, result = .ok id ∧ Used id later)
        (do
          Steps.imageAdded runtime number id
          return id) later := by
    exact ends_weaken _ later (fun _ _ ⟨_, same, used⟩ => ⟨id, same, used⟩)
      (ends_map (fun _ => id) (fun _ before after used grown => grown.used id used) _ later
        (ends_weaken _ later (fun _ _ shown => ⟨(), shown⟩)
          (image_added_ends number id later enough)))
  have adds (id : Int32) : Adds (do
      Steps.imageAdded runtime number id
      return id) :=
    adds_bind _ _ (adds_image_added number id) fun _ => Script.always_pure _ _
  refine ends_bind_beside _ _ world (table_ends ImageManager.read_free_query rfl world least)
    (fun data => adds_bind _ _ (Script.always_lift _ _) fun found => ?_)
    (fun data later enough asked => ?_) fun failure later asked => ?_
  · cases found with
    | some id => exact adds id
    | none => exact adds_bind _ _ (adds_select _) fun _ =>
        adds_bind _ _ (Script.always_lift _ _) fun rows => adds (Int32.ofNat rows.length)
  · obtain ⟨_, same, tables, rfl, before, further⟩ := asked
    obtain rfl := Except.ok.inj same
    obtain ⟨found, free⟩ := rows_free tables _ (have_ids_grown _ _ ids before)
    change EndsBeside _ _ _ _ (Script.lift (ImageManager.firstFree _) >>= _) later
    rw [free]
    cases found with
    | some id => exact added id later enough
    | none =>
        have counted : EndsBeside runtime requests bound _ _ later :=
          first_ends _ (fun rows => do
              Steps.imageAdded runtime number (Int32.ofNat rows.length)
              return Int32.ofNat rows.length) later
            (table_ends ImageManager.read_used_query rfl later enough)
            (fun rows => adds (Int32.ofNat rows.length)) fun rows last more _ => added _ last more
        exact counted
  · obtain ⟨_, same, -⟩ := asked
    cases same

theorem image_key_ends_beside (world : World) (least : bound ≤ world.failedCalls)
    (ids : HaveIds world.tables) (moves : ∀ number, (Steps.getEmptyKey runtime number).Always
      fun before after _ => Moves runtime requests before after) :
    EndsBeside runtime requests bound
      (fun result later => ∃ id, result = .ok (Server.keyResponse id) ∧ Used id later)
      (Steps.imageKey runtime) world := by
  have enters (id : Int32) (number : Nat) : Adds (do
      Steps.alter (ImageManager.enterAt number id)
      return Server.keyResponse id) :=
    adds_bind _ _ (adds_alter _ (enter_image_only number id)) fun _ => Script.always_pure _ _
  have last (id : Int32) : Adds (do
      let manager ← Steps.imageInstance runtime
      Steps.alter (ImageManager.enterAt manager id)
      return Server.keyResponse id) :=
    adds_bind _ _ (adds_of_makes runtime .all _
      (Steps.makes_image_instance runtime every_call trivial)) (enters id)
  have issues (number : Nat) : Adds (Steps.getEmptyKey runtime number) :=
    adds_of_makes runtime .all _
      (Steps.makes_get_empty_key runtime every_call trivial number fun _ => trivial)
  refine ends_bind_beside _ _ world (instance_ends_beside world least ids)
    (fun number => adds_bind _ _ (issues number) last) (fun number later enough shown => ?_)
    fun _ _ shown => by
      obtain ⟨⟨_, same⟩, -⟩ := shown
      cases same
  have keyed := ends_grown _ later shown.2 (moves number)
    (empty_key_ends_beside number later enough (have_ids_grown _ _ ids shown.2))
  refine ends_bind_beside _ _ later keyed last (fun key final more shown => ?_)
    fun failure final shown => ?_
  · obtain ⟨⟨id, same, used⟩, grown⟩ := shown
    obtain rfl := Except.ok.inj same
    have held : EndsBeside runtime requests bound
        (fun result later => (∃ number, result = .ok number) ∧ Used key later)
        (Steps.imageInstance runtime) final :=
      ends_weaken _ final (fun _ _ shown => ⟨shown.1, shown.2.used key used⟩)
        (instance_ends_beside final more (have_ids_grown _ _ ids grown))
    refine ends_bind_beside _ _ final held (enters key) (fun number entered much shown => ?_)
      fun _ _ shown => by
        obtain ⟨⟨_, same⟩, -⟩ := shown
        cases same
    exact alter_ends (ImageManager.enterAt number key) _ (enter_image_only number key) entered much
      fun last enough grown => ends_pure _ last enough fun further beyond =>
        ⟨key, rfl, beyond.used key (grown.used key shown.2)⟩
  · obtain ⟨⟨_, same, -⟩, -⟩ := shown
    cases same

end

section
variable {runtime : Runtime} {requests : List Request} {bound : Nat}

variable (runtime requests) in
/-- There are rows of the record's key, and requests have written all of them. -/
def Fresh (upload : Upload) (tables : Tables) : Prop :=
  upload.rowsOf tables ≠ [] ∧
    ∀ row ∈ upload.rowsOf tables, Writes runtime requests upload.table upload.key row

theorem rows_written (upload : Upload) (start tables : Tables)
    (grown : OnlyGrown runtime requests start tables)
    (old : ∀ row ∈ upload.rowsOf start, Writes runtime requests upload.table upload.key row) :
    ∀ row ∈ upload.rowsOf tables, Writes runtime requests upload.table upload.key row := by
  intro row member
  obtain ⟨within, has⟩ := List.mem_filter.mp member
  rcases grown.whole upload.table row within with before | ⟨k, written⟩
  · exact old row (List.mem_filter.mpr ⟨before, has⟩)
  · have key := writes_key _ k row written
    obtain rfl : k = upload.key := by simpa [key] using has
    exact written

theorem fresh_grown (upload : Upload) (tables after : Tables)
    (fresh : Fresh runtime requests upload tables)
    (grown : OnlyGrown runtime requests tables after) : Fresh runtime requests upload after :=
  ⟨grown.present _ _ fresh.1, rows_written upload tables after grown fresh.2⟩

/-- The branch that was taken is right: a key without rows had none in the beginning, and one
with rows has some. -/
def Right (upload : Upload) (start tables : Tables) : Branch → Prop
  | .insert => upload.rowsOf start = []
  | .update => upload.rowsOf tables ≠ []

theorem right_grown (upload : Upload) (start tables after : Tables) (branch : Branch)
    (right : Right upload start tables branch) (grown : OnlyGrown runtime requests tables after) :
    Right upload start after branch := by
  cases branch with
  | insert => exact right
  | update => exact grown.present _ _ right

theorem right_of_rows (upload : Upload) (start tables after : Tables)
    (before : OnlyGrown runtime requests start tables)
    (later : OnlyGrown runtime requests tables after) :
    Right upload start after (if upload.rowsOf tables = [] then .insert else .update) := by
  split_ifs with empty
  · by_contra there
    exact before.present _ _ there empty
  · exact later.present _ _ empty

theorem asked_right (upload : Upload) (start : Tables) (world : World)
    (least : bound ≤ world.failedCalls)
    (grown : OnlyGrown runtime requests start world.tables) :
    EndsBeside runtime requests bound
      (fun result later => ∃ rows, result = .ok [rows] ∧
        OnlyGrown runtime requests start later.tables ∧
          Right upload start later.tables (if rows.isEmpty then .insert else .update))
      (Steps.select runtime upload.query) world := by
  obtain ⟨name, read, keyed⟩ := read_upload_query upload
  refine ends_weaken _ world (fun result later shown => ?_)
    (table_ends read (find_title upload.table) world least)
  obtain ⟨_, same, tables, rfl, before, further⟩ := shown
  have asked := only_grown_trans _ _ _ grown before
  refine ⟨_, same, only_grown_trans _ _ _ asked further, ?_⟩
  rw [rows_of_key runtime tables upload.table name keyed, List.isEmpty_map,
    ite_congr (propext List.isEmpty_iff) (fun _ => rfl) fun _ => rfl]
  exact right_of_rows upload start tables later.tables asked further

theorem new_right (upload : Upload) (start : Tables) (world : World)
    (least : bound ≤ world.failedCalls)
    (grown : OnlyGrown runtime requests start world.tables) :
    EndsBeside runtime requests bound
      (fun result later => OnlyGrown runtime requests start later.tables ∧ ∃ new,
        result = .ok new ∧
          Right upload start later.tables (if new then .insert else .update))
      (Steps.isNew runtime upload.query) world := by
  refine ends_bind_beside _ _ world (asked_right upload start world least grown) (fun data => ?_)
    (fun data later enough asked => ?_) fun failure later asked => ?_
  · split
    · exact adds_bind _ _ (adds_select _) fun _ =>
        adds_bind _ _ (Script.always_lift _ _) fun _ => Script.always_pure _ _
    · exact Script.always_pure _ _
  · obtain ⟨_, same, further, -⟩ := asked
    obtain rfl := Except.ok.inj same
    rw [List.length_singleton, if_pos Nat.one_pos]
    refine first_ends _ _ later (asked_right upload start later enough further)
      (fun _ => Script.always_pure _ _) fun rows last more asked => ?_
    refine ends_pure _ last more fun final beyond =>
      ⟨only_grown_trans _ _ _ asked.1 beyond, _, rfl, ?_⟩
    have decided : decide (rows.length < 1) = rows.isEmpty := by cases rows <;> simp
    rw [decided]
    exact right_grown upload start _ _ _ asked.2 beyond
  · obtain ⟨_, same, -⟩ := asked
    cases same

variable {upload plain : Upload} (request : Request) (member : request ∈ requests)
  (present : carried runtime request = some upload) (meaning : upload.meant = some plain)
include member present meaning

theorem write_fresh (branch : Branch) (text : Text) (built : upload.text runtime branch = .ok text)
    (start : Tables) (world : World) (least : bound ≤ world.failedCalls)
    (grown : OnlyGrown runtime requests start world.tables)
    (right : Right upload start world.tables branch) :
    EndsBeside runtime requests bound
      (fun result later => result = .ok () ∧ Fresh runtime requests upload later.tables)
      (Steps.executeQuery runtime text) world := by
  obtain ⟨document, kept⟩ := Upload.text_stored runtime upload branch text built
  refine ends_weaken _ world (fun result later shown => ?_) (execute_ends text world least)
  obtain ⟨data, call, tables, after, same, answered, before, further⟩ := shown
  have here := right_grown upload start world.tables tables branch right before
  refine ⟨same, fresh_grown upload after _ ?_ further⟩
  rcases answer_upload upload plain meaning branch text document built kept answered with
    ⟨rfl, absent, -⟩ | ⟨row, cells, rfl⟩
  · exact absurd absent here
  · have written : Writes runtime requests upload.table upload.key row :=
      .record request member upload plain present meaning branch document kept row cells
    have has := writes_key _ _ row written
    rw [Fresh, Upload.rowsOf, Function.update_self]
    cases branch with
    | insert =>
        simp only [if_true, Keyed.rowsOf, List.filter_append]
        refine ⟨by simp [has], fun other within => ?_⟩
        rcases List.mem_append.mp within with old | new
        · refine rows_written upload start tables (only_grown_trans _ _ _ grown before)
            (fun row there => ?_) other old
          rw [show upload.rowsOf start = [] from right] at there
          cases there
        · obtain rfl := List.mem_singleton.mp (List.mem_of_mem_filter new)
          exact written
    | update =>
        simp only [reduceCtorEq, if_false]
        rw [Keyed.rows_of_change firstKey upload.key _ fun _ _ => has, if_pos rfl]
        refine ⟨fun empty => here (List.map_eq_nil_iff.mp empty), fun other within => ?_⟩
        obtain ⟨_, -, rfl⟩ := List.mem_map.mp within
        exact written

theorem enter_fresh (branch : Branch) (text : Text) (built : upload.text runtime branch = .ok text)
    (start : Tables) (world : World) (least : bound ≤ world.failedCalls)
    (grown : OnlyGrown runtime requests start world.tables)
    (right : Right upload start world.tables branch) :
    EndsBeside runtime requests bound
      (fun result later => result = .ok () ∧ Fresh runtime requests upload later.tables)
      (do
        Steps.alter upload.enter
        Steps.executeQuery runtime text) world :=
  alter_ends upload.enter _ (Upload.enter_only upload) world least fun later enough further =>
    write_fresh request member present meaning branch text built start later enough
      (only_grown_trans _ _ _ grown further) (right_grown upload start _ _ branch right further)

omit member present meaning in
theorem client_instance_ends_beside (start : Tables) (world : World)
    (least : bound ≤ world.failedCalls) (grown : OnlyGrown runtime requests start world.tables) :
    EndsBeside runtime requests bound
      (fun result later => (∃ number, result = .ok number) ∧
        OnlyGrown runtime requests start later.tables)
      Steps.clientInstance world := by
  have current (found : World) (least : bound ≤ found.failedCalls)
      (grown : OnlyGrown runtime requests start found.tables) : EndsBeside runtime requests bound
        (fun result later => (∃ number, result = .ok number) ∧
          OnlyGrown runtime requests start later.tables)
        (do
          let world ← Steps.look
          return Manager.current world.clientManager) found :=
    Script.valid_atomic_bind _ _ found fun again moved => ⟨again, again, rfl, trivial,
      ends_pure _ again (le_trans least moved.2) fun later beyond => ⟨⟨_, rfl⟩,
        only_grown_trans _ _ _ grown (only_grown_trans _ _ _ moved.1 beyond)⟩⟩
  refine Script.valid_atomic_bind _ _ world fun found moved => ⟨found, found, rfl, trivial, ?_⟩
  have enough := le_trans least moved.2
  have now := only_grown_trans _ _ _ grown moved.1
  cases found.clientManager with
  | some manager => exact current found enough now
  | none =>
      exact alter_ends ClientManager.build _ (fun _ => ⟨rfl, rfl, rfl, rfl, rfl, rfl⟩) found enough
        fun later more beyond => current later more (only_grown_trans _ _ _ now beyond)

theorem branch_fresh (inserted updated : Text)
    (inserts : upload.text runtime .insert = .ok inserted)
    (updates : upload.text runtime .update = .ok updated) (start : Tables) (world : World)
    (least : bound ≤ world.failedCalls) (grown : OnlyGrown runtime requests start world.tables) :
    EndsBeside runtime requests bound
      (fun result later => result = .ok () ∧ Fresh runtime requests upload later.tables)
      (do
        let new ← Steps.isNew runtime upload.query
        if new then
          Steps.alter upload.enter
          Steps.executeQuery runtime inserted
        else
          Steps.alter upload.enter
          Steps.executeQuery runtime updated) world := by
  have adds (text : Text) : Adds (do
      Steps.alter upload.enter
      Steps.executeQuery runtime text) :=
    adds_bind _ _ (adds_alter _ (Upload.enter_only upload)) fun _ => adds_execute text
  refine ends_bind_beside _ _ world (new_right upload start world least grown)
    (fun new => ?_) (fun new later enough asked => ?_) fun failure later asked => ?_
  · split <;> exact adds _
  · obtain ⟨beyond, _, same, right⟩ := asked
    obtain rfl := Except.ok.inj same
    cases new with
    | true =>
        exact enter_fresh request member present meaning .insert _ inserts start later enough
          beyond right
    | false =>
        exact enter_fresh request member present meaning .update _ updates start later enough
          beyond right
  · obtain ⟨-, _, same, -⟩ := asked
    cases same

theorem client_fresh (clt : Client) (carries : upload = .user clt) (number : Nat) (start : Tables)
    (world : World) (least : bound ≤ world.failedCalls)
    (grown : OnlyGrown runtime requests start world.tables) :
    EndsBeside runtime requests bound
      (fun result later => result = .ok () ∧ Fresh runtime requests upload later.tables)
      (do
        Steps.alter (ClientManager.enterAt number clt)
        let data ← Steps.select runtime upload.query
        let rows ← Script.lift data.first
        if rows.length > 0 then Steps.executeQuery runtime (ClientManager.updateText clt)
        else Steps.executeQuery runtime (ClientManager.insertText clt)) world := by
  subst carries
  refine alter_ends (ClientManager.enterAt number clt) _ (enter_client_only number clt) world
    least fun entered enough further => ?_
  have before := only_grown_trans _ _ _ grown further
  refine first_ends _ _ entered (asked_right (.user clt) start entered enough before)
    (fun rows => ?_) fun rows later more asked => ?_
  · split <;> exact adds_execute _
  · obtain ⟨beyond, right⟩ := asked
    cases rows with
    | nil =>
        rw [if_neg (by simp)]
        exact write_fresh request member present meaning .insert _ rfl start later more beyond
          right
    | cons row rows =>
        rw [if_pos (by simp)]
        exact write_fresh request member present meaning .update _ rfl start later more beyond
          right

/-- A record that is stored has fresh rows, whoever comes between. -/
theorem store_fresh (finite : upload.writable = true) (start : Tables) (world : World)
    (least : bound ≤ world.failedCalls) (grown : OnlyGrown runtime requests start world.tables) :
    EndsBeside runtime requests bound
      (fun result later => result = .ok () ∧ Fresh runtime requests upload later.tables)
      (Steps.store runtime upload) world := by
  cases upload with
  | user clt =>
      have follows (rows : List DataRow) : Adds (if rows.length > 0
          then Steps.executeQuery runtime (ClientManager.updateText clt)
          else Steps.executeQuery runtime (ClientManager.insertText clt)) := by
        split <;> exact adds_execute _
      refine ends_bind_beside _ _ world (client_instance_ends_beside start world least grown)
        (fun number => adds_bind _ _ (adds_alter _ (enter_client_only number clt)) fun _ =>
          adds_bind _ _ (adds_select _) fun _ => adds_bind _ _ (Script.always_lift _ _) follows)
        (fun number ready enough shown => client_fresh request member present meaning clt rfl number
          start ready enough shown.2) fun failure later shown => ?_
      obtain ⟨⟨_, same⟩, -⟩ := shown
      cases same
  | schedule sch =>
      obtain ⟨document, wrote⟩ := (Upload.writable_schedule_iff sch).mp finite
      obtain ⟨inserts, updates⟩ := Upload.schedule_texts wrote
      simp only [Steps.store, Steps.addSchedule, wrote]
      exact branch_fresh request member present meaning _ _ inserts updates start world least grown
  | shared sch =>
      exact branch_fresh request member present meaning _ _ rfl rfl start world least grown

end

end TfuServer
