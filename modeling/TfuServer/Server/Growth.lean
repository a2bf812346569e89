import TfuServer.Server.Traffic

/-!
# Tables under any order of steps

Two loops that handle requests at once can both find a key free and both insert it. What
no order of their steps can do is to tear a row, lose a key, free an image that is used or
touch the table of the waypoints.
-/

namespace TfuServer

set_option autoImplicit false

open Numeral
open Sql (Row Statement Value firstKey readStatement)

section
variable (runtime : Runtime)

theorem answer_reads (call : Nat) (tables after : Tables) (query table : Text)
    (condition : Sql.Condition) (shuffled : Bool) (data : DataSet)
    (read : readStatement query = some (.select table condition shuffled))
    (answered : answer runtime call tables query = some (data, after)) : after = tables := by
  simp only [answer, read] at answered
  split at answered
  · split_ifs at answered
    exact (Prod.mk.inj (Option.some.inj answered)).2.symm
  · cases answered

variable {name : TableName} {table key text : Text} {values : List Value} {k : Int}
  {tables after : Tables} {call : Nat} {data : DataSet} (found : findTable table = some name)
include found

theorem answer_insert (read : readStatement text =
      some (.insert table (.number (intText k) :: values)))
    (answered : answer runtime call tables text = some (data, after)) :
    ∃ row : Row (schema.columns name),
      Sql.insertCells runtime.settings name.columns (.number (intText k) :: values) =
        some row.cells ∧
      after = Function.update tables name (tables name ++ [row]) := by
  have executed := answer_execute runtime _ _ _ text _ data read (by simp) answered
  exact @Sql.execute_insert runtime.settings schema _ _ _ _ found _ executed

/-- An update that finds no row of the key changes nothing. -/
theorem answer_update (keyed : Sql.hasKey name.columns key = true)
    {assignments : List (Text × Value)}
    (read : readStatement text =
      some (.update table assignments (.equals key (.number (intText k)))))
    (covers : Sql.Covers name.columns (.number (intText k) :: values) assignments)
    (complete : (Value.number (intText k) :: values).length = name.columns.length)
    (answered : answer runtime call tables text = some (data, after)) :
    Keyed.rowsOf firstKey (tables name) k = [] ∧ after = tables ∨
    Keyed.rowsOf firstKey (tables name) k ≠ [] ∧
    ∃ row : Row (schema.columns name),
      Sql.insertCells runtime.settings name.columns (.number (intText k) :: values) =
        some row.cells ∧
      after = Function.update tables name
        (Keyed.changeRows firstKey k (fun _ => row) (tables name)) := by
  have executed := answer_execute runtime _ _ _ text _ data read (by simp) answered
  by_cases absent : Keyed.rowsOf firstKey (tables name) k = []
  · exact Or.inl ⟨absent, @Sql.execute_update_absent runtime.settings schema _ _ _ _ found key
      keyed assignments k absent executed⟩
  · obtain ⟨cells, assigned, rfl⟩ := @Sql.execute_update_key runtime.settings schema _ _ _ _
      found key keyed assignments k absent executed
    obtain ⟨typed, distinct⟩ := keyed_columns name
    have every (row : Row (schema.columns name)) (has : firstKey row = some k) :=
      Sql.assign_covers runtime.settings key keyed k values assignments cells row covers complete
        typed distinct has assigned
    obtain ⟨old, within⟩ := List.exists_mem_of_ne_nil _ absent
    have hasOld : firstKey old = some k := by simpa using (List.mem_filter.mp within).2
    refine Or.inr ⟨absent, old.assign cells, every old hasOld, congrArg _ ?_⟩
    refine List.map_congr_left fun row _ => ?_
    split_ifs with has
    · exact Sql.Row.ext_cells (Option.some.inj ((every row has).symm.trans (every old hasOld)))
    · rfl

end

section
variable (runtime : Runtime)

/-- What the request puts between quotes stays there. -/
def StaysQuoted (request : Request) : Prop :=
  (∀ upload, carried runtime request = some upload → ∃ plain, upload.meant = some plain) ∧
  (isSearch runtime request = true → staysInPattern (searchedKeyword runtime request) = true)

/-- The whole rows the requests may write: of an image that is used, or of a record one of
them carries, with its document in one of its spellings. -/
inductive Writes (requests : List Request) :
    (name : TableName) → Int → Row (schema.columns name) → Prop where
  | image (request : Request) (member : request ∈ requests)
      (about : isImageRequest runtime request = true) (id : Int32)
      (mine : Marked runtime request id) :
      Writes requests .s3 id.toInt (ImageManager.storageRow id "1")
  | record (request : Request) (member : request ∈ requests) (upload plain : Upload)
      (present : carried runtime request = some upload) (meaning : upload.meant = some plain)
      (branch : Branch) (document : Text) (kept : upload.stored runtime branch = .ok document)
      (row : Row (schema.columns upload.table))
      (cells : plain.cells runtime.settings document = some row.cells) :
      Writes requests upload.table upload.key row

def TableStep (requests : List Request) (before after : Tables) : Prop :=
  after = before ∨
  ∃ name k row rows, Writes runtime requests name k row ∧
    Keyed.Wrote firstKey k row (before name) rows ∧ after = Function.update before name rows

variable {runtime} {requests : List Request} {tables after : Tables} {count : Nat}
  {data : DataSet}

theorem image_row (id : Int32) (row : ImageManager.StorageRow)
    (inserted : Sql.insertCells runtime.settings TableName.s3.columns
      [.number (intText id.toInt), .number ['1']] = some row.cells) :
    row = ImageManager.storageRow id "1" := by
  refine Sql.Row.ext_cells (Option.some.inj (inserted.symm.trans ?_))
  simp [Sql.insertCells, TableName.columns, column, Sql.coerce, ImageManager.storageRow]

theorem answer_insert_image (id : Int32)
    (answered : answer runtime count tables (ImageManager.insertText id) = some (data, after)) :
    after = Function.update tables .s3 (tables .s3 ++ [ImageManager.storageRow id "1"]) := by
  obtain ⟨row, inserted, rfl⟩ := answer_insert runtime (find_title .s3)
    (ImageManager.read_insert_text id) answered
  rw [image_row id row inserted]

theorem answer_update_image (id : Int32)
    (answered : answer runtime count tables (ImageManager.updateText id) = some (data, after)) :
    Keyed.rowsOf firstKey (tables .s3) id.toInt = [] ∧ after = tables ∨
    Keyed.rowsOf firstKey (tables .s3) id.toInt ≠ [] ∧ after = Function.update tables .s3
      (Keyed.changeRows firstKey id.toInt (fun _ => ImageManager.storageRow id "1")
        (tables .s3)) := by
  have covers : Sql.Covers TableName.s3.columns
      [.number (intText id.toInt), .number ['1']] [("status".toList, .number ['1'])] := Or.inr rfl
  rcases answer_update runtime (find_title .s3) rfl (ImageManager.read_update_text id) covers
    rfl answered with same | ⟨there, row, inserted, rfl⟩
  · exact Or.inl same
  · rw [image_row id row inserted]
    exact Or.inr ⟨there, rfl⟩

theorem insert_image_used (id : Int32)
    (answered : answer runtime count tables (ImageManager.insertText id) = some (data, after)) :
    ImageManager.storageRow id "1" ∈ after .s3 := by
  rw [answer_insert_image id answered, Function.update_self]
  simp

theorem update_image_used (id : Int32)
    (there : Keyed.rowsOf firstKey (tables .s3) id.toInt ≠ [])
    (answered : answer runtime count tables (ImageManager.updateText id) = some (data, after)) :
    ImageManager.storageRow id "1" ∈ after .s3 := by
  rcases answer_update_image id answered with ⟨absent, -⟩ | ⟨-, rfl⟩
  · exact absurd absent there
  · rw [Function.update_self]
    obtain ⟨row, within⟩ := List.exists_mem_of_ne_nil _ there
    obtain ⟨member, has⟩ := List.mem_filter.mp within
    exact List.mem_map.mpr ⟨row, member, if_pos (by simpa using has)⟩

theorem image_call_step (request : Request) (member : request ∈ requests)
    (about : isImageRequest runtime request = true) (call : Call)
    (sent : ImageCall (Marked runtime request) call)
    (answered : answer runtime count tables call.text = some (data, after)) :
    TableStep runtime requests tables after := by
  have writes (id : Int32) (mine : Marked runtime request id)
      (rows : Sql.Table (schema.columns .s3))
      (wrote : Keyed.Wrote firstKey id.toInt (ImageManager.storageRow id "1") (tables .s3) rows) :
      TableStep runtime requests tables (Function.update tables .s3 rows) :=
    Or.inr ⟨.s3, _, _, rows, .image request member about id mine, wrote, rfl⟩
  cases sent with
  | used =>
      exact Or.inl (answer_reads runtime _ _ _ _ _ _ _ _ ImageManager.read_used_query answered)
  | free =>
      exact Or.inl (answer_reads runtime _ _ _ _ _ _ _ _ ImageManager.read_free_query answered)
  | row id =>
      exact Or.inl (answer_reads runtime _ _ _ _ _ _ _ _ (ImageManager.read_row_query id) answered)
  | insert id mine =>
      rw [answer_insert_image id answered]
      exact writes id mine _ (Or.inl rfl)
  | update id mine =>
      rcases answer_update_image id answered with ⟨-, same⟩ | ⟨-, rfl⟩
      · exact Or.inl same
      · exact writes id mine _ (Or.inr rfl)

theorem read_upload_query (upload : Upload) :
    ∃ name, readStatement upload.query = some (.select upload.table.title
        (.equals name (.number (intText upload.key))) false) ∧
      Sql.hasKey upload.table.columns name = true := by
  cases upload with
  | user clt => exact ⟨_, ClientManager.read_row_query clt.uid, rfl⟩
  | schedule sch => exact ⟨_, ScheduleManager.read_row_query sch.id, rfl⟩
  | shared sch => exact ⟨_, ScheduleManager.read_shared_row_query sch.scheduleId, rfl⟩

/-- Each statement of a record writes its row, whatever has come before it, but an update that
finds no row. -/
theorem answer_upload (upload plain : Upload) (meaning : upload.meant = some plain)
    (branch : Branch) (text document : Text) (built : upload.text runtime branch = .ok text)
    (kept : upload.stored runtime branch = .ok document)
    (answered : answer runtime count tables text = some (data, after)) :
    branch = .update ∧ upload.rowsOf tables = [] ∧ after = tables ∨
    ∃ row : Row (schema.columns upload.table),
      plain.cells runtime.settings document = some row.cells ∧
      after = Function.update tables upload.table
        (if branch = .insert then tables upload.table ++ [row]
        else Keyed.changeRows firstKey upload.key (fun _ => row) (tables upload.table)) := by
  obtain ⟨sameTable, sameKey⟩ := Upload.meant_place upload plain meaning
  have inserted := Upload.insert_cells_values runtime.settings document plain
  rw [sameTable, sameKey] at inserted
  cases branch with
  | insert =>
      obtain ⟨row, cells, same⟩ := answer_insert runtime (find_title upload.table)
        (Upload.read_insert_text runtime upload plain text document built kept meaning) answered
      exact Or.inr ⟨row, inserted.symm.trans cells, same⟩
  | update =>
      obtain ⟨name, assignments, keyed, covers, read⟩ :=
        Upload.read_update_text runtime upload plain text document built kept meaning
      have complete : (Value.number (intText upload.key) :: plain.values document).length =
          upload.table.columns.length := by
        rw [← sameTable]
        cases plain <;> rfl
      rcases answer_update runtime (find_title upload.table) keyed read covers complete answered
        with ⟨absent, same⟩ | ⟨-, row, cells, same⟩
      · exact Or.inl ⟨rfl, absent, same⟩
      · exact Or.inr ⟨row, inserted.symm.trans cells, same⟩

theorem record_call_step (request : Request) (member : request ∈ requests) (upload : Upload)
    (present : carried runtime request = some upload) (quoted : ∃ plain, upload.meant = some plain)
    (call : Call) (sent : UploadCall runtime upload call)
    (answered : answer runtime count tables call.text = some (data, after)) :
    TableStep runtime requests tables after := by
  obtain ⟨plain, meaning⟩ := quoted
  cases sent with
  | asks =>
      obtain ⟨name, read, -⟩ := read_upload_query upload
      exact Or.inl (answer_reads runtime _ _ _ _ _ _ _ _ read answered)
  | writes branch text built =>
      obtain ⟨document, kept⟩ := Upload.text_stored runtime upload branch text built
      rcases answer_upload upload plain meaning branch text document built kept answered with
        ⟨-, -, same⟩ | ⟨row, cells, same⟩
      · exact Or.inl same
      · refine Or.inr ⟨_, _, row, _,
          .record request member upload plain present meaning branch document kept row cells,
          ?_, same⟩
        cases branch
        · exact Or.inl rfl
        · exact Or.inr rfl

theorem request_call_step (quoted : ∀ request ∈ requests, StaysQuoted runtime request)
    (request : Request) (member : request ∈ requests) (call : Call)
    (sent : RequestCall runtime request call)
    (answered : answer runtime count tables call.text = some (data, after)) :
    TableStep runtime requests tables after := by
  cases sent with
  | image _ about sent => exact image_call_step request member about call sent answered
  | recommend =>
      exact Or.inl (answer_reads runtime _ _ _ _ _ _ _ _ read_recommend_query answered)
  | search search =>
      obtain ⟨pattern, read⟩ := read_of_stays _ ((quoted request member).2 search)
      exact Or.inl (answer_reads runtime _ _ _ _ _ _ _ _ read answered)
  | record _ upload present sent =>
      exact record_call_step request member upload present
        ((quoted request member).1 upload present) call sent answered

theorem server_step_tables {permits : Permits} (before later : World)
    (calls : ∀ call, permits.calls call → ∀ count tables data after,
      answer runtime count tables call.text = some (data, after) →
      TableStep runtime requests tables after)
    (step : ServerStep runtime permits before later) :
    TableStep runtime requests before.tables later.tables := by
  cases step with
  | rests same => exact Or.inl (by rw [same])
  | enters upload may same => exact Or.inl (by rw [same, Upload.enter_tables])
  | images manager may same => exact Or.inl (by rw [same])
  | clients may same => exact Or.inl (by rw [same]; rfl)
  | schedules dictionary may same => exact Or.inl (by rw [same])
  | flags number listening serving may same => exact Or.inl (by rw [same])
  | call call may result answered same =>
      subst same
      cases result with
      | none => exact Or.inl rfl
      | some pair =>
          obtain ⟨data, tables⟩ := pair
          exact calls call may _ _ data tables (answered.resolve_left (by simp)).symm

theorem requests_step_tables (quoted : ∀ request ∈ requests, StaysQuoted runtime request)
    (before later : World)
    (step : ServerStep runtime (Permits.requests runtime requests) before later) :
    TableStep runtime requests before.tables later.tables := by
  refine server_step_tables before later ?_ step
  rintro call ⟨request, member, sent⟩ count tables data after answered
  exact request_call_step quoted request member call sent answered

theorem console_step_tables (before later : World)
    (step : ServerStep runtime Permits.console before later) :
    TableStep runtime requests before.tables later.tables := by
  refine server_step_tables before later ?_ step
  rintro call rfl count tables data after answered
  exact Or.inl (answer_reads runtime _ _ _ _ _ _ _ _ ScheduleManager.read_all_query answered)

end

/-- The console with its commands, and a loop for each list of requests. -/
def process (runtime : Runtime) (commands : List Bool) (loops : List (List Request))
    (world : World) : Pool World Failure (List Text) where
  state := world
  scripts := Steps.console runtime commands :: loops.map (Steps.loop runtime)

structure OnlyGrown (runtime : Runtime) (requests : List Request) (before after : Tables) :
    Prop where
  waypoint : after .waypoint = before .waypoint
  whole : ∀ name row, row ∈ after name →
    row ∈ before name ∨ ∃ k, Writes runtime requests name k row
  present : ∀ name k, Keyed.rowsOf firstKey (before name) k ≠ [] →
    Keyed.rowsOf firstKey (after name) k ≠ []
  used : ∀ id, ImageManager.storageRow id "1" ∈ before .s3 →
    ImageManager.storageRow id "1" ∈ after .s3
  others : ∀ name k, (∀ row, ¬Writes runtime requests name k row) →
    Keyed.rowsOf firstKey (after name) k = Keyed.rowsOf firstKey (before name) k

section
variable {runtime : Runtime} {requests : List Request}

theorem only_grown_refl (tables : Tables) : OnlyGrown runtime requests tables tables where
  waypoint := rfl
  whole := fun _ _ member => Or.inl member
  present := fun _ _ there => there
  used := fun _ there => there
  others := fun _ _ _ => rfl

theorem only_grown_trans (first second third : Tables)
    (earlier : OnlyGrown runtime requests first second)
    (later : OnlyGrown runtime requests second third) :
    OnlyGrown runtime requests first third where
  waypoint := later.waypoint.trans earlier.waypoint
  whole := fun name row member => by
    rcases later.whole name row member with old | new
    · exact earlier.whole name row old
    · exact Or.inr new
  present := fun name k there => later.present name k (earlier.present name k there)
  used := fun id there => later.used id (earlier.used id there)
  others := fun name k nobody => (later.others name k nobody).trans (earlier.others name k nobody)

theorem writes_key (name : TableName) (k : Int) (row : Row (schema.columns name))
    (writes : Writes runtime requests name k row) : firstKey row = some k := by
  cases writes with
  | image request member about id => rfl
  | record request member upload plain present meaning branch document kept row cells =>
      rw [← (Upload.meant_place upload plain meaning).2]
      exact cells_key runtime.settings document plain row cells

theorem writes_not_waypoint (name : TableName) (k : Int) (row : Row (schema.columns name))
    (writes : Writes runtime requests name k row) : name ≠ .waypoint := by
  cases writes with
  | image request member about id => exact nofun
  | record request member upload plain present meaning branch document kept row cells =>
      cases upload <;> exact nofun

theorem writes_image (name : TableName) (k : Int) (row : Row (schema.columns name))
    (writes : Writes runtime requests name k row) (there : name = .s3) :
    ∃ id : Int32, k = id.toInt ∧ row.cells = (ImageManager.storageRow id "1").cells := by
  cases writes with
  | image request member about id => exact ⟨id, rfl, rfl⟩
  | record request member upload plain present meaning branch document kept row cells =>
      cases upload <;> cases there

theorem table_step_grown (before after : Tables)
    (step : TableStep runtime requests before after) :
    OnlyGrown runtime requests before after := by
  rcases step with rfl | ⟨name, k, row, rows, writes, wrote, rfl⟩
  · exact only_grown_refl after
  · have has := writes_key name k row writes
    refine ⟨?_, fun other found member => ?_, fun other key there => ?_, fun id there => ?_,
      fun other key nobody => ?_⟩
    · exact Function.update_of_ne (writes_not_waypoint name k row writes).symm _ _
    · by_cases here : other = name
      · subst here
        rw [Function.update_self] at member
        rcases Keyed.wrote_mem wrote found member with rfl | old
        · exact Or.inr ⟨k, writes⟩
        · exact Or.inl old
      · rw [Function.update_of_ne here] at member
        exact Or.inl member
    · by_cases here : other = name
      · subst here
        rw [Function.update_self]
        exact Keyed.wrote_present wrote has key there
      · rwa [Function.update_of_ne here]
    · by_cases here : TableName.s3 = name
      · subst here
        rw [Function.update_self]
        refine Keyed.wrote_kept wrote _ there fun same => ?_
        obtain ⟨other, rfl, cells⟩ := writes_image _ k row writes rfl
        rw [Int32.toInt_inj.mp (Option.some.inj same)]
        exact Sql.Row.ext_cells cells.symm
      · rwa [Function.update_of_ne here]
    · by_cases here : other = name
      · subst here
        rw [Function.update_self]
        refine Keyed.wrote_other wrote has key ?_
        rintro rfl
        exact nobody row writes
      · rw [Function.update_of_ne here]

end

/-- The tables only grow, and no failure is taken back. -/
def Moves (runtime : Runtime) (requests : List Request) (before after : World) : Prop :=
  OnlyGrown runtime requests before.tables after.tables ∧ before.failedCalls ≤ after.failedCalls

section
variable {runtime : Runtime} {requests : List Request}

theorem moves_refl (world : World) : Moves runtime requests world world :=
  ⟨only_grown_refl world.tables, le_rfl⟩

theorem moves_trans (first second third : World) (earlier : Moves runtime requests first second)
    (later : Moves runtime requests second third) : Moves runtime requests first third :=
  ⟨only_grown_trans _ _ _ earlier.1 later.1, le_trans earlier.2 later.2⟩

theorem moves_of_makes {Value : Type} (quoted : ∀ request ∈ requests, StaysQuoted runtime request)
    (script : Steps Value)
    (makes : Steps.Makes (ServerStep runtime (Permits.requests runtime requests)) script) :
    script.Always fun before after _ => Moves runtime requests before after :=
  Script.always_mono script (fun before after _ step =>
    ⟨table_step_grown _ _ (requests_step_tables quoted before after step),
      server_step_failed _ _ step⟩) makes

end

theorem process_moves (runtime : Runtime) (commands : List Bool) (loops : List (List Request))
    (world : World) (quoted : ∀ request ∈ loops.flatten, StaysQuoted runtime request) :
    ∀ script ∈ (process runtime commands loops world).scripts, script.Always
      fun before after _ => Moves runtime loops.flatten before after := by
  intro script member
  rcases List.mem_cons.mp member with rfl | loop
  · exact Script.always_mono _ (fun before after _ step =>
      ⟨table_step_grown _ _ (console_step_tables before after step), server_step_failed _ _ step⟩)
      (Steps.makes_console runtime commands)
  · obtain ⟨requests, there, rfl⟩ := List.mem_map.mp loop
    exact moves_of_makes quoted _ (Steps.makes_loop runtime loops.flatten requests
      fun request within => List.mem_flatten.mpr ⟨requests, there, within⟩)

theorem run_moves (runtime : Runtime) (commands : List Bool) (loops : List (List Request))
    (world : World) (schedule : List Nat)
    (quoted : ∀ request ∈ loops.flatten, StaysQuoted runtime request) :
    Moves runtime loops.flatten world
      (Pool.run schedule (process runtime commands loops world)).state :=
  Pool.run_always moves_refl moves_trans schedule _
    (process_moves runtime commands loops world quoted)

/-- Whatever calls fail and in whatever order the threads take their turns: waypoints stay as
they are, each row is an old one or was written whole, no key is lost and no used image is
freed, and the rows of keys that no request writes stay as they are. -/
theorem tables_only_grow (runtime : Runtime) (commands : List Bool)
    (loops : List (List Request)) (world : World) (schedule : List Nat)
    (quoted : ∀ request ∈ loops.flatten, StaysQuoted runtime request) :
    OnlyGrown runtime loops.flatten world.tables
      (Pool.run schedule (process runtime commands loops world)).state.tables :=
  (run_moves runtime commands loops world schedule quoted).1

def inStep : Nat → List Nat
  | 0 => []
  | turns + 1 => 1 :: 2 :: inStep turns

def postUser (uid name : String) : Request :=
  userRequest ("\x7b\"uid\":" ++ uid ++ ",\"name\":\"" ++ name ++ "\"\x7d")

theorem quoted_of_meant {runtime : Runtime} (request : Request) (upload plain : Upload)
    (present : carried runtime request = some upload) (meaning : upload.meant = some plain)
    (silent : isSearch runtime request = false) : StaysQuoted runtime request := by
  refine ⟨fun other same => ⟨plain, ?_⟩, fun search => ?_⟩
  · rwa [← Option.some.inj (present.symm.trans same)]
  · rw [silent] at search
    cases search

/-- Both loops find the key free: there are two rows of it, and none of a waypoint. -/
theorem tables_only_grow_twice :
    let after := (Pool.run (inStep 8) (process .standard []
      [[postUser "1" "A"], [postUser "1" "B"]] (.opened Tables.empty))).state.tables
    (Keyed.rowsOf firstKey (after .user) 1).length = 2 ∧ after .waypoint = [] := by
  have quoted : ∀ request ∈ [[postUser "1" "A"], [postUser "1" "B"]].flatten,
      StaysQuoted .standard request := by
    refine List.forall_mem_cons.mpr ⟨?_, List.forall_mem_singleton.mpr ?_⟩
    · exact quoted_of_meant _ (.user ⟨1, ['A'], []⟩) (.user ⟨1, ['A'], []⟩) rfl rfl rfl
    · exact quoted_of_meant _ (.user ⟨1, ['B'], []⟩) (.user ⟨1, ['B'], []⟩) rfl rfl rfl
  exact ⟨rfl, (tables_only_grow .standard [] [[postUser "1" "A"], [postUser "1" "B"]]
    (.opened Tables.empty) (inStep 8) quoted).waypoint⟩

end TfuServer
