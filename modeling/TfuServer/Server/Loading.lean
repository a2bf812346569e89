import TfuServer.Server.Import
import TfuServer.Server.LoopsServed

/-!
# The dataset imported beside the loops

The console has a thread of its own, so `syncWP` puts its items into the table one by one while
the loops search there. Only the console imports, and each item takes the table from one stage
to the next.
-/

namespace TfuServer

set_option autoImplicit false

open Numeral Program
open Script (AtMost at_most_ended at_most_atomic at_most_bind at_most_recover
  Implements implements_pure implements_lift implements_atomic implements_bind Unspoiled
  valid_atomic valid_bind valid_lift_bind valid_mono valid_moved valid_of_always
  valid_unspoiled_bind ends_trivial)
open Json (parseObject)
open Sql (Row firstKey readStatement)
open Steps (Makes makes_bind)

namespace Steps

section
variable (runtime : Runtime)

def insertItems : List Json → Steps Unit
  | [] => return
  | item :: items => do
      let query ← Script.lift (DBManager.itemQuery runtime.newtonsoft item)
      executeQuery runtime query
      insertItems items

def insertWaypointIntoDB (file : Option Text) : Steps Unit := do
  match file with
  | none => return
  | some file =>
      let dataset ← Script.lift (parseObject runtime.newtonsoft (maskApostrophes file))
      insertItems runtime (DBManager.datasetItems dataset)
      let loaded ← select runtime DBManager.countQuery
      let _ ← Script.lift loaded.first
      return

/-- A command of the console; `file` is what the dataset file holds when it is asked for. -/
def command (file : Option Text) : Command → Steps Unit
  | .start => do
      serverInit runtime
      startServer
  | .stop => stopServer
  | .exit => stopServer
  | .syncWP => insertWaypointIntoDB runtime file
  | .select query => do
      let _ ← select runtime query
      return
  | .executeQuery query => executeQuery runtime query
  | .invalid => return

/-- The thread of the console, up to `exit` or the first command that ends with an exception. -/
def commands : List (Command × Option Text) → Steps (List Text)
  | [] => return []
  | given :: rest => do
      command runtime given.2 given.1
      if given.1 = .exit then return [] else commands rest

theorem implements_insert_items (items : List Json) :
    Implements (insertItems runtime items) (DBManager.insertItems runtime items) := by
  induction items with
  | nil => exact implements_pure _
  | cons item items ih =>
      refine implements_bind _ _ _ _ (implements_lift _) fun query => ?_
      exact implements_bind _ _ _ _ (implements_atomic _) fun _ => ih

theorem implements_insert_waypoints (file : Option Text) :
    Implements (insertWaypointIntoDB runtime file)
      (DBManager.insertWaypointIntoDB runtime file) := by
  cases file with
  | none => exact implements_pure _
  | some file =>
      refine implements_bind _ _ _ _ (implements_lift _) fun dataset => ?_
      refine implements_bind _ _ _ _ (implements_insert_items runtime _) fun _ => ?_
      exact implements_rows runtime (fun _ _ _ _ => trivial) _ _ _ fun _ => implements_pure _

/-- A command whose steps nobody comes between does what it does at the console. -/
theorem implements_command (file : Option Text) (given : Command) :
    Implements (command runtime file given) (given.run runtime file) := by
  cases given with
  | start => exact implements_start runtime
  | stop => exact implements_atomic _
  | exit => exact implements_atomic _
  | syncWP => exact implements_insert_waypoints runtime file
  | select query =>
      exact implements_bind _ _ _ _ (implements_atomic _) fun _ => implements_pure _
  | executeQuery query => exact implements_atomic _
  | invalid => exact implements_pure _

end

end Steps

/-- An item is put into the table by a statement of a kind that nothing else executes. -/
def isImport : Call → Bool
  | .executeQuery text => (readStatement text).isNone
  | .select _ => false

def importCalls (world : World) : Nat := world.log.countP isImport

section
variable (runtime : Runtime)

def fileItems : Option Text → List Json
  | none => []
  | some file =>
      ((parseObject runtime.newtonsoft (maskApostrophes file)).toOption.map
        DBManager.datasetItems).getD []

def ownItems (given : Command × Option Text) : List Json :=
  if given.1 = .syncWP then fileItems runtime given.2 else []

/-- The items of all imports that the console is told to make before `exit`. -/
def itemsOf : List (Command × Option Text) → List Json
  | [] => []
  | given :: rest =>
      ownItems runtime given ++ if given.1 = .exit then [] else itemsOf rest

/-- The table once so many of the items have been put there. -/
def loaded (items : List Json) (count : Nat) (rows : Sql.Table (schema.columns .waypoint)) :
    Sql.Table (schema.columns .waypoint) :=
  Keyed.upsertAll firstKey ((items.take count).filterMap (itemWrite runtime)) rows

/-- The log tells how many items have been put there since the start. -/
structure Stage (items : List Json) (start : World) (count : Nat) (world : World) : Prop where
  counted : importCalls world = importCalls start + count
  rows : world.tables .waypoint = loaded runtime items count (start.tables .waypoint)

def Reached (items : List Json) (start : World) (count : Nat) (world : World) : Prop :=
  ∃ stage, count ≤ stage ∧ Stage runtime items start stage world

/-- While no call fails, the table goes on from stage to stage. -/
def Loads (items : List Json) (start : World) (before after : World) : Prop :=
  before.failedCalls ≤ after.failedCalls ∧
    (after.failedCalls = before.failedCalls →
      ∀ count, Reached runtime items start count before → Reached runtime items start count after)

end

structure Elsewhere (before after : World) : Prop where
  counted : importCalls after = importCalls before
  waypoint : after.tables .waypoint = before.tables .waypoint
  failed : before.failedCalls ≤ after.failedCalls

section
variable {runtime : Runtime} {items : List Json} {start : World}

theorem stage_elsewhere (count : Nat) (before after : World) (step : Elsewhere before after)
    (stage : Stage runtime items start count before) : Stage runtime items start count after where
  counted := step.counted.trans stage.counted
  rows := step.waypoint.trans stage.rows

theorem loads_of_elsewhere (before after : World) (step : Elsewhere before after) :
    Loads runtime items start before after :=
  ⟨step.failed, fun _ _ ⟨stage, least, there⟩ =>
    ⟨stage, least, stage_elsewhere stage before after step there⟩⟩

theorem loads_refl (world : World) : Loads runtime items start world world :=
  ⟨le_rfl, fun _ _ reached => reached⟩

theorem loads_trans (first second third : World) (earlier : Loads runtime items start first second)
    (later : Loads runtime items start second third) : Loads runtime items start first third := by
  have one := earlier.1
  have two := later.1
  refine ⟨le_trans one two, fun same count reached => ?_⟩
  exact later.2 (by omega) count (earlier.2 (by omega) count reached)

theorem import_calls_append (call : Call) (before after : World)
    (logged : after.log = before.log ++ [call]) :
    importCalls after = importCalls before + if isImport call then 1 else 0 := by
  rw [importCalls, importCalls, logged, List.countP_append, List.countP_singleton]

theorem call_ended_log (call : Call) (result : Option (DataSet × Tables)) (world : World) :
    (callEnded call result world).log = world.log ++ [call] := by
  cases result <;> rfl

theorem server_step_elsewhere {permits : Permits}
    (calls : ∀ call, permits.calls call → isImport call = false) (before after : World)
    (waypoint : after.tables .waypoint = before.tables .waypoint)
    (step : ServerStep runtime permits before after) : Elsewhere before after := by
  refine ⟨?_, waypoint, server_step_failed before after step⟩
  cases step with
  | rests same => rw [same]
  | enters upload may same =>
      rw [same, importCalls, (Upload.enter_only upload before).log]
      rfl
  | images manager may same => rw [same]; rfl
  | clients may same => rw [same]; rfl
  | schedules dictionary may same => rw [same]; rfl
  | flags number listening serving may same => rw [same]; rfl
  | call call may result answered same =>
      rw [same, import_calls_append call _ _ (call_ended_log call result before), calls call may]
      rfl

theorem request_no_import (request : Request) (quoted : StaysQuoted runtime request) (call : Call)
    (sent : RequestCall runtime request call) : isImport call = false := by
  have plain (text : Text) (statement : Sql.Statement)
      (read : readStatement text = some statement) : isImport (.executeQuery text) = false := by
    rw [isImport, read]
    rfl
  cases sent with
  | image _ about sent =>
      cases sent with
      | used | free | row => rfl
      | update id mine => exact plain _ _ (ImageManager.read_update_text id)
      | insert id mine => exact plain _ _ (ImageManager.read_insert_text id)
  | recommend | search => rfl
  | record _ upload present sent =>
      obtain ⟨own, meaning⟩ := quoted.1 upload present
      cases sent with
      | asks => rfl
      | writes branch text built =>
          obtain ⟨document, kept⟩ := Upload.text_stored runtime upload branch text built
          cases branch with
          | insert =>
              exact plain text _
                (Upload.read_insert_text runtime upload own text document built kept meaning)
          | update =>
              obtain ⟨name, assignments, -, -, read⟩ :=
                Upload.read_update_text runtime upload own text document built kept meaning
              exact plain text _ read

theorem requests_elsewhere {Value : Type} {requests : List Request}
    (quoted : ∀ request ∈ requests, StaysQuoted runtime request) (script : Steps Value)
    (makes : Makes (ServerStep runtime (Permits.requests runtime requests)) script) :
    Makes Elsewhere script := by
  refine Script.always_mono script (fun before after _ step => ?_) makes
  refine server_step_elsewhere (fun call may => ?_) before after
    (table_step_grown _ _ (requests_step_tables quoted before after step)).waypoint step
  obtain ⟨request, member, sent⟩ := may
  exact request_no_import request (quoted request member) call sent

theorem reads_elsewhere {Value : Type} (call : Call) (schedules : Prop)
    (other : isImport call = false)
    (reads : ∀ count tables data after,
      answer runtime count tables call.text = some (data, after) → after = tables)
    (script : Steps Value)
    (makes : Makes (ServerStep runtime
      ⟨(· = call), fun _ => False, False, False, schedules, schedules⟩) script) :
    Makes Elsewhere script := by
  refine Script.always_mono script (fun before after _ step => ?_) makes
  have tables : TableStep runtime [] before.tables after.tables := by
    refine server_step_tables before after (fun own may count tables data later answered => ?_) step
    obtain rfl : own = call := may
    exact Or.inl (reads count tables data later answered)
  have grown := (table_step_grown _ _ tables).waypoint
  refine server_step_elsewhere (fun own may => ?_) before after grown step
  obtain rfl : own = call := may
  exact other

theorem console_elsewhere {Value : Type} (script : Steps Value)
    (makes : Makes (ServerStep runtime Permits.console) script) : Makes Elsewhere script :=
  reads_elsewhere (.select allQuery) True rfl
    (fun _ _ _ _ answered => answer_reads runtime _ _ _ _ _ _ _ _ ScheduleManager.read_all_query
      answered) script makes

theorem elsewhere_select (query : Text)
    (reads : ∀ count tables data after,
      answer runtime count tables query = some (data, after) → after = tables) :
    Makes Elsewhere (Steps.select runtime query) :=
  reads_elsewhere (.select query) False rfl reads _ (Steps.makes_select runtime query rfl)

theorem answer_count (count : Nat) (tables : Tables) (data : DataSet) (after : Tables)
    (answered : answer runtime count tables DBManager.countQuery = some (data, after)) :
    after = tables := by
  have notPlain : readStatement DBManager.countQuery = none := rfl
  have read : Sql.readFurther DBManager.countQuery =
      some (.column "id".toList "WAYPOINT".toList) := rfl
  unfold answer at answered
  rw [notPlain, read] at answered
  simp only at answered
  split at answered
  · split_ifs at answered
    exact (Prod.mk.inj (Option.some.inj answered)).2.symm
  · cases answered

def OnlyReads : Command → Prop
  | .select query => ∃ table condition shuffled,
      readStatement query = some (.select table condition shuffled)
  | .executeQuery query => ∃ table condition shuffled,
      readStatement query = some (.select table condition shuffled)
  | _ => True

variable (runtime) in
/-- An item whose statement is built has numbers, and strings that stay within their quotes. -/
def Importable (item : Json) : Prop :=
  ∀ query, DBManager.itemQuery runtime.newtonsoft item = .ok query → Imported runtime item

def Steady (before after : World) : Prop := importCalls after = importCalls before

abbrev Operates {Value : Type} (runtime : Runtime) (items : List Json) (start : World)
    (after : Except Failure Value → World → Prop) (script : Steps Value) (world : World) : Prop :=
  Script.Valid Steady (fun before later _ => Loads runtime items start before later) after script
    world

theorem steady_refl (world : World) : Steady world world := rfl

theorem steady_trans (first second third : World) (earlier : Steady first second)
    (later : Steady second third) : Steady first third :=
  Eq.trans later earlier

theorem elsewhere_operates {Value : Type} (script : Steps Value) (world : World)
    (makes : Makes Elsewhere script) :
    Operates runtime items start (fun _ later => Steady world later) script world := by
  have moved := valid_moved steady_trans (fun before after _ step => Elsewhere.counted step) script
    world world (steady_refl world) (valid_of_always script world makes (ends_trivial script world))
  exact valid_mono script world (fun before after _ step => loads_of_elsewhere before after step)
    (fun _ _ ended => ended.2) moved

theorem loaded_next (before : List Json) (item : Json) (after : List Json) (k : Int)
    (row : Row (schema.columns .waypoint)) (rows : Sql.Table (schema.columns .waypoint))
    (writes : itemWrite runtime item = some (k, row)) :
    loaded runtime (before ++ item :: after) (before.length + 1) rows =
      Keyed.upsert firstKey k row (fun _ => row)
        (loaded runtime (before ++ item :: after) before.length rows) := by
  have next : (before ++ item :: after).take (before.length + 1) = before ++ [item] := by
    rw [List.take_append, List.take_of_length_le (Nat.le_succ _)]
    simp
  rw [loaded, loaded, next, List.take_left, List.filterMap_append, List.filterMap_cons, writes,
    List.filterMap_nil, Keyed.upsert_all_concat]

section
variable (dates : DatesArePlain runtime.newtonsoft)
include dates

/-- The statement of an item leads from one stage to the next. -/
theorem item_operates (before : List Json) (item : Json) (after : List Json) (world : World)
    (own : DatasetItem) (decoded : itemOf runtime.newtonsoft item = .ok own) (clean : own.Clean)
    (counted : importCalls world = importCalls start + before.length) :
    Operates runtime (before ++ item :: after) start
      (fun _ later => importCalls later = importCalls start + (before.length + 1))
      (Steps.executeQuery runtime (own.query runtime.newtonsoft)) world := by
  refine valid_atomic _ world fun found steady => ?_
  have here : importCalls found = importCalls start + before.length := steady.trans counted
  have imports : isImport (.executeQuery (own.query runtime.newtonsoft)) = true := by
    rw [isImport, (read_item_query runtime dates own clean).1]
    rfl
  have next (result : Option (DataSet × Tables)) :
      importCalls (callEnded (.executeQuery (own.query runtime.newtonsoft)) result found) =
        importCalls start + (before.length + 1) := by
    rw [import_calls_append _ _ _ (call_ended_log _ result found), imports, here]
    rfl
  -- A call that fails writes no row, and there is nothing left to show.
  have fails : Loads runtime (before ++ item :: after) start found
      (callEnded (.executeQuery (own.query runtime.newtonsoft)) none found) :=
    ⟨Nat.le_succ _, fun same => absurd same (Nat.succ_ne_self _)⟩
  rcases DBManager.execute_cases runtime (own.query runtime.newtonsoft) found with
    ⟨data, tables, -, answered, ran⟩ | ran | ⟨-, ran⟩ <;> rw [ran]
  · refine ⟨⟨le_rfl, fun _ count reached => ?_⟩, fun later further => further.trans (next _)⟩
    obtain ⟨stage, least, there⟩ := reached
    obtain rfl : stage = before.length := by have counts := there.counted; omega
    have quiet : NoFailure (DBManager.executeQuery runtime (own.query runtime.newtonsoft))
        found := by
      unfold NoFailure Quiet
      rw [ran]
      rfl
    obtain ⟨row, k, calls, inserted, has, wrote⟩ := item_step runtime dates own clean found quiet
    have write : itemWrite runtime item = some (k, row) := by
      simp [itemWrite, decoded, inserted, has]
    refine ⟨before.length + 1, Nat.le_succ_of_le least, next _, ?_⟩
    have last := congrArg Prod.snd (ran.symm.trans wrote)
    rw [last, loaded_next before item after k row _ write, ← there.rows, World.logs_tables]
    exact World.put_table _ _ _
  · exact ⟨fails, fun later further => further.trans (next _)⟩
  · exact ⟨fails, fun later further => further.trans (next _)⟩

theorem insert_items_operate (before own after : List Json) (world : World)
    (importable : ∀ item ∈ own, Importable runtime item)
    (counted : importCalls world = importCalls start + before.length) :
    Operates runtime (before ++ (own ++ after)) start
      (fun result later => result = .ok () →
        importCalls later = importCalls start + (before ++ own).length)
      (Steps.insertItems runtime own) world := by
  induction own generalizing before world with
  | nil =>
      intro later steady _
      rw [List.append_nil]
      exact Eq.trans steady counted
  | cons item own ih =>
      obtain ⟨first, others⟩ := List.forall_mem_cons.mp importable
      refine valid_lift_bind _ _ world (fun query built => ?_) fun _ _ _ _ same => by cases same
      obtain ⟨decoded, read, same, clean⟩ := first query built
      obtain rfl : query = decoded.query runtime.newtonsoft :=
        Except.ok.inj (built.symm.trans same)
      refine valid_bind steady_refl _ _ world (fun _ _ _ step => step)
        (item_operates dates before item (own ++ after) world decoded read clean counted)
        (fun _ later more => ?_) fun _ _ _ same => by cases same
      have rest := ih (before ++ [item]) later others (by rw [more, List.length_append]; rfl)
      simpa only [List.append_assoc, List.cons_append, List.nil_append] using rest

theorem import_operates (before after : List Json) (file : Option Text) (world : World)
    (importable : ∀ item ∈ fileItems runtime file, Importable runtime item)
    (counted : importCalls world = importCalls start + before.length) :
    Operates runtime (before ++ (fileItems runtime file ++ after)) start
      (fun result later => result = .ok () →
        importCalls later = importCalls start + (before ++ fileItems runtime file).length)
      (Steps.insertWaypointIntoDB runtime file) world := by
  cases file with
  | none =>
      intro later steady _
      rw [fileItems, List.append_nil]
      exact Eq.trans steady counted
  | some file =>
      refine valid_lift_bind _ _ world (fun dataset parsed => ?_) fun _ _ _ _ same => by cases same
      have same : fileItems runtime (some file) = DBManager.datasetItems dataset := by
        simp [fileItems, parsed, Except.toOption]
      rw [same] at importable ⊢
      refine valid_bind steady_refl _ _ world (fun _ _ _ step => step)
        (insert_items_operate dates before (DBManager.datasetItems dataset) after world importable
          counted)
        (fun _ later ended => ?_) fun _ _ _ same => by cases same
      have counts : Makes Elsewhere (do
          let loaded ← Steps.select runtime DBManager.countQuery
          let _ ← Script.lift loaded.first
          return) :=
        makes_bind _ _ (elsewhere_select _ answer_count) fun _ =>
          makes_bind _ _ (Script.always_lift _ _) fun _ => Script.always_pure _ _
      exact valid_mono _ later (fun _ _ _ step => step)
        (fun _ last steady _ => steady.trans (ended rfl)) (elsewhere_operates _ later counts)

theorem command_operates (before after : List Json) (given : Command × Option Text)
    (world : World) (reads : OnlyReads given.1)
    (importable : ∀ item ∈ ownItems runtime given, Importable runtime item)
    (counted : importCalls world = importCalls start + before.length) :
    Operates runtime (before ++ (ownItems runtime given ++ after)) start
      (fun result later => result = .ok () →
        importCalls later = importCalls start + (before ++ ownItems runtime given).length)
      (Steps.command runtime given.2 given.1) world := by
  obtain ⟨command, file⟩ := given
  have other (none : ownItems runtime (command, file) = [])
      (makes : Makes Elsewhere (Steps.command runtime file command)) :
      Operates runtime (before ++ (ownItems runtime (command, file) ++ after)) start
        (fun result later => result = .ok () →
          importCalls later =
            importCalls start + (before ++ ownItems runtime (command, file)).length)
        (Steps.command runtime file command) world := by
    rw [none, List.append_nil]
    exact valid_mono _ world (fun _ _ _ step => step)
      (fun _ later steady _ => Eq.trans steady counted) (elsewhere_operates _ world makes)
  cases command with
  | start =>
      exact other rfl (console_elsewhere _ (makes_bind _ _ (Steps.makes_server_init runtime)
        fun _ => Steps.makes_start_server runtime))
  | stop => exact other rfl (console_elsewhere _ (Steps.makes_stop_server runtime))
  | exit => exact other rfl (console_elsewhere _ (Steps.makes_stop_server runtime))
  | syncWP => exact import_operates dates before after file world importable counted
  | select query =>
      obtain ⟨table, condition, shuffled, read⟩ := reads
      exact other rfl (makes_bind _ _ (elsewhere_select query fun _ _ _ _ answered =>
        answer_reads runtime _ _ _ _ _ _ _ _ read answered) fun _ => Script.always_pure _ _)
  | executeQuery query =>
      obtain ⟨table, condition, shuffled, read⟩ := reads
      refine other rfl (reads_elsewhere (.executeQuery query) False (by rw [isImport, read]; rfl)
        (fun _ _ _ _ answered => answer_reads runtime _ _ _ _ _ _ _ _ read answered) _
        (Steps.makes_execute runtime query rfl))
  | invalid => exact other rfl (Script.always_pure _ _)

theorem commands_operate (before : List Json) (given : List (Command × Option Text))
    (world : World) (reads : ∀ each ∈ given, OnlyReads each.1)
    (importable : ∀ item ∈ itemsOf runtime given, Importable runtime item)
    (counted : importCalls world = importCalls start + before.length) :
    Operates runtime (before ++ itemsOf runtime given) start
      (fun result later => (∃ texts, result = .ok texts) →
        importCalls later = importCalls start + (before ++ itemsOf runtime given).length)
      (Steps.commands runtime given) world := by
  induction given generalizing before world with
  | nil =>
      intro later steady _
      rw [itemsOf, List.append_nil]
      exact Eq.trans steady counted
  | cons own given ih =>
      obtain ⟨first, others⟩ := List.forall_mem_cons.mp reads
      rw [itemsOf] at importable ⊢
      obtain ⟨mine, later⟩ := List.forall_mem_append.mp importable
      refine valid_bind steady_refl _ _ world (fun _ _ _ step => step)
        (command_operates dates before _ own world first mine counted)
        (fun _ last ended => ?_) fun _ _ _ found => by obtain ⟨_, same⟩ := found; cases same
      by_cases exits : own.1 = .exit
      · rw [if_pos exits, List.append_nil, if_pos exits]
        exact fun final steady _ => Eq.trans steady (ended rfl)
      · simp only [exits, if_false] at later ⊢
        have rest := ih (before ++ ownItems runtime own) last others later (ended rfl)
        rwa [List.append_assoc] at rest

end

variable (runtime items start) in
/-- The answer is made of the rows of this stage that the search meets. -/
def ListsStage (count : Nat) (request : Request) (answer : Option Text) : Prop :=
  ∃ pattern, readStatement (Server.waypointsQuery (searchedKeyword runtime request)) =
      some (.select "WAYPOINT".toList (.like "NAME".toList pattern) false) ∧
    answer = some (restoreApostrophes (listed runtime (rowsMeeting runtime
      (Function.update start.tables .waypoint
        (loaded runtime items count (start.tables .waypoint))) .waypoint
      (.like "NAME".toList pattern))))

variable (runtime items start) in
/-- Each search is answered from one stage, and no later search from an earlier stage. -/
inductive Follows : Nat → List Request → List (Option Text) → Prop where
  | nil (count : Nat) : Follows count [] []
  | cons (count stage : Nat) (request : Request) (requests : List Request)
      (answer : Option Text) (answers : List (Option Text)) (later : count ≤ stage)
      (lists : isSearch runtime request = true →
        ListsStage runtime items start stage request answer)
      (rest : Follows stage requests answers) :
      Follows count (request :: requests) (answer :: answers)

theorem at_most_waypoints (keyword : Option Text) :
    AtMost 1 (Steps.waypoints runtime keyword) := by
  refine at_most_recover 1 0 _ _ (at_most_bind 1 0 _ _ (at_most_atomic _) fun data => ?_)
    fun _ => at_most_ended 0 _
  exact at_most_bind 0 0 _ _ (at_most_ended 0 _) fun rows =>
    at_most_bind 0 0 _ _ (at_most_ended 0 _) fun list => at_most_ended 0 _

theorem search_atomic (request : Request) (search : isSearch runtime request = true) :
    Steps.dataReceived runtime request = Script.atomic (Server.dataReceived runtime request) := by
  obtain ⟨method, route⟩ := Bool.and_eq_true_iff.mp search
  have get : request.method = "GET".toList := eq_of_beq method
  have image := starts_with_one route "/image" (by decide)
  have recommended := starts_with_one route "/recommend" (by decide)
  have shape : Steps.dataReceived runtime request = (do
      let response ← (do
        let responseString ← Steps.waypoints runtime request.keyword
        return restoreApostrophes responseString)
      return some response) := by
    simp only [Steps.dataReceived, if_pos get, Steps.clientGet, image, recommended, route,
      Bool.false_eq_true, if_false, if_true]
  have once : (Steps.dataReceived runtime request).AtMost 1 := by
    rw [shape]
    exact at_most_bind 1 0 _ _ (at_most_bind 1 0 _ _
      (at_most_waypoints request.keyword) fun _ => at_most_ended 0 _)
      fun _ => at_most_ended 0 _
  refine Script.atomic_of_at_most _ _ (Steps.implements_data_received runtime request) once ?_
  rw [shape]
  intro result same
  cases same

theorem context_follows {bound : Nat} (count : Nat) (world : World)
    (least : bound ≤ world.failedCalls)
    (reached : world.failedCalls = bound → Reached runtime items start count world) :
    Script.Ends (Loads runtime items start)
      (Unspoiled World.failedCalls bound fun _ later => Reached runtime items start count later)
      Steps.getContext world := by
  have makes : Makes (Loads runtime items start) Steps.getContext :=
    makes_bind _ _ (Script.always_atomic _ _ fun found _ => loads_refl found)
      fun number => Script.always_atomic _ _ fun found _ => by
        rw [Steps.accept_state]
        exact loads_refl found
  have moved := valid_moved loads_trans (fun _ _ _ step => step) _ world world (loads_refl world)
    (valid_of_always _ world makes (ends_trivial _ world))
  refine valid_mono _ world (fun _ _ _ _ => trivial) (fun result later ended => ?_) moved
  have more := ended.2.1
  exact ⟨by omega, fun same => ended.2.2 (by omega) count (reached (by omega))⟩

section
variable {requests : List Request} (quoted : ∀ request ∈ requests, StaysQuoted runtime request)
  {bound : Nat}
include quoted

theorem request_follows (request : Request) (member : request ∈ requests) (count : Nat)
    (world : World) (least : bound ≤ world.failedCalls)
    (reached : world.failedCalls = bound → Reached runtime items start count world) :
    Script.Ends (Loads runtime items start)
      (Unspoiled World.failedCalls bound fun result later => ∃ stage, count ≤ stage ∧
        Reached runtime items start stage later ∧ ∀ answer, result = .ok answer →
          isSearch runtime request = true → ListsStage runtime items start stage request answer)
      (Steps.dataReceived runtime request) world := by
  have elsewhere := requests_elsewhere quoted _
    (Steps.makes_request runtime requests request member)
  cases search : isSearch runtime request with
  | false =>
      have still : Loads runtime items start world world := loads_refl world
      have moved := valid_moved loads_trans
        (fun before after _ step => loads_of_elsewhere before after step) _ world world still
        (valid_of_always _ world elsewhere (ends_trivial _ world))
      refine valid_mono _ world (fun _ _ _ _ => trivial) (fun result later ended => ?_) moved
      have more := ended.2.1
      refine ⟨by omega, fun same => ⟨count, le_rfl, ?_, nofun⟩⟩
      exact ended.2.2 (by omega) count (reached (by omega))
  | true =>
      rw [search_atomic request search] at elsewhere ⊢
      refine valid_atomic _ world fun found moved => ⟨trivial, fun later further => ?_⟩
      have own : Elsewhere found (exec (Server.dataReceived runtime request) found).2 :=
        (elsewhere found trivial).1
      have one := moved.1
      have two := own.failed
      have three := further.1
      refine ⟨by omega, fun same => ?_⟩
      obtain ⟨stage, most, there⟩ := moved.2 (by omega) count (reached (by omega))
      have last : Reached runtime items start stage later :=
        further.2 (by omega) stage ⟨stage, le_rfl, stage_elsewhere stage _ _ own there⟩
      refine ⟨stage, most, last, fun answer answered _ => ?_⟩
      obtain ⟨pattern, read⟩ := read_of_stays _ ((quoted request member).2 search)
      have shown := search_answer runtime request found search pattern read
        (show _ = _ by omega)
      refine ⟨pattern, read, (Except.ok.inj (shown.symm.trans answered)).symm.trans ?_⟩
      have same : rowsMeeting runtime found.tables .waypoint (.like "NAME".toList pattern) =
          rowsMeeting runtime (Function.update start.tables .waypoint
            (loaded runtime items stage (start.tables .waypoint))) .waypoint
            (.like "NAME".toList pattern) := by
        rw [rowsMeeting, rowsMeeting, there.rows, Function.update_self]
      rw [same]

theorem loop_follows (own : List Request) (within : ∀ request ∈ own, request ∈ requests)
    (count : Nat) (world : World) (least : bound ≤ world.failedCalls)
    (reached : world.failedCalls = bound → Reached runtime items start count world) :
    Script.Ends (Loads runtime items start)
      (Unspoiled World.failedCalls bound fun result _ => ∀ texts, result = .ok texts →
        ∃ answers, texts = answers.flatMap Option.toList ∧
          Follows runtime items start count own answers)
      (Steps.loop runtime own) world := by
  induction own generalizing count world with
  | nil =>
      intro later moved
      refine ⟨le_trans least moved.1, fun _ texts same => ⟨[], ?_, .nil count⟩⟩
      exact (Except.ok.inj same).symm
  | cons request own ih =>
      obtain ⟨member, within⟩ := List.forall_mem_cons.mp within
      have adds {Value : Type} (script : Steps Value) (makes : Makes Elsewhere script) :
          script.Always fun before after _ => before.failedCalls ≤ after.failedCalls :=
        Script.always_mono script (fun _ _ _ step => step.failed) makes
      have others := requests_elsewhere quoted _ (Steps.makes_loop runtime requests own within)
      have follow (written : Option Text) : Makes Elsewhere (do
          let rest ← Steps.loop runtime own
          return written.toList ++ rest) :=
        makes_bind _ _ others fun _ => Script.always_pure _ _
      have served := requests_elsewhere quoted _
        (Steps.makes_request runtime requests request member)
      refine valid_unspoiled_bind (fun _ _ moved => moved.1) loads_refl _ _ world
        (context_follows count world least reached)
        (fun _ => adds _ (makes_bind _ _ served follow))
        (fun _ world quiet here => ?_) fun _ _ _ _ _ same => by cases same
      refine valid_unspoiled_bind (fun _ _ moved => moved.1) loads_refl _ _ world
        (request_follows quoted request member count world quiet.ge fun _ => here)
        (fun written => adds _ (follow written))
        (fun written later quiet shown => ?_) fun _ _ _ _ _ same => by cases same
      obtain ⟨stage, most, there, lists⟩ := shown
      refine valid_unspoiled_bind (fun _ _ moved => moved.1) loads_refl _ _ later
        (ih within stage later quiet.ge fun _ => there) (fun _ => Script.always_pure _ _)
        (fun rest last still shown => ?_) fun _ _ _ _ _ same => by cases same
      intro final moved
      refine ⟨still.ge.trans moved.1, fun _ texts same => ?_⟩
      obtain ⟨answers, rfl, follows⟩ := shown rest rfl
      refine ⟨written :: answers, (Except.ok.inj same).symm, ?_⟩
      exact .cons count stage request own written answers most (lists written rfl) follows

end

variable (runtime items start) in
/-- What each thread relies on: the console on nobody else importing, a loop on the stages. -/
def ImportRely : Nat → World → World → Prop
  | 0, before, after => Steady before after
  | _ + 1, before, after => Loads runtime items start before after

variable (runtime items start) in
def ImportGuar : Nat → World → World → Steps (List Text) → Prop
  | 0, before, after, _ => Loads runtime items start before after
  | _ + 1, before, after, _ => Elsewhere before after

variable (runtime items start) in
def ImportDone (loops : List (List Request)) : Nat → Except Failure (List Text) → World → Prop
  | 0, result, later => (∃ texts, result = .ok texts) →
      importCalls later = importCalls start + items.length
  | index + 1, result, later => ∀ own, loops[index]? = some own →
      Unspoiled World.failedCalls start.failedCalls (fun result _ => ∀ texts, result = .ok texts →
        ∃ answers, texts = answers.flatMap Option.toList ∧
          Follows runtime items start 0 own answers) result later

theorem import_still (index : Nat) (world : World) :
    ImportRely runtime items start index world world := by
  cases index with
  | zero => exact steady_refl world
  | succ index => exact loads_refl world

theorem import_related (index : Nat) (first second third : World)
    (earlier : ImportRely runtime items start index first second)
    (later : ImportRely runtime items start index second third) :
    ImportRely runtime items start index first third := by
  cases index with
  | zero => exact steady_trans first second third earlier later
  | succ index => exact loads_trans first second third earlier later

theorem import_within (index : Nat) (before after : World) (rest : Steps (List Text))
    (step : ImportGuar runtime items start index before after rest) :
    Loads runtime items start before after := by
  cases index with
  | zero => exact step
  | succ index => exact loads_of_elsewhere before after step

theorem import_compatible (mover other : Nat) (before after : World) (rest : Steps (List Text))
    (differ : mover ≠ other) (step : ImportGuar runtime items start mover before after rest) :
    ImportRely runtime items start other before after := by
  cases other with
  | succ other => exact import_within mover before after rest step
  | zero =>
      cases mover with
      | zero => exact absurd rfl differ
      | succ mover => exact Elsewhere.counted step

end

def attended (runtime : Runtime) (given : List (Command × Option Text))
    (loops : List (List Request)) (world : World) : Pool World Failure (List Text) where
  state := world
  scripts := Steps.commands runtime given :: loops.map (Steps.loop runtime)

theorem attended_valid (runtime : Runtime) (dates : DatesArePlain runtime.newtonsoft)
    (given : List (Command × Option Text)) (loops : List (List Request)) (world : World)
    (quoted : ∀ request ∈ loops.flatten, StaysQuoted runtime request)
    (reads : ∀ each ∈ given, OnlyReads each.1)
    (importable : ∀ item ∈ itemsOf runtime given, Importable runtime item) :
    Pool.Valid (ImportRely runtime (itemsOf runtime given) world)
      (ImportGuar runtime (itemsOf runtime given) world)
      (ImportDone runtime (itemsOf runtime given) world loops)
      (attended runtime given loops world) := by
  intro index script there
  cases index with
  | zero =>
      obtain rfl : Steps.commands runtime given = script := Option.some.inj there
      exact commands_operate dates [] given world reads importable rfl
  | succ index =>
      have own : (loops.map (Steps.loop runtime))[index]? = some script := there
      rw [List.getElem?_map, Option.map_eq_some_iff] at own
      obtain ⟨requests, found, rfl⟩ := own
      have within (request : Request) (member : request ∈ requests) : request ∈ loops.flatten :=
        List.mem_flatten.mpr ⟨requests, List.mem_of_getElem? found, member⟩
      have follows := loop_follows quoted requests within 0 world le_rfl
        fun _ => ⟨0, le_rfl, (⟨rfl, rfl⟩ : Stage runtime (itemsOf runtime given) world 0 world)⟩
      refine valid_of_always _ world (requests_elsewhere quoted _
        (Steps.makes_loop runtime loops.flatten requests within)) ?_
      refine valid_mono _ world (fun _ _ _ step => step) (fun result later ended own same => ?_)
        follows
      obtain rfl := Option.some.inj (found.symm.trans same)
      exact ended

/-- While no call fails, the table of the waypoints is at any time where the import of some of
the items, one after another, leaves it, and with all of them once the console has ended; every
search is answered from one such stage, and a later search of a loop from no earlier one. -/
theorem searches_follow_import (runtime : Runtime) (dates : DatesArePlain runtime.newtonsoft)
    (given : List (Command × Option Text)) (loops : List (List Request)) (world : World)
    (schedule : List Nat) (quoted : ∀ request ∈ loops.flatten, StaysQuoted runtime request)
    (reads : ∀ each ∈ given, OnlyReads each.1)
    (importable : ∀ item ∈ itemsOf runtime given, Importable runtime item)
    (quiet : (Pool.run schedule (attended runtime given loops world)).state.failedCalls =
      world.failedCalls) :
    let after := Pool.run schedule (attended runtime given loops world)
    let items := itemsOf runtime given
    (∃ count, after.state.tables .waypoint =
      loaded runtime items count (world.tables .waypoint)) ∧
    ((∃ texts, after.scripts[0]? = some (.ended (.ok texts))) →
      after.state.tables .waypoint = Keyed.upsertAll firstKey (items.filterMap (itemWrite runtime))
        (world.tables .waypoint)) ∧
    ∀ index own texts, loops[index]? = some own →
      after.scripts[index + 1]? = some (.ended (.ok texts)) →
      ∃ answers, texts = answers.flatMap Option.toList ∧
        Follows runtime items world 0 own answers := by
  intro after items
  have valid := attended_valid runtime dates given loops world quoted reads importable
  have moved : Loads runtime items world world after.state :=
    Pool.run_steps import_still import_related import_compatible loads_refl loads_trans
      import_within schedule _ valid
  have ended (index : Nat) (result : Except Failure (List Text))
      (there : after.scripts[index]? = some (.ended result)) :
      ImportDone runtime items world loops index result after.state :=
    Pool.ended_after import_still import_related import_compatible schedule _ valid index result
      there
  obtain ⟨stage, -, there⟩ := moved.2 quiet 0 ⟨0, le_rfl, ⟨rfl, rfl⟩⟩
  refine ⟨⟨stage, there.rows⟩, fun done => ?_, fun index own texts found finished => ?_⟩
  · obtain ⟨texts, finished⟩ := done
    have counted : importCalls after.state = importCalls world + items.length :=
      ended 0 _ finished ⟨texts, rfl⟩
    obtain rfl : stage = items.length := by have counts := there.counted; omega
    rw [there.rows, loaded, List.take_length]
  · exact (ended (index + 1) _ finished own found).2 quiet texts rfl

/-- Two waypoints are searched for while they are imported. -/
theorem searches_follow_import_two :
    let file := datasetOf ["\"id\":1,\"name\":\"a\"", "\"id\":2,\"name\":\"b\""]
    let searches := [searchRequest "", searchRequest ""]
    let after := Pool.run [0, 1, 1, 1, 0, 1, 1, 1, 0]
      (attended .standard [(.syncWP, some file)] [searches] (.opened Tables.empty))
    ∃ texts, after.scripts[1]? = some (.ended (.ok texts)) ∧
      ∃ answers, texts = answers.flatMap Option.toList ∧
        Follows .standard (fileItems .standard (some file)) (.opened Tables.empty) 0 searches
          answers := by
  intro file searches after
  obtain ⟨texts, there⟩ := ended_well_at [0, 1, 1, 1, 0, 1, 1, 1, 0]
    (attended .standard [(.syncWP, some file)] [searches] (.opened Tables.empty)) 1 (by decide)
    (by decide +kernel)
  refine ⟨texts, there, ?_⟩
  have one : itemsOf .standard [(.syncWP, some file)] = fileItems .standard (some file) := rfl
  have items : fileItems .standard (some file) =
      [.obj [("id".toList, .number (.ofInt 1)), ("name".toList, .str ['a'])],
        .obj [("id".toList, .number (.ofInt 2)), ("name".toList, .str ['b'])]] := rfl
  have quoted : ∀ request ∈ [searches].flatten, StaysQuoted .standard request := by
    intro request member
    obtain rfl : request = searchRequest "" := by simpa [searches] using member
    exact silent_quoted _ rfl fun _ => by decide +kernel
  rw [← one]
  refine (searches_follow_import .standard (fun _ _ printed => by cases printed) _ [searches]
    (.opened Tables.empty) [0, 1, 1, 1, 0, 1, 1, 1, 0] quoted ?_ ?_
    (by decide +kernel)).2.2 0 searches texts
      rfl there
  · intro each member
    obtain rfl := List.mem_singleton.mp member
    trivial
  · rw [one, items]
    intro item member
    simp only [List.mem_cons, List.not_mem_nil, or_false] at member
    rcases member with rfl | rfl
    · exact fun _ _ => ⟨_, rfl, rfl, by unfold DatasetItem.Clean; decide⟩
    · exact fun _ _ => ⟨_, rfl, rfl, by unfold DatasetItem.Clean; decide⟩

end TfuServer
