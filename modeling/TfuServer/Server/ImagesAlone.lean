import TfuServer.Server.ImageRaces
import TfuServer.Server.Recommended
import TfuServer.Server.Unread

/-!
# A loop that has the images to itself

Nothing else writes what image requests and searches see, so a loop with these alone is served
beside the others as the server serves it when there are no others.
-/

namespace TfuServer

set_option autoImplicit false

open Program
open Script (alike_pure alike_lift alike_atomic alike_atomic_bind)
open Sql (Statement readStatement)
open Steps (Makes Sees sees_bind)

/-- The tables that are asked for images and searches. -/
def Seen (name : TableName) : Prop := name = .s3 ∨ name = .waypoint

structure SameImages (world other : World) : Prop where
  tables : ∀ name, Seen name → world.tables name = other.tables name
  manager : world.imageManager = other.imageManager
  httpListener : world.httpListener = other.httpListener
  listening : world.listening = other.listening

theorem same_images_equivalence : Equivalence SameImages where
  refl _ := ⟨fun _ _ => rfl, rfl, rfl, rfl⟩
  symm same :=
    ⟨fun name seen => (same.tables name seen).symm, same.manager.symm, same.httpListener.symm,
      same.listening.symm⟩
  trans one two :=
    ⟨fun name seen => (one.tables name seen).trans (two.tables name seen),
      one.manager.trans two.manager, one.httpListener.trans two.httpListener,
      one.listening.trans two.listening⟩

section
variable {runtime : Runtime} {text : Text} {statement : Statement} {name : TableName}
  (read : readStatement text = some statement) (found : findTable statement.table = some name)

section
include read found

/-- Unless its rows are shuffled, a statement is answered from its table alone. -/
theorem answer_local (ordered : ∀ table condition, statement ≠ .select table condition true)
    (call call' : Nat) (tables other : Tables) (same : tables name = other name) :
    (answer runtime call tables text).map (fun ran => (ran.1, ran.2 name)) =
      (answer runtime call' other text).map fun ran => (ran.1, ran.2 name) := by
  have executed := @Sql.execute_local runtime.settings schema name statement found tables other same
  have once (after : Option Tables) :
      (after.map fun tables => (([] : DataSet), tables)).map (fun ran => (ran.1, ran.2 name)) =
        (after.map fun tables => tables name).map fun rows => ([], rows) := by
    simp only [Option.map_map]
    rfl
  cases statement with
  | select table condition shuffled =>
      cases shuffled with
      | true => exact absurd rfl (ordered table condition)
      | false =>
          have queried (order : List Sql.DataRow → List Sql.DataRow) (database : Tables) :=
            @Sql.query_select runtime.settings schema database table name found order condition
          simp only [answer, read, queried, same]
          split
          · split_ifs
            · simp [same]
            · rfl
          · rfl
  | insert table values => simp only [answer, read, once, executed]
  | update table assignments condition =>
      simp only [answer, read, once, executed]

theorem answer_frame (call : Nat) (tables after : Tables) (data : DataSet)
    (answered : answer runtime call tables text = some (data, after)) (other : TableName)
    (differs : other ≠ name) : after other = tables other := by
  have executed (notSelect : ∀ table condition shuffled,
      statement ≠ .select table condition shuffled) : after other = tables other :=
    @Sql.execute_frame runtime.settings schema name statement found tables after
      (answer_execute runtime call tables after text statement data read notSelect answered) other
      differs
  cases statement with
  | select table condition shuffled =>
      rw [answer_reads runtime call tables after text table condition shuffled data read answered]
  | insert table values => exact executed (by simp)
  | update table assignments condition => exact executed (by simp)

end

section
variable (works : ∀ call, runtime.outcome call = .works)
include works

theorem exec_select_works (query : Text) (world : World) :
    exec (DBManager.select runtime query) world =
      (.ok (((answer runtime world.log.length world.tables query).map Prod.fst).getD []),
        callEnded (.select query) (answer runtime world.log.length world.tables query) world) := by
  unfold DBManager.select
  simp only [exec_bind, exec_get, works, exec_modify]
  cases answer runtime world.log.length world.tables query <;> rfl

theorem exec_execute_works (query : Text) (world : World) :
    exec (DBManager.executeQuery runtime query) world =
      (.ok (), callEnded (.executeQuery query)
        (answer runtime world.log.length world.tables query) world) := by
  unfold DBManager.executeQuery
  simp only [exec_bind, exec_get, works, exec_modify]

end

section
variable (seen : Seen name) (ordered : ∀ table condition, statement ≠ .select table condition true)
include read found seen ordered

theorem same_answered (call : Call) (world other : World) (same : SameImages world other) :
    let one := answer runtime world.log.length world.tables text
    let two := answer runtime other.log.length other.tables text
    one.map Prod.fst = two.map Prod.fst ∧
      SameImages (callEnded call one world) (callEnded call two other) := by
  intro one two
  have both : one.map (fun ran => (ran.1, ran.2 name)) = two.map fun ran => (ran.1, ran.2 name) :=
    answer_local read found ordered _ _ _ _ (same.tables name seen)
  have frame (call : Nat) (tables after : Tables) (data : DataSet)
      (answered : answer runtime call tables text = some (data, after)) (here : TableName)
      (differs : here ≠ name) : after here = tables here :=
    answer_frame read found call tables after data answered here differs
  cases first : one with
  | none =>
      cases second : two with
      | none => exact ⟨rfl, same.tables, same.manager, same.httpListener, same.listening⟩
      | some pair => rw [first, second] at both; cases both
  | some pair =>
      cases second : two with
      | none => rw [first, second] at both; cases both
      | some pair' =>
          obtain ⟨data, after⟩ := pair
          obtain ⟨data', after'⟩ := pair'
          rw [first, second, Option.map_some, Option.map_some, Option.some.injEq,
            Prod.mk.injEq] at both
          refine ⟨congrArg some both.1, fun here visible => ?_, same.manager, same.httpListener,
            same.listening⟩
          change after here = after' here
          by_cases own : here = name
          · rw [own]
            exact both.2
          · rw [frame _ _ _ _ first here own, frame _ _ _ _ second here own]
            exact same.tables here visible

variable (works : ∀ call, runtime.outcome call = .works)
include works

theorem sees_select : Sees SameImages (Steps.select runtime text) := by
  refine alike_atomic _ fun world other same => ?_
  obtain ⟨data, after⟩ :=
    same_answered read found seen ordered (.select text) world other same
  rw [exec_select_works works, exec_select_works works]
  refine ⟨after, ?_⟩
  change Except.ok _ = Except.ok _
  rw [data]

theorem sees_execute : Sees SameImages (Steps.executeQuery runtime text) := by
  refine alike_atomic _ fun world other same => ?_
  rw [exec_execute_works works, exec_execute_works works]
  exact ⟨(same_answered read found seen ordered (.executeQuery text) world other same).2, rfl⟩

end

end

section
variable {runtime : Runtime} (works : ∀ call, runtime.outcome call = .works)
include works

theorem sees_image_select (query : Text) (sent : ImageCall (fun _ => True) (.select query)) :
    Sees SameImages (Steps.select runtime query) := by
  have seen : Seen .s3 := Or.inl rfl
  cases sent with
  | used => exact sees_select ImageManager.read_used_query rfl seen (by simp) works
  | free => exact sees_select ImageManager.read_free_query rfl seen (by simp) works
  | row id => exact sees_select (ImageManager.read_row_query id) rfl seen (by simp) works

theorem sees_image_execute (text : Text)
    (sent : ImageCall (fun _ => True) (.executeQuery text)) :
    Sees SameImages (Steps.executeQuery runtime text) := by
  have seen : Seen .s3 := Or.inl rfl
  cases sent with
  | update id mine => exact sees_execute (ImageManager.read_update_text id) rfl seen (by simp) works
  | insert id mine => exact sees_execute (ImageManager.read_insert_text id) rfl seen (by simp) works

omit works in
theorem sees_alter (change : World → World) (only : ∀ world, MemoryOnly world (change world))
    (managers : ∀ world other, world.imageManager = other.imageManager →
      (change world).imageManager = (change other).imageManager) :
    Sees SameImages (Steps.alter change) :=
  alike_atomic _ fun world other same => ⟨⟨fun name seen => by
      change (change world).tables name = (change other).tables name
      rw [(only world).tables, (only other).tables, same.tables name seen],
    managers world other same.manager, by
      change (change world).httpListener = (change other).httpListener
      rw [(only world).httpListener, (only other).httpListener, same.httpListener], by
      change (change world).listening = (change other).listening
      rw [(only world).listening, (only other).listening, same.listening]⟩, rfl⟩

omit works in
theorem sees_enter_image (number : Nat) (id : Int32) :
    Sees SameImages (Steps.alter (ImageManager.enterAt number id)) := by
  refine sees_alter _ (enter_image_only number id) fun world other same => ?_
  unfold ImageManager.enterAt
  rw [same]
  split_ifs
  · change world.imageManager.map _ = other.imageManager.map _
    rw [same]
  · exact same

theorem sees_image_instance : Sees SameImages (Steps.imageInstance runtime) := by
  have current : Sees SameImages (do
      let world ← Steps.look
      return Manager.current world.imageManager) :=
    alike_atomic_bind _ _ fun world other same => ⟨world, other, world, other, rfl, rfl, same, by
      rw [same.manager]
      exact alike_pure _⟩
  refine alike_atomic_bind _ _ fun world other same =>
    ⟨world, other, world, other, rfl, rfl, same, ?_⟩
  rw [same.manager]
  cases other.imageManager with
  | some manager => exact current
  | none =>
      refine sees_bind _ _ (sees_bind _ _ (sees_image_select works _ .used) fun _ => alike_lift _)
        fun dictionary => sees_bind _ _ ?_ fun _ => current
      exact sees_alter _ (fun _ => ⟨rfl, rfl, rfl, rfl, rfl, rfl⟩) fun world other same => by
        change some (Manager.build world.imageManager _) = some (Manager.build other.imageManager _)
        rw [same]

theorem sees_images : Sees SameImages (Steps.imageKey runtime) :=
  Steps.sees_image_key runtime (sees_image_select works) (sees_image_execute works)
    sees_enter_image (sees_image_instance works)

/-- A request that neither asks for recommendations nor carries a record. -/
def OnlyImages (runtime : Runtime) (request : Request) : Prop :=
  isRecommend runtime request = false ∧ carried runtime request = none

theorem sees_client_get (request : Request) (get : request.method = "GET".toList)
    (quoted : StaysQuoted runtime request) (other : isRecommend runtime request = false) :
    Sees SameImages (Steps.clientGet runtime request) := by
  have asked : (request.method == "GET".toList) = true := by rw [get, beq_self_eq_true]
  unfold Steps.clientGet
  simp only
  split_ifs with image recommended searched
  · exact sees_bind _ _ (sees_images works) fun _ => alike_pure _
  · rw [isRecommend, asked, recommended] at other
    exact absurd other (by simp)
  · have search : isSearch runtime request = true := by
      rw [isSearch, asked, searched]
      rfl
    obtain ⟨pattern, read⟩ := read_of_stays _ (quoted.2 search)
    exact sees_bind _ _ (Steps.sees_waypoints runtime request.keyword
      (sees_select read rfl (Or.inr rfl) (by simp) works)) fun _ => alike_pure _
  · exact alike_pure _

theorem sees_client_post (request : Request) (post : request.method = "POST".toList)
    (none : carried runtime request = none) :
    Sees SameImages (Steps.clientPost runtime request) := by
  have never (upload : Upload) : uploadOf runtime request ≠ .ok (some upload) :=
    fun read => by
    rw [(carried_iff runtime request upload).mpr read] at none
    cases none
  unfold Steps.clientPost
  simp only
  split_ifs with users schedule shared upload
  · cases decoded : readClient runtime.newtonsoft (Server.parseBody runtime request.body) with
    | error failure => exact alike_lift _
    | ok clt =>
        exact absurd (by simp [uploadOf, post, users, decoded, Except.map]) (never (.user clt))
  · cases decoded : readSchedule runtime.newtonsoft (Server.parseBody runtime request.body) with
    | error failure => exact alike_lift _
    | ok sch =>
        exact absurd (by simp [uploadOf, post, users, schedule, decoded, Except.map])
          (never (.schedule sch))
  · cases decoded :
        readSharedSchedule runtime.newtonsoft (Server.parseBody runtime request.body) with
    | error failure => exact alike_pure _
    | ok sch =>
        exact absurd (by simp [uploadOf, post, users, schedule, shared, decoded, Except.map])
          (never (.shared sch))
  · refine sees_bind _ _ (alike_lift _) fun found => ?_
    cases found with
    | none => exact alike_pure _
    | some id =>
        exact sees_bind _ _ (sees_image_instance works) fun number =>
          sees_bind _ _ (alike_lift _) fun id => Steps.sees_image_added runtime
            (sees_image_select works) (sees_image_execute works) sees_enter_image number id
  · exact alike_pure _

theorem sees_loop (own : List Request) (quoted : ∀ request ∈ own, StaysQuoted runtime request)
    (mine : ∀ request ∈ own, OnlyImages runtime request) :
    Sees SameImages (Steps.loop runtime own) := by
  induction own with
  | nil => exact alike_pure _
  | cons request own ih =>
      rw [List.forall_mem_cons] at quoted mine
      have received : Sees SameImages (Steps.dataReceived runtime request) := by
        unfold Steps.dataReceived
        split_ifs with get post
        · exact sees_bind _ _ (sees_client_get works request get quoted.1 mine.1.1) fun _ =>
            alike_pure _
        · exact sees_bind _ _ (sees_client_post works request post mine.1.2) fun _ => alike_pure _
        · exact alike_pure _
      refine sees_bind _ _ (Steps.sees_get_context (fun _ _ same => same.httpListener)
        fun _ _ same => same.listening) fun _ => ?_
      refine sees_bind _ _ received fun written => ?_
      exact sees_bind _ _ (ih quoted.2 mine.2) fun rest => alike_pure _

end

/-- Loops without image requests leave what is seen as it is. -/
theorem requests_step_same {runtime : Runtime} {requests : List Request}
    (quoted : ∀ request ∈ requests, StaysQuoted runtime request)
    (others : ∀ request ∈ requests, isImageRequest runtime request = false) (before after : World)
    (step : ServerStep runtime (Permits.requests runtime requests) before after) :
    SameImages before after := by
  have never : ¬(Permits.requests runtime requests).images := by
    rintro ⟨request, member, about⟩
    rw [others request member] at about
    cases about
  have tables := requests_step_tables quoted before after step
  obtain ⟨rows, manager⟩ := server_step_images never others before after tables step
  have kept := server_step_listener id before after step
  refine ⟨fun name seen => ?_, manager.symm, kept.httpListener.symm, kept.listening.symm⟩
  rcases seen with rfl | rfl
  · exact rows.symm
  · exact (table_step_grown _ _ tables).waypoint.symm

/-- A loop whose requests are about images and searches only, while no other loop is about
images, the listener stays open and no call fails: whatever the order of turns, it ends as when
the server serves its requests and no others, with the same answers, images and dictionary of
images. -/
theorem images_served_as_alone (runtime : Runtime) (works : ∀ call, runtime.outcome call = .works)
    (loops : List (List Request)) (world : World) (schedule : List Nat)
    (listening : world.listening = true) (serving : world.serving = true)
    (quoted : ∀ request ∈ loops.flatten, StaysQuoted runtime request) (index : Nat)
    (own : List Request) (loop : loops[index]? = some own)
    (mine : ∀ request ∈ own, OnlyImages runtime request)
    (others : ∀ other requests, other ≠ index → loops[other]? = some requests →
      ∀ request ∈ requests, isImageRequest runtime request = false)
    (result : Except Failure (List Text))
    (ended : (Pool.run schedule (process runtime [] loops world)).scripts[index + 1]? =
      some (.ended result)) :
    let after := (Pool.run schedule (process runtime [] loops world)).state
    let served := Server.serve runtime own world
    after.tables .s3 = served.tables .s3 ∧ after.imageDictionary = served.imageDictionary ∧
    (served.serving = true → result = .ok (Server.responses runtime own world)) ∧
    (served.serving = false → ∃ failure, result = .error failure) := by
  have there : (process runtime [] loops world).scripts[index + 1]? =
      some (Steps.loop runtime own) := by simp [process, loop]
  have within (other : Nat) (requests : List Request) (found : loops[other]? = some requests)
      (request : Request) (member : request ∈ requests) : StaysQuoted runtime request :=
    quoted request (List.mem_flatten.mpr ⟨requests, List.mem_of_getElem? found, member⟩)
  have aside (other : Nat) (script : Steps (List Text)) (differs : other ≠ index + 1)
      (found : (process runtime [] loops world).scripts[other]? = some script) :
      Makes SameImages script := by
    cases other with
    | zero =>
        obtain rfl : Steps.console runtime [] = script := Option.some.inj found
        exact Script.always_pure _ _
    | succ other =>
        have here : (loops.map (Steps.loop runtime))[other]? = some script := found
        rw [List.getElem?_map, Option.map_eq_some_iff] at here
        obtain ⟨requests, which, rfl⟩ := here
        exact Script.always_mono _ (fun before after _ step =>
          requests_step_same (within other requests which) (others other requests (by omega) which)
            before after step)
          (Steps.makes_loop runtime requests requests fun _ member => member)
  obtain ⟨same, state⟩ := Pool.ended_as_alone same_images_equivalence schedule _ (index + 1)
    (Steps.loop runtime own) there (sees_loop works own (within index own loop) mine) aside result
    ended
  obtain ⟨goes, answers, fails⟩ := Steps.loop_alone runtime own world listening serving
  have last : (process runtime [] loops world).state = world := rfl
  rw [last] at same state
  rw [goes] at state
  refine ⟨state.tables .s3 (Or.inl rfl), congrArg (Option.map Manager.dictionary) state.manager,
    fun serves => ?_, fun fell => ?_⟩
  · rw [same, answers serves]
  · rw [same]
    exact fails fell

/-- A user is posted while two keys are asked for. -/
theorem images_served_as_alone_keys :
    (Pool.run (inStep 30) (process .standard [] [[postUser "1" "A"], [keyRequest, keyRequest]]
      (.opened Tables.empty))).scripts[2]? =
        some (.ended (.ok [Server.keyResponse 0, Server.keyResponse 1])) := by
  have quoted : ∀ request ∈ [[postUser "1" "A"], [keyRequest, keyRequest]].flatten,
      StaysQuoted .standard request := by
    intro request member
    simp only [List.flatten_cons, List.flatten_nil, List.append_nil, List.cons_append,
      List.nil_append, List.mem_cons, List.not_mem_nil, or_false, or_self] at member
    rcases member with rfl | rfl
    · exact quoted_of_meant _ (.user ⟨1, ['A'], []⟩) _ rfl rfl rfl
    · exact ⟨fun upload present => (by cases present), fun search => (by cases search)⟩
  obtain ⟨texts, ended⟩ := ended_well_at (inStep 30)
    (process .standard [] [[postUser "1" "A"], [keyRequest, keyRequest]] (.opened Tables.empty)) 2
    (by decide) (by decide +kernel)
  have served := (images_served_as_alone .standard (fun _ => rfl)
    [[postUser "1" "A"], [keyRequest, keyRequest]] (.opened Tables.empty) (inStep 30) rfl rfl quoted
    1 [keyRequest, keyRequest] rfl (fun request member => ?_)
    (fun other requests differs there => ?_) (.ok texts) ended).2.2.1 (by decide +kernel)
  · have answers : Server.responses .standard [keyRequest, keyRequest] (.opened Tables.empty) =
        [Server.keyResponse 0, Server.keyResponse 1] := by decide +kernel
    rw [ended, served, answers]
  · obtain rfl : request = keyRequest := by simpa using member
    exact ⟨rfl, rfl⟩
  · cases other with
    | zero =>
        obtain rfl := Option.some.inj there
        intro request member
        obtain rfl := List.mem_singleton.mp member
        rfl
    | succ other =>
        cases other with
        | zero => exact absurd rfl differs
        | succ other => cases there

end TfuServer
