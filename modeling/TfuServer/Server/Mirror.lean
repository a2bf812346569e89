import TfuServer.Server.Reload

/-!
# The schedule dictionary while the server listens

Opening the listener loads the table into the dictionary, posting a schedule
writes both. Whatever the console and the clients do, the two agree while the
listener is open, as long as no position of a waypoint is an infinity or not a
number.
-/

namespace TfuServer

set_option autoImplicit false

open Numeral Program
open Sql (Row firstKey)

inductive Event where
  | start | stop
  | post (request : Request)

section
variable (runtime : Runtime)

def Event.perform (event : Event) (world : World) : World :=
  match event with
  | .start => (exec (Server.start runtime) world).2
  | .stop => (exec Server.stopServer world).2
  | .post request => Server.handle runtime request world

def performAll : List Event → World → World
  | [], world => world
  | event :: events, world => performAll events (event.perform runtime world)

theorem exec_start_listening (world : World) (listening : world.listening = true) :
    exec (Server.start runtime) world = (.ok (), world) := by
  simp [Server.start, Server.serverInit, Server.startServer, exec_bind, listening]

theorem exec_start_closed (world : World) (closed : world.listening = false) :
    exec (Server.start runtime) world =
      match exec (ScheduleManager.syncDBToDictionary runtime) (Server.makeListener world) with
      | (.ok _, after) => exec Server.startServer after
      | (.error failure, after) => (.error failure, after) := by
  simp only [Server.start, Server.serverInit, exec_bind, exec_get, closed, Bool.false_eq_true,
    if_false, exec_modify]
  generalize exec (ScheduleManager.syncDBToDictionary runtime) (Server.makeListener world) = ran
  obtain ⟨result, after⟩ := ran
  cases result <;> rfl

theorem start_grows (world : World) :
    world.failedCalls ≤ (exec (Server.start runtime) world).2.failedCalls := by
  cases listening : world.listening with
  | true => rw [exec_start_listening runtime world listening]
  | false =>
      have synced := stable_sync (failures_stay world.failedCalls) runtime
        (Server.makeListener world) (Nat.le_refl _)
      rw [exec_start_closed runtime world listening]
      generalize exec (ScheduleManager.syncDBToDictionary runtime) (Server.makeListener world) =
        ran at synced ⊢
      obtain ⟨result, after⟩ := ran
      cases result with
      | error failure => exact synced
      | ok value =>
          simp only [Server.startServer, exec_modify]
          split_ifs <;> exact synced

theorem perform_grows (event : Event) (world : World) :
    world.failedCalls ≤ (event.perform runtime world).failedCalls := by
  cases event with
  | start => exact start_grows runtime world
  | stop =>
      simp only [Event.perform, Server.stopServer, exec_modify]
      split_ifs <;> exact Nat.le_refl _
  | post request => exact handle_grows runtime request world

theorem perform_all_grows (events : List Event) (world : World) :
    world.failedCalls ≤ (performAll runtime events world).failedCalls := by
  induction events generalizing world with
  | nil => exact Nat.le_refl _
  | cons event events ih => exact Nat.le_trans (perform_grows runtime event world) (ih _)

def isScheduleRequest (runtime : Runtime) (request : Request) : Bool :=
  request.method == "POST".toList && startsWith runtime request.rawUrl "/schedule"

/-- Its start date is a date, and none of its strings has an apostrophe or a backslash. -/
def OrdinarySchedule (sch : Schedule) : Prop :=
  (∃ date, Sql.readIsoDate sch.startDate = some date) ∧
    ∀ text ∈ sch.name :: sch.destination :: sch.startDate ::
      sch.waypoints.flatMap Waypoint.texts, '\'' ∉ text ∧ '\\' ∉ text

def OrdinaryPost (event : Event) : Prop :=
  ∀ request, event = .post request → isScheduleRequest runtime request = true ∧
    ∀ sch, carried runtime request = some (.schedule sch) → OrdinarySchedule sch

def FinitePost (event : Event) : Prop :=
  ∀ request, event = .post request → FiniteRequest runtime request

theorem carried_schedule (request : Request) (upload : Upload)
    (schedule : isScheduleRequest runtime request = true)
    (present : carried runtime request = some upload) :
    ∃ sch, upload = .schedule sch := by
  obtain ⟨method, route⟩ := Bool.and_eq_true_iff.mp schedule
  have post : request.method = "POST".toList := eq_of_beq method
  have users := starts_with_one route "/users" (by decide)
  simp only [carried_iff, uploadOf, if_neg (not_not.mpr post), users, route, Bool.false_eq_true,
     if_false, if_true] at present
  cases decoded : readSchedule runtime.newtonsoft (Server.parseBody runtime request.body) with
  | error failure => simp [decoded, Except.map] at present
  | ok sch =>
      simp only [decoded, Except.map, Except.ok.injEq, Option.some.injEq] at present
      exact ⟨sch, present.symm⟩

/-- The keys of the dictionary are the ids of the table, and every entry is its row. -/
def SchedulesMirrored (world : World) : Prop :=
  (∀ id, (world.scheduleDic id).isSome = true ↔
    ∃ row ∈ world.tables .schedule, firstKey row = some id.toInt) ∧
  ∀ id sch, world.scheduleDic id = some sch → ∀ row ∈ world.tables .schedule,
    firstKey row = some id.toInt → HoldsSchedule sch row.cells

/-- One row for each id, and each of them can be loaded. -/
structure Loadable (world : World) : Prop where
  unique : Keyed.Unique firstKey (world.tables .schedule)
  loads : ∀ row ∈ world.tables .schedule,
    ∃ sch, scheduleOfRow runtime.newtonsoft row.dataRow = .ok sch

structure Consistent (world : World) : Prop where
  loadable : Loadable runtime world
  mirrored : world.listening = true → SchedulesMirrored world

theorem unique_row {columns : List Sql.Column} {rows : List (Row columns)} {k : Int}
    {left right : Row columns}
    (unique : Keyed.Unique firstKey rows) (leftMember : left ∈ rows) (rightMember : right ∈ rows)
    (leftKey : firstKey left = some k) (rightKey : firstKey right = some k) : left = right := by
  have first := Keyed.lookup_of_mem firstKey rows k left unique leftMember leftKey
  have second := Keyed.lookup_of_mem firstKey rows k right unique rightMember rightKey
  exact Option.some.inj (first.symm.trans second)

theorem start_consistent (world : World) (consistent : Consistent runtime world)
    (quiet : (exec (Server.start runtime) world).2.failedCalls = world.failedCalls) :
    Consistent runtime (exec (Server.start runtime) world).2 := by
  cases listening : world.listening with
  | true => rwa [exec_start_listening runtime world listening]
  | false =>
      obtain ⟨⟨unique, loads⟩, -⟩ := consistent
      rw [exec_start_closed runtime world listening] at quiet ⊢
      have synced :
          NoFailure (ScheduleManager.syncDBToDictionary runtime) (Server.makeListener world) := by
        unfold NoFailure Quiet
        generalize exec (ScheduleManager.syncDBToDictionary runtime) (Server.makeListener world) =
          ran at quiet ⊢
        obtain ⟨result, after⟩ := ran
        cases result with
        | error failure => exact quiet
        | ok value =>
            simp only [Server.startServer, exec_modify] at quiet
            split_ifs at quiet <;> exact quiet
      obtain ⟨dictionary, calls, final, entries, complete⟩ := exec_sync runtime _ synced
      obtain ⟨done, entered⟩ := complete loads
      have ran : exec (ScheduleManager.syncDBToDictionary runtime) (Server.makeListener world) =
          (.ok (), World.logs calls { Server.makeListener world with scheduleDic := dictionary }) :=
        Prod.ext done final
      rw [ran]
      simp only [Server.startServer, exec_modify]
      have closed : (World.logs calls
          { Server.makeListener world with scheduleDic := dictionary }).listening = false :=
        listening
      rw [closed, if_neg Bool.false_ne_true]
      refine ⟨⟨unique, loads⟩, fun _ => ⟨fun id => ⟨fun there => ?_, ?_⟩, ?_⟩⟩
      · obtain ⟨sch, found⟩ := Option.isSome_iff_exists.mp there
        obtain ⟨row, member, from_row, rfl⟩ := entries id sch found
        exact ⟨row, member, holds_schedule_key sch row (loaded_holds _ row sch from_row)⟩
      · rintro ⟨row, member, has⟩
        obtain ⟨sch, from_row⟩ := loads row member
        have own := holds_schedule_key sch row (loaded_holds _ row sch from_row)
        have same : sch.id = id := Int32.toInt_inj.mp (Option.some.inj (own.symm.trans has))
        exact same ▸ entered row member sch from_row
      · intro id sch found row member has
        obtain ⟨other, within, from_row, rfl⟩ := entries id sch found
        have holds := loaded_holds _ other sch from_row
        obtain rfl := unique_row unique within member (holds_schedule_key sch other holds) has
        exact holds

theorem stop_consistent (world : World) (consistent : Consistent runtime world) :
    Consistent runtime (exec Server.stopServer world).2 := by
  simp only [Server.stopServer, exec_modify]
  split_ifs with listening
  · exact ⟨⟨consistent.loadable.unique, consistent.loadable.loads⟩, fun open_ => by cases open_⟩
  · exact consistent

theorem ordinary_holds (sch : Schedule) (ordinary : OrdinarySchedule sch) (document : Text)
    (row : Row (schema.columns .schedule))
    (cells : (Upload.schedule sch).cells runtime.settings document = some row.cells) :
    HoldsSchedule sch row.cells := by
  obtain ⟨⟨date, read⟩, -⟩ := ordinary
  have stored : Sql.readDate runtime.settings sch.startDate = some date := by
    rw [Sql.readDate, read]
  simp only [Upload.cells, stored, Option.map_some, Option.some.injEq] at cells
  exact ⟨date, document, cells.symm, Sql.format_read sch.startDate date read⟩

theorem ordinary_loads (sch : Schedule) (ordinary : OrdinarySchedule sch) (branch : Branch)
    (document : Text) (row : Row (schema.columns .schedule))
    (stored : (Upload.schedule sch).stored runtime branch = .ok document)
    (cells : (Upload.schedule sch).cells runtime.settings document = some row.cells) :
    ∃ loaded, scheduleOfRow runtime.newtonsoft row.dataRow = .ok loaded := by
  obtain ⟨encoder, date, -, loaded⟩ :=
    load_stored runtime sch sch branch document row stored cells
  have readable : ∀ text ∈ sch.waypoints.flatMap Waypoint.texts,
      (storedRead encoder text).isSome = true := by
    intro text within
    have slashless := (ordinary.2 text (by simp [within])).2
    rw [storedRead, Json.read_stored_slashless encoder text slashless]
    rfl
  rw [if_pos readable] at loaded
  exact ⟨_, loaded⟩

theorem record_consistent (request : Request) (world after : World)
    (schedule : isScheduleRequest runtime request = true)
    (ordinary : ∀ sch, carried runtime request = some (.schedule sch) → OrdinarySchedule sch)
    (step : RecordStep runtime request world after) (consistent : Consistent runtime world) :
    Consistent runtime after := by
  have unique := step_unique step .schedule consistent.loadable.unique
  cases step with
  | ignored absent same => rwa [same]
  | stored upload branch document row calls present kept cells same =>
      obtain ⟨sch, rfl⟩ := carried_schedule runtime request upload schedule present
      have ordinarySch := ordinary sch present
      have holds := ordinary_holds runtime sch ordinarySch document row cells
      have has : firstKey row = some sch.id.toInt := holds_schedule_key sch row holds
      have inTable (other : Row (schema.columns .schedule)) : other ∈ after.tables .schedule ↔
          other = row ∨ other ∈ world.tables .schedule ∧ firstKey other ≠ some sch.id.toInt := by
        rw [same]
        exact mem_stored_iff (.schedule sch) row calls has other
      have dictionary : after.scheduleDic = world.scheduleDic.set sch.id sch := by rw [same]; rfl
      have listening : after.listening = world.listening := by rw [same]; rfl
      refine ⟨⟨unique, fun other member => ?_⟩, fun open_ => ?_⟩
      · rcases (inTable other).mp member with rfl | ⟨within, -⟩
        · exact ordinary_loads runtime sch ordinarySch branch document other kept cells
        · exact consistent.loadable.loads other within
      obtain ⟨keys, entries⟩ := consistent.mirrored (listening ▸ open_)
      rw [SchedulesMirrored, dictionary]
      constructor
      · intro id
        by_cases own : id = sch.id
        · subst own
          simp only [Dictionary.set, Function.update_self, Option.isSome_some, true_iff]
          exact ⟨row, (inTable row).mpr (Or.inl rfl), has⟩
        · rw [Dictionary.set, Function.update_of_ne own, keys id]
          have other : some sch.id.toInt ≠ some id.toInt := fun equal =>
            own (Int32.toInt_inj.mp (Option.some.inj equal)).symm
          constructor
          · rintro ⟨old, within, key⟩
            exact ⟨old, (inTable old).mpr (Or.inr ⟨within, by rw [key]; exact other.symm⟩), key⟩
          · rintro ⟨old, member, key⟩
            rcases (inTable old).mp member with rfl | ⟨within, -⟩
            · exact absurd (has.symm.trans key) other
            · exact ⟨old, within, key⟩
      · intro id entry found old member key
        by_cases own : id = sch.id
        · subst own
          obtain rfl : sch = entry := by simpa [Dictionary.set] using found
          rcases (inTable old).mp member with rfl | ⟨-, elsewhere⟩
          · exact holds
          · exact absurd key elsewhere
        · rw [Dictionary.set, Function.update_of_ne own] at found
          rcases (inTable old).mp member with rfl | ⟨within, -⟩
          · exact absurd (Int32.toInt_inj.mp (Option.some.inj (key.symm.trans has))) own
          · exact entries id entry found old within key

theorem schedule_plain (request : Request) (schedule : isScheduleRequest runtime request = true)
    (ordinary : ∀ sch, carried runtime request = some (.schedule sch) → OrdinarySchedule sch) :
    PlainRequest runtime request := by
  intro upload present field member
  obtain ⟨sch, rfl⟩ := carried_schedule runtime request upload schedule present
  refine (ordinary sch present).2 field ?_
  simp only [Upload.plainFields, List.mem_cons, List.not_mem_nil, or_false] at member
  rcases member with rfl | rfl | rfl <;> simp

theorem post_consistent (request : Request) (world : World)
    (ordinary : OrdinaryPost runtime (.post request)) (finite : FinitePost runtime (.post request))
    (quiet : (Server.handle runtime request world).failedCalls = world.failedCalls)
    (consistent : Consistent runtime world) :
    Consistent runtime (Server.handle runtime request world) := by
  obtain ⟨schedule, strings⟩ := ordinary request rfl
  rcases handle_cases runtime request world with ⟨⟨serving, handled⟩, -⟩ | ⟨handled, -⟩
  · rw [handled] at quiet ⊢
    have record : isRecordRequest runtime request = true := by
      obtain ⟨method, route⟩ := Bool.and_eq_true_iff.mp schedule
      simp only [isRecordRequest, method, route, Bool.or_true, Bool.true_or, Bool.and_self]
    have step := record_step runtime request world record
      (schedule_plain runtime request schedule strings) (finite request rfl) quiet
    have kept := record_consistent runtime request world _ schedule strings step consistent
    exact ⟨⟨kept.loadable.unique, kept.loadable.loads⟩, kept.mirrored⟩
  · rwa [handled]

theorem perform_consistent (event : Event) (world : World) (ordinary : OrdinaryPost runtime event)
    (finite : FinitePost runtime event)
    (quiet : (event.perform runtime world).failedCalls = world.failedCalls)
    (consistent : Consistent runtime world) : Consistent runtime (event.perform runtime world) := by
  cases event with
  | start => exact start_consistent runtime world consistent quiet
  | stop => exact stop_consistent runtime world consistent
  | post request => exact post_consistent runtime request world ordinary finite quiet consistent

theorem perform_all_consistent (events : List Event) (world : World)
    (ordinary : ∀ event ∈ events, OrdinaryPost runtime event)
    (finite : ∀ event ∈ events, FinitePost runtime event)
    (quiet : (performAll runtime events world).failedCalls = world.failedCalls)
    (consistent : Consistent runtime world) :
    Consistent runtime (performAll runtime events world) := by
  induction events generalizing world with
  | nil => exact consistent
  | cons event events ih =>
      rw [List.forall_mem_cons] at ordinary finite
      have first := perform_grows runtime event world
      have rest := perform_all_grows runtime events (event.perform runtime world)
      simp only [performAll] at quiet ⊢
      apply ih _ ordinary.2 finite.2 (by omega)
      exact perform_consistent runtime event world ordinary.1 finite.1 (by omega) consistent

end

/-- While the positions of posted waypoints are finite, whatever order the console commands
and the posted schedules come in: when the server listens, the dictionary has the ids of
the table, and every entry the fields of its row. -/
theorem schedules_mirrored (runtime : Runtime) (events : List Event) (world : World)
    (closed : world.listening = false) (loadable : Loadable runtime world)
    (ordinary : ∀ event ∈ events, OrdinaryPost runtime event)
    (finite : ∀ event ∈ events, FinitePost runtime event)
    (quiet : (performAll runtime events world).failedCalls = world.failedCalls)
    (listening : (performAll runtime events world).listening = true) :
    SchedulesMirrored (performAll runtime events world) := by
  have start : Consistent runtime world :=
    ⟨loadable, fun open_ => absurd (closed.symm.trans open_) Bool.false_ne_true⟩
  exact (perform_all_consistent runtime events world ordinary finite quiet start).mirrored listening

def postSchedule (waypoints : String) : Event :=
  .post (scheduleRequest ("\x7b\"id\":1,\"startDate\":\"2024-01-01\",\"wayPointList\":[" ++
    waypoints ++ "]\x7d"))

theorem schedules_mirrored_run :
    SchedulesMirrored (performAll .standard [.start, postSchedule "", .stop, .start]
      (.fresh Tables.empty)) := by
  have decoded : carried .standard (scheduleRequest
      "\x7b\"id\":1,\"startDate\":\"2024-01-01\",\"wayPointList\":[]\x7d") =
      some (.schedule ⟨1, [], "0".toList, 0, "2024-01-01".toList, [], 0, false⟩) := by
    decide +kernel
  refine schedules_mirrored .standard [.start, postSchedule "", .stop, .start]
    (.fresh Tables.empty) rfl ⟨Keyed.unique_nil firstKey, fun row member => by cases member⟩
    ?_ ?_ (by decide +kernel) (by decide +kernel)
  · intro event member request same
    simp only [List.mem_cons, List.not_mem_nil, or_false] at member
    rcases member with rfl | rfl | rfl | rfl
    · cases same
    · cases same
      refine ⟨rfl, fun sch present => ?_⟩
      cases decoded.symm.trans present
      exact ⟨⟨⟨2024, 1, 1⟩, rfl⟩, by decide⟩
    · cases same
    · cases same
  · intro event member request same
    simp only [List.mem_cons, List.not_mem_nil, or_false] at member
    rcases member with rfl | rfl | rfl | rfl
    · cases same
    · cases same
      intro upload present
      cases decoded.symm.trans present
      rfl
    · cases same
    · cases same

/-- A schedule whose position cannot be written stays in memory without a row, and it is
still there after the command `start`. -/
theorem infinite_position_not_mirrored :
    let events := [.start, postSchedule "\x7b\"posX\":1e999\x7d", .start]
    (performAll .standard events (.fresh Tables.empty)).failedCalls = 0 ∧
      (performAll .standard events (.fresh Tables.empty)).listening = true ∧
      ((performAll .standard events (.fresh Tables.empty)).scheduleDic 1).isSome = true ∧
      (performAll .standard events (.fresh Tables.empty)).tables .schedule = [] := by
  refine ⟨?_, ?_, ?_, ?_⟩ <;> decide +kernel

end TfuServer
