import Mathlib.Data.List.Forall2
import Mathlib.Data.List.TakeWhile
import TfuServer.Server.Reload

/-!
# Loading that stops halfway

The dictionary is emptied before the table is asked for, and then filled one row at a
time. What it holds afterwards depends on the rows that come before the first one that
cannot be decoded.
-/

namespace TfuServer

set_option autoImplicit false

open Program
open Sql (DataRow Row)

/-- The dictionary has these schedules and no others; of two with one id it has the later. -/
def Lists (dictionary : Dictionary Int32 Schedule) (schedules : List Schedule) : Prop :=
  ∀ id, dictionary id = schedules.reverse.find? fun sch => decide (sch.id = id)

theorem lists_nil : Lists (fun _ => none) [] := fun _ => rfl

theorem lists_unique (left right : Dictionary Int32 Schedule) (schedules : List Schedule)
    (one : Lists left schedules) (other : Lists right schedules) : left = right :=
  funext fun id => (one id).trans (other id).symm

theorem lists_set (dictionary : Dictionary Int32 Schedule) (schedules : List Schedule)
    (sch : Schedule) (lists : Lists dictionary schedules) :
    Lists (dictionary.set sch.id sch) (schedules ++ [sch]) := by
  intro id
  rw [List.reverse_append, List.reverse_singleton, List.singleton_append, List.find?_cons]
  by_cases same : sch.id = id
  · subst same
    simp [Dictionary.set]
  · have other : id ≠ sch.id := fun equal => same equal.symm
    simp only [same, decide_false]
    rw [← lists id, Dictionary.set, Function.update_of_ne other]

theorem lists_empty_iff (schedules : List Schedule) :
    Lists (fun _ => none) schedules ↔ schedules = [] := by
  constructor
  · intro lists
    cases schedules with
    | nil => rfl
    | cons sch schedules =>
        have none_found := (lists sch.id).symm
        rw [List.find?_eq_none] at none_found
        exact absurd (decide_eq_true rfl)
          (none_found sch (List.mem_reverse.mpr List.mem_cons_self))
  · rintro rfl
    exact lists_nil

section
variable (library : Json.Newtonsoft)

def decodes (row : DataRow) : Bool :=
  match scheduleOfRow library row with
  | .ok _ => true
  | .error _ => false

theorem decodes_iff (row : DataRow) :
    decodes library row = true ↔ ∃ sch, scheduleOfRow library row = .ok sch := by
  unfold decodes
  cases scheduleOfRow library row <;> simp

def DecodeTo (rows : List DataRow) (schedules : List Schedule) : Prop :=
  List.Forall₂ (fun row sch => scheduleOfRow library row = .ok sch) rows schedules

theorem decode_to_unique (rows : List DataRow) (one other : List Schedule)
    (first : DecodeTo library rows one) (second : DecodeTo library rows other) : one = other := by
  unfold DecodeTo at first
  induction first generalizing other with
  | nil =>
      cases second
      rfl
  | cons decoded _ ih =>
      cases second with
      | cons again rest =>
          rw [Except.ok.inj (decoded.symm.trans again), ih _ rest]

/-- Every row decodes, and the dictionary lists what they decode to. -/
def Complete (dictionary : Dictionary Int32 Schedule) (rows : List DataRow) : Prop :=
  ∃ schedules, DecodeTo library rows schedules ∧ Lists dictionary schedules

theorem complete_unique (left right : Dictionary Int32 Schedule) (rows : List DataRow)
    (one : Complete library left rows) (other : Complete library right rows) : left = right := by
  obtain ⟨schedules, decoded, lists⟩ := one
  obtain ⟨again, redecoded, relists⟩ := other
  obtain rfl := decode_to_unique library rows schedules again decoded redecoded
  exact lists_unique left right schedules lists relists

theorem complete_empty_iff (rows : List DataRow) :
    Complete library (fun _ => none) rows ↔ rows = [] := by
  constructor
  · rintro ⟨schedules, decoded, lists⟩
    rw [(lists_empty_iff schedules).mp lists] at decoded
    exact List.forall₂_nil_right_iff.mp decoded
  · rintro rfl
    exact ⟨[], List.Forall₂.nil, lists_nil⟩

theorem complete_nil_iff (dictionary : Dictionary Int32 Schedule) :
    Complete library dictionary [] ↔ dictionary = fun _ => none := by
  constructor
  · intro complete
    exact complete_unique library _ _ [] complete ((complete_empty_iff library []).mpr rfl)
  · rintro rfl
    exact (complete_empty_iff library []).mpr rfl

theorem complete_decodes (dictionary : Dictionary Int32 Schedule) (rows : List DataRow)
    (complete : Complete library dictionary rows) : ∀ row ∈ rows, decodes library row = true := by
  obtain ⟨schedules, decoded, -⟩ := complete
  intro row member
  unfold DecodeTo at decoded
  induction decoded with
  | nil => cases member
  | cons loaded _ ih =>
      rcases List.mem_cons.mp member with rfl | later
      · exact (decodes_iff library _).mpr ⟨_, loaded⟩
      · exact ih later

end

section
variable (runtime : Runtime)

def decodedRows (rows : List DataRow) : List DataRow :=
  rows.takeWhile (decodes runtime.newtonsoft)

/-- Each turn of the loop lists one more schedule, until a row cannot be decoded. -/
theorem load_rows_lists (rows : List DataRow) (world : World) (entered : List Schedule)
    (lists : Lists world.scheduleDic entered) :
    ∃ schedules, DecodeTo runtime.newtonsoft (decodedRows runtime rows) schedules ∧
      Lists (exec (ScheduleManager.loadRows runtime rows) world).2.scheduleDic
        (entered ++ schedules) := by
  induction rows generalizing world entered with
  | nil =>
      refine ⟨[], List.Forall₂.nil, ?_⟩
      rw [List.append_nil]
      exact lists
  | cons row rows ih =>
      cases loaded : scheduleOfRow runtime.newtonsoft row with
      | error failure =>
          have stops : decodedRows runtime (row :: rows) = [] := by
            simp [decodedRows, decodes, loaded]
          have ran : (exec (ScheduleManager.loadRows runtime (row :: rows)) world).2 = world := by
            simp [ScheduleManager.loadRows, exec_bind, loaded]
          rw [stops, ran]
          refine ⟨[], List.Forall₂.nil, ?_⟩
          rw [List.append_nil]
          exact lists
      | ok sch =>
          have goes : decodedRows runtime (row :: rows) = row :: decodedRows runtime rows := by
            simp [decodedRows, decodes, loaded]
          have ran : exec (ScheduleManager.loadRows runtime (row :: rows)) world =
              exec (ScheduleManager.loadRows runtime rows) (ScheduleManager.enter sch world) := by
            simp only [ScheduleManager.loadRows, exec_bind, exec_lift, exec_modify, loaded]
          obtain ⟨schedules, decoded, after⟩ := ih (ScheduleManager.enter sch world)
            (entered ++ [sch]) (lists_set world.scheduleDic entered sch lists)
          rw [goes, ran]
          refine ⟨sch :: schedules, List.Forall₂.cons loaded decoded, ?_⟩
          rw [List.append_cons]
          exact after

def scheduleRows (world : World) : List DataRow := (world.tables .schedule).map Row.dataRow

def handsOut (world : World) : Bool :=
  decide (runtime.outcome world.log.length = .works) && deliverable (scheduleRows world)

theorem answer_all (call : Nat) (world : World) :
    answer runtime call world.tables "SELECT * FROM SCHEDULE;".toList =
      if deliverable (scheduleRows world) then some ([scheduleRows world], world.tables)
      else none := by
  have queried : Sql.query runtime.settings (runtime.shuffle call) world.tables
      (.select "SCHEDULE".toList .all false) = some (scheduleRows world) :=
    @Sql.query_all runtime.settings schema world.tables "SCHEDULE".toList .schedule
      (find_title .schedule) (runtime.shuffle call) false
  simp only [answer, ScheduleManager.read_all_query, queried]

theorem select_all (world : World) :
    (exec (DBManager.select runtime "SELECT * FROM SCHEDULE;".toList) world).2.scheduleDic =
        world.scheduleDic ∧
      if handsOut runtime world then
        (exec (DBManager.select runtime "SELECT * FROM SCHEDULE;".toList) world).1 =
          .ok [scheduleRows world]
      else
        (exec (DBManager.select runtime "SELECT * FROM SCHEDULE;".toList) world).1 = .ok [] ∨
        (exec (DBManager.select runtime "SELECT * FROM SCHEDULE;".toList) world).1 =
          .error .connection := by
  have stays (call : Call) (result : Option (DataSet × Tables)) :
      (callEnded call result world).scheduleDic = world.scheduleDic := by
    cases result <;> rfl
  unfold handsOut DBManager.select
  simp only [exec_bind, exec_get]
  cases runtime.outcome world.log.length with
  | unreachable => exact ⟨stays _ _, Or.inr rfl⟩
  | fails => exact ⟨stays _ _, Or.inl rfl⟩
  | works =>
      simp only [exec_bind, exec_modify, answer_all]
      cases deliverable (scheduleRows world) with
      | true => exact ⟨stays _ _, rfl⟩
      | false => exact ⟨stays _ _, Or.inl rfl⟩

theorem sync_dictionary (world : World) :
    Complete runtime.newtonsoft
      (exec (ScheduleManager.syncDBToDictionary runtime) world).2.scheduleDic
      (if handsOut runtime world then decodedRows runtime (scheduleRows world) else []) := by
  let emptied : World := { world with scheduleDic := fun _ => none }
  have start : exec (ScheduleManager.syncDBToDictionary runtime) world =
      exec (DBManager.select runtime "SELECT * FROM SCHEDULE;".toList >>= loadFirst runtime)
        emptied := rfl
  obtain ⟨dictionary, result⟩ := select_all runtime emptied
  rw [start, exec_bind]
  generalize exec (DBManager.select runtime "SELECT * FROM SCHEDULE;".toList) emptied = selected
    at dictionary result ⊢
  obtain ⟨value, after⟩ := selected
  have same : handsOut runtime emptied = handsOut runtime world := rfl
  rw [same] at result
  cases out : handsOut runtime world with
  | true =>
      rw [out] at result
      obtain rfl : value = .ok [scheduleRows world] := result
      obtain ⟨schedules, decoded, lists⟩ := load_rows_lists runtime (scheduleRows world) after []
        (dictionary ▸ lists_nil)
      exact ⟨schedules, decoded, lists⟩
  | false =>
      rw [out] at result
      refine (complete_nil_iff _ _).mpr ?_
      rcases result with rfl | rfl
      · exact dictionary
      · exact dictionary

end

/-- The dictionary is as it was, or the decoding of every row of the table. -/
def AllOrNothing (runtime : Runtime) (before after : World) : Prop :=
  after.scheduleDic = before.scheduleDic ∨
    Complete runtime.newtonsoft after.scheduleDic (scheduleRows before)

/-- What a reload that stops somewhere would have to find in memory: what it puts there. -/
def ReloadsWhole (runtime : Runtime) (world : World) : Prop :=
  if handsOut runtime world then
    (∀ row ∈ scheduleRows world, decodes runtime.newtonsoft row = true) ∨
      Complete runtime.newtonsoft world.scheduleDic (decodedRows runtime (scheduleRows world))
  else scheduleRows world = [] ∨ world.scheduleDic = fun _ => none

/-- A reload is all or nothing exactly when every row is handed out and decodes, or memory
already had only what comes before the place where it stops. -/
theorem reload_whole_iff (runtime : Runtime) (world : World) :
    AllOrNothing runtime world (exec (ScheduleManager.syncDBToDictionary runtime) world).2 ↔
      ReloadsWhole runtime world := by
  have final := sync_dictionary runtime world
  unfold AllOrNothing ReloadsWhole
  generalize (exec (ScheduleManager.syncDBToDictionary runtime) world).2.scheduleDic = after
    at final ⊢
  cases out : handsOut runtime world with
  | true =>
      rw [out] at final
      simp only [if_true] at final ⊢
      constructor
      · rintro (kept | complete)
        · exact Or.inr (kept ▸ final)
        · exact Or.inl (complete_decodes runtime.newtonsoft after _ complete)
      · rintro (every | before)
        · have whole : decodedRows runtime (scheduleRows world) = scheduleRows world :=
            List.takeWhile_eq_self_iff.mpr every
          exact Or.inr (whole ▸ final)
        · exact Or.inl (complete_unique runtime.newtonsoft after _ _ final before)
  | false =>
      rw [out] at final
      obtain rfl := (complete_nil_iff runtime.newtonsoft after).mp final
      rw [complete_empty_iff]
      simp only [Bool.false_eq_true, if_false]
      exact ⟨fun either => either.symm.imp id Eq.symm, fun either => either.symm.imp Eq.symm id⟩

def tripRow (id : Int32) (waypoints : Option Text) : Row (schema.columns .schedule) where
  cells := [.int id, .text "S".toList, .text "D".toList, .int 2,
    .date { year := 2024, month := 1, day := 1 }, waypoints.elim .null .text, .int 0,
    .bool false]
  fits := by cases waypoints <;> rfl

def halfReadable : World :=
  .fresh (Function.update Tables.empty .schedule
    [tripRow 1 (some "[]".toList), tripRow 2 none])

def failingSelect : Runtime := { Runtime.standard with outcome := fun _ => .fails }

theorem reload_stops_halfway :
    ¬AllOrNothing .standard halfReadable
      (exec (ScheduleManager.syncDBToDictionary .standard) halfReadable).2 ∧
    ¬AllOrNothing failingSelect (ScheduleManager.enter (namedSchedule "A") halfReadable)
      (exec (ScheduleManager.syncDBToDictionary failingSelect)
        (ScheduleManager.enter (namedSchedule "A") halfReadable)).2 := by
  constructor
  · rintro (kept | complete)
    · have entry := congrFun kept 1
      revert entry
      decide +kernel
    · have every := complete_decodes _ _ _ complete (tripRow 2 none).dataRow
        (by simp [scheduleRows, halfReadable, World.fresh])
      revert every
      decide +kernel
  · have emptied : (exec (ScheduleManager.syncDBToDictionary failingSelect)
        (ScheduleManager.enter (namedSchedule "A") halfReadable)).2.scheduleDic =
          fun _ => none := rfl
    rintro (kept | complete)
    · have entry := congrFun kept 1
      revert entry
      decide +kernel
    · rw [emptied, complete_empty_iff] at complete
      cases complete

end TfuServer
