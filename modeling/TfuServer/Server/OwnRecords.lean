import TfuServer.Footprint
import TfuServer.Server.Growth

/-!
# Loops with records of their own

Loops that store records under different keys do not disturb one another. In whatever order
they take their turns, memory and rows of every key end up as if the requests had been received
one after another.
-/

namespace TfuServer

set_option autoImplicit false

open Program
open Script (Unspoiled valid_bind valid_mono valid_unspoiled_atomic valid_unspoiled_bind)
open Footprint (Undisturbed Within Touched Effect Performs Apart applyAt)
open Sql (Cell Row firstKey)
open Steps (Makes)

/-- A record has its place in one of the dictionaries and in one of the tables. -/
inductive Place where
  | user (uid : Int64)
  | schedule (id : Int32)
  | shared (scheduleId : Int32)
  deriving DecidableEq

namespace Place

def table : Place → TableName
  | .user _ => .user
  | .schedule _ => .schedule
  | .shared _ => .sharedSchedule

def key : Place → Int
  | .user uid => uid.toInt
  | .schedule id => id.toInt
  | .shared scheduleId => scheduleId.toInt

def held (world : World) : Place → Option Upload
  | .user uid => (world.clientDictionary uid).map .user
  | .schedule id => (world.scheduleDic id).map .schedule
  | .shared scheduleId => (world.sharedScheduleDic scheduleId).map .shared

theorem ext_key (place other : Place) (table : place.table = other.table)
    (key : place.key = other.key) : place = other := by
  cases place <;> cases other <;>
    first
      | (cases table; done)
      | exact congrArg _ (Int64.toInt_inj.mp key)
      | exact congrArg _ (Int32.toInt_inj.mp key)

end Place

def Upload.place : Upload → Place
  | .user clt => .user clt.uid
  | .schedule sch => .schedule sch.id
  | .shared sch => .shared sch.scheduleId

theorem Upload.place_table (upload : Upload) : upload.place.table = upload.table := by
  cases upload <;> rfl

theorem Upload.place_key (upload : Upload) : upload.place.key = upload.key := by
  cases upload <;> rfl

/-- What there is at a place: the record in memory, and the cells of the rows. -/
@[ext] structure Slot where
  held : Option Upload
  rows : List (List Cell)

def slotAt (place : Place) (world : World) : Slot where
  held := place.held world
  rows := (Keyed.rowsOf firstKey (world.tables place.table) place.key).map Row.cells

section
variable (runtime : Runtime)

/-- The cells that a statement of the record leaves in a row. -/
def Upload.lands (branch : Branch) (upload : Upload) : Option (List Cell) := do
  let plain ← upload.meant
  let document ← (upload.stored runtime branch).toOption
  plain.cells runtime.settings document

def Slot.branch (slot : Slot) : Branch := if slot.rows.isEmpty then .insert else .update

/-- The record is held in memory and, where its document can be written, in every row of its
key or in a new one. -/
def Slot.put (upload : Upload) (slot : Slot) : Option Slot :=
  if upload.writable then
    (upload.lands runtime slot.branch).map fun cells =>
      { held := some upload
        rows := if slot.rows.isEmpty then [cells] else slot.rows.map fun _ => cells }
  else some { slot with held := some upload }

/-- The records that the requests carry, with their places. -/
def changesOf (requests : List Request) : List (Place × Upload) :=
  (requests.filterMap (carried runtime)).map fun upload => (upload.place, upload)

theorem changes_cons (request : Request) (requests : List Request) :
    changesOf runtime (request :: requests) =
      changesOf runtime [request] ++ changesOf runtime requests := by
  simp only [changesOf, List.filterMap_cons, List.filterMap_nil]
  cases carried runtime request <;> rfl

theorem touched_changes (requests : List Request) (place : Place) :
    Touched (changesOf runtime requests) place ↔
      ∃ request ∈ requests, ∃ upload, carried runtime request = some upload ∧
        upload.place = place := by
  simp only [Touched, changesOf, List.mem_map, List.mem_filterMap]
  constructor
  · rintro ⟨_, ⟨upload, ⟨request, member, present⟩, rfl⟩, same⟩
    exact ⟨request, member, upload, present, same⟩
  · rintro ⟨request, member, upload, present, same⟩
    exact ⟨_, ⟨upload, ⟨request, member, present⟩, rfl⟩, same⟩

end

theorem set_at {Key Value : Type} [DecidableEq Key] (dictionary : Dictionary Key Value)
    (key other : Key) (value : Value) :
    dictionary.set key value other = if key = other then some value else dictionary other := by
  rw [Dictionary.set, Function.update_apply]
  exact if_congr eq_comm rfl rfl

theorem slot_enter (upload : Upload) (place : Place) (world : World) :
    slotAt place (upload.enter world) =
      if upload.place = place then { slotAt place world with held := some upload }
      else slotAt place world := by
  have rows : (slotAt place (upload.enter world)).rows = (slotAt place world).rows := by
    simp only [slotAt, Upload.enter_tables]
  have held : place.held (upload.enter world) =
      if upload.place = place then some upload else place.held world := by
    cases upload with
    | user clt =>
        have schedules : ((Upload.user clt).enter world).scheduleDic = world.scheduleDic := by
          simp only [Upload.enter, client_ready, ClientManager.enter]
        have shared : ((Upload.user clt).enter world).sharedScheduleDic =
            world.sharedScheduleDic := by
          simp only [Upload.enter, client_ready, ClientManager.enter]
        cases place <;> simp only [Upload.place, Place.held, enter_user_clients, schedules, shared,
          set_at, reduceCtorEq, if_false, Place.user.injEq]
        split_ifs <;> rfl
    | schedule sch =>
        have clients : ((Upload.schedule sch).enter world).clientDictionary =
          world.clientDictionary := rfl
        have schedules : ((Upload.schedule sch).enter world).scheduleDic =
          world.scheduleDic.set sch.id sch := rfl
        have shared : ((Upload.schedule sch).enter world).sharedScheduleDic =
          world.sharedScheduleDic := rfl
        cases place <;> simp only [Upload.place, Place.held, clients, schedules, shared, set_at,
          reduceCtorEq, if_false, Place.schedule.injEq]
        split_ifs <;> rfl
    | shared sch =>
        have clients : ((Upload.shared sch).enter world).clientDictionary =
          world.clientDictionary := rfl
        have schedules : ((Upload.shared sch).enter world).scheduleDic = world.scheduleDic := rfl
        have shared : ((Upload.shared sch).enter world).sharedScheduleDic =
          world.sharedScheduleDic.set sch.scheduleId sch := rfl
        cases place <;> simp only [Upload.place, Place.held, clients, schedules, shared, set_at,
          reduceCtorEq, if_false, Place.shared.injEq]
        split_ifs <;> rfl
  split_ifs with same
  · exact Slot.ext (held.trans (if_pos same)) rows
  · exact Slot.ext (held.trans (if_neg same)) rows

section
variable {runtime : Runtime} {requests : List Request}

theorem slot_wrote (name : TableName) (k : Int) (row : Row (schema.columns name))
    (rows : Sql.Table (schema.columns name)) (place : Place) (world : World) (tables : Tables)
    (has : firstKey row = some k) (wrote : Keyed.Wrote firstKey k row (world.tables name) rows)
    (after : tables = Function.update world.tables name rows)
    (elsewhere : place.table = name → place.key ≠ k) :
    (Keyed.rowsOf firstKey (tables place.table) place.key).map Row.cells =
      (Keyed.rowsOf firstKey (world.tables place.table) place.key).map Row.cells := by
  rw [after]
  by_cases here : place.table = name
  · subst here
    rw [Function.update_self, Keyed.wrote_other wrote has place.key (elsewhere rfl)]
  · rw [Function.update_of_ne here]

/-- The manager of the users that has this number is still the one in the field. -/
def KeepsClients (number : Option Nat) (world : World) : Prop :=
  ∀ own, number = some own → Steps.ClientsAt own world

theorem enter_keeps_clients (number : Nat) (upload : Upload) (world : World)
    (here : Steps.ClientsAt number world) : Steps.ClientsAt number (upload.enter world) := by
  cases upload with
  | user clt =>
      rw [← Steps.enter_client_here number clt world here]
      have entered : ClientManager.enterAt number clt world = ClientManager.enter clt world :=
        if_pos here
      rw [entered]
      exact (Steps.implements_enter_client number clt world here).2
  | schedule sch => exact here
  | shared sch => exact here

variable (runtime requests) in
/-- What some requests may do once there is a manager of the users. -/
def Permits.settled : Permits := { Permits.requests runtime requests with clients := False }

theorem requests_of_settled (before after : World)
    (step : ServerStep runtime (Permits.settled runtime requests) before after) :
    ServerStep runtime (Permits.requests runtime requests) before after := by
  cases step with
  | call call may result answered same => exact .call call may result answered same
  | rests same => exact .rests same
  | enters upload may same => exact .enters upload may same
  | images manager may same => exact .images manager may same
  | clients may same => exact may.elim
  | schedules dictionary may same => exact may.elim
  | flags number listening serving may same => exact may.elim

theorem settled_keeps_clients (number : Option Nat) (before after : World)
    (step : ServerStep runtime (Permits.settled runtime requests) before after)
    (holds : KeepsClients number before) : KeepsClients number after := by
  intro own same
  have here := holds own same
  cases step with
  | call call may result answered same =>
      rw [same]
      exact Steps.clients_at_ended own call result before here
  | rests same => rwa [same]
  | enters upload may same =>
      rw [same]
      exact enter_keeps_clients own upload before here
  | images manager may same => rwa [same]
  | clients may same => exact may.elim
  | schedules dictionary may same => exact may.elim
  | flags number listening serving may same => exact may.elim

/-- A step of some requests works on the places of their records. -/
theorem settled_step_within (quoted : ∀ request ∈ requests, StaysQuoted runtime request)
    (number : Option Nat) (before after : World)
    (step : ServerStep runtime (Permits.settled runtime requests) before after) :
    Within slotAt World.failedCalls (KeepsClients number) (Touched (changesOf runtime requests))
      before after := by
  refine ⟨fun place elsewhere => ?_, server_step_failed before after step,
    settled_keeps_clients number before after step⟩
  have rows : (slotAt place after).rows = (slotAt place before).rows := by
    rcases requests_step_tables quoted before after (requests_of_settled before after step) with
      same | ⟨name, k, row, rows, writes, wrote, same⟩
    · simp only [slotAt, same]
    · refine slot_wrote name k row rows place before _ (writes_key name k row writes) wrote same
        fun table key => elsewhere ?_
      rw [touched_changes]
      cases writes with
      | image request member about id => cases place <;> cases table
      | record request member upload plain present meaning branch document kept row cells =>
          refine ⟨request, member, upload, present, Place.ext_key _ _ ?_ ?_⟩
          · rw [Upload.place_table, table]
          · rw [Upload.place_key, key]
  have held : place.held after = place.held before := by
    cases step with
    | rests same => rw [same]
    | enters upload may same =>
        obtain ⟨request, member, present⟩ := may
        have other : upload.place ≠ place := fun here =>
          elsewhere ((touched_changes runtime requests place).mpr
            ⟨request, member, upload, present, here⟩)
        rw [same]
        exact congrArg Slot.held ((slot_enter upload place before).trans (if_neg other))
    | images manager may same => cases place <;> rw [same] <;> rfl
    | clients may same => exact may.elim
    | schedules dictionary may same => exact may.elim
    | flags number listening serving may same => exact may.elim
    | call call may result answered same =>
        subst same
        cases result <;> cases place <;> rfl
  exact Slot.ext held rows

end

section
variable (runtime : Runtime) (number : Option Nat) (upload : Upload)

/-- The others leave the place of the record alone, and the manager of the users. -/
abbrev Lone : World → World → Prop :=
  Undisturbed slotAt World.failedCalls (KeepsClients number) (· = upload.place)

abbrev LoneEnds {Value : Type} (bound : Nat) (holds : Except Failure Value → World → Prop)
    (script : Steps Value) (world : World) : Prop :=
  Script.Ends (Lone number upload) (Unspoiled World.failedCalls bound holds) script world

variable {runtime number upload} {bound : Nat}

theorem lone_slot (before after : World) (moved : Lone number upload before after) :
    slotAt upload.place after = slotAt upload.place before :=
  moved.places _ rfl

theorem slot_rows (world : World) :
    (slotAt upload.place world).rows = (upload.rowsOf world.tables).map Row.cells := by
  simp only [slotAt, Upload.rowsOf]
  cases upload <;> rfl

theorem slot_empty_iff (world : World) :
    (slotAt upload.place world).rows = [] ↔ upload.rowsOf world.tables = [] := by
  rw [slot_rows, List.map_eq_nil_iff]

theorem ask_ends (world : World) (least : bound ≤ world.failedCalls) :
    LoneEnds number upload bound
      (fun result later => slotAt upload.place later = slotAt upload.place world ∧
        ∃ rows, result = .ok [rows] ∧ rows.length = (slotAt upload.place world).rows.length)
      (Steps.select runtime upload.query) world := by
  obtain ⟨name, read, keyed⟩ := read_upload_query upload
  refine valid_unspoiled_atomic (fun _ _ moved => moved.grows) _ world least
    (fun found => grows_select runtime _ found.failedCalls found le_rfl)
    fun found moved quiet later further _ => ?_
  have enough := le_trans least moved.grows
  rcases DBManager.select_cases runtime upload.query found with
    ⟨data, tables, -, answered, ran⟩ | ran | ⟨-, ran⟩ <;> rw [ran] at further quiet ⊢
  · obtain ⟨rfl, rfl, -⟩ := answer_select runtime _ _ _ _ _ _ _ _ read (find_title upload.table)
      answered
    have same := lone_slot world found moved
    refine ⟨(lone_slot _ _ further).trans same, _, rfl, ?_⟩
    rw [rows_of_key runtime found.tables upload.table name keyed, ← same, slot_rows,
      List.length_map, List.length_map]
    rfl
  · have more : found.failedCalls + 1 = bound := quiet
    omega
  · have more : found.failedCalls + 1 = bound := quiet
    omega

theorem slot_written (call : Call) (data : DataSet) (world : World)
    (row : Row (schema.columns upload.table)) (has : firstKey row = some upload.key)
    (branch : Branch) (right : (slotAt upload.place world).branch = branch) :
    slotAt upload.place (callEnded call (some (data, Function.update world.tables upload.table
        (if branch = .insert then world.tables upload.table ++ [row]
        else Keyed.changeRows firstKey upload.key (fun _ => row) (world.tables upload.table))))
      world) =
      { slotAt upload.place world with
        rows := if (slotAt upload.place world).rows.isEmpty then [row.cells]
          else (slotAt upload.place world).rows.map fun _ => row.cells } := by
  have tables (rows : Sql.Table (schema.columns upload.table)) :
      upload.rowsOf (Function.update world.tables upload.table rows) =
        Keyed.rowsOf firstKey rows upload.key := by
    rw [Upload.rowsOf, Function.update_self]
  refine Slot.ext (by cases upload <;> rfl) ?_
  rw [slot_rows]
  change (upload.rowsOf (Function.update world.tables upload.table _)).map Row.cells = _
  rw [tables]
  simp only [Slot.branch, slot_rows, List.isEmpty_map] at right ⊢
  cases empty : (upload.rowsOf world.tables).isEmpty with
  | true =>
      rw [empty] at right
      subst right
      have none_there : Keyed.rowsOf firstKey (world.tables upload.table) upload.key = [] :=
        List.isEmpty_iff.mp empty
      simp only [if_true, Keyed.rowsOf, List.filter_append] at none_there ⊢
      simp [none_there, has]
  | false =>
      rw [empty] at right
      subst right
      simp only [Bool.false_eq_true, if_false, reduceCtorEq]
      rw [Keyed.rows_of_change firstKey upload.key _ fun _ _ => has, if_pos rfl, List.map_map,
        List.map_map]
      rfl

theorem write_ends (plain : Upload) (meaning : upload.meant = some plain) (branch : Branch)
    (text : Text) (built : upload.text runtime branch = .ok text) (world : World)
    (least : bound ≤ world.failedCalls) (right : (slotAt upload.place world).branch = branch) :
    LoneEnds number upload bound
      (fun _ later => ∃ cells, upload.lands runtime branch = some cells ∧
        slotAt upload.place later = { slotAt upload.place world with
          rows := if (slotAt upload.place world).rows.isEmpty then [cells]
            else (slotAt upload.place world).rows.map fun _ => cells })
      (Steps.executeQuery runtime text) world := by
  obtain ⟨document, kept⟩ := Upload.text_stored runtime upload branch text built
  refine valid_unspoiled_atomic (fun _ _ moved => moved.grows) _ world least
    (fun found => grows_execute runtime _ found.failedCalls found le_rfl)
    fun found moved quiet later further _ => ?_
  have enough := le_trans least moved.grows
  rcases DBManager.execute_cases runtime text found with
    ⟨data, tables, -, answered, ran⟩ | ran | ⟨-, ran⟩ <;> rw [ran] at further quiet
  · have same := lone_slot _ _ moved
    rw [← same] at right ⊢
    rcases answer_upload upload plain meaning branch text document built kept answered with
      ⟨rfl, absent, -⟩ | ⟨row, cells, rfl⟩
    · rw [Slot.branch, (slot_empty_iff found).mpr absent] at right
      cases right
    · refine ⟨row.cells, ?_, (lone_slot _ _ further).trans ?_⟩
      · simp [Upload.lands, meaning, kept, cells, Except.toOption]
      · refine slot_written _ data found row ?_ branch right
        rw [cells_key runtime.settings document plain row cells,
          (Upload.meant_place upload plain meaning).2]
  · have more : found.failedCalls + 1 = bound := quiet
    omega
  · have more : found.failedCalls + 1 = bound := quiet
    omega

variable (runtime upload) in
def Stored (start : Slot) (_ : Except Failure Unit) (later : World) : Prop :=
  start.put runtime upload = some (slotAt upload.place later)

theorem writable_of_lands {branch : Branch} {cells : List Cell}
    (lands : upload.lands runtime branch = some cells) : upload.writable = true := by
  simp only [Upload.lands, Option.bind_eq_bind, Option.bind_eq_some_iff] at lands
  obtain ⟨plain, -, document, kept, -⟩ := lands
  have kept : upload.stored runtime branch = .ok document := by
    cases stored : upload.stored runtime branch with
    | error failure => simp [stored, Except.toOption] at kept
    | ok text => rw [stored] at kept; exact congrArg Except.ok (Option.some.inj kept)
  exact Upload.writable_of_stored runtime upload branch document kept

theorem put_ends (plain : Upload) (meaning : upload.meant = some plain) (branch : Branch)
    (text : Text) (built : upload.text runtime branch = .ok text) (start : Slot) (world : World)
    (least : bound ≤ world.failedCalls) (right : start.branch = branch)
    (entered : slotAt upload.place world = { start with held := some upload }) :
    LoneEnds number upload bound (Stored runtime upload start)
      (Steps.executeQuery runtime text) world := by
  have here : (slotAt upload.place world).branch = branch := by rw [entered]; exact right
  refine valid_mono _ _ (fun _ _ _ _ => trivial) (fun result later ended => ?_)
    (write_ends plain meaning branch text built world least here)
  refine ⟨ended.1, fun quiet => ?_⟩
  obtain ⟨cells, lands, slot⟩ := ended.2 quiet
  rw [Stored, Slot.put, if_pos (writable_of_lands lands), right, lands, slot, entered]
  rfl

theorem enter_put_ends (plain : Upload) (meaning : upload.meant = some plain) (branch : Branch)
    (text : Text) (built : upload.text runtime branch = .ok text) (world : World)
    (least : bound ≤ world.failedCalls) (right : (slotAt upload.place world).branch = branch) :
    LoneEnds number upload bound (Stored runtime upload (slotAt upload.place world))
      (do
        Steps.alter upload.enter
        Steps.executeQuery runtime text) world := by
  refine Script.valid_atomic_bind _ _ world fun found moved =>
    ⟨⟨⟩, upload.enter found, rfl, trivial, ?_⟩
  refine put_ends plain meaning branch text built _ _ ?_ right ?_
  · rw [(Upload.enter_only upload found).failedCalls]
    exact le_trans least moved.grows
  · rw [slot_enter, if_pos rfl, lone_slot _ _ moved]

def Permits.all : Permits := ⟨fun _ => True, fun _ => True, True, True, True, True⟩

variable (runtime) in
theorem adds_of_makes (permits : Permits) {Value : Type} (script : Steps Value)
    (makes : Makes (ServerStep runtime permits) script) :
    script.Always fun before after _ => before.failedCalls ≤ after.failedCalls :=
  Script.always_mono script (fun _ _ _ step => server_step_failed _ _ step) makes

theorem lone_pure {Value : Type} (value : Value) (world : World) (least : bound ≤ world.failedCalls)
    {holds : Except Failure Value → World → Prop}
    (ends : ∀ later, Lone number upload world later → holds (.ok value) later) :
    LoneEnds number upload bound holds (pure value) world :=
  fun later moved => ⟨le_trans least moved.grows, fun _ => ends later moved⟩

/-- The query is sent once more if it has an answer; either way the rows are those there are. -/
theorem is_new_ends (world : World) (least : bound ≤ world.failedCalls) :
    LoneEnds number upload bound
      (fun result later => slotAt upload.place later = slotAt upload.place world ∧
        result = .ok (slotAt upload.place world).rows.isEmpty)
      (Steps.isNew runtime upload.query) world := by
  have still := Footprint.undisturbed_refl slotAt World.failedCalls (KeepsClients number)
    (· = upload.place)
  refine valid_unspoiled_bind (fun _ _ moved => moved.grows) still _ _ world (ask_ends world least)
    (fun data => adds_of_makes runtime .all _ ?_) (fun data later quiet asked => ?_)
    fun failure later _ asked => ?_
  · split
    · exact Steps.makes_rows runtime _ trivial _ fun _ => Script.always_pure _ _
    · exact Script.always_pure _ _
  · obtain ⟨same, rows, answered, -⟩ := asked
    obtain rfl := Except.ok.inj answered
    rw [List.length_singleton, if_pos Nat.one_pos]
    refine valid_unspoiled_bind (fun _ _ moved => moved.grows) still _ _ later
      (ask_ends later quiet.ge) (fun _ => adds_of_makes runtime .all _ ?_)
      (fun again last unspoiled asked => ?_) fun failure last _ asked => ?_
    · exact Steps.makes_bind _ _ (Script.always_lift _ _) fun _ => Script.always_pure _ _
    · obtain ⟨still_same, rows, answered, count⟩ := asked
      obtain rfl := Except.ok.inj answered
      refine lone_pure _ last unspoiled.ge fun further moved => ?_
      rw [lone_slot _ _ moved, still_same, same]
      refine ⟨rfl, congrArg Except.ok ?_⟩
      rw [count, same]
      cases (slotAt upload.place world).rows <;> simp
    · obtain ⟨-, rows, answered, -⟩ := asked
      cases answered
  · obtain ⟨-, rows, answered, -⟩ := asked
    cases answered

theorem branch_ends (inserts updates : Steps Unit) (world : World)
    (least : bound ≤ world.failedCalls)
    (adds : ∀ script ∈ [inserts, updates], Makes (ServerStep runtime Permits.all) script)
    (new : ∀ later, bound ≤ later.failedCalls → (slotAt upload.place later).branch = .insert →
      LoneEnds number upload bound (Stored runtime upload (slotAt upload.place later))
        inserts later)
    (old : ∀ later, bound ≤ later.failedCalls → (slotAt upload.place later).branch = .update →
      LoneEnds number upload bound (Stored runtime upload (slotAt upload.place later))
        updates later) :
    LoneEnds number upload bound (Stored runtime upload (slotAt upload.place world))
      (do
        let new ← Steps.isNew runtime upload.query
        if new then inserts else updates) world := by
  refine valid_unspoiled_bind (fun _ _ moved => moved.grows)
    (Footprint.undisturbed_refl slotAt World.failedCalls (KeepsClients number) _) _ _ world
    (is_new_ends world least)
    (fun new => adds_of_makes runtime .all _ ?_) (fun answer later quiet asked => ?_)
    fun failure later _ asked => by cases asked.2
  · split
    · exact adds inserts (by simp)
    · exact adds updates (by simp)
  · obtain ⟨same, answered⟩ := asked
    rw [Except.ok.inj answered, ← same]
    cases empty : (slotAt upload.place later).rows.isEmpty with
    | true => exact new later quiet.ge (by simp [Slot.branch, empty])
    | false => exact old later quiet.ge (by simp [Slot.branch, empty])

/-- While a manager of the users is in the field its number is returned, whoever comes between. -/
theorem client_instance_ends (own : Nat) (there : number = some own) (world : World)
    (holds : KeepsClients number world) :
    Script.Ends (Lone number upload)
      (fun result later => result = .ok own ∧ Lone number upload world later)
      Steps.clientInstance world := by
  refine Script.valid_atomic_bind _ _ world fun found moved => ⟨found, found, rfl, trivial, ?_⟩
  obtain ⟨manager, present, -⟩ := Option.map_eq_some_iff.mp (moved.stays holds own there)
  simp only [present]
  refine Script.valid_atomic_bind _ _ found fun again further => ⟨again, again, rfl, trivial, ?_⟩
  have along := Footprint.undisturbed_trans _ _ _ moved further
  intro last more
  refine ⟨?_, Footprint.undisturbed_trans _ _ _ along more⟩
  obtain ⟨manager, present, same⟩ := Option.map_eq_some_iff.mp (along.stays holds own there)
  rw [present, ← same]
  rfl

theorem client_ends (clt : Client) (plain : Upload) (meaning : (Upload.user clt).meant = some plain)
    (own : Nat) (there : number = some own) (start world : World)
    (least : bound ≤ world.failedCalls) (holds : KeepsClients number start)
    (moved : Lone number (.user clt) start world) :
    LoneEnds number (.user clt) bound
      (Stored runtime (.user clt) (slotAt (Upload.user clt).place start)) (do
        Steps.alter (ClientManager.enterAt own clt)
        let data ← Steps.select runtime (ClientManager.rowQuery clt.uid)
        let rows ← Script.lift data.first
        if rows.length > 0 then Steps.executeQuery runtime (ClientManager.updateText clt)
        else Steps.executeQuery runtime (ClientManager.insertText clt)) world := by
  refine Script.valid_atomic_bind _ _ world fun found further =>
    ⟨⟨⟩, (Upload.user clt).enter found, ?_, trivial, ?_⟩
  · rw [← Steps.enter_client_here own clt found (further.stays (moved.stays holds) own there)]
    rfl
  have entered : slotAt (Upload.user clt).place ((Upload.user clt).enter found) =
      { slotAt (Upload.user clt).place start with held := some (.user clt) } := by
    rw [slot_enter, if_pos rfl, lone_slot _ _ further, lone_slot _ _ moved]
  have enough : bound ≤ ((Upload.user clt).enter found).failedCalls := by
    rw [(Upload.enter_only (.user clt) found).failedCalls]
    exact le_trans least further.grows
  refine valid_unspoiled_bind (fun _ _ moved => moved.grows)
    (Footprint.undisturbed_refl slotAt World.failedCalls (KeepsClients number) _) _ _ _
    (ask_ends _ enough) (fun data => adds_of_makes runtime .all _ ?_)
    (fun data later quiet asked => ?_) fun failure later _ asked => ?_
  · refine Steps.makes_bind _ _ (Script.always_lift _ _) fun rows => ?_
    split <;> exact Steps.makes_execute runtime _ trivial
  · obtain ⟨same, rows, answered, count⟩ := asked
    obtain rfl := Except.ok.inj answered
    rw [entered] at count
    have here := same.trans entered
    change LoneEnds number _ bound _ (if rows.length > 0 then
      Steps.executeQuery runtime (ClientManager.updateText clt)
      else Steps.executeQuery runtime (ClientManager.insertText clt)) later
    rw [count]
    split
    · rename_i some
      refine put_ends plain meaning .update _ rfl _ later quiet.ge ?_ here
      exact if_neg fun empty => Nat.ne_of_gt some (by rw [List.isEmpty_iff.mp empty]; rfl)
    · rename_i none
      refine put_ends plain meaning .insert _ rfl _ later quiet.ge ?_ here
      exact if_pos (List.isEmpty_iff.mpr (List.eq_nil_of_length_eq_zero (by
        simpa using none)))
  · obtain ⟨-, rows, answered, -⟩ := asked
    cases answered

theorem enter_fails_ends (sch : Schedule) (unwritten : (Upload.schedule sch).writable = false)
    (failure : Failure) (world : World) (least : bound ≤ world.failedCalls) :
    LoneEnds number (.schedule sch) bound
      (Stored runtime (.schedule sch) (slotAt (Upload.schedule sch).place world))
      (do
        Steps.alter (ScheduleManager.enter sch)
        Script.ended (.error failure)) world := by
  refine Script.valid_atomic_bind _ _ world fun found moved =>
    ⟨⟨⟩, (Upload.schedule sch).enter found, rfl, trivial, fun later further => ?_⟩
  refine ⟨le_trans least (le_trans moved.grows further.grows), fun _ => ?_⟩
  rw [Stored, Slot.put, if_neg (by simp [unwritten]), lone_slot _ _ further, slot_enter, if_pos rfl,
    lone_slot _ _ moved]

theorem texts_ends (plain : Upload) (meaning : upload.meant = some plain)
    (inserted updated : Text) (inserts : upload.text runtime .insert = .ok inserted)
    (updates : upload.text runtime .update = .ok updated) (world : World)
    (least : bound ≤ world.failedCalls) :
    LoneEnds number upload bound (Stored runtime upload (slotAt upload.place world))
      (do
        let new ← Steps.isNew runtime upload.query
        if new then
          Steps.alter upload.enter
          Steps.executeQuery runtime inserted
        else
          Steps.alter upload.enter
          Steps.executeQuery runtime updated) world := by
  have makes (text : Text) : Makes (ServerStep runtime Permits.all) (do
      Steps.alter upload.enter
      Steps.executeQuery runtime text) :=
    Steps.makes_bind _ _ (Steps.makes_enter runtime upload trivial) fun _ =>
      Steps.makes_execute runtime text trivial
  refine branch_ends _ _ world least ?_ (fun later enough right => ?_) fun later enough right => ?_
  · simp only [List.mem_cons, List.not_mem_nil, or_false, forall_eq_or_imp, forall_eq]
    exact ⟨makes inserted, makes updated⟩
  · exact enter_put_ends plain meaning .insert _ inserts later enough right
  · exact enter_put_ends plain meaning .update _ updates later enough right

/-- A schedule that cannot be written is entered all the same. -/
theorem unwritten_ends (sch : Schedule) (carries : upload = .schedule sch) (failure : Failure)
    (wrote : listDocument Waypoint.document sch.waypoints = .error failure) (world : World)
    (least : bound ≤ world.failedCalls) :
    LoneEnds number upload bound (Stored runtime upload (slotAt upload.place world))
      (Steps.addSchedule runtime sch) world := by
  subst carries
  have unwritten : (Upload.schedule sch).writable = false := by
    rw [Bool.eq_false_iff, Ne, Upload.writable_schedule_iff, wrote]
    rintro ⟨document, never⟩
    cases never
  have fails : Makes (ServerStep runtime Permits.all) (do
      Steps.alter (ScheduleManager.enter sch)
      Script.ended (.error failure) : Steps Unit) :=
    Steps.makes_bind _ _ (Steps.makes_enter runtime (.schedule sch) trivial) fun _ => trivial
  simp only [Steps.addSchedule, wrote]
  refine branch_ends _ _ world least ?_ (fun later enough _ => ?_) fun later enough _ => ?_
  · simp only [List.mem_cons, List.not_mem_nil, or_false, forall_eq_or_imp, forall_eq]
    exact ⟨fails, fails⟩
  · exact enter_fails_ends sch unwritten failure later enough
  · exact enter_fails_ends sch unwritten failure later enough

/-- Unless a call fails, the steps that store a record put it at its place. -/
theorem store_ends (plain : Upload) (meaning : upload.meant = some plain)
    (built : ∀ clt, upload = .user clt → number.isSome = true) (world : World)
    (least : bound ≤ world.failedCalls) (holds : KeepsClients number world) :
    LoneEnds number upload bound (Stored runtime upload (slotAt upload.place world))
      (Steps.store runtime upload) world := by
  cases upload with
  | user clt =>
      obtain ⟨own, there⟩ := Option.isSome_iff_exists.mp (built clt rfl)
      refine Script.valid_bind
        (Footprint.undisturbed_refl slotAt World.failedCalls (KeepsClients number) _) _ _ world
        (fun _ _ _ _ => trivial) (client_instance_ends own there world holds)
        (fun manager later ended => ?_) fun failure later ended => ?_
      · obtain ⟨same, moved⟩ := ended
        obtain rfl := Except.ok.inj same
        exact client_ends clt plain meaning _ there world later (le_trans least moved.grows) holds
          moved
      · cases ended.1
  | schedule sch =>
      cases wrote : listDocument Waypoint.document sch.waypoints with
      | error failure => exact unwritten_ends sch rfl failure wrote world least
      | ok document =>
          obtain ⟨inserts, updates⟩ := Upload.schedule_texts wrote
          simp only [Steps.store, Steps.addSchedule, wrote]
          exact texts_ends plain meaning _ _ inserts updates world least
  | shared sch => exact texts_ends plain meaning _ _ rfl rfl world least

end

section
variable {runtime : Runtime} {mine : Place → Prop} {bound : Nat}

theorem changes_none (request : Request) (absent : carried runtime request = none) :
    changesOf runtime [request] = [] := by
  simp [changesOf, absent]

theorem changes_some (request : Request) (upload : Upload)
    (present : carried runtime request = some upload) :
    changesOf runtime [request] = [(upload.place, upload)] := by
  simp [changesOf, present]

theorem settled_request (requests : List Request) (request : Request) (member : request ∈ requests)
    (number : Option Nat)
    (built : ∀ clt, carried runtime request = some (.user clt) → number.isSome = true) :
    Steps.MakesFrom (KeepsClients number) (ServerStep runtime (Permits.settled runtime requests))
      (Steps.dataReceived runtime request) :=
  Steps.makes_data_received runtime request (fun _ sent => ⟨request, member, sent⟩)
    (fun _ present => ⟨request, member, present⟩) (fun about => ⟨request, member, about⟩)
    fun clt present => Or.inr fun world holds => by
      obtain ⟨own, there⟩ := Option.isSome_iff_exists.mp (built clt present)
      obtain ⟨manager, here, -⟩ := Option.map_eq_some_iff.mp (holds own there)
      rw [here]
      rfl

variable {number : Option Nat}

theorem request_within (request : Request) (quoted : StaysQuoted runtime request)
    (built : ∀ clt, carried runtime request = some (.user clt) → number.isSome = true) :
    (Steps.dataReceived runtime request).AlwaysFrom (KeepsClients number) fun before after _ =>
      Within slotAt World.failedCalls (KeepsClients number)
        (Touched (changesOf runtime [request])) before after := by
  have own : ∀ other ∈ [request], StaysQuoted runtime other := by simpa using quoted
  exact Script.always_mono _
    (fun before after _ step => settled_step_within own number before after step)
    (settled_request [request] request (by simp) number built)

theorem record_ends (request : Request) (upload : Upload)
    (present : carried runtime request = some upload) (quoted : StaysQuoted runtime request)
    (built : ∀ clt, upload = .user clt → number.isSome = true) (world : World)
    (least : bound ≤ world.failedCalls) (holds : KeepsClients number world) :
    LoneEnds number upload bound
      (fun _ later => (slotAt upload.place world).put runtime upload =
        some (slotAt upload.place later))
      (Steps.dataReceived runtime request) world := by
  obtain ⟨plain, meaning⟩ := quoted.1 upload present
  have still :=
    Footprint.undisturbed_refl slotAt World.failedCalls (KeepsClients number) (· = upload.place)
  have stores : LoneEnds number upload bound (Stored runtime upload (slotAt upload.place world))
      (Steps.store runtime upload) world := store_ends plain meaning built world least holds
  have silent (script : Steps Unit) (ends : LoneEnds number upload bound
      (Stored runtime upload (slotAt upload.place world)) script world) :
      LoneEnds number upload bound (fun _ later => (slotAt upload.place world).put runtime upload =
        some (slotAt upload.place later)) (script >>= fun _ => pure (none : Option Text)) world :=
    valid_unspoiled_bind (fun _ _ moved => moved.grows) still _ _ world ends
      (fun _ => Script.always_pure _ _)
      (fun _ later quiet stored => lone_pure _ later quiet.ge fun last moved => by
        rw [lone_slot _ _ moved]
        exact stored)
      fun failure later _ stored => stored
  rcases Steps.received_record runtime request upload present with shape | ⟨-, shape⟩ <;> rw [shape]
  · exact silent _ stores
  · refine silent _ (Script.valid_recover still _ _ world (fun _ _ _ _ => trivial) stores
      (fun _ _ stored => stored) fun failure later ended last moved => ?_)
    have more := moved.grows
    refine ⟨le_trans ended.1 more, fun same => ?_⟩
    have least := ended.1
    rw [Stored, lone_slot _ _ moved]
    exact ended.2 (by omega)

/-- Unless a call fails, a request has made its changes, whoever came between. -/
theorem request_ends (request : Request) (quoted : StaysQuoted runtime request)
    (built : ∀ clt, carried runtime request = some (.user clt) → number.isSome = true)
    (own : ∀ place, Touched (changesOf runtime [request]) place → mine place) (world : World)
    (least : bound ≤ world.failedCalls) (holds : KeepsClients number world) :
    Script.Ends (Undisturbed slotAt World.failedCalls (KeepsClients number) mine)
      (Unspoiled World.failedCalls bound fun _ later =>
        Effect slotAt (Slot.put runtime) mine (changesOf runtime [request]) world later ∧
          KeepsClients number later)
      (Steps.dataReceived runtime request) world := by
  have within := request_within request quoted built
  cases present : carried runtime request with
  | none =>
      rw [changes_none request present] at within ⊢
      have still : (Steps.dataReceived runtime request).AlwaysFrom (KeepsClients number)
          fun before after _ => Footprint.Undisturbed slotAt World.failedCalls
            (KeepsClients number) mine before after :=
        Script.always_mono _ (fun _ _ _ step => Footprint.undisturbed_mono
          (fun place _ => by simp [Touched]) _ _ step) within
      refine valid_mono _ _ (fun _ _ _ _ => trivial) (fun _ later moved => ?_)
        (Footprint.ends_undisturbed _ world holds still)
      refine ⟨le_trans least moved.grows, fun _ => ⟨fun place here => ?_, moved.stays holds⟩⟩
      rw [applyAt, moved.places place here]
  | some upload =>
      rw [changes_some request upload present] at within own ⊢
      have touched (place : Place) : Touched [(upload.place, upload)] place ↔
          place = upload.place := by simp [Touched, eq_comm]
      simp only [touched] at own
      have lone : (Steps.dataReceived runtime request).AlwaysFrom (KeepsClients number)
          fun before after _ => Within slotAt World.failedCalls (KeepsClients number)
            (· = upload.place) before after :=
        Script.always_mono _ (fun before after _ step => Footprint.undisturbed_mono
          (fun place differs here => differs ((touched place).mp here)) before after step) within
      refine valid_mono _ _ (fun _ _ _ _ => trivial) (fun _ later ended => ?_)
        (Footprint.ends_beside upload.place (own _ rfl) _ world holds lone
          (record_ends request upload present quoted (fun clt same => built clt (same ▸ present))
            world least holds))
      refine ⟨ended.1.1, fun quiet => ⟨fun place here => ?_, ended.2.1⟩⟩
      simp only [applyAt]
      split_ifs with same
      · subst same
        rw [ended.1.2 quiet]
        rfl
      · rw [ended.2.2 place here (Ne.symm same)]

def ClientsBuilt (runtime : Runtime) (requests : List Request) (number : Option Nat) : Prop :=
  ∀ request ∈ requests, ∀ clt, carried runtime request = some (.user clt) → number.isSome = true

theorem loop_performs (requests : List Request)
    (quoted : ∀ request ∈ requests, StaysQuoted runtime request)
    (built : ClientsBuilt runtime requests number)
    (own : ∀ place, Touched (changesOf runtime requests) place → mine place) :
    Performs slotAt World.failedCalls (KeepsClients number) (Slot.put runtime) mine
      (changesOf runtime requests) (Steps.loop runtime requests) := by
  induction requests with
  | nil => exact Footprint.performs_pure []
  | cons request requests ih =>
      have touched (some : List Request) (fewer : ∀ other ∈ some, other ∈ request :: requests)
          (place : Place) (here : Touched (changesOf runtime some) place) : mine place := by
        refine own place ((touched_changes runtime _ place).mpr ?_)
        obtain ⟨other, member, rest⟩ := (touched_changes runtime some place).mp here
        exact ⟨other, fewer other member, rest⟩
      have rest := ih (fun other member => quoted other (List.mem_cons_of_mem _ member))
        (fun other member => built other (List.mem_cons_of_mem _ member))
        (touched requests fun other member => List.mem_cons_of_mem _ member)
      have makes : Makes (ServerStep runtime (Permits.requests runtime requests))
          (Steps.loop runtime requests) :=
        Steps.makes_loop runtime requests requests fun _ own => own
      have follows (written : Option Text) : Performs slotAt World.failedCalls
          (KeepsClients number) (Slot.put runtime) mine (changesOf runtime requests) (do
            let rest ← Steps.loop runtime requests
            return written.toList ++ rest) := by
        have both := Footprint.performs_bind (changesOf runtime requests) []
          (Steps.loop runtime requests) (fun rest => pure (written.toList ++ rest)) rest
          (fun _ => Footprint.performs_pure _) fun _ => Script.always_pure _ _
        rwa [List.append_nil] at both
      have gets : Performs slotAt World.failedCalls (KeepsClients number) (Slot.put runtime) mine
          (changesOf runtime []) Steps.getContext := by
        intro bound world least holds
        have none : ∀ request ∈ ([] : List Request), StaysQuoted runtime request := by simp
        refine valid_mono _ _ (fun _ _ _ _ => trivial) (fun _ later moved => ?_)
          (Footprint.ends_undisturbed _ world holds (Script.always_mono _
            (fun before after _ step => Footprint.undisturbed_mono
              (fun place _ => by simp [Touched, changesOf]) _ _
              (settled_step_within none number before after step))
            (Steps.makes_get_context runtime)))
        exact ⟨le_trans least moved.grows,
          fun _ _ => ⟨fun place here => by rw [← moved.places place here]; rfl, moved.stays holds⟩⟩
      rw [changes_cons, ← List.nil_append (changesOf runtime [request] ++ _)]
      refine Footprint.performs_bind _ _ _ _ gets (fun _ => ?_) fun _ => adds_of_makes runtime
        (.requests runtime (request :: requests)) _ ?_
      · refine Footprint.performs_bind _ _ _ _ (fun bound world least holds => ?_) follows
          fun written => adds_of_makes runtime (.requests runtime requests) _
            (Steps.makes_bind _ _ makes fun _ => Script.always_pure _ _)
        exact valid_mono _ _ (fun _ _ _ _ => trivial)
          (fun _ later ended => ⟨ended.1, fun quiet _ => ended.2 quiet⟩)
          (request_ends request (quoted request (by simp)) (built request (by simp))
            (touched [request] (by simp)) world least holds)
      · refine Steps.makes_bind _ _ (Steps.makes_request runtime _ request (by simp)) fun _ =>
          Steps.makes_bind _ _ (Steps.makes_loop runtime _ requests
            fun _ own => List.mem_cons_of_mem _ own) fun _ => Script.always_pure _ _

theorem loop_within (requests : List Request)
    (quoted : ∀ request ∈ requests, StaysQuoted runtime request)
    (built : ClientsBuilt runtime requests number) :
    (Steps.loop runtime requests).AlwaysFrom (KeepsClients number) fun before after _ =>
      Within slotAt World.failedCalls (KeepsClients number) (Touched (changesOf runtime requests))
        before after :=
  Script.always_mono _
    (fun before after _ step => settled_step_within quoted number before after step)
    (Steps.makes_loop_each runtime requests fun request member =>
      settled_request requests request member number (built request member))

theorem slot_ready (place : Place) (world : World) :
    slotAt place (ClientManager.ready world) = slotAt place world := by
  obtain ⟨tables, images, clients⟩ := world
  cases clients <;> cases place <;> rfl

/-- A request with a user leads where it leads when the manager is there already. -/
theorem received_ready (request : Request) (clt : Client) (world : World)
    (present : carried runtime request = some (.user clt)) :
    (exec (Server.dataReceived runtime request) (ClientManager.ready world)).2 =
      (exec (Server.dataReceived runtime request) world).2 := by
  have stored := (carried_iff runtime request (.user clt)).mp present
  have again : ClientManager.ready (ClientManager.ready world) = ClientManager.ready world := by
    simp only [client_ready, Option.getD_some]
  have same : exec ((Upload.user clt).store runtime) (ClientManager.ready world) =
      exec ((Upload.user clt).store runtime) world := by
    change exec (ClientManager.addClient runtime clt) _ =
      exec (ClientManager.addClient runtime clt) _
    simp only [ClientManager.addClient, ClientManager.instance, exec_bind, exec_modify, again]
  rw [received_upload runtime request _ _ stored, received_upload runtime request _ _ stored, same]

theorem received_effect (request : Request) (quoted : StaysQuoted runtime request) (world : World)
    (quiet : (exec (Server.dataReceived runtime request) world).2.failedCalls = world.failedCalls) :
    Effect slotAt (Slot.put runtime) (fun _ => True) (changesOf runtime [request]) world
      (exec (Server.dataReceived runtime request) world).2 := by
  have ended (start : World) (same : start.failedCalls = world.failedCalls)
      (again : (exec (Server.dataReceived runtime request) start).2 =
        (exec (Server.dataReceived runtime request) world).2)
      (built : ∀ clt, carried runtime request = some (.user clt) →
        (start.clientManager.map Manager.number).isSome = true) :
      Effect slotAt (Slot.put runtime) (fun _ => True) (changesOf runtime [request]) start
        (exec (Server.dataReceived runtime request) world).2 := by
    have alone := Script.exec_of_valid (Footprint.undisturbed_refl slotAt World.failedCalls _ _) _
      start (request_ends request quoted built (fun _ _ => trivial) start le_rfl
        fun _ there => there)
    rw [(Steps.implements_data_received runtime request start trivial).1] at alone
    simp only [again] at alone
    exact (alone.2 (quiet.trans same.symm)).1
  cases present : carried runtime request with
  | none => exact ended world rfl rfl fun clt same => by rw [present] at same; cases same
  | some upload =>
      cases upload with
      | user clt =>
          have ready := ended (ClientManager.ready world) (client_ready_only world).failedCalls
            (received_ready request clt world present) fun _ _ => by
              rw [client_ready]
              cases world.clientManager <;> rfl
          intro place own
          rw [← slot_ready place world]
          exact ready place own
      | schedule sch =>
          refine ended world rfl rfl fun clt same => ?_
          rw [present] at same
          cases same
      | shared sch => exact ended world rfl rfl fun clt same => by rw [present] at same; cases same

theorem receive_effect (requests : List Request) (world : World)
    (quoted : ∀ request ∈ requests, StaysQuoted runtime request)
    (quiet : (Server.receive runtime requests world).failedCalls = world.failedCalls) :
    Effect slotAt (Slot.put runtime) (fun _ => True) (changesOf runtime requests) world
      (Server.receive runtime requests world) := by
  induction requests generalizing world with
  | nil => exact fun _ _ => rfl
  | cons request requests ih =>
      obtain ⟨first, rest⟩ := receive_quiet_cons runtime request requests world quiet
      have alone := received_effect request (quoted request (by simp)) world first
      have later := ih _ (fun other member => quoted other (List.mem_cons_of_mem _ member)) rest
      intro place own
      rw [changes_cons, Footprint.apply_at_append, alone place own, Option.bind_some]
      exact later place own

theorem changes_flatten (loops : List (List Request)) :
    (loops.map (changesOf runtime)).flatten = changesOf runtime loops.flatten := by
  simp only [changesOf, List.filterMap_flatten, List.map_flatten, List.map_map]
  rfl

def recordsAt (runtime : Runtime) (place : Place) (requests : List Request) :
    List (Place × Upload) :=
  (changesOf runtime requests).filter fun change => change.1 = place

/-- The records of different loops have different places. -/
def OwnRecords (runtime : Runtime) (loops : List (List Request)) : Prop :=
  loops.Pairwise fun own other => ∀ request ∈ own, ∀ later ∈ other, ∀ upload stored,
    carried runtime request = some upload → carried runtime later = some stored →
      upload.place ≠ stored.place

end

/-- The manager of the users is there, or no request of the loops has a user. -/
def FindsClients (runtime : Runtime) (loops : List (List Request)) (world : World) : Prop :=
  world.clientManager.isSome = true ∨
    ∀ request ∈ loops.flatten, ∀ clt, carried runtime request ≠ some (.user clt)

/-- Loops that end well have made their changes, whatever the order of their turns. -/
theorem loops_effect (runtime : Runtime) (loops : List (List Request)) (world : World)
    (schedule : List Nat) (quoted : ∀ request ∈ loops.flatten, StaysQuoted runtime request)
    (apart : OwnRecords runtime loops) (built : FindsClients runtime loops world)
    (well : ∀ script ∈ (Pool.run schedule (process runtime [] loops world)).scripts,
      ∃ written, script = .ended (.ok written))
    (quiet : (Pool.run schedule (process runtime [] loops world)).state.failedCalls =
      world.failedCalls) :
    Effect slotAt (Slot.put runtime) (fun _ => True) (changesOf runtime loops.flatten) world
      (Pool.run schedule (process runtime [] loops world)).state := by
  let number := world.clientManager.map Manager.number
  have finds : ClientsBuilt runtime loops.flatten number := by
    intro request member clt present
    rcases built with there | none
    · rwa [Option.isSome_map]
    · exact absurd present (none request member clt)
  have keeps : List.Forall₂
      (Footprint.Keeps slotAt World.failedCalls (KeepsClients number) (Slot.put runtime))
      (process runtime [] loops world).scripts ([] :: loops.map (changesOf runtime)) := by
    refine .cons ⟨Script.always_pure _ _, Footprint.performs_pure _⟩ ?_
    rw [List.forall₂_map_left_iff, List.forall₂_map_right_iff, List.forall₂_same]
    intro own member
    have all (request : Request) (there : request ∈ own) : request ∈ loops.flatten :=
      List.mem_flatten.mpr ⟨own, member, there⟩
    have some_built : ClientsBuilt runtime own number :=
      fun request there => finds request (all request there)
    exact ⟨loop_within own (fun request there => quoted request (all request there)) some_built,
      loop_performs own (fun request there => quoted request (all request there)) some_built
        fun _ touched => touched⟩
  have disjoint : Apart ([] :: loops.map (changesOf runtime)) := by
    refine List.pairwise_cons.mpr ⟨fun _ _ place touched => by simp [Touched] at touched, ?_⟩
    refine List.pairwise_map.mpr (apart.imp fun different place here there => ?_)
    obtain ⟨request, member, upload, present, same⟩ := (touched_changes runtime _ place).mp here
    obtain ⟨later, also, stored, carries, again⟩ := (touched_changes runtime _ place).mp there
    exact different request member later also upload stored present carries (same.trans again.symm)
  have together := Footprint.run_apart _ schedule _ disjoint (fun _ there => there) keeps quiet well
  rwa [List.flatten_cons, List.nil_append, changes_flatten] at together

/-- While the records of different loops have different keys, the manager of their users is there
and no call fails, every order of turns in which all loops end well leaves memory and rows of
every key as the requests leave them when they are received one after another. -/
theorem loops_as_received (runtime : Runtime) (loops : List (List Request)) (world : World)
    (schedule : List Nat) (quoted : ∀ request ∈ loops.flatten, StaysQuoted runtime request)
    (apart : OwnRecords runtime loops) (built : FindsClients runtime loops world)
    (well : ∀ script ∈ (Pool.run schedule (process runtime [] loops world)).scripts,
      ∃ written, script = .ended (.ok written))
    (quiet : (Pool.run schedule (process runtime [] loops world)).state.failedCalls =
      world.failedCalls)
    (received : (Server.receive runtime loops.flatten world).failedCalls = world.failedCalls) :
    ∀ place, slotAt place (Pool.run schedule (process runtime [] loops world)).state =
      slotAt place (Server.receive runtime loops.flatten world) := by
  intro place
  have together := loops_effect runtime loops world schedule quoted apart built well quiet place
    trivial
  have alone := receive_effect loops.flatten world quoted received place trivial
  exact Option.some.inj (together.symm.trans alone)

def World.ready : World := ClientManager.ready (.opened Tables.empty)

/-- Two loops that go in step, each with a user of its own. -/
theorem loops_as_received_users :
    slotAt (.user 1) (Pool.run (inStep 8) (process .standard []
      [[postUser "1" "A"], [postUser "2" "B"]] .ready)).state =
      slotAt (.user 1) (Server.receive .standard [postUser "1" "A", postUser "2" "B"] .ready) ∧
    (slotAt (.user 1) (Server.receive .standard [postUser "1" "A", postUser "2" "B"]
      .ready)).rows = [[.bigint 1, .text ['A'], .text []]] := by
  have first : carried .standard (postUser "1" "A") = some (.user ⟨1, ['A'], []⟩) := rfl
  have second : carried .standard (postUser "2" "B") = some (.user ⟨2, ['B'], []⟩) := rfl
  have scripts : (Pool.run (inStep 8) (process .standard []
      [[postUser "1" "A"], [postUser "2" "B"]] .ready)).scripts =
        [.ended (.ok []), .ended (.ok []), .ended (.ok [])] := rfl
  refine ⟨loops_as_received .standard [[postUser "1" "A"], [postUser "2" "B"]]
    .ready (inStep 8) ?_ ?_ (.inl rfl) ?_ rfl rfl (.user 1), rfl⟩
  · refine List.forall_mem_cons.mpr ⟨?_, List.forall_mem_singleton.mpr ?_⟩
    · exact quoted_of_meant _ _ (.user ⟨1, ['A'], []⟩) first rfl rfl
    · exact quoted_of_meant _ _ (.user ⟨2, ['B'], []⟩) second rfl rfl
  · refine List.pairwise_pair.mpr (List.forall_mem_singleton.mpr
      (List.forall_mem_singleton.mpr fun upload stored carries keeps => ?_))
    rw [← Option.some.inj (first.symm.trans carries), ← Option.some.inj (second.symm.trans keeps)]
    exact fun same => by cases same
  · rw [scripts]
    simp

/-- Requests rearranged without exchanging two records of one key leave memory and rows of every
key the same, while no call fails. -/
theorem received_rearranged (runtime : Runtime) (requests arranged : List Request) (world : World)
    (perm : arranged.Perm requests)
    (kept : ∀ place, recordsAt runtime place arranged = recordsAt runtime place requests)
    (quoted : ∀ request ∈ requests, StaysQuoted runtime request)
    (quiet : (Server.receive runtime requests world).failedCalls = world.failedCalls)
    (silent : (Server.receive runtime arranged world).failedCalls = world.failedCalls) :
    ∀ place, slotAt place (Server.receive runtime arranged world) =
      slotAt place (Server.receive runtime requests world) := by
  intro place
  have first := receive_effect requests world quoted quiet place trivial
  have second := receive_effect arranged world
    (fun request member => quoted request (perm.mem_iff.mp member)) silent place trivial
  rw [← Footprint.apply_at_filter] at first second
  have same := kept place
  simp only [recordsAt] at same
  rw [same] at second
  exact Option.some.inj (second.symm.trans first)

/-- The second user comes first; the first is stored twice in either order. -/
theorem received_rearranged_users :
    let requests := [postUser "1" "A", postUser "2" "B", postUser "1" "C"]
    let arranged := [postUser "2" "B", postUser "1" "A", postUser "1" "C"]
    slotAt (.user 1) (Server.receive .standard arranged (.opened Tables.empty)) =
      slotAt (.user 1) (Server.receive .standard requests (.opened Tables.empty)) := by
  intro requests arranged
  have first : carried .standard (postUser "1" "A") = some (.user ⟨1, ['A'], []⟩) := rfl
  have second : carried .standard (postUser "2" "B") = some (.user ⟨2, ['B'], []⟩) := rfl
  have third : carried .standard (postUser "1" "C") = some (.user ⟨1, ['C'], []⟩) := rfl
  refine received_rearranged .standard requests arranged (.opened Tables.empty)
    (List.Perm.swap _ _ _) ?_ ?_ rfl rfl (.user 1)
  · intro place
    simp only [recordsAt, changesOf, requests, arranged, List.filterMap_cons, List.filterMap_nil,
      first, second, third, List.map_cons, List.map_nil, Upload.place]
    by_cases one : Place.user 1 = place
    · subst one
      rfl
    · simp [List.filter_cons, one]
  · refine List.forall_mem_cons.mpr ⟨?_, List.forall_mem_cons.mpr
      ⟨?_, List.forall_mem_singleton.mpr ?_⟩⟩
    · exact quoted_of_meant _ _ (.user ⟨1, ['A'], []⟩) first rfl rfl
    · exact quoted_of_meant _ _ (.user ⟨2, ['B'], []⟩) second rfl rfl
    · exact quoted_of_meant _ _ (.user ⟨1, ['C'], []⟩) third rfl rfl

end TfuServer
