import TfuServer.Server.OwnRecords
import TfuServer.Server.PostedLists
import TfuServer.Server.SharedRows

/-!
# Posted, then recommended

Loops that post shared schedules under ids of their own can take their turns in any order: once
they have ended, the last schedule of each id is recommended, each of them once, with the count
of its likes for that of its shares.
-/

namespace TfuServer

set_option autoImplicit false

open Numeral Program
open Json (survives)
open Sql (Cell DataRow Row firstKey)
open Footprint (applyAt)

section
variable {runtime : Runtime}

theorem writes_place (place : Place) (request : Request) (upload : Upload)
    (present : carried runtime request = some upload) :
    writes runtime place.table place.key request = true ↔ upload.place = place := by
  rw [writes_iff]
  constructor
  · rintro ⟨own, same, table, key⟩
    obtain rfl := Option.some.inj (present.symm.trans same)
    exact Place.ext_key _ _ (by rw [Upload.place_table, table]) (by rw [Upload.place_key, key])
  · rintro rfl
    exact ⟨upload, present, (Upload.place_table upload).symm, (Upload.place_key upload).symm⟩

theorem put_rows (upload : Upload) (finite : upload.writable = true) (slot after : Slot)
    (single : slot.rows.length ≤ 1) (put : slot.put runtime upload = some after) :
    ∃ branch cells, upload.lands runtime branch = some cells ∧ after.rows = [cells] := by
  rw [Slot.put, if_pos finite] at put
  obtain ⟨cells, lands, rfl⟩ := Option.map_eq_some_iff.mp put
  refine ⟨_, cells, lands, ?_⟩
  cases rows : slot.rows with
  | nil => rfl
  | cons row others =>
      rw [rows, List.length_cons] at single
      obtain rfl := List.eq_nil_of_length_eq_zero (Nat.le_zero.mp (Nat.le_of_succ_le_succ single))
      rfl

variable (runtime) in
theorem last_upload_none_iff (name : TableName) (k : Int) (requests : List Request) :
    lastUpload runtime name k requests = none ↔ requests.any (writes runtime name k) = false := by
  induction requests with
  | nil => exact iff_of_true rfl rfl
  | cons request requests ih =>
      rw [last_upload_cons, List.any_cons]
      cases later : requests.any (writes runtime name k) with
      | true =>
          rw [later] at ih
          simp [ih]
      | false =>
          cases own : writes runtime name k request with
          | false => simp
          | true =>
              obtain ⟨upload, present, -⟩ := (writes_iff runtime name k request).mp own
              simp [present]

theorem changes_elsewhere (place : Place) (request : Request)
    (other : writes runtime place.table place.key request = false) :
    ∀ change ∈ changesOf runtime [request], change.1 ≠ place := by
  cases present : carried runtime request with
  | none => simp [changes_none request present]
  | some upload =>
      rw [changes_some request upload present]
      refine List.forall_mem_singleton.mpr fun here => ?_
      rw [(writes_place place request upload present).mpr here] at other
      cases other

/-- Only the document of a schedule cannot always be written. -/
theorem writable_elsewhere (upload : Upload) (other : upload.table ≠ .schedule) :
    upload.writable = true := by
  cases upload with
  | user clt => rfl
  | schedule sch => exact absurd rfl other
  | shared sch => rfl

theorem rows_of_last (place : Place) (notSchedule : place.table ≠ .schedule)
    (requests : List Request) (slot after : Slot)
    (single : slot.rows.length ≤ 1)
    (applied : applyAt (Slot.put runtime) place (changesOf runtime requests) slot = some after) :
    (lastUpload runtime place.table place.key requests = none → after.rows = slot.rows) ∧
      ∀ upload, lastUpload runtime place.table place.key requests = some upload →
        ∃ branch cells, upload.lands runtime branch = some cells ∧ after.rows = [cells] := by
  induction requests generalizing slot with
  | nil =>
      obtain rfl := Option.some.inj applied
      exact ⟨fun _ => rfl, fun upload last => by cases last⟩
  | cons request requests ih =>
      rw [changes_cons, Footprint.apply_at_append] at applied
      obtain ⟨middle, first, rest⟩ := Option.bind_eq_some_iff.mp applied
      have unwritten := last_upload_none_iff runtime place.table place.key requests
      rw [last_upload_cons]
      cases own : writes runtime place.table place.key request with
      | false =>
          have untouched := changes_elsewhere place request own
          rw [Footprint.apply_at_absent _ place _ slot untouched] at first
          obtain rfl := Option.some.inj first
          cases later : requests.any (writes runtime place.table place.key) with
          | true => simpa using ih slot single rest
          | false => simpa [unwritten.mpr later] using ih slot single rest
      | true =>
          obtain ⟨upload, present, -⟩ := (writes_iff runtime _ _ request).mp own
          obtain rfl := (writes_place place request upload present).mp own
          rw [changes_some request upload present, applyAt, if_pos rfl] at first
          obtain ⟨put, stored, same⟩ := Option.bind_eq_some_iff.mp first
          obtain rfl : put = middle := Option.some.inj same
          have finite := writable_elsewhere upload (Upload.place_table upload ▸ notSchedule)
          obtain ⟨branch, cells, lands, rows⟩ := put_rows upload finite slot put single stored
          obtain ⟨kept, last⟩ := ih put (by simp [rows]) rest
          cases later : requests.any (writes runtime upload.place.table upload.place.key) with
          | true =>
              have written := (not_congr unwritten).mpr (by simp [later])
              exact ⟨fun absent => absurd absent written, last⟩
          | false =>
              refine ⟨fun absent => by simp [present] at absent, fun other same => ?_⟩
              obtain rfl : upload = other := by simpa [present] using same
              exact ⟨branch, cells, lands, (kept (unwritten.mpr later)).trans rows⟩

theorem last_upload_writes (name : TableName) (k : Int) (requests : List Request)
    (upload : Upload) (last : lastUpload runtime name k requests = some upload) :
    upload.table = name ∧ upload.key = k ∧
      ∃ request ∈ requests, carried runtime request = some upload := by
  unfold lastUpload at last
  obtain ⟨request, latest, present⟩ := Option.bind_eq_some_iff.mp last
  obtain ⟨member, wrote⟩ := List.mem_filter.mp (List.mem_of_getLast? latest)
  obtain ⟨own, also, table, key⟩ := (writes_iff runtime _ _ _).mp wrote
  obtain rfl := Option.some.inj (present.symm.trans also)
  exact ⟨table, key, request, member, present⟩

theorem writes_upload {requests : List Request} (name : TableName) (k : Int)
    (row : Row (schema.columns name)) (written : Writes runtime requests name k row)
    (notImage : name ≠ .s3) :
    ∃ upload, upload.table = name ∧ upload.key = k ∧
      ∃ request ∈ requests, carried runtime request = some upload := by
  cases written with
  | image request member about id => exact absurd rfl notImage
  | record request member upload plain present meaning branch document kept row cells =>
      exact ⟨upload, rfl, rfl, request, member, present⟩

variable {requests : List Request} {before after : World}

theorem rows_at_key (effect : Footprint.Effect slotAt (Slot.put runtime) (fun _ => True)
      (changesOf runtime requests) before after) (upload : Upload)
    (notSchedule : upload.table ≠ .schedule) (empty : before.tables upload.table = [])
    (own : Upload)
    (last : lastUpload runtime upload.table upload.key requests = some own) :
    ∃ row branch, Keyed.rowsOf firstKey (after.tables upload.table) upload.key = [row] ∧
      own.lands runtime branch = some row.cells := by
  have none_before : (slotAt upload.place before).rows = [] := by
    rw [slot_rows, Upload.rowsOf, empty]
    rfl
  obtain ⟨-, there⟩ := rows_of_last upload.place (Upload.place_table upload ▸ notSchedule)
    requests _ _ (by simp [none_before])
    (effect upload.place trivial)
  rw [Upload.place_table, Upload.place_key] at there
  obtain ⟨branch, cells, lands, rows⟩ := there own last
  rw [slot_rows] at rows
  obtain ⟨row, single, rfl⟩ := List.map_eq_singleton_iff.mp rows
  exact ⟨row, branch, single, lands⟩

/-- A table that was empty has a row for the last record of each key, and no other row. -/
theorem table_of_last (effect : Footprint.Effect slotAt (Slot.put runtime) (fun _ => True)
      (changesOf runtime requests) before after)
    (grown : OnlyGrown runtime requests before.tables after.tables) (name : TableName)
    (notImage : name ≠ .s3) (notSchedule : name ≠ .schedule) (empty : before.tables name = [])
    (row : Row (schema.columns name)) (member : row ∈ after.tables name) :
    ∃ upload branch, firstKey row = some upload.key ∧
      lastUpload runtime name upload.key requests = some upload ∧
      upload.lands runtime branch = some row.cells ∧
      Keyed.rowsOf firstKey (after.tables name) upload.key = [row] := by
  obtain old | ⟨k, written⟩ := grown.whole name row member
  · rw [empty] at old
    cases old
  obtain ⟨upload, rfl, rfl, request, within, present⟩ := writes_upload name k row written notImage
  have has := writes_key _ _ row written
  have stored : lastUpload runtime upload.table upload.key requests ≠ none := by
    rw [Ne, last_upload_none_iff, Bool.not_eq_false, List.any_eq_true]
    exact ⟨request, within, (writes_iff runtime _ _ _).mpr ⟨upload, present, rfl, rfl⟩⟩
  obtain ⟨own, last⟩ := Option.ne_none_iff_exists'.mp stored
  obtain ⟨single, branch, rows, lands⟩ := rows_at_key effect upload notSchedule empty own last
  have here : row ∈ Keyed.rowsOf firstKey (after.tables upload.table) upload.key :=
    List.mem_filter.mpr ⟨member, by simpa using has⟩
  rw [rows, List.mem_singleton] at here
  subst here
  obtain ⟨-, key, -⟩ := last_upload_writes _ _ _ _ last
  rw [← key] at has last rows
  exact ⟨own, branch, has, last, lands, rows⟩

end

section
variable {Item Value : Type} {read : Item → Except Failure Value}

theorem map_ok_related_iff (items : List Item) (values : List Value) :
    items.mapM read = .ok values ↔
      List.Forall₂ (fun item value => read item = .ok value) items values := by
  induction items generalizing values with
  | nil =>
      rw [List.forall₂_nil_left_iff, List.mapM_nil]
      exact ⟨fun same => (Except.ok.inj same).symm, fun same => congrArg Except.ok same.symm⟩
  | cons item items ih =>
      rw [List.forall₂_cons_left_iff, List.mapM_cons]
      constructor
      · intro mapped
        obtain ⟨value, first, tail⟩ := (bind_ok_iff _ _ _).mp mapped
        obtain ⟨rest, others, whole⟩ := (bind_ok_iff _ _ _).mp tail
        exact ⟨value, rest, first, (ih rest).mp others, (Except.ok.inj whole).symm⟩
      · rintro ⟨value, rest, first, others, rfl⟩
        rw [first, (ih rest).mpr others]
        rfl

theorem related_mem_iff {items : List Item} {values : List Value}
    (each : List.Forall₂ (fun item value => read item = .ok value) items values) (value : Value) :
    value ∈ values ↔ ∃ item ∈ items, read item = .ok value := by
  induction each with
  | nil => simp
  | cons first rest ih =>
      rw [List.mem_cons, ih, List.exists_mem_cons_iff, first, Except.ok.injEq]
      exact or_congr_left eq_comm

theorem related_pairwise {items : List Item} {values : List Value} (differ : Value → Value → Prop)
    (each : List.Forall₂ (fun item value => read item = .ok value) items values)
    (apart : items.Pairwise fun item other => ∀ value later, read item = .ok value →
      read other = .ok later → differ value later) : values.Pairwise differ := by
  induction each with
  | nil => exact List.Pairwise.nil
  | cons first rest ih =>
      obtain ⟨own, others⟩ := List.pairwise_cons.mp apart
      refine List.pairwise_cons.mpr ⟨fun later member => ?_, ih others⟩
      obtain ⟨other, within, reads⟩ := (related_mem_iff rest later).mp member
      exact own other within _ later first reads

end

section
variable (runtime : Runtime)

/-- The columns of the schedule and the texts of its descriptions come back as they are. -/
structure Legible (sch : SharedSchedule) : Prop where
  plain : ∀ field ∈ (Upload.shared sch).plainFields, '\'' ∉ field ∧ '\\' ∉ field
  contents : ∀ description ∈ sch.descriptionList,
    (∀ c ∈ description.waypointContent, survives runtime.unicodeAll c = true) ∧
      runtime.newtonsoft.dateText description.waypointContent = none

variable {runtime}

theorem legible_back (sch : SharedSchedule) (legible : Legible runtime sch)
    (single : IsSingle runtime.newtonsoft sch.rating) (branch : Branch)
    (row : Row (schema.columns .sharedSchedule))
    (lands : (Upload.shared sch).lands runtime branch = some row.cells) :
    convertDataRowToSharedSchedule runtime.newtonsoft row.dataRow =
      .ok { sch with sharedCount := sch.likes } := by
  have meaning := meant_of_plain (.shared sch) fun field member =>
    Sql.plain_of_no_special field (legible.plain field member).1 (legible.plain field member).2
  simp only [Upload.lands, meaning, Option.bind_eq_bind, Option.bind_some] at lands
  obtain ⟨document, kept, cells⟩ := Option.bind_eq_some_iff.mp lands
  have stored : (Upload.shared sch).stored runtime branch = .ok document := by
    cases written : (Upload.shared sch).stored runtime branch <;> rw [written] at kept
    · cases kept
    · exact congrArg Except.ok (Option.some.inj kept)
  obtain ⟨layout, rfl⟩ := stored_shared runtime sch branch document stored
  have read (description : WaypointDescription) (member : description ∈ sch.descriptionList) :
      storedRead runtime.unicodeAll description.waypointContent =
        some description.waypointContent :=
    (Json.read_stored_iff _ _).mpr (legible.contents description member).1
  have back : sch.descriptionList.map (fun description => description.withContent
      (heldText runtime.newtonsoft
        ((storedRead runtime.unicodeAll description.waypointContent).getD []))) =
      sch.descriptionList := by
    refine (List.map_congr_left fun description member => ?_).trans (List.map_id _)
    rw [read description member, Option.getD_some,
      (held_text_iff _ _).mpr (legible.contents description member).2]
    rfl
  rw [convert_shared_row runtime sch _ row single cells,
    reload_descriptions runtime.newtonsoft runtime.unicodeAll layout sch,
    if_pos fun description member => by rw [read description member]; rfl, back]
  rfl

theorem meant_shared (sch : SharedSchedule) (plain : Upload)
    (meaning : (Upload.shared sch).meant = some plain) :
    ∃ kept : SharedSchedule, plain = .shared kept ∧ kept.rating = sch.rating ∧
      kept.descriptionList = sch.descriptionList := by
  simp only [Upload.meant, Option.bind_eq_bind, Option.bind_eq_some_iff, Option.some.injEq]
    at meaning
  obtain ⟨titleText, -, descriptionText, -, rfl⟩ := meaning
  exact ⟨_, rfl, rfl, rfl⟩

theorem cells_finite (document : Text) (sch : SharedSchedule) (cells : List Cell)
    (written : (Upload.shared sch).cells runtime.settings document = some cells) :
    sch.rating.isFinite = true := by
  cases rating : sch.rating with
  | finite number => rfl
  | nonFinite kind => simp [Upload.cells, rating] at written

theorem lands_finite (sch : SharedSchedule) (branch : Branch) (cells : List Cell)
    (lands : (Upload.shared sch).lands runtime branch = some cells) :
    sch.rating.isFinite = true := by
  simp only [Upload.lands, Option.bind_eq_bind, Option.bind_eq_some_iff] at lands
  obtain ⟨plain, meaning, document, -, written⟩ := lands
  obtain ⟨kept, rfl, rating, -⟩ := meant_shared sch plain meaning
  rw [← rating]
  exact cells_finite document kept cells written

variable (runtime) in
/-- The last schedule of each id, once, and shared as often as it is liked. -/
structure LastOfEach (requests : List Request) (list : List SharedSchedule) : Prop where
  once : (list.map SharedSchedule.scheduleId).Nodup
  last : ∀ back, back ∈ list ↔ ∃ sch : SharedSchedule,
    lastUpload runtime .sharedSchedule sch.scheduleId.toInt requests = some (.shared sch) ∧
      back = { sch with sharedCount := sch.likes }

variable {requests : List Request} {before after : World}

section
variable (effect : Footprint.Effect slotAt (Slot.put runtime) (fun _ => True)
    (changesOf runtime requests) before after)
  (grown : OnlyGrown runtime requests before.tables after.tables)
  (empty : before.tables .sharedSchedule = [])
  (legible : ∀ request ∈ requests, ∀ sch, carried runtime request = some (.shared sch) →
    Legible runtime sch)
include legible

/-- The row of an id is read back as the last schedule of the id. -/
theorem last_read_back (sch : SharedSchedule) (last : lastUpload runtime .sharedSchedule
      sch.scheduleId.toInt requests = some (.shared sch)) (branch : Branch)
    (row : Row (schema.columns .sharedSchedule))
    (lands : (Upload.shared sch).lands runtime branch = some row.cells) :
    convertDataRowToSharedSchedule runtime.newtonsoft row.dataRow =
      .ok { sch with sharedCount := sch.likes } := by
  obtain ⟨-, -, request, within, present⟩ := last_upload_writes _ _ _ _ last
  exact legible_back sch (legible request within sch present)
    (carried_single runtime request sch present) branch row lands

include effect grown empty

theorem row_of_last (row : Row (schema.columns .sharedSchedule))
    (member : row ∈ after.tables .sharedSchedule) :
    ∃ sch : SharedSchedule, firstKey row = some sch.scheduleId.toInt ∧
      lastUpload runtime .sharedSchedule sch.scheduleId.toInt requests = some (.shared sch) ∧
      sch.rating.isFinite = true ∧
      convertDataRowToSharedSchedule runtime.newtonsoft row.dataRow =
        .ok { sch with sharedCount := sch.likes } := by
  obtain ⟨upload, branch, has, last, lands, -⟩ :=
    table_of_last effect grown .sharedSchedule (by decide) (by decide) empty row member
  obtain ⟨table, -⟩ := last_upload_writes _ _ _ _ last
  cases upload with
  | user clt => cases table
  | schedule sch => cases table
  | shared sch =>
      exact ⟨sch, has, last, lands_finite sch branch _ lands,
        last_read_back legible sch last branch row lands⟩

theorem rows_read_apart : (after.tables .sharedSchedule).Pairwise fun row other =>
    ∀ value later, convertDataRowToSharedSchedule runtime.newtonsoft row.dataRow = .ok value →
      convertDataRowToSharedSchedule runtime.newtonsoft other.dataRow = .ok later →
      value.scheduleId ≠ later.scheduleId := by
  have keys : (after.tables .sharedSchedule).Pairwise fun row other =>
      firstKey row ≠ firstKey other := by
    refine Keyed.keys_pairwise _ _ fun row member => ?_
    obtain ⟨upload, branch, has, -, -, single⟩ :=
      table_of_last effect grown .sharedSchedule (by decide) (by decide) empty row member
    exact ⟨upload.key, has, single⟩
  refine keys.imp_of_mem fun {row other} member also differ value later reads again same => ?_
  obtain ⟨sch, has, -, -, read⟩ := row_of_last effect grown empty legible row member
  obtain ⟨sch', has', -, -, read'⟩ := row_of_last effect grown empty legible other also
  obtain rfl := Except.ok.inj (read.symm.trans reads)
  obtain rfl := Except.ok.inj (read'.symm.trans again)
  exact differ (by rw [has, has', same])

theorem row_read_iff (back : SharedSchedule) :
    (∃ row ∈ after.tables .sharedSchedule,
        convertDataRowToSharedSchedule runtime.newtonsoft row.dataRow = .ok back) ↔
      ∃ sch : SharedSchedule,
        lastUpload runtime .sharedSchedule sch.scheduleId.toInt requests = some (.shared sch) ∧
          back = { sch with sharedCount := sch.likes } := by
  constructor
  · rintro ⟨row, member, read⟩
    obtain ⟨sch, -, last, -, again⟩ := row_of_last effect grown empty legible row member
    exact ⟨sch, last, Except.ok.inj (read.symm.trans again)⟩
  · rintro ⟨sch, last, rfl⟩
    obtain ⟨row, branch, single, lands⟩ := rows_at_key effect (.shared sch)
      (fun same => by cases same) empty _ last
    have within : row ∈ after.tables .sharedSchedule :=
      List.mem_of_mem_filter (single ▸ List.mem_singleton_self row)
    exact ⟨row, within, last_read_back legible sch last branch row lands⟩

theorem shuffled_last (call : Nat) :
    ∃ list, (shuffledRows runtime call after.tables).mapM
        (convertDataRowToSharedSchedule runtime.newtonsoft) = .ok list ∧
      (∀ sch ∈ list, sch.rating.isFinite = true) ∧ LastOfEach runtime requests list := by
  have mixed : (shuffledRows runtime call after.tables).Perm
      ((after.tables .sharedSchedule).map Row.dataRow) := runtime.shuffle_perm _ _
  have each : ∀ row ∈ shuffledRows runtime call after.tables, ∃ sch,
      convertDataRowToSharedSchedule runtime.newtonsoft row = .ok sch ∧
        sch.rating.isFinite = true := by
    intro row member
    obtain ⟨own, within, rfl⟩ := List.mem_map.mp (mixed.mem_iff.mp member)
    obtain ⟨sch, -, -, finite, read⟩ := row_of_last effect grown empty legible own within
    exact ⟨_, read, finite⟩
  obtain ⟨list, mapped, finite⟩ := (map_ok_iff _ _ _).mpr each
  have related := (map_ok_related_iff _ _).mp mapped
  refine ⟨list, mapped, finite, ?_, fun back => ?_⟩
  · refine List.pairwise_map.mpr (related_pairwise _ related ((mixed.pairwise_iff ?_).mpr
      (List.pairwise_map.mpr (rows_read_apart effect grown empty legible))))
    exact fun apart value later reads again same => apart later value again reads same.symm
  · rw [related_mem_iff related, ← row_read_iff effect grown empty legible]
    constructor
    · rintro ⟨row, member, read⟩
      obtain ⟨own, within, rfl⟩ := List.mem_map.mp (mixed.mem_iff.mp member)
      exact ⟨own, within, read⟩
    · rintro ⟨row, member, read⟩
      exact ⟨row.dataRow, mixed.mem_iff.mpr (List.mem_map_of_mem member), read⟩

end

def isRecommend (runtime : Runtime) (request : Request) : Bool :=
  request.method == "GET".toList && startsWith runtime request.rawUrl "/recommend"

variable (runtime) in
theorem exec_recommend (world : World) (quiet : NoFailure (Server.recommend runtime) world)
    (list : List SharedSchedule) (read : (recommendedRows runtime world).mapM
      (convertDataRowToSharedSchedule runtime.newtonsoft) = .ok list) :
    (exec (Server.recommend runtime) world).1 = Server.recommendText runtime list := by
  have growsList (data : DataSet) : Grows World.failedCalls (do
      let rows ← lift data.first
      let list ← lift ((rows.take Server.maxRecommended).mapM
        (convertDataRowToSharedSchedule runtime.newtonsoft))
      lift (Server.recommendText runtime list)) :=
    fun bound => preserves_bind _ _ (preserves_lift _) fun rows =>
      preserves_bind _ _ (preserves_lift _) fun list => preserves_lift _
  obtain ⟨counted, again⟩ := shuffled_step runtime _ world (fun data bound =>
    preserves_bind _ _ (preserves_lift _) fun _ => preserves_bind _ _
      (grows_select runtime recommendQuery bound) fun data => growsList data bound) quiet
  have start : exec (Server.recommend runtime) world = _ := counted
  obtain ⟨listed, -⟩ :=
    shuffled_step runtime _ (world.logs [.select recommendQuery]) growsList again
  have length : (world.logs [.select recommendQuery]).log.length = world.log.length + 1 := by
    simp [World.logs]
  rw [length] at listed
  have rows : shuffledRows runtime (world.log.length + 1)
      (world.logs [.select recommendQuery]).tables =
        shuffledRows runtime (world.log.length + 1) world.tables := rfl
  rw [recommendedRows, ← rows] at read
  rw [start]
  refine (congrArg Prod.fst listed).trans ?_
  simp only [DataSet.first, exec_bind, exec_lift, read]

theorem received_recommend (request : Request) (world : World)
    (recommends : isRecommend runtime request = true) :
    exec (Server.dataReceived runtime request) world =
      match exec (Server.recommend runtime) world with
      | (.ok text, after) => (.ok (some (restoreApostrophes text)), after)
      | (.error failure, after) => (.error failure, after) := by
  obtain ⟨method, route⟩ := Bool.and_eq_true_iff.mp recommends
  have get : request.method = "GET".toList := eq_of_beq method
  have notImage : startsWith runtime request.rawUrl "/image" = false :=
    starts_with_one route "/image" (by decide)
  simp only [Server.dataReceived, if_pos get, Server.clientGet, route, if_true, notImage,
    Bool.false_eq_true, if_false, exec_bind]
  generalize exec (Server.recommend runtime) world = ran
  obtain ⟨result, after⟩ := ran
  cases result <;> rfl

end

/-- Loops that post legible schedules under ids of their own have ended, in whatever order they
took their turns, and no call has failed: what is recommended next is a part of the last
schedule of each id, 22 of them or all. -/
theorem recommended_after_loops (runtime : Runtime) (loops : List (List Request)) (world : World)
    (schedule : List Nat) (request : Request)
    (quoted : ∀ request ∈ loops.flatten, StaysQuoted runtime request)
    (legible : ∀ request ∈ loops.flatten, ∀ sch,
      carried runtime request = some (.shared sch) → Legible runtime sch)
    (apart : OwnRecords runtime loops) (built : FindsClients runtime loops world)
    (empty : world.tables .sharedSchedule = [])
    (well : ∀ script ∈ (Pool.run schedule (process runtime [] loops world)).scripts,
      ∃ written, script = .ended (.ok written))
    (quiet : (Pool.run schedule (process runtime [] loops world)).state.failedCalls =
      world.failedCalls)
    (recommends : isRecommend runtime request = true)
    (answered : NoFailure (Server.dataReceived runtime request)
      (Pool.run schedule (process runtime [] loops world)).state) :
    ∃ list text, LastOfEach runtime loops.flatten list ∧
      Server.recommendText runtime (list.take Server.maxRecommended) = .ok text ∧
      (exec (Server.dataReceived runtime request)
        (Pool.run schedule (process runtime [] loops world)).state).1 =
          .ok (some (restoreApostrophes text)) := by
  have effect := loops_effect runtime loops world schedule quoted apart built well quiet
  have grown := (run_moves runtime [] loops world schedule quoted).1
  generalize (Pool.run schedule (process runtime [] loops world)).state = after
    at effect grown answered
  obtain ⟨list, read, finite, last⟩ :=
    shuffled_last effect grown empty legible (after.log.length + 1)
  have taken : (recommendedRows runtime after).mapM
      (convertDataRowToSharedSchedule runtime.newtonsoft) =
        .ok (list.take Server.maxRecommended) :=
    (map_ok_related_iff _ _).mpr (List.forall₂_take _ ((map_ok_related_iff _ _).mp read))
  obtain ⟨document, written⟩ := (list_written_iff _ _ shared_document_iff _).mpr
    fun sch member => finite sch (List.mem_of_mem_take member)
  have quietList : NoFailure (Server.recommend runtime) after := by
    rw [NoFailure, Quiet, received_recommend request after recommends] at answered
    revert answered
    rw [NoFailure, Quiet]
    generalize exec (Server.recommend runtime) after = ran
    obtain ⟨result, later⟩ := ran
    cases result <;> exact id
  have text := exec_recommend runtime after quietList _ taken
  rw [Server.recommendText, written] at text
  refine ⟨list, _, last, by rw [Server.recommendText, written]; rfl, ?_⟩
  rw [received_recommend request after recommends]
  revert text
  generalize exec (Server.recommend runtime) after = ran
  rintro text
  obtain ⟨result, later⟩ := ran
  obtain rfl := text
  rfl

def recommendRequest : Request := ⟨"GET".toList, "/recommend".toList, none, []⟩

def postShared (scheduleId likes : String) : Request where
  method := "POST".toList
  rawUrl := "/sharedschedule".toList
  keyword := none
  body := ("\x7b\"scheduleId\":" ++ scheduleId ++ ",\"likes\":" ++ likes ++ "\x7d").toList

def sharedLiked (scheduleId likes : Int32) : SharedSchedule :=
  ⟨scheduleId, 0, .finite (.ofInt32 0), likes, 0, 0, [], [], []⟩

theorem liked_legible (scheduleId likes : Int32) :
    Legible .standard (sharedLiked scheduleId likes) where
  plain := by simp [Upload.plainFields, sharedLiked]
  contents := fun description member => by cases member

/-- Two schedules posted in step and then recommended. -/
theorem recommended_after_loops_two :
    let loops := [[postShared "1" "3"], [postShared "2" "4"]]
    let after := (Pool.run (inStep 8) (process .standard [] loops (.opened Tables.empty))).state
    ∃ list text, LastOfEach .standard loops.flatten list ∧
      Server.recommendText .standard (list.take Server.maxRecommended) = .ok text ∧
      (exec (Server.dataReceived .standard recommendRequest) after).1 =
        .ok (some (restoreApostrophes text)) := by
  intro loops after
  have first : carried .standard (postShared "1" "3") = some (.shared (sharedLiked 1 3)) := rfl
  have second : carried .standard (postShared "2" "4") = some (.shared (sharedLiked 2 4)) := rfl
  have well : (Pool.run (inStep 8) (process .standard [] loops
      (.opened Tables.empty))).scripts.all endsWell = true := by decide +kernel
  refine recommended_after_loops .standard loops (.opened Tables.empty) (inStep 8)
    recommendRequest ?_ ?_ ?_ (.inr ?_) rfl ?_ ?_ rfl ?_
  · refine List.forall_mem_cons.mpr ⟨?_, List.forall_mem_singleton.mpr ?_⟩
    · exact quoted_of_meant _ _ (.shared (sharedLiked 1 3)) first rfl rfl
    · exact quoted_of_meant _ _ (.shared (sharedLiked 2 4)) second rfl rfl
  · refine List.forall_mem_cons.mpr ⟨fun sch present => ?_,
      List.forall_mem_singleton.mpr fun sch present => ?_⟩
    · obtain rfl := Upload.shared.inj (Option.some.inj (first.symm.trans present))
      exact liked_legible 1 3
    · obtain rfl := Upload.shared.inj (Option.some.inj (second.symm.trans present))
      exact liked_legible 2 4
  · refine List.pairwise_pair.mpr (List.forall_mem_singleton.mpr
      (List.forall_mem_singleton.mpr fun upload stored carries keeps => ?_))
    rw [← Option.some.inj (first.symm.trans carries), ← Option.some.inj (second.symm.trans keeps)]
    exact fun same => by cases same
  · refine List.forall_mem_cons.mpr ⟨fun clt present => ?_,
      List.forall_mem_singleton.mpr fun clt present => ?_⟩
    · cases first.symm.trans present
    · cases second.symm.trans present
  · exact fun script member => ended_of_ends_well script (List.all_eq_true.mp well script member)
  · decide +kernel
  · unfold NoFailure Quiet
    decide +kernel

end TfuServer
