import TfuServer.Server.Growth

/-!
# Images handled by several threads at once

An image is entered into the dictionary before it is written into the table, so that in
every state of every schedule the dictionary has each used image. Once all threads have
come to their ends it has no other.
-/

namespace TfuServer

set_option autoImplicit false

open Numeral Program
open Script (Valid valid_bind valid_lift_bind valid_atomic valid_atomic_bind valid_mono valid_moved
  valid_of_always ends_of_valid ends_trivial)
open Pool (Owing Owed)
open Sql (Row firstKey)
open ImageManager (storageRow imageName enter storedImages)
open Steps (Makes makes_bind)

def Used (id : Int32) (world : World) : Prop := storageRow id "1" ∈ world.tables .s3

def Entered (id : Int32) (world : World) : Prop :=
  ∃ dictionary, world.imageDictionary = some dictionary ∧ dictionary id = some (imageName id)

def Named (world : World) : Prop :=
  ∃ dictionary, world.imageDictionary = some dictionary ∧
    ∀ id name, dictionary id = some name → name = imageName id

/-- The manager and what holds of the images stay, and no image is used that has not been
entered. -/
structure Later (before after : World) : Prop where
  manager : ∀ number, Steps.ImagesAt number before → Steps.ImagesAt number after
  named : Named before → Named after
  entered : ∀ id, Entered id before → Entered id after
  present : ∀ k, Keyed.rowsOf firstKey (before.tables .s3) k ≠ [] →
    Keyed.rowsOf firstKey (after.tables .s3) k ≠ []
  used : ∀ id, Used id before → Used id after
  failed : before.failedCalls ≤ after.failedCalls
  remembered : (∀ id, Used id before → Entered id before) → ∀ id, Used id after → Entered id after

def Settled (bound : Nat) (id : Int32) (world : World) : Prop :=
  bound ≤ world.failedCalls ∧ (world.failedCalls = bound → Used id world)

theorem later_same (before after : World) (rows : after.tables .s3 = before.tables .s3)
    (same : after.imageManager = before.imageManager)
    (failed : before.failedCalls ≤ after.failedCalls) : Later before after where
  manager := fun number there => by rwa [Steps.ImagesAt, same]
  named := fun ⟨dictionary, there, names⟩ =>
    ⟨dictionary, (congrArg (Option.map Manager.dictionary) same).trans there, names⟩
  entered := fun id ⟨dictionary, there, found⟩ =>
    ⟨dictionary, (congrArg (Option.map Manager.dictionary) same).trans there, found⟩
  present := fun k there => by rwa [rows]
  used := fun id there => by rwa [Used, rows]
  failed := failed
  remembered := fun all id there => by
    rw [Used, rows] at there
    obtain ⟨dictionary, entered, found⟩ := all id there
    exact ⟨dictionary, (congrArg (Option.map Manager.dictionary) same).trans entered, found⟩

theorem later_refl (world : World) : Later world world := later_same world world rfl rfl le_rfl

theorem later_trans (first second third : World) (earlier : Later first second)
    (later : Later second third) : Later first third where
  manager := fun number holds => later.manager number (earlier.manager number holds)
  named := fun holds => later.named (earlier.named holds)
  entered := fun id holds => later.entered id (earlier.entered id holds)
  present := fun k holds => later.present k (earlier.present k holds)
  used := fun id holds => later.used id (earlier.used id holds)
  failed := le_trans earlier.failed later.failed
  remembered := fun all => later.remembered (earlier.remembered all)

theorem enter_dictionary (id : Int32) (world : World) :
    (enter id world).imageDictionary =
      world.imageDictionary.map fun dictionary => dictionary.set id (imageName id) := by
  simp only [World.imageDictionary, enter, Option.map_map]
  rfl

theorem entered_enter (id : Int32) (world : World) (named : Named world) :
    Entered id (enter id world) := by
  obtain ⟨dictionary, there, -⟩ := named
  exact ⟨dictionary.set id (imageName id), by simp [enter_dictionary, there],
    by simp [Dictionary.set]⟩

theorem entered_of_enter (id other : Int32) (world : World)
    (entered : Entered other (enter id world)) : other = id ∨ Entered other world := by
  obtain ⟨dictionary, there, found⟩ := entered
  simp only [enter_dictionary, Option.map_eq_some_iff] at there
  obtain ⟨old, before, rfl⟩ := there
  by_cases same : other = id
  · exact Or.inl same
  · rw [Dictionary.set, Function.update_of_ne same] at found
    exact Or.inr ⟨old, before, found⟩

theorem enter_later (id : Int32) (world : World) : Later world (enter id world) := by
  have entered (other : Int32) (holds : Entered other world) : Entered other (enter id world) := by
    obtain ⟨dictionary, there, found⟩ := holds
    refine ⟨dictionary.set id (imageName id), by simp [enter_dictionary, there], ?_⟩
    by_cases same : other = id
    · rw [same, Dictionary.set, Function.update_self]
    · rw [Dictionary.set, Function.update_of_ne same, found]
  refine ⟨fun number here => (Steps.implements_enter_image number id world here).2, ?_, entered,
    fun k there => there, fun other there => there, le_rfl,
    fun all other there => entered other (all other there)⟩
  rintro ⟨dictionary, there, names⟩
  refine ⟨dictionary.set id (imageName id), by simp [enter_dictionary, there],
    fun other name found => ?_⟩
  by_cases same : other = id
  · rw [same, Dictionary.set, Function.update_self] at found
    rw [same]
    exact (Option.some.inj found).symm
  · rw [Dictionary.set, Function.update_of_ne same] at found
    exact names other name found

theorem write_later (id : Int32) (call : Call) (data : DataSet) (world : World)
    (rows : List ImageManager.StorageRow) (entered : Entered id world)
    (wrote : Keyed.Wrote firstKey id.toInt (storageRow id "1") (world.tables .s3) rows) :
    Later world (callEnded call (some (data, Function.update world.tables .s3 rows)) world) := by
  have after : (callEnded call (some (data, Function.update world.tables .s3 rows))
      world).tables .s3 = rows := by
    change Function.update world.tables .s3 rows .s3 = rows
    exact Function.update_self ..
  refine ⟨fun number holds => holds, fun holds => holds, fun other holds => holds,
    fun k there => ?_, fun other there => ?_, le_rfl, fun all other there => ?_⟩
  · rw [after]
    exact Keyed.wrote_present wrote rfl k there
  · rw [Used, after]
    refine Keyed.wrote_kept wrote _ there fun same => ?_
    rw [Int32.toInt_inj.mp (Option.some.inj same)]
  · rw [Used, after] at there
    rcases Keyed.wrote_mem wrote _ there with same | old
    · rw [ImageManager.storage_row_injective _ _ _ _ same]
      exact entered
    · exact all other old

theorem fails_later (call : Call) (world : World) : Later world (callEnded call none world) :=
  later_same _ _ rfl rfl (Nat.le_succ _)

/-- Who enters an image that was not there is left with what it takes to have it used. -/
abbrev Minds {Value : Type} (bound : Nat) (target : Int32)
    (after : Except Failure Value → World → Prop) (script : Steps Value) (world : World) : Prop :=
  Valid Later (Owing Later (Entered target) (Settled bound target)) after script world

/-- Neither the manager nor a used image changes. -/
def Aside (before after : World) : Prop :=
  Later before after ∧ after.imageManager = before.imageManager

theorem aside_refl (world : World) : Aside world world := ⟨later_refl world, rfl⟩

def Keeps (before after : World) : Prop :=
  (∀ id, Used id before → Used id after) ∧ before.failedCalls ≤ after.failedCalls

section
variable {bound : Nat} {target : Int32} {Value Next : Type}

theorem owing_aside (before after : World) (rest : Steps Value) (aside : Aside before after) :
    Owing Later (Entered target) (Settled bound target) before after rest := by
  refine ⟨aside.1, fun closed opened => absurd ?_ closed⟩
  obtain ⟨dictionary, there, found⟩ := opened
  exact ⟨dictionary, (congrArg (Option.map Manager.dictionary) aside.2.symm).trans there, found⟩

theorem aside_valid (script : Steps Value) (world : World) (makes : Makes Aside script) :
    Valid Later (fun before after _ => Aside before after) (fun _ later => Later world later)
      script world :=
  valid_mono script world (fun _ _ _ aside => aside) (fun _ _ ended => ended.2)
    (valid_moved later_trans (fun _ _ _ aside => aside.1) script world world (later_refl world)
      (valid_of_always script world makes (ends_trivial script world)))

theorem aside_minds (script : Steps Value) (world : World) (makes : Makes Aside script) :
    Minds bound target (fun _ later => Later world later) script world :=
  valid_mono script world (fun _ _ _ aside => owing_aside _ _ _ aside) (fun _ _ moved => moved)
    (aside_valid script world makes)

theorem minds_moved {after : Except Failure Value → World → Prop} (script : Steps Value)
    (world : World) (minds : Minds bound target after script world) :
    Minds bound target (fun result later => after result later ∧ Later world later) script
      world :=
  valid_moved later_trans (fun _ _ _ owing => owing.1) script world world (later_refl world) minds

theorem settled_keeps (before after : World) (keeps : Keeps before after)
    (settled : Settled bound target before) : Settled bound target after := by
  have least := settled.1
  have more := keeps.2
  exact ⟨by omega, fun same => keeps.1 _ (settled.2 (by omega))⟩

theorem settled_ends (script : Steps Value) (world : World) (keeps : Makes Keeps script)
    (settled : Settled bound target world) :
    Script.Ends Later (fun _ => Settled bound target) script world := by
  have along (before after : World) (moved : Later before after)
      (holds : Settled bound target before) : Settled bound target after :=
    settled_keeps before after ⟨moved.used, moved.failed⟩ holds
  induction script generalizing world with
  | ended result => exact fun later moved => along world later moved settled
  | step change next ih =>
      intro found moved
      exact ⟨trivial, ih found (change found) (keeps found trivial).2
        (settled_keeps _ _ (keeps found trivial).1 (along world found moved settled))⟩

theorem owing_bind (next : Value → Steps Next) (keeps : ∀ value, Makes Keeps (next value))
    (before after : World) (rest : Steps Value)
    (owing : Owing Later (Entered target) (Settled bound target) before after rest) :
    Owing Later (Entered target) (Settled bound target) before after (rest >>= next) := by
  refine ⟨owing.1, fun closed opened => ?_⟩
  exact valid_bind later_refl rest next after (fun _ _ _ _ => trivial)
    (owing.2 closed opened)
    (fun value later settled => settled_ends (next value) later (keeps value) settled)
    fun failure later settled => settled

theorem minds_bind {first : Except Failure Value → World → Prop}
    {after : Except Failure Next → World → Prop} (script : Steps Value)
    (next : Value → Steps Next) (world : World) (keeps : ∀ value, Makes Keeps (next value))
    (minds : Minds bound target first script world)
    (goes : ∀ value later, first (.ok value) later → Minds bound target after (next value) later)
    (throws : ∀ failure later, first (.error failure) later → after (.error failure) later) :
    Minds bound target after (script >>= next) world :=
  valid_bind later_refl script next world (owing_bind next keeps) minds goes throws

section
variable (runtime : Runtime)

theorem aside_select (query table : Text) (condition : Sql.Condition) (shuffled : Bool)
    (read : Sql.readStatement query = some (.select table condition shuffled)) :
    Makes Aside (Steps.select runtime query) := by
  refine Script.always_atomic _ _ fun found _ => ?_
  rcases DBManager.select_cases runtime query found with
    ⟨data, tables, -, answered, ran⟩ | ran | ⟨-, ran⟩ <;> rw [ran]
  · have same := answer_reads runtime _ _ _ _ _ _ _ _ read answered
    exact ⟨later_same _ _ (congrFun same .s3) rfl le_rfl, rfl⟩
  · exact ⟨fails_later _ found, rfl⟩
  · exact ⟨fails_later _ found, rfl⟩

theorem execute_minds (text : Text) (id : Int32) (world : World) (entered : Entered id world)
    (least : bound ≤ world.failedCalls)
    (either : ∀ count tables data after, answer runtime count tables text = some (data, after) →
      after = tables ∨ ∃ rows,
        Keyed.Wrote firstKey id.toInt (storageRow id "1") (tables .s3) rows ∧
        after = Function.update tables .s3 rows)
    (writes : ∀ found, Later world found → found.failedCalls = bound → ∀ count data after,
      answer runtime count found.tables text = some (data, after) →
      storageRow id "1" ∈ after .s3) :
    Minds bound target (fun _ => Settled bound id) (Steps.executeQuery runtime text) world := by
  refine valid_atomic _ world fun found moved => ?_
  have within := le_trans least moved.failed
  -- A call that has failed leaves nothing to show.
  have spoiled (later : World) (further : Later (callEnded (.executeQuery text) none found) later) :
      Settled bound id later := by
    have more : found.failedCalls + 1 ≤ later.failedCalls := further.failed
    exact ⟨by omega, fun same => by omega⟩
  rcases DBManager.execute_cases runtime text found with
    ⟨data, tables, -, answered, ran⟩ | ran | ⟨-, ran⟩ <;> rw [ran]
  · refine ⟨owing_aside _ _ _ ⟨?_, rfl⟩, fun later further => ?_⟩
    · rcases either _ _ _ _ answered with rfl | ⟨rows, wrote, rfl⟩
      · exact later_same _ _ rfl rfl le_rfl
      · exact write_later id _ data found rows (moved.entered id entered) wrote
    · have more : found.failedCalls ≤ later.failedCalls := further.failed
      refine ⟨by omega, fun same => further.used id ?_⟩
      exact writes found moved (by omega) _ data tables answered
  · exact ⟨owing_aside _ _ _ ⟨fails_later _ found, rfl⟩, spoiled⟩
  · exact ⟨owing_aside _ _ _ ⟨fails_later _ found, rfl⟩, spoiled⟩

theorem insert_minds (id : Int32) (world : World) (entered : Entered id world)
    (least : bound ≤ world.failedCalls) :
    Minds bound target (fun _ => Settled bound id)
      (Steps.executeQuery runtime (ImageManager.insertText id)) world :=
  execute_minds runtime _ id world entered least
    (fun _ _ _ _ answered => Or.inr ⟨_, Or.inl rfl, answer_insert_image id answered⟩)
    fun _ _ _ _ _ _ answered => insert_image_used id answered

theorem update_minds (id : Int32) (world : World) (entered : Entered id world)
    (least : bound ≤ world.failedCalls)
    (present : world.failedCalls = bound →
      Keyed.rowsOf firstKey (world.tables .s3) id.toInt ≠ []) :
    Minds bound target (fun _ => Settled bound id)
      (Steps.executeQuery runtime (ImageManager.updateText id)) world := by
  refine execute_minds runtime _ id world entered least
    (fun count tables data after answered => ?_)
    fun found moved same count data after answered => ?_
  · rcases answer_update_image id answered with ⟨-, same⟩ | ⟨-, same⟩
    · exact Or.inl same
    · exact Or.inr ⟨_, Or.inr rfl, same⟩
  · have more := moved.failed
    exact update_image_used id (moved.present id.toInt (present (by omega))) answered

theorem row_asked (id : Int32) (world : World) (least : bound ≤ world.failedCalls) :
    Valid Later (fun before after _ => Aside before after)
      (fun result later => Later world later ∧ bound ≤ later.failedCalls ∧
        (later.failedCalls = bound → ∃ rows, result = .ok [rows] ∧
          (rows.length > 0 → Keyed.rowsOf firstKey (later.tables .s3) id.toInt ≠ [])))
      (Steps.select runtime (ImageManager.rowQuery id)) world := by
  refine valid_atomic _ world fun found moved => ?_
  have least := le_trans least moved.failed
  have aside := (aside_select runtime _ _ _ _ (ImageManager.read_row_query id) found trivial).1
  refine ⟨aside, fun later further => ?_⟩
  have here := later_trans _ _ _ moved (later_trans _ _ _ aside.1 further)
  refine ⟨here, le_trans least (le_trans aside.1.failed further.failed), fun same => ?_⟩
  rcases DBManager.select_cases runtime (ImageManager.rowQuery id) found with
    ⟨data, tables, -, answered, ran⟩ | ran | ⟨-, ran⟩ <;> rw [ran] at further ⊢
  · obtain ⟨rfl, rfl, -⟩ := answer_select runtime _ _ _ _ _ _ .s3 _
      (ImageManager.read_row_query id) rfl answered
    refine ⟨_, rfl, fun some => further.present _ ?_⟩
    rw [rows_of_key runtime found.tables .s3 "id".toList rfl, List.length_map] at some
    exact List.length_pos_iff.mp some
  · have more : found.failedCalls + 1 ≤ later.failedCalls := further.failed
    omega
  · have more : found.failedCalls + 1 ≤ later.failedCalls := further.failed
    omega

theorem row_minds (id : Int32) (world : World) (entered : Entered id world)
    (least : bound ≤ world.failedCalls) :
    Minds bound target (fun _ => Settled bound id)
      (do
        let data ← Steps.select runtime (ImageManager.rowQuery id)
        let rows ← Script.lift data.first
        if rows.length > 0 then Steps.executeQuery runtime (ImageManager.updateText id)
        else Steps.executeQuery runtime (ImageManager.insertText id)) world := by
  refine valid_bind later_refl _ _ world (fun _ _ _ aside => owing_aside _ _ _ aside)
    (row_asked runtime id world least) (fun data later asked => ?_) fun failure later asked => ?_
  · obtain ⟨moved, within, answered⟩ := asked
    cases first : data.first with
    | error failure =>
        intro last further
        have more := further.failed
        refine ⟨by omega, fun same => ?_⟩
        obtain ⟨rows, there, -⟩ := answered (by omega)
        rw [Except.ok.inj there] at first
        cases first
    | ok rows =>
        have here := moved.entered id entered
        have goes : Minds bound target (fun _ => Settled bound id)
            (if rows.length > 0 then Steps.executeQuery runtime (ImageManager.updateText id)
              else Steps.executeQuery runtime (ImageManager.insertText id)) later := by
          split
          · rename_i some
            refine update_minds runtime id later here within fun same => ?_
            obtain ⟨others, there, present⟩ := answered same
            rw [Except.ok.inj there] at first
            exact present (by rwa [Except.ok.inj first])
          · exact insert_minds runtime id later here within
        exact goes
  · obtain ⟨-, within, answered⟩ := asked
    refine ⟨within, fun same => ?_⟩
    obtain ⟨rows, there, -⟩ := answered same
    cases there

theorem image_added_minds (number : Nat) (id : Int32) (world : World)
    (here : Steps.ImagesAt number world) (named : Named world)
    (least : bound ≤ world.failedCalls) :
    Minds bound target (fun _ later => Entered id later ∧ Later world later)
      (Steps.imageAdded runtime number id) world := by
  refine valid_atomic_bind _ _ world fun found moved => ⟨⟨⟩, enter id found,
    (Steps.implements_enter_image number id found (moved.manager number here)).1, ?_⟩
  have entered := entered_enter id found (moved.named named)
  have writes : Minds bound target (fun _ => Settled bound id) _ (enter id found) :=
    row_minds runtime id (enter id found) entered (le_trans least moved.failed)
  refine ⟨⟨enter_later id found, fun closed opened => ?_⟩, ?_⟩
  · rcases entered_of_enter id target found opened with rfl | old
    · exact ends_of_valid _ _ writes
    · exact absurd old closed
  · refine valid_mono _ _ (fun _ _ _ owing => owing) (fun result later ended => ?_)
      (minds_moved _ _ writes)
    exact ⟨ended.2.entered id entered,
      later_trans _ _ _ moved (later_trans _ _ _ (enter_later id found) ended.2)⟩

theorem get_empty_key_minds (number : Nat) (world : World)
    (here : Steps.ImagesAt number world) (named : Named world) (least : bound ≤ world.failedCalls) :
    Minds bound target (fun result later => ∀ id, result = .ok id → Entered id later)
      (Steps.getEmptyKey runtime number) world := by
  have added (id : Int32) (later : World) (moved : Later world later) :
      Minds bound target (fun result last => ∀ id, result = .ok id → Entered id last)
        (do
          Steps.imageAdded runtime number id
          return id) later := by
    refine minds_bind _ _ later (fun _ => Script.always_pure _ _)
      (image_added_minds runtime number id later (moved.manager number here) (moved.named named)
        (le_trans least moved.failed))
      (fun _ last ended => ?_) fun failure last _ id same => by cases same
    intro further beyond other same
    obtain rfl := Except.ok.inj same
    exact beyond.entered _ ended.1
  refine valid_bind later_refl _ _ world (fun _ _ _ aside => owing_aside _ _ _ aside)
    (aside_valid _ world (aside_select runtime _ _ _ _ ImageManager.read_free_query))
    (fun free later moved => ?_) fun failure last _ id same => by cases same
  refine valid_lift_bind _ _ later (fun found _ => ?_) fun _ _ _ _ _ same => by cases same
  cases found with
  | some id => exact added id later moved
  | none =>
      refine valid_bind later_refl _ _ later (fun _ _ _ aside => owing_aside _ _ _ aside)
        (aside_valid _ later (aside_select runtime _ _ _ _ ImageManager.read_used_query))
        (fun used last further => ?_) fun failure last _ id same => by cases same
      refine valid_lift_bind _ _ last (fun rows _ => ?_) fun _ _ _ _ _ same => by cases same
      exact added _ last (later_trans _ _ _ moved further)

theorem instance_minds (world : World) (named : Named world) :
    Minds bound target
      (fun result later => (∀ number, result = .ok number → Steps.ImagesAt number later) ∧
        Later world later)
      (Steps.imageInstance runtime) world := by
  obtain ⟨number, here⟩ : ∃ number, Steps.ImagesAt number world := by
    obtain ⟨_, there, -⟩ := named
    obtain ⟨manager, present, -⟩ := Option.map_eq_some_iff.mp there
    exact ⟨manager.number, congrArg (Option.map Manager.number) present⟩
  refine valid_atomic_bind _ _ world fun found moved => ⟨found, found, rfl,
    owing_aside _ _ _ ⟨later_refl found, rfl⟩, ?_⟩
  obtain ⟨manager, present, -⟩ := Option.map_eq_some_iff.mp (moved.manager number here)
  simp only [present]
  refine valid_atomic_bind _ _ found fun again further => ⟨again, again, rfl,
    owing_aside _ _ _ ⟨later_refl again, rfl⟩, ?_⟩
  have along := later_trans _ _ _ moved further
  obtain ⟨manager, present, same⟩ := Option.map_eq_some_iff.mp (along.manager number here)
  rw [present]
  refine fun last more => ⟨fun own returned => ?_, later_trans _ _ _ along more⟩
  obtain rfl : manager.number = own := Except.ok.inj returned
  rw [same]
  exact (later_trans _ _ _ along more).manager number here

/-- Writing the image of a key into the dictionary once more opens nothing. -/
theorem enter_again_minds (number : Nat) (key : Int32) (world : World)
    (here : Steps.ImagesAt number world) (entered : Entered key world) :
    Minds bound target (fun _ _ => True)
      (do
        Steps.alter (ImageManager.enterAt number key)
        return Server.keyResponse key) world := by
  refine valid_atomic_bind _ _ world fun found moved => ⟨⟨⟩, enter key found,
    (Steps.implements_enter_image number key found (moved.manager number here)).1, ?_,
    fun _ _ => trivial⟩
  refine ⟨enter_later key found, fun closed opened => absurd ?_ closed⟩
  rcases entered_of_enter key target found opened with rfl | old
  · exact moved.entered target entered
  · exact old

end

end

section
variable {runtime : Runtime} {requests : List Request}

theorem requests_step_keeps (quoted : ∀ request ∈ requests, StaysQuoted runtime request)
    (before after : World)
    (step : ServerStep runtime (Permits.requests runtime requests) before after) :
    Keeps before after :=
  ⟨(table_step_grown before.tables after.tables
    (requests_step_tables quoted before after step)).used, server_step_failed before after step⟩

theorem writes_elsewhere (others : ∀ request ∈ requests, isImageRequest runtime request = false)
    (name : TableName) (k : Int) (row : Row (schema.columns name))
    (writes : Writes runtime requests name k row) : name ≠ .s3 := by
  cases writes with
  | image request member about id => exact absurd about (by simp [others request member])
  | record request member upload plain present meaning branch document kept row cells =>
      cases upload <;> exact nofun

theorem enter_images (upload : Upload) (world : World) :
    (upload.enter world).imageManager = world.imageManager := by
  cases upload with
  | user clt =>
      simp only [Upload.enter, client_ready, ClientManager.enter]
  | schedule sch => rfl
  | shared sch => rfl

theorem server_step_images {permits : Permits} (images : ¬permits.images)
    (others : ∀ request ∈ requests, isImageRequest runtime request = false) (before after : World)
    (tables : TableStep runtime requests before.tables after.tables)
    (step : ServerStep runtime permits before after) :
    after.tables .s3 = before.tables .s3 ∧ after.imageManager = before.imageManager := by
  constructor
  · rcases tables with same | ⟨name, k, row, rows, writes, -, same⟩
    · rw [same]
    · rw [same]
      exact Function.update_of_ne (writes_elsewhere others name k row writes).symm _ _
  · cases step with
    | rests same => rw [same]
    | enters upload may same =>
        rw [same]
        exact enter_images upload before
    | images manager may same => exact absurd may images
    | clients may same => rw [same]; rfl
    | schedules dictionary may same => rw [same]
    | flags number listening serving may same => rw [same]
    | call call may result answered same =>
        subst same
        cases result <;> rfl

theorem server_step_aside {permits : Permits} (images : ¬permits.images)
    (others : ∀ request ∈ requests, isImageRequest runtime request = false) (before after : World)
    (tables : TableStep runtime requests before.tables after.tables)
    (step : ServerStep runtime permits before after) : Aside before after := by
  obtain ⟨rows, manager⟩ := server_step_images images others before after tables step
  exact ⟨later_same _ _ rows manager (server_step_failed before after step), manager⟩

/-- A thread that keeps what has been reached and leaves no image that it has entered unused. -/
structure Minding {Value : Type} (bound : Nat) (target : Int32) (script : Steps Value) : Prop where
  keeps : Makes Keeps script
  minds : ∀ world, Named world → bound ≤ world.failedCalls →
    Minds bound target (fun _ _ => True) script world

variable {bound : Nat} {target : Int32} {Value Next : Type}

theorem minding_bind (script : Steps Value) (next : Value → Steps Next)
    (first : Minding bound target script) (later : ∀ value, Minding bound target (next value)) :
    Minding bound target (script >>= next) where
  keeps := makes_bind script next first.keeps fun value => (later value).keeps
  minds := fun world named least =>
    minds_bind script next world (fun value => (later value).keeps)
      (minds_moved script world (first.minds world named least))
      (fun value last ended => (later value).minds last (ended.2.named named)
        (le_trans least ended.2.failed))
      fun _ _ _ => trivial

theorem minding_pure (value : Value) : Minding bound target (pure value : Steps Value) where
  keeps := Script.always_pure _ _
  minds := fun _ _ _ _ _ => trivial

theorem minding_aside (script : Steps Value) (makes : Makes Aside script) :
    Minding bound target script where
  keeps := Script.always_mono script
    (fun _ _ _ aside => ⟨aside.1.used, aside.1.failed⟩) makes
  minds := fun world _ _ => valid_mono script world (fun _ _ _ owing => owing)
    (fun _ _ _ => trivial) (aside_minds script world makes)

section
variable (quoted : ∀ request ∈ requests, StaysQuoted runtime request)
  (request : Request) (member : request ∈ requests) (about : isImageRequest runtime request = true)
include quoted member about

omit member about in
theorem images_keep (script : Steps Value)
    (makes : Makes (ServerStep runtime (Permits.requests runtime requests)) script) :
    Makes Keeps script :=
  Script.always_mono script
    (fun before after _ step => requests_step_keeps quoted before after step) makes

theorem minding_image_key (every : ∀ id, Marked runtime request id) :
    Minding bound target (Steps.imageKey runtime) := by
  have calls (call : Call) (sent : ImageCall (Marked runtime request) call) :
      (Permits.requests runtime requests).calls call := ⟨request, member, .image call about sent⟩
  have may : (Permits.requests runtime requests).images := ⟨request, member, about⟩
  have builds : Makes Keeps (Steps.imageInstance runtime) :=
    images_keep quoted _ (Steps.makes_image_instance runtime calls may)
  have enters (number : Nat) (key : Int32) : Makes Keeps (do
      Steps.alter (ImageManager.enterAt number key)
      return Server.keyResponse key) :=
    makes_bind _ _ (images_keep quoted _ (Steps.makes_enter_image runtime may number key))
      fun _ => Script.always_pure _ _
  have again (key : Int32) : Makes Keeps (do
      let manager ← Steps.imageInstance runtime
      Steps.alter (ImageManager.enterAt manager key)
      return Server.keyResponse key) := makes_bind _ _ builds fun number => enters number key
  have issues (number : Nat) : Makes Keeps (Steps.getEmptyKey runtime number) :=
    images_keep quoted _ (Steps.makes_get_empty_key runtime calls may number every)
  refine ⟨images_keep quoted _ (Steps.makes_image_key runtime calls may every),
    fun world named least => ?_⟩
  refine minds_bind _ _ world (fun number => makes_bind _ _ (issues number) again)
    (instance_minds runtime world named) (fun number later shown => ?_) fun _ _ _ => trivial
  obtain ⟨here, moved⟩ := shown
  refine minds_bind _ _ later again
    (minds_moved _ later (get_empty_key_minds runtime number later (here number rfl)
      (moved.named named) (le_trans least moved.failed)))
    (fun key last issued => ?_) fun _ _ _ => trivial
  have along := later_trans _ _ _ moved issued.2
  exact minds_bind _ _ last (fun number => enters number key)
    (instance_minds runtime last (along.named named))
    (fun number final shown => enter_again_minds number key final (shown.1 number rfl)
      (shown.2.entered key (issued.1 key rfl))) fun _ _ _ => trivial

theorem minding_image_upload (converted : Except Failure Int32)
    (mine : ∀ id, converted = .ok id → Marked runtime request id) : Minding bound target (do
      let manager ← Steps.imageInstance runtime
      let id ← Script.lift converted
      Steps.imageAdded runtime manager id) := by
  have calls (call : Call) (sent : ImageCall (Marked runtime request) call) :
      (Permits.requests runtime requests).calls call := ⟨request, member, .image call about sent⟩
  have may : (Permits.requests runtime requests).images := ⟨request, member, about⟩
  have builds : Makes Keeps (Steps.imageInstance runtime) :=
    images_keep quoted _ (Steps.makes_image_instance runtime calls may)
  cases converted with
  | error failure =>
      exact minding_bind _ _ ⟨builds, fun world named _ => valid_mono _ _ (fun _ _ _ owing => owing)
        (fun _ _ _ => trivial) (instance_minds runtime world named)⟩
        fun _ => minding_aside _ (Script.always_lift _ _)
  | ok id =>
      have adds (number : Nat) : Makes Keeps (Steps.imageAdded runtime number id) :=
        images_keep quoted _ (Steps.makes_image_added runtime calls may number id (mine id rfl))
      refine ⟨makes_bind _ _ builds adds, fun world named least => ?_⟩
      refine minds_bind _ _ world adds (instance_minds runtime world named)
        (fun number later shown => ?_) fun _ _ _ => trivial
      exact valid_mono _ _ (fun _ _ _ owing => owing) (fun _ _ _ => trivial)
        (image_added_minds runtime number id later (shown.1 number rfl) (shown.2.named named)
          (le_trans least shown.2.failed))

theorem minding_image_request : Minding bound target (Steps.dataReceived runtime request) := by
  rcases Bool.or_eq_true_iff.mp about with get | post
  · obtain ⟨method, route⟩ := Bool.and_eq_true_iff.mp get
    have shape : Steps.dataReceived runtime request = (do
        let response ← (do
          let responseString ← Steps.imageKey runtime
          return restoreApostrophes responseString)
        return some response) := by
      simp [Steps.dataReceived, eq_of_beq method, Steps.clientGet, route]
    have every (id : Int32) : Marked runtime request id := fun upload => by
      have post : request.method = "POST".toList := eq_of_beq (Bool.and_eq_true_iff.mp upload).1
      rw [eq_of_beq method] at post
      exact absurd post (by decide)
    rw [shape]
    exact minding_bind _ _ (minding_bind _ _
      (minding_image_key quoted request member about every) fun _ => minding_pure _)
      fun _ => minding_pure _
  · obtain ⟨method, route⟩ := Bool.and_eq_true_iff.mp post
    have isPost : request.method = "POST".toList := eq_of_beq method
    have notGet : ¬request.method = "GET".toList := by rw [isPost]; decide
    have users := starts_with_one route "/users" (by decide)
    have schedule := starts_with_one route "/schedule" (by decide)
    have shared := starts_with_one route "/sharedschedule" (by decide)
    simp only [Steps.dataReceived, if_neg notGet, if_pos isPost, Steps.clientPost, users, schedule,
      shared, route, Bool.false_eq_true, if_false, if_true]
    refine minding_bind _ _ ?_ fun _ => minding_pure _
    cases held : heldUpload runtime.newtonsoft (Server.parseBody runtime request.body) with
    | error failure => exact minding_aside _ (Script.always_lift _ _)
    | ok found =>
        cases found with
        | none => exact minding_pure _
        | some id =>
            refine minding_image_upload quoted request member about _ fun own converted _ => ?_
            rw [uploadedId, if_pos isPost, held]
            exact congrArg Except.toOption converted

end

theorem minding_request (quoted : ∀ request ∈ requests, StaysQuoted runtime request)
    (request : Request) (member : request ∈ requests) :
    Minding bound target (Steps.dataReceived runtime request) := by
  cases about : isImageRequest runtime request with
  | true => exact minding_image_request quoted request member about
  | false =>
      have own : ∀ other ∈ [request], StaysQuoted runtime other := by
        simpa using quoted request member
      have silent : ∀ other ∈ [request], isImageRequest runtime other = false := by
        simpa using about
      have never : ¬(Permits.requests runtime [request]).images := by
        rintro ⟨other, there, image⟩
        rw [silent other there] at image
        cases image
      exact minding_aside _ (Script.always_mono _ (fun before after _ step =>
        server_step_aside never silent before after (requests_step_tables own before after step)
          step) (Steps.makes_request runtime [request] request (by simp)))

theorem minding_get_context : Minding bound target Steps.getContext :=
  minding_aside _ (makes_bind _ _ (Script.always_atomic _ _ fun found _ => aside_refl found)
    fun number => Script.always_atomic _ _ fun found _ => by
      rw [Steps.accept_state]
      exact aside_refl found)

theorem minding_loop (quoted : ∀ request ∈ requests, StaysQuoted runtime request)
    (own : List Request) (within : ∀ request ∈ own, request ∈ requests) :
    Minding bound target (Steps.loop runtime own) := by
  induction own with
  | nil => exact minding_pure _
  | cons request own ih =>
      refine minding_bind _ _ minding_get_context fun _ => ?_
      refine minding_bind _ _ (minding_request quoted request (within request (by simp)))
        fun written => ?_
      exact minding_bind _ _ (ih fun other member => within other (List.mem_cons_of_mem _ member))
        fun rest => minding_pure _

theorem minding_console (commands : List Bool) :
    Minding bound target (Steps.console runtime commands) :=
  minding_aside _ (Script.always_mono _ (fun before after _ step =>
    @server_step_aside runtime [] _ (fun may => may) (by simp) before after
      (console_step_tables before after step) step)
    (Steps.makes_console runtime commands))

theorem process_minds (quoted : ∀ request ∈ requests, StaysQuoted runtime request)
    (commands : List Bool) (loops : List (List Request)) (world : World)
    (within : ∀ own ∈ loops, ∀ request ∈ own, request ∈ requests) (named : Named world) :
    ∀ script ∈ (process runtime commands loops world).scripts,
      Minds world.failedCalls target (fun _ _ => True) script world := by
  intro script member
  rcases List.mem_cons.mp member with rfl | loop
  · exact (minding_console commands).minds world named le_rfl
  · obtain ⟨own, there, rfl⟩ := List.mem_map.mp loop
    exact (minding_loop quoted own (within own there)).minds world named le_rfl

end

/-- Whatever the schedule, every used image is in the dictionary at any time, and when all
threads have ended and no call has failed the dictionary is that of the table. -/
theorem images_mirrored_together (runtime : Runtime) (commands : List Bool)
    (loops : List (List Request)) (world : World) (schedule : List Nat)
    (quoted : ∀ request ∈ loops.flatten, StaysQuoted runtime request)
    (mirrored : world.imageDictionary = some (storedImages (world.tables .s3))) :
    let after := Pool.run schedule (process runtime commands loops world)
    (∀ id, storageRow id "1" ∈ after.state.tables .s3 →
      ∃ dictionary, after.state.imageDictionary = some dictionary ∧
        dictionary id = some (imageName id)) ∧
    (Pool.Done after → after.state.failedCalls = world.failedCalls →
      after.state.imageDictionary = some (storedImages (after.state.tables .s3))) := by
  intro after
  have within (own : List Request) (there : own ∈ loops) (request : Request)
      (member : request ∈ own) : request ∈ loops.flatten :=
    List.mem_flatten.mpr ⟨own, there, member⟩
  have named : Named world := by
    refine ⟨_, mirrored, fun id name found => ?_⟩
    simp only [storedImages, Option.ite_none_right_eq_some] at found
    exact (Option.some.inj found.2).symm
  have entered (id : Int32) (used : Used id world) : Entered id world :=
    ⟨_, mirrored, if_pos used⟩
  have minds (target : Int32) : ∀ script ∈ (process runtime commands loops world).scripts,
      Minds world.failedCalls target (fun _ _ => True) script world :=
    process_minds quoted commands loops world within named
  have moved : Later world after.state :=
    Pool.run_within later_refl later_trans (fun _ _ _ owing => owing.1) schedule _ (minds 0)
  have all := moved.remembered entered
  refine ⟨all, fun done quiet => ?_⟩
  have used (id : Int32) (found : Entered id after.state) : Used id after.state := by
    by_cases before : Used id world
    · exact moved.used id before
    · have closed : ¬Entered id world := by
        rintro ⟨dictionary, there, has⟩
        obtain rfl := Option.some.inj (mirrored.symm.trans there)
        simp only [storedImages, Option.ite_none_right_eq_some] at has
        exact before has.1
      rcases Pool.done_settled later_refl later_trans schedule _ ⟨minds id, Or.inl closed⟩ done with
        absent | settled
      · exact absurd found absent
      · exact settled.2 quiet
  obtain ⟨dictionary, there, names⟩ := moved.named named
  rw [there]
  refine congrArg some (funext fun id => ?_)
  by_cases here : storageRow id "1" ∈ after.state.tables .s3
  · obtain ⟨other, same, has⟩ := all id here
    obtain rfl := Option.some.inj (there.symm.trans same)
    rw [has, storedImages, if_pos here]
  · rw [storedImages, if_neg here]
    cases found : dictionary id with
    | none => rfl
    | some name =>
        refine absurd (used id ⟨dictionary, there, ?_⟩) here
        rw [found, names id name found]

def noImages : World :=
  { World.opened Tables.empty with imageManager := some (Manager.build none (storedImages [])) }

/-- Two loops that go in step answer the same key; even so the dictionary is that of the
table. -/
theorem images_mirrored_together_run :
    let after := Pool.run (inStep 12) (process .standard [] [[keyRequest], [keyRequest]] noImages)
    after.scripts = [.ended (.ok []), .ended (.ok [Server.keyResponse 0]),
      .ended (.ok [Server.keyResponse 0])] ∧
    after.state.imageDictionary = some (storedImages (after.state.tables .s3)) := by
  have quoted : ∀ request ∈ [[keyRequest], [keyRequest]].flatten,
      StaysQuoted .standard request := by
    intro request member
    obtain rfl : request = keyRequest := by simpa using member
    exact ⟨fun upload present => (by cases present), fun search => (by cases search)⟩
  have scripts : (Pool.run (inStep 12)
      (process .standard [] [[keyRequest], [keyRequest]] noImages)).scripts =
        [.ended (.ok []), .ended (.ok [Server.keyResponse 0]),
          .ended (.ok [Server.keyResponse 0])] := rfl
  refine ⟨scripts, (images_mirrored_together .standard [] [[keyRequest], [keyRequest]] noImages
    (inStep 12) quoted rfl).2 (fun script member => ?_) rfl⟩
  rw [scripts] at member
  simp only [List.mem_cons, List.not_mem_nil, or_false] at member
  rcases member with rfl | rfl | rfl <;> exact ⟨_, rfl⟩

end TfuServer
