import TfuServer.Server.Documents
import TfuServer.Server.Upserts

/-!
# Shared schedules read from their rows

The row that `addSharedSchedule` leaves is turned into a record again when
schedules are recommended. The reader takes the count of shares from the column
of the likes, and the descriptions from a document whose strings lost a level of
backslashes in the database.
-/

namespace TfuServer

set_option autoImplicit false

open Numeral Program
open Json (Newtonsoft survives storedChar stored readBody)
open Sql (Cell Row firstKey)

/-- A single prints so that it is read as itself. -/
def IsSingle (library : Newtonsoft) (rating : Floating) : Prop :=
  ∀ number, rating = .finite number → library.parseSingle number.text = some (.finite number)

theorem single_of_held (library : Newtonsoft) (held : Json.Held) (rating : Floating)
    (converted : Json.orElse (Json.toSingle library) (.finite (.ofInt32 0)) held = .ok rating) :
    IsSingle library rating := by
  rintro number rfl
  unfold Json.orElse at converted
  cases held with
  | null =>
      cases converted
      exact library.parse_single_zero
  | bool value =>
      simp only [Json.toSingle, Except.map, Option.getD_some, Except.ok.injEq] at converted
      exact library.single_of_integer_text _ number converted
  | long n =>
      simp only [Json.toSingle, Except.map, Option.getD_some, Except.ok.injEq] at converted
      exact library.single_of_integer_text _ number converted
  | double value =>
      simp only [Json.toSingle, Except.map, Option.getD_some, Except.ok.injEq] at converted
      exact library.single_of_double_text _ number converted
  | string text =>
      cases parsed : library.parseSingle text with
      | none => simp [Json.toSingle, parsed, Except.map] at converted
      | some value =>
          simp only [Json.toSingle, parsed, Except.map, Option.getD_some, Except.ok.injEq]
            at converted
          exact library.parse_single_text text number (converted ▸ parsed)
  | bigInteger n => cases converted
  | dateTime printed => cases converted

section
variable (runtime : Runtime)

theorem carried_single (request : Request) (sch : SharedSchedule)
    (present : carried runtime request = some (.shared sch)) :
    IsSingle runtime.newtonsoft sch.rating := by
  rw [carried_iff, uploadOf] at present
  have route : (readSharedSchedule runtime.newtonsoft (Server.parseBody runtime request.body)).map
      (fun sch => some (Upload.shared sch)) = .ok (some (.shared sch)) := by
    split_ifs at present with method users schedule shared
    · cases present
    · cases decoded : readClient runtime.newtonsoft (Server.parseBody runtime request.body) <;>
        simp [decoded, Except.map] at present
    · cases decoded : readSchedule runtime.newtonsoft (Server.parseBody runtime request.body) <;>
        simp [decoded, Except.map] at present
    · exact present
    · cases present
  cases decoded : readSharedSchedule runtime.newtonsoft
      (Server.parseBody runtime request.body) with
  | error failure => simp [decoded, Except.map] at route
  | ok read =>
      obtain rfl : read = sch := by simpa [decoded, Except.map] using route
      simp only [readSharedSchedule, bind_ok_iff, pure, Except.pure, Except.ok.injEq] at decoded
      obtain ⟨_, -, _, -, held, -, _, -, _, -, _, -, _, -, _, -, _, -, _, -, rating, converted,
        rest⟩ := decoded
      obtain ⟨_, -, _, -, _, -, _, -, _, -, _, -, rfl⟩ := rest
      exact single_of_held runtime.newtonsoft held rating converted

theorem convert_shared_row (sch : SharedSchedule) (document : Text)
    (row : Row (schema.columns .sharedSchedule)) (single : IsSingle runtime.newtonsoft sch.rating)
    (cells : (Upload.shared sch).cells runtime.settings document = some row.cells) :
    convertDataRowToSharedSchedule runtime.newtonsoft row.dataRow =
      (do
        let jarr ← Json.parseArray runtime.newtonsoft document
        jarr.mapM (readDescription runtime.newtonsoft "WaypointId" "WaypointContent"
          "WaypointImgId")).map fun descriptions =>
        { sch with sharedCount := sch.likes, descriptionList := descriptions } := by
  obtain ⟨list, fits⟩ := row
  cases rating : sch.rating with
  | nonFinite kind => simp [Upload.cells, rating] at cells
  | finite number =>
      simp only [Upload.cells, rating, Option.some.injEq] at cells
      subst cells
      have parsed := single number rating
      generalize shape : Row.dataRow ⟨_, fits⟩ = row
      have scheduleId : itemNamed row "scheduleId" = .ok (.int sch.scheduleId) := by
        subst shape; rfl
      have ownerId : itemNamed row "ownerId" = .ok (.bigint sch.ownerId) := by subst shape; rfl
      have ratingCell : itemNamed row "rating" = .ok (.real number.toJsonNumber) := by
        subst shape; rfl
      have likes : itemNamed row "likes" = .ok (.int sch.likes) := by subst shape; rfl
      have titleImgId : itemNamed row "titleImgId" = .ok (.int sch.titleImgId) := by
        subst shape; rfl
      have titleText : itemNamed row "titleText" = .ok (.text sch.titleText) := by
        subst shape; rfl
      have descriptionText : itemNamed row "descriptionText" = .ok (.text sch.descriptionText) := by
        subst shape; rfl
      have descriptions : itemNamed row "waypointDescription" = .ok (.text document) := by
        subst shape; rfl
      simp only [convertDataRowToSharedSchedule, bind, Except.bind, scheduleId, ownerId, ratingCell,
        likes, titleImgId, titleText, descriptionText, descriptions, castInt, castLong, castText,
        printCell, parsed, pure, Except.pure]
      cases Json.parseArray runtime.newtonsoft document with
      | error failure => rfl
      | ok jarr =>
          cases jarr.mapM (readDescription runtime.newtonsoft "WaypointId" "WaypointContent"
            "WaypointImgId") <;> simp [Except.map]

/-- The columns besides the rating and the descriptions. -/
def SameScalars (left right : SharedSchedule) : Prop :=
  left.scheduleId = right.scheduleId ∧ left.ownerId = right.ownerId ∧ left.likes = right.likes ∧
    left.sharedCount = right.sharedCount ∧ left.titleImgId = right.titleImgId ∧
    left.titleText = right.titleText ∧ left.descriptionText = right.descriptionText

theorem same_scalars_iff (sch : SharedSchedule) (descriptions : List WaypointDescription) :
    SameScalars { sch with sharedCount := sch.likes, descriptionList := descriptions } sch ↔
      sch.sharedCount = sch.likes := by
  simp [SameScalars, eq_comm]

variable (encoder : Json.JavaScriptEncoder)

theorem hex_digit_mark (n : Nat) (small : n < 16) :
    Json.hexDigit n ≠ 'T' ∧ Json.hexDigit n ≠ '/' := by
  interval_cases n <;> decide

theorem hex_digits_mark (unit : Nat) (d : Char) (member : d ∈ Json.hexDigits unit) :
    d ≠ 'T' ∧ d ≠ '/' := by
  simp only [Json.hexDigits, List.mem_cons, List.not_mem_nil, or_false] at member
  rcases member with rfl | rfl | rfl | rfl <;>
    exact hex_digit_mark _ (Nat.mod_lt _ (by decide))

/-- The marks of a date come from no other character. -/
theorem stored_char_mark (c d : Char) (mark : d = 'T' ∨ d = '/')
    (member : d ∈ storedChar encoder c) : c = d := by
  unfold storedChar at member
  split at member
  · exfalso
    cases shape : Json.shortEscape c with
    | some short =>
        simp only [shape] at member
        unfold Json.shortEscape at shape
        split_ifs at shape <;>
          (obtain rfl := Option.some.inj shape
           rcases mark with rfl | rfl <;> revert member <;> decide)
    | none =>
        simp only [shape, List.mem_flatMap, List.mem_cons] at member
        obtain ⟨unit, -, rfl | digit⟩ := member
        · rcases mark with same | same <;> exact absurd same (by decide)
        · obtain ⟨notT, notSlash⟩ := hex_digits_mark unit d digit
          exact mark.elim notT notSlash
  · exact (List.mem_singleton.mp member).symm

theorem stored_char_nonempty (c : Char) : storedChar encoder c ≠ [] := by
  unfold storedChar
  split
  · cases Json.shortEscape c with
    | some short => simp [Sql.unescape]; split_ifs <;> simp
    | none => simp [Json.units]; split_ifs <;> simp
  · simp

theorem stored_head (content : Text) (d : Char) (mark : d = 'T' ∨ d = '/')
    (head : (stored encoder content).head? = some d) : content.head? = some d := by
  cases content with
  | nil => cases head
  | cons c rest =>
      cases shape : storedChar encoder c with
      | nil => exact absurd shape (stored_char_nonempty encoder c)
      | cons first more =>
          simp only [stored, List.flatMap_cons, shape, List.cons_append, List.head?_cons,
            Option.some.injEq] at head
          subst head
          rw [stored_char_mark encoder c first mark (shape ▸ List.mem_cons_self)]
          rfl

theorem stored_mark (content : Text) (d : Char) (mark : d = 'T' ∨ d = '/')
    (member : d ∈ stored encoder content) : d ∈ content := by
  obtain ⟨c, within, written⟩ := List.mem_flatMap.mp member
  rw [← stored_char_mark encoder c d mark written]
  exact within

/-- A text comes back through the document exactly when its characters survive and it is
not taken for a date. -/
theorem held_read_iff (library : Newtonsoft) (content : Text)
    (printedPlain : ∀ text printed, library.dateText text = some printed → '\\' ∉ printed) :
    (∃ text, storedRead encoder content = some text ∧ heldText library text = content) ↔
      (∀ c ∈ content, survives encoder c = true) ∧ library.dateText content = none := by
  constructor
  · rintro ⟨text, read, held⟩
    unfold heldText at held
    cases date : library.dateText text with
    | none =>
        rw [date, Option.getD_none] at held
        subst held
        exact ⟨(Json.read_stored_iff encoder text).mp read, date⟩
    | some printed =>
        rw [date, Option.getD_some] at held
        subst held
        have same := Json.read_stored_slashless encoder printed (printedPlain text printed date)
        obtain rfl : stored encoder printed = text := Option.some.inj (same.symm.trans read)
        obtain ⟨marked, noT, noSlash⟩ := library.date_text_shape _ _ date
        rcases marked with inside | head
        · exact absurd (stored_mark encoder printed 'T' (Or.inl rfl) inside) noT
        · exact absurd (stored_head encoder printed '/' (Or.inr rfl) head) noSlash
  · rintro ⟨survive, date⟩
    refine ⟨content, (Json.read_stored_iff encoder content).mpr survive, ?_⟩
    rw [heldText, date, Option.getD_none]

theorem contents_back_iff (library : Newtonsoft) (descriptions : List WaypointDescription)
    (printedPlain : ∀ text printed, library.dateText text = some printed → '\\' ∉ printed) :
    ((∀ description ∈ descriptions,
        (storedRead encoder description.waypointContent).isSome = true) ∧
      (descriptions.map fun description => description.withContent
        (heldText library ((storedRead encoder description.waypointContent).getD []))) =
          descriptions) ↔
      ∀ description ∈ descriptions,
        (∀ c ∈ description.waypointContent, survives encoder c = true) ∧
          library.dateText description.waypointContent = none := by
  induction descriptions with
  | nil => simp
  | cons description descriptions ih =>
      rw [List.forall_mem_cons, List.forall_mem_cons, ← ih,
        ← held_read_iff encoder library description.waypointContent printedPlain, List.map_cons,
        List.cons.injEq]
      have same (content : Text) : description.withContent content = description ↔
          content = description.waypointContent := by
        constructor
        · exact congrArg WaypointDescription.waypointContent
        · rintro rfl
          rfl
      rw [same, Option.isSome_iff_exists]
      constructor
      · rintro ⟨⟨⟨text, read⟩, others⟩, held, rest⟩
        rw [read, Option.getD_some] at held
        exact ⟨⟨text, read, held⟩, others, rest⟩
      · rintro ⟨⟨text, read, held⟩, others, rest⟩
        rw [read, Option.getD_some]
        exact ⟨⟨⟨text, rfl⟩, others⟩, held, rest⟩

end

theorem stored_shared (runtime : Runtime) (sch : SharedSchedule) (branch : Branch)
    (document : Text) (kept : (Upload.shared sch).stored runtime branch = .ok document) :
    ∃ layout, document =
      storedDocument runtime.unicodeAll layout (ScheduleManager.descriptionsDocument sch) := by
  cases branch with
  | insert => exact ⟨.indented, (Except.ok.inj kept).symm⟩
  | update => exact ⟨.compact, (Except.ok.inj kept).symm⟩

/-- What the database keeps of the texts of the descriptions can be read. -/
def Readable (runtime : Runtime) (sch : SharedSchedule) : Prop :=
  ∀ description ∈ sch.descriptionList,
    (storedRead runtime.unicodeAll description.waypointContent).isSome = true

/-- A shared schedule with plain texts is read back with the same scalar columns exactly
when it has been shared as often as it has been liked. It is read back at all where it is
readable. -/
theorem shared_scalars_back_iff (runtime : Runtime) (sch : SharedSchedule) (world : World)
    (plain : ∀ field ∈ (Upload.shared sch).plainFields, '\'' ∉ field ∧ '\\' ∉ field)
    (single : IsSingle runtime.newtonsoft sch.rating)
    (quiet : NoFailure (ScheduleManager.addSharedSchedule runtime sch) world) :
    ∃ row, Keyed.lookup firstKey
        ((exec (ScheduleManager.addSharedSchedule runtime sch) world).2.tables .sharedSchedule)
        sch.scheduleId.toInt = some row ∧
      (∀ back, convertDataRowToSharedSchedule runtime.newtonsoft row.dataRow = .ok back →
        (SameScalars back sch ↔ sch.sharedCount = sch.likes)) ∧
      ((∃ back, convertDataRowToSharedSchedule runtime.newtonsoft row.dataRow = .ok back ∧
          SameScalars back sch) ↔
        sch.sharedCount = sch.likes ∧ Readable runtime sch) := by
  have meaning := meant_of_plain (.shared sch) fun field member =>
    Sql.plain_of_no_special field (plain field member).1 (plain field member).2
  obtain ⟨document, row, kept, cells, found⟩ :=
    store_row runtime (.shared sch) _ world meaning rfl quiet
  have converted := convert_shared_row runtime sch document row single cells
  obtain ⟨layout, rfl⟩ := stored_shared runtime sch _ document kept
  rw [reload_descriptions runtime.newtonsoft runtime.unicodeAll layout sch] at converted
  refine ⟨row, found, fun back read => ?_, ?_⟩
  · rw [converted] at read
    split_ifs at read with readable
    · cases read
      exact same_scalars_iff sch _
    · cases read
  · rw [converted]
    split_ifs with readable
    · simp only [Except.map, Except.ok.injEq, exists_eq_left', same_scalars_iff]
      exact (and_iff_left readable).symm
    · simp only [Except.map, reduceCtorEq, false_and, exists_false, false_iff, not_and]
      exact fun _ => readable

def sharedExample (likes sharedCount : Int32) (content : String) : SharedSchedule where
  scheduleId := 1
  ownerId := 7
  rating := .finite (.ofInt32 0)
  likes := likes
  sharedCount := sharedCount
  titleImgId := 3
  titleText := "T".toList
  descriptionText := "D".toList
  descriptionList := [⟨1, #v[1, 2, 3], content.toList⟩]

set_option maxRecDepth 8000 in
theorem shared_scalars_back_iff_example :
    ∃ row, Keyed.lookup firstKey ((exec (ScheduleManager.addSharedSchedule .standard
        (sharedExample 2 2 "C")) (.fresh Tables.empty)).2.tables .sharedSchedule) 1 = some row ∧
      (∀ back, convertDataRowToSharedSchedule standardNewtonsoft row.dataRow = .ok back →
        (SameScalars back (sharedExample 2 2 "C") ↔ (2 : Int32) = 2)) ∧
      ((∃ back, convertDataRowToSharedSchedule standardNewtonsoft row.dataRow = .ok back ∧
          SameScalars back (sharedExample 2 2 "C")) ↔
        (2 : Int32) = 2 ∧ Readable .standard (sharedExample 2 2 "C")) := by
  refine shared_scalars_back_iff .standard (sharedExample 2 2 "C") (.fresh Tables.empty) ?_ ?_ rfl
  · decide
  · rintro number same
    cases same
    rfl

set_option maxRecDepth 8000 in
/-- Liked once and shared twice: it is read back as shared once. -/
theorem shares_read_from_likes :
    ∃ row back, Keyed.lookup firstKey ((exec (ScheduleManager.addSharedSchedule .standard
        (sharedExample 1 2 "C")) (.fresh Tables.empty)).2.tables .sharedSchedule) 1 = some row ∧
      convertDataRowToSharedSchedule standardNewtonsoft row.dataRow = .ok back ∧
      back.sharedCount = 1 ∧ ¬SameScalars back (sharedExample 1 2 "C") := by
  refine ⟨_, _, rfl, rfl, rfl, ?_⟩
  intro same
  exact absurd same.2.2.2.1 (by decide)

/-- The descriptions of a stored shared schedule come back exactly when every character of
their texts survives the database and no text is taken for a date. -/
theorem descriptions_back_iff (runtime : Runtime) (sch kept : SharedSchedule) (world : World)
    (meaning : (Upload.shared sch).meant = some (.shared kept))
    (single : IsSingle runtime.newtonsoft sch.rating)
    (printedPlain : ∀ text printed, runtime.newtonsoft.dateText text = some printed →
      '\\' ∉ printed)
    (quiet : NoFailure (ScheduleManager.addSharedSchedule runtime sch) world) :
    ∃ row, Keyed.lookup firstKey
        ((exec (ScheduleManager.addSharedSchedule runtime sch) world).2.tables .sharedSchedule)
        sch.scheduleId.toInt = some row ∧
      ((∃ back, convertDataRowToSharedSchedule runtime.newtonsoft row.dataRow = .ok back ∧
          back.descriptionList = sch.descriptionList) ↔
        ∀ description ∈ sch.descriptionList,
          (∀ c ∈ description.waypointContent, survives runtime.unicodeAll c = true) ∧
            runtime.newtonsoft.dateText description.waypointContent = none) := by
  obtain ⟨document, row, stored, cells, found⟩ :=
    store_row runtime (.shared sch) _ world meaning rfl quiet
  refine ⟨row, found, ?_⟩
  have same : kept.rating = sch.rating ∧ kept.descriptionList = sch.descriptionList := by
    simp only [Upload.meant, Option.bind_eq_bind, Option.bind_eq_some_iff, Option.some.injEq,
      Upload.shared.injEq] at meaning
    obtain ⟨titleText, -, descriptionText, -, rfl⟩ := meaning
    exact ⟨rfl, rfl⟩
  obtain ⟨layout, rfl⟩ := stored_shared runtime sch _ document stored
  rw [convert_shared_row runtime kept _ row (same.1 ▸ single) cells,
    reload_descriptions runtime.newtonsoft runtime.unicodeAll layout sch,
    ← contents_back_iff runtime.unicodeAll runtime.newtonsoft sch.descriptionList printedPlain]
  split_ifs with every
  · simpa [Except.map] using fun _ => every
  · simp [Except.map, every]

set_option maxRecDepth 8000 in
theorem descriptions_back_iff_example :
    ∃ row, Keyed.lookup firstKey ((exec (ScheduleManager.addSharedSchedule .standard
        (sharedExample 2 2 "C")) (.fresh Tables.empty)).2.tables .sharedSchedule) 1 = some row ∧
      ((∃ back, convertDataRowToSharedSchedule standardNewtonsoft row.dataRow = .ok back ∧
          back.descriptionList = [⟨1, #v[1, 2, 3], "C".toList⟩]) ↔
        ∀ description ∈ (sharedExample 2 2 "C").descriptionList,
          (∀ c ∈ description.waypointContent, survives Runtime.standard.unicodeAll c = true) ∧
            standardNewtonsoft.dateText description.waypointContent = none) := by
  refine descriptions_back_iff .standard (sharedExample 2 2 "C") (sharedExample 2 2 "C")
    (.fresh Tables.empty) rfl ?_ ?_ rfl
  · rintro number same
    cases same
    rfl
  · intro text printed date
    cases date

set_option maxRecDepth 8000 in
/-- A quotation mark is stored as `u0022`, without its backslash. -/
theorem quotation_mark_changed :
    ∃ row back, Keyed.lookup firstKey ((exec (ScheduleManager.addSharedSchedule .standard
        (sharedExample 2 2 "\"C\"")) (.fresh Tables.empty)).2.tables .sharedSchedule) 1 =
          some row ∧
      convertDataRowToSharedSchedule standardNewtonsoft row.dataRow = .ok back ∧
      back.descriptionList = [⟨1, #v[1, 2, 3], "u0022Cu0022".toList⟩] ∧
      back.descriptionList ≠ (sharedExample 2 2 "\"C\"").descriptionList := by
  refine ⟨_, _, rfl, rfl, rfl, ?_⟩
  decide

end TfuServer
