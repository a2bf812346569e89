import TfuServer.Server.Uploads

/-!
# Columns that hold a document

A serialized list is put into an SQL literal as it is. No serializer writes an
apostrophe, and each backslash it writes is paid for by the character behind it,
so the literal ends where its builder ends it.
-/

namespace TfuServer

set_option autoImplicit false

open Numeral Program
open Json (serialize layoutChar textOf)
open Sql (Confined)

theorem text_apostropheless (encoder : Json.JavaScriptEncoder) (pieces : List Piece)
    (shaped : Json.Shaped pieces) : '\'' ∉ textOf encoder.spelling pieces := by
  induction pieces with
  | nil => simp [textOf]
  | cons piece pieces ih =>
      have rest := ih fun text member => shaped text (List.mem_cons_of_mem _ member)
      cases piece with
      | raw text =>
          have clean := List.all_eq_true.mp (shaped text (by simp))
          simp only [textOf, List.mem_append, not_or]
          exact ⟨fun member => (Json.layout_char_plain _ (clean _ member)).1 rfl, rest⟩
      | quoted text =>
          have body : '\'' ∉ encoder.spelling.body text :=
            Json.encode_apostropheless encoder text
          simp [textOf, body, rest]

theorem serialize_apostropheless (encoder : Json.JavaScriptEncoder) (layout : Layout)
    (document : Document) : '\'' ∉ serialize encoder layout document :=
  text_apostropheless encoder _ (Json.write_shaped layout 0 document)

theorem serialize_confined (builder : Text → Text) (front back : Text)
    (shape : ∀ hole, builder hole = front ++ '\'' :: (hole ++ '\'' :: back))
    (after : ∃ c rest, back = c :: rest ∧ c ≠ '\'') (encoder : Json.JavaScriptEncoder)
    (layout : Layout) (document : Document) :
    Confined builder (serialize encoder layout document) :=
  Sql.confined_of_decoded builder front back _ _ shape after
    (serialize_apostropheless encoder layout document)
    (Json.decode_serialize encoder layout document)

namespace ScheduleManager

def builders (sch : Schedule) : List (Text → Text) := [insertText sch, updateText sch]

def sharedBuilders (sch : SharedSchedule) : List (Text → Text) :=
  [insertSharedText sch, updateSharedText sch]

/-- A builder writes some parts, opens a literal for its hole and closes it. -/
theorem builder_confines (before after : List Text) (next : Char) (tail : Text)
    (builder : Text → Text) (shape : ∀ hole, builder hole =
      textOfParts (before ++ "'".toList :: hole :: ('\'' :: next :: tail) :: after))
    (single : next ≠ '\'') (encoder : Json.JavaScriptEncoder) (layout : Layout)
    (document : Document) : Confined builder (serialize encoder layout document) := by
  refine serialize_confined builder before.flatten (next :: (tail ++ after.flatten))
    (fun hole => ?_)
    ⟨next, _, rfl, single⟩ encoder layout document
  rw [shape]
  simp [textOfParts]

theorem builders_confine (sch : Schedule) (builder : Text → Text) (member : builder ∈ builders sch)
    (encoder : Json.JavaScriptEncoder) (layout : Layout) (document : Document) :
    Confined builder (serialize encoder layout document) := by
  simp only [builders, List.mem_cons, List.not_mem_nil, or_false] at member
  rcases member with rfl | rfl
  · refine builder_confines ["INSERT INTO SCHEDULE Values(".toList, intText sch.id.toInt,
      ", '".toList, sch.name, "', '".toList, sch.destination, "', ".toList, intText sch.days.toInt,
      ", '".toList, sch.startDate, "', ".toList] [intText sch.memberGroupId.toInt, ", ".toList,
      boolText sch.isShared, ");".toList] ',' " ".toList _ (fun hole => ?_) (by decide) encoder
      layout document
    simp [insertText, textOfParts]
  · refine builder_confines ["UPDATE SCHEDULE SET name = '".toList, sch.name,
      "', destination = '".toList, sch.destination, "', days = ".toList, intText sch.days.toInt,
      ", startDate = '".toList, sch.startDate, "', waypoints = ".toList]
      [intText sch.memberGroupId.toInt, ", isShared = ".toList, boolText sch.isShared,
      " WHERE id = ".toList, intText sch.id.toInt, ";".toList] ',' " memberGroupId = ".toList _
      (fun hole => ?_) (by decide) encoder layout document
    simp [updateText, textOfParts]

theorem shared_builders_confine (sch : SharedSchedule) (builder : Text → Text)
    (member : builder ∈ sharedBuilders sch) (encoder : Json.JavaScriptEncoder) (layout : Layout)
    (document : Document) : Confined builder (serialize encoder layout document) := by
  simp only [sharedBuilders, List.mem_cons, List.not_mem_nil, or_false] at member
  rcases member with rfl | rfl
  · refine builder_confines ["INSERT INTO SHAREDSCHEDULE Values(".toList,
      intText sch.scheduleId.toInt, ", ".toList, intText sch.ownerId.toInt, ", ".toList,
      sch.rating.text, ", ".toList, intText sch.likes.toInt, ", ".toList,
      intText sch.sharedCount.toInt, ", ".toList, intText sch.titleImgId.toInt, ", '".toList,
      sch.titleText, "', '".toList, sch.descriptionText, "', ".toList] [] ')' ";".toList _
      (fun hole => ?_) (by decide) encoder layout document
    simp [insertSharedText, textOfParts]
  · refine builder_confines ["UPDATE SHAREDSCHEDULE SET scheduleId = ".toList,
      intText sch.scheduleId.toInt, ", ownerId = ".toList, intText sch.ownerId.toInt,
      ", rating = ".toList, sch.rating.text, ", likes = ".toList, intText sch.likes.toInt,
      ", sharedCount = ".toList, intText sch.sharedCount.toInt, ", titleImgId = ".toList,
      intText sch.titleImgId.toInt, ", titleText = '".toList, sch.titleText,
      "', descriptionText = '".toList, sch.descriptionText, "', waypointDescription = ".toList]
      [intText sch.scheduleId.toInt, ";".toList] ' ' "WHERE scheduleId = ".toList _
      (fun hole => ?_) (by decide) encoder layout document
    simp [updateSharedText, textOfParts]

def serializers (runtime : Runtime) : List (Json.JavaScriptEncoder × Layout) :=
  [(.default, .compact), (runtime.unicodeAll, .compact), (runtime.unicodeAll, .indented)]

/-- Every text executed since the log was `start` has the document in a literal of its own. -/
def SendsColumn (runtime : Runtime) (builders : List (Text → Text)) (document : Document)
    (start : List Call) : World → Prop :=
  SendsOnly start fun text => ∃ builder ∈ builders, ∃ setting ∈ serializers runtime,
    text = builder (serialize setting.1 setting.2 document) ∧
      Confined builder (serialize setting.1 setting.2 document)

/-- Whatever the lists hold and whichever setting writes them, their literals end
where their builders end them; and what is handed to the database is written so. -/
theorem documents_confined (runtime : Runtime) :
    (∀ setting ∈ serializers runtime,
      (∀ (sch : Schedule) (document : Document),
        listDocument Waypoint.document sch.waypoints = .ok document →
          ∀ builder ∈ builders sch, Confined builder (serialize setting.1 setting.2 document)) ∧
      ∀ sch : SharedSchedule, ∀ builder ∈ sharedBuilders sch,
        Confined builder (serialize setting.1 setting.2 (descriptionsDocument sch))) ∧
    (∀ (sch : Schedule) (document : Document) (world : World),
      listDocument Waypoint.document sch.waypoints = .ok document →
        SendsColumn runtime (builders sch) document world.log
          (exec (addSchedule runtime sch) world).2) ∧
    ∀ (sch : SharedSchedule) (world : World),
      SendsColumn runtime (sharedBuilders sch) (descriptionsDocument sch) world.log
        (exec (addSharedSchedule runtime sch) world).2 := by
  refine ⟨fun setting _ => ⟨fun sch document _ builder member => ?_,
    fun sch builder member => ?_⟩, fun sch document world written => ?_, fun sch world => ?_⟩
  · exact builders_confine sch builder member setting.1 setting.2 document
  · exact shared_builders_confine sch builder member setting.1 setting.2 _
  · have start : SendsColumn runtime (builders sch) document world.log world :=
      ⟨[], by simp, by simp⟩
    refine stable_add_schedule sends_only_stable runtime sch (fun other same => ?_)
      (fun other same => ?_) world start
    all_goals obtain rfl : document = other := Except.ok.inj (written.symm.trans same)
    · exact ⟨updateText sch, by simp [builders], (.default, .compact), by simp [serializers], rfl,
        builders_confine sch _ (by simp [builders]) _ _ _⟩
    · exact ⟨insertText sch, by simp [builders], (runtime.unicodeAll, .compact),
        by simp [serializers], rfl, builders_confine sch _ (by simp [builders]) _ _ _⟩
  · refine stable_add_shared sends_only_stable runtime sch ?_ ?_ world ⟨[], by simp, by simp⟩
    · exact ⟨updateSharedText sch, by simp [sharedBuilders], (runtime.unicodeAll, .compact),
        by simp [serializers], rfl, shared_builders_confine sch _ (by simp [sharedBuilders]) _ _ _⟩
    · exact ⟨insertSharedText sch, by simp [sharedBuilders], (runtime.unicodeAll, .indented),
        by simp [serializers], rfl, shared_builders_confine sch _ (by simp [sharedBuilders]) _ _ _⟩

def apostropheShared : SharedSchedule :=
  ⟨1, 7, .finite (.ofInt32 0), 0, 0, 0, [], [], [⟨1, .replicate 3 0, "it's \\' or \\".toList⟩]⟩

theorem documents_confined_apostrophe :
    Confined (insertSharedText apostropheShared)
      (serialize Runtime.standard.unicodeAll .indented (descriptionsDocument apostropheShared)) :=
  ((documents_confined .standard).1 (Runtime.standard.unicodeAll, .indented)
    (by simp [serializers])).2 apostropheShared _ (by simp [sharedBuilders])

end ScheduleManager

end TfuServer
