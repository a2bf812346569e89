import TfuServer.Json.EncodedText
import TfuServer.Server.Standard

/-!
# The answers of the server

A list of records is serialized, and then every u0027 of the finished text is
made an apostrophe. The change goes through to the strings: it does to each
what it would do to the string itself, unless the string has an apostrophe,
whose escape it breaks.
-/

namespace TfuServer

set_option autoImplicit false

open Numeral Replace
open Json (JavaScriptEncoder Spelling textOf write serialize runStr readBody hexDigits)

def mark : Text := "u0027".toList

theorem mark_alphanum : ∀ c ∈ mark, c.isAlphanum = true := List.all_eq_true.mp rfl

theorem restore_cons (c : Char) (rest : Text) (other : c ≠ 'u') :
    restoreApostrophes (c :: rest) = c :: restoreApostrophes rest :=
  replace_cons_kept _ _ c rest (by simp [List.isPrefixOf, other.symm])

theorem restore_passes (left right : Text) (absent : 'u' ∉ left) :
    restoreApostrophes (left ++ right) = left ++ restoreApostrophes right :=
  replace_append_of_head_not_mem 'u' _ _ left right absent

theorem restore_mark (rest : Text) :
    restoreApostrophes (mark ++ rest) = '\'' :: restoreApostrophes rest :=
  replace_occurrence 'u' _ _ rest

theorem restore_quote (left right : Text) :
    restoreApostrophes (left ++ '"' :: right) =
      restoreApostrophes left ++ '"' :: restoreApostrophes right :=
  replace_cut _ _ left right '"' (by decide) (by decide)

theorem restore_kept (c : Char) (rest : Text) (absent : ¬mark <+: c :: rest) :
    restoreApostrophes (c :: rest) = c :: restoreApostrophes rest :=
  replace_cons_kept _ _ c rest
    (Bool.eq_false_iff.mpr fun found => absent (List.isPrefixOf_iff_prefix.mp found))

section
variable (encoder : JavaScriptEncoder)

def restoredSpelling : Spelling where
  body := fun text => restoreApostrophes (encoder.encode text)
  quoteless := fun text member => by
    rcases replace_chars _ _ _ _ member with new | old
    · exact absurd new (by decide)
    · exact Json.encode_quoteless encoder text old
  letters := fun name letters => by
    rw [encoder.spelling.letters name letters |> fun kept => (kept : encoder.encode name = name)]
    refine replace_of_char_not_mem _ _ _ '0' (by decide) fun member => ?_
    exact absurd (List.all_eq_true.mp letters '0' member) (by decide)

theorem restore_text_of (pieces : List Piece) (shaped : Json.Shaped pieces) :
    restoreApostrophes (textOf encoder.spelling pieces) =
      textOf (restoredSpelling encoder) pieces := by
  induction pieces with
  | nil => rfl
  | cons piece pieces ih =>
      have rest := ih fun text member => shaped text (List.mem_cons_of_mem _ member)
      cases piece with
      | raw text =>
          have absent : 'u' ∉ text := fun member =>
            absurd (List.all_eq_true.mp (shaped text (by simp)) 'u' member) (by decide)
          rw [textOf, textOf, restore_passes _ _ absent, rest]
      | quoted text =>
          rw [textOf, textOf, restore_cons '"' _ (by decide), restore_quote, rest]
          rfl

theorem alphanum_prefix (digits rest : Text) (alphanum : ∀ c ∈ digits, c.isAlphanum = true)
    (found : digits <+: encoder.encode rest) : digits <+: rest := by
  induction digits generalizing rest with
  | nil => exact List.nil_prefix
  | cons d digits ih =>
      cases rest with
      | nil => simp [JavaScriptEncoder.encode] at found
      | cons c rest =>
          cases escaped : encoder.escapes c with
          | true =>
              obtain ⟨tail, starts⟩ : ∃ tail, encoder.encodeChar c = '\\' :: tail := by
                simp only [JavaScriptEncoder.encodeChar, escaped, if_true]
                cases Json.shortEscape c with
                | some short => exact ⟨_, rfl⟩
                | none =>
                    simp only [Json.units]
                    split <;> exact ⟨_, rfl⟩
              simp only [JavaScriptEncoder.encode, List.flatMap_cons, starts,
                List.cons_append, List.cons_prefix_cons] at found
              exact absurd (found.1 ▸ alphanum d (by simp)) (by decide)
          | false =>
              simp only [JavaScriptEncoder.encode, List.flatMap_cons,
                Json.encode_char_of_not_escaped encoder c escaped, List.singleton_append,
                List.cons_prefix_cons] at found
              rw [List.cons_prefix_cons]
              exact ⟨found.1, ih rest (fun e member => alphanum e (List.mem_cons_of_mem _ member))
                found.2⟩

theorem restore_units (units : List Nat) (rest : Text)
    (other : ∀ unit ∈ units, unit < 65536 ∧ unit ≠ 0x27) :
    restoreApostrophes ((units.flatMap fun unit => '\\' :: 'u' :: hexDigits unit) ++ rest) =
      (units.flatMap fun unit => '\\' :: 'u' :: hexDigits unit) ++ restoreApostrophes rest := by
  induction units with
  | nil => rfl
  | cons unit units ih =>
      obtain ⟨small, notApostrophe⟩ := other unit (by simp)
      have later := ih fun next member => other next (List.mem_cons_of_mem _ member)
      have absent (tail : Text) : ¬mark <+: 'u' :: (hexDigits unit ++ tail) := by
        intro found
        have four : ['0', '0', '2', '7'] <+: hexDigits unit ++ tail :=
          (List.cons_prefix_cons.mp found).2
        have same : ['0', '0', '2', '7'] = hexDigits unit :=
          (List.prefix_of_prefix_length_le four (List.prefix_append _ _)
            (by simp [hexDigits])).eq_of_length
            (by simp [hexDigits])
        exact notApostrophe (Json.hex_digits_injective unit 0x27 small (by decide) same.symm)
      have digits : 'u' ∉ hexDigits unit := by
        intro member
        simp only [hexDigits, List.mem_cons, List.not_mem_nil, or_false] at member
        have never (n : Nat) (low : n < 16) : 'u' ≠ Json.hexDigit n := by
          interval_cases n <;> decide
        rcases member with same | same | same | same <;>
          exact never _ (Nat.mod_lt _ (by decide)) same
      simp only [List.flatMap_cons, List.append_assoc, List.cons_append]
      rw [restore_cons '\\' _ (by decide), restore_kept 'u' _ (absent _),
        restore_passes _ _ digits, later]

theorem restore_encoded_char (c : Char) (rest : Text) (other : c ≠ '\'')
    (absent : ¬mark <+: c :: rest) :
    restoreApostrophes (encoder.encodeChar c ++ encoder.encode rest) =
      encoder.encodeChar c ++ restoreApostrophes (encoder.encode rest) := by
  have bound := Json.char_bound c
  cases escaped : encoder.escapes c with
  | false =>
      rw [Json.encode_char_of_not_escaped encoder c escaped, List.singleton_append,
        List.singleton_append]
      refine restore_kept c _ fun found => absent ?_
      obtain ⟨head, digits⟩ := List.cons_prefix_cons.mp found
      have alphanum := fun d member => mark_alphanum d (List.mem_cons_of_mem _ member)
      exact List.cons_prefix_cons.mpr ⟨head, alphanum_prefix encoder _ rest alphanum digits⟩
  | true =>
      simp only [JavaScriptEncoder.encodeChar, escaped, if_true]
      cases short : Json.shortEscape c with
      | some d =>
          have notU : d ≠ 'u' := by
            unfold Json.shortEscape at short
            split_ifs at short <;> obtain rfl := Option.some.inj short <;> decide
          simp only [List.cons_append, List.nil_append]
          rw [restore_cons '\\' _ (by decide), restore_cons d _ notU]
      | none =>
          refine restore_units _ _ fun unit member => ?_
          obtain ⟨small, ascii⟩ := Json.units_small c unit member
          exact ⟨small, fun same => other (by rw [ascii (by omega), same])⟩

/-- The string that the finished text is read as, where the original stood. -/
theorem run_restored (text read : Text) :
    runStr .rfc8259 (.plain read) (restoreApostrophes (encoder.encode text)) =
      if '\'' ∈ text then none else some (.plain (read ++ restoreApostrophes text)) := by
  induction size : text.length using Nat.strong_induction_on generalizing text read with
  | _ length ih =>
      cases text with
      | nil => simp [JavaScriptEncoder.encode, restoreApostrophes, runStr]
      | cons c rest =>
          by_cases found : mark <+: c :: rest
          · obtain ⟨after, whole⟩ := found
            have encoded : encoder.encode (mark ++ after) = mark ++ encoder.encode after := by
              simp only [JavaScriptEncoder.encode, List.flatMap_append]
              have kept := Json.encode_kept encoder mark fun d member =>
                Json.alphanum_not_escaped encoder d (mark_alphanum d member)
              simp only [JavaScriptEncoder.encode] at kept
              rw [kept]
            have shorter : after.length < length := by
              rw [← size, ← whole, List.length_append]
              exact Nat.lt_add_of_pos_left (by decide)
            rw [← whole, encoded, restore_mark, restore_mark]
            have step : Json.strStep .rfc8259 (.plain read) '\'' =
                .more (.plain (read ++ ['\''])) := rfl
            simp only [runStr, step]
            rw [ih after.length shorter after (read ++ ['\'']) rfl]
            simp [mark]
          · have shorter : rest.length < length := by simp [← size]
            have tail := ih rest.length shorter rest
            have split : encoder.encode (c :: rest) =
                encoder.encodeChar c ++ encoder.encode rest := by
              simp [JavaScriptEncoder.encode]
            by_cases apostrophe : c = '\''
            · subst apostrophe
              have written : encoder.encodeChar '\'' = '\\' :: mark := by
                have escaped : encoder.escapes '\'' = true := by
                  simp [JavaScriptEncoder.escapes, Json.alwaysEscaped]
                simp only [JavaScriptEncoder.encodeChar, escaped, if_true]
                rfl
              rw [split, written, List.cons_append, restore_cons '\\' _ (by decide), restore_mark]
              simp [runStr, Json.strStep, Json.plainStep, Json.escapeStep, Json.simpleEscape]
            · rw [split, restore_encoded_char encoder c rest apostrophe found,
                restore_kept c rest found, Json.run_str_append, Json.run_str_encoded_char]
              simp only
              rw [tail (read ++ [c]) rfl]
              simp [Ne.symm apostrophe]

theorem read_restored (text : Text) :
    readBody .rfc8259 (restoreApostrophes (encoder.encode text)) =
      if '\'' ∈ text then none else some (restoreApostrophes text) := by
  unfold readBody
  rw [run_restored encoder text []]
  by_cases apostrophe : '\'' ∈ text
  · simp [apostrophe]
  · simp [apostrophe, Json.strStep, Json.plainStep]

/-- A serialized document after the replacement: valid, with its strings changed,
unless one of them has an apostrophe. -/
theorem read_restored_document (layout : Layout) (document : Document)
    (fits : Json.readable .rfc8259 0 document = true) :
    Json.read .rfc8259 (restoreApostrophes (serialize encoder layout document)) =
      if ∀ text ∈ Json.strings document, '\'' ∉ text then
        .value (Json.toJson restoreApostrophes document)
      else .malformed := by
  rw [serialize, restore_text_of encoder _ (Json.write_shaped layout 0 document),
    Json.read_written .rfc8259 (restoredSpelling encoder) layout document fits]
  have body (text : Text) : readBody .rfc8259 ((restoredSpelling encoder).body text) =
      if '\'' ∈ text then none else some (restoreApostrophes text) := read_restored encoder text
  split_ifs with clean
  · rw [Json.read_back_changed .rfc8259 _ restoreApostrophes document fun text member => by
      rw [body, if_neg (clean text member)]]
  · obtain ⟨text, dirty⟩ := not_forall.mp clean
    obtain ⟨member, apostrophe⟩ := Classical.not_imp.mp dirty
    rw [Json.read_back_refused .rfc8259 _ document text member
      (by rw [body, if_pos (not_not.mp apostrophe)])]

end

/-- What the answer to a list needs to know of a kind of record. -/
structure RecordKind (Value : Type) where
  document : Value → Except Failure Document
  finite : Value → Bool
  texts : Value → List Text
  written_iff : ∀ value, (∃ item, document value = .ok item) ↔ finite value = true
  shape : ∀ value item, document value = .ok item →
    Json.isStr item = false ∧ Json.readable .rfc8259 1 item = true ∧
      Json.strings item = texts value

namespace RecordKind

variable {Value : Type} (kind : RecordKind Value)

/-- A list is answered as itself, u0027 made an apostrophe in each string, exactly
when it can be written and has no apostrophe. -/
theorem answered_iff (encoder : JavaScriptEncoder) (values : List Value) :
    (∃ document, listDocument kind.document values = .ok document ∧
      Json.read .rfc8259 (restoreApostrophes (serialize encoder .compact document)) =
        .value (Json.toJson restoreApostrophes document)) ↔
      ∀ value ∈ values, kind.finite value = true ∧ ∀ text ∈ kind.texts value, '\'' ∉ text := by
  have answer (document : Document) (written : listDocument kind.document values = .ok document) :
      Json.read .rfc8259 (restoreApostrophes (serialize encoder .compact document)) =
          .value (Json.toJson restoreApostrophes document) ↔
        ∀ value ∈ values, ∀ text ∈ kind.texts value, '\'' ∉ text := by
    obtain ⟨items, rfl, each⟩ := (list_document_iff _ _ _).mp written
    obtain ⟨readable, strings⟩ :=
      list_items_shape .rfc8259 _ _ kind.shape values items each
    have fits : Json.readable .rfc8259 0 (.arr items) = true := by
      simp [Json.readable, Json.depthAllowed, readable]
    rw [read_restored_document encoder .compact _ fits]
    rw [Json.strings, strings]
    constructor
    · intro same value member text within
      split_ifs at same with clean
      exact clean text (List.mem_flatMap.mpr ⟨value, member, within⟩)
    · intro plain
      refine if_pos fun text within => ?_
      obtain ⟨value, member, inValue⟩ := List.mem_flatMap.mp within
      exact plain value member text inValue
  rw [forall₂_and, ← list_written_iff kind.document kind.finite kind.written_iff]
  constructor
  · rintro ⟨document, written, same⟩
    exact ⟨⟨document, written⟩, (answer document written).mp same⟩
  · rintro ⟨⟨document, written⟩, plain⟩
    exact ⟨document, written, (answer document written).mpr plain⟩

theorem answered_text_iff (encoder : JavaScriptEncoder) (values : List Value) :
    (∃ text document,
      (listDocument kind.document values).map (serialize encoder .compact) = .ok text ∧
      listDocument kind.document values = .ok document ∧
      Json.read .rfc8259 (restoreApostrophes text) =
        .value (Json.toJson restoreApostrophes document)) ↔
      ∀ value ∈ values, kind.finite value = true ∧ ∀ text ∈ kind.texts value, '\'' ∉ text := by
  rw [← kind.answered_iff encoder values]
  constructor
  · rintro ⟨text, document, answered, written, same⟩
    simp only [written, Except.map, Except.ok.injEq] at answered
    exact ⟨document, written, answered ▸ same⟩
  · rintro ⟨document, written, same⟩
    refine ⟨_, document, ?_, written, same⟩
    rw [written]
    rfl

end RecordKind

def waypointKind : RecordKind Waypoint where
  document := Waypoint.document
  finite := Waypoint.isFinite
  texts := Waypoint.texts
  written_iff := waypoint_document_iff
  shape := waypoint_document_shape .rfc8259

def sharedKind : RecordKind SharedSchedule where
  document := SharedSchedule.document
  finite := fun sch => sch.rating.isFinite
  texts := SharedSchedule.texts
  written_iff := shared_document_iff
  shape := shared_document_shape .rfc8259

/-- The text made from a list of records is a JSON text of that list, u0027 made an
apostrophe in each string, exactly when every number is finite and no string has
an apostrophe. -/
theorem answered_list_iff_apostropheless (runtime : Runtime) :
    (∀ list : List SharedSchedule,
      (∃ text document, Server.recommendText runtime list = .ok text ∧
        listDocument SharedSchedule.document list = .ok document ∧
        Json.read .rfc8259 (restoreApostrophes text) =
          .value (Json.toJson restoreApostrophes document)) ↔
        ∀ sch ∈ list, sch.rating.isFinite = true ∧ ∀ text ∈ sch.texts, '\'' ∉ text) ∧
    ∀ list : List Waypoint,
      (∃ text document, Server.waypointsText runtime list = .ok text ∧
        listDocument Waypoint.document list = .ok document ∧
        Json.read .rfc8259 (restoreApostrophes text) =
          .value (Json.toJson restoreApostrophes document)) ↔
        ∀ waypoint ∈ list, waypoint.isFinite = true ∧ ∀ text ∈ waypoint.texts, '\'' ∉ text :=
  ⟨sharedKind.answered_text_iff runtime.unicodeAll,
    waypointKind.answered_text_iff runtime.unicodeAll⟩

def apostropheWaypoint : Waypoint where
  id := 1
  name := "O'Hare".toList
  posX := .finite (.ofInt32 0)
  posY := .finite (.ofInt32 0)
  rating := .ofInt32 0
  reviewCount := 0
  type := 0
  originLink := []
  time := 0

set_option maxRecDepth 4000 in
/-- The escape of the apostrophe loses its digits and keeps its backslash. -/
theorem apostrophe_breaks_answer :
    ∃ text, Server.waypointsText .standard [apostropheWaypoint] = .ok text ∧
      restoreApostrophes text = ("[\x7b\"ID\":1,\"Name\":\"O\\'Hare\",\"PosX\":0,\"PosY\":0," ++
        "\"Rating\":0,\"ReviewCount\":0,\"Type\":0,\"OriginLink\":\"\",\"Time\":0\x7d]").toList ∧
      Json.read .rfc8259 (restoreApostrophes text) = .malformed :=
  ⟨_, rfl, rfl, rfl⟩

end TfuServer
