import TfuServer.Server.Answers
import TfuServer.Server.Failures
import TfuServer.Sql.Like

/-!
# The search for waypoints

The keyword is decoded once more and put between the quotes of a pattern as it
is. What it does there depends on the characters that end the literal, and on
those that mean something in a pattern or to the decoder.
-/

namespace TfuServer

set_option autoImplicit false

open Numeral Program
open Sql (Token Row DataRow readStatements readStatement readLiteral lex)

def patternTokens (pattern : Text) : List Token :=
  [.word "SELECT".toList, .sym '*', .word "FROM".toList, .word "WAYPOINT".toList,
    .word "WHERE".toList, .word "NAME".toList, .word "LIKE".toList, .literal pattern]

/-- The literal opened before the keyword ends at the end of the text, or nothing but
semicolons and comments come after it. -/
def staysInPattern (keyword : Text) : Bool :=
  match readLiteral ('%' :: keyword ++ "%'".toList) with
  | some (_, rest) =>
      match lex rest with
      | some tokens => tokens.all (· == .sym ';')
      | none => false
  | none => false

theorem waypoints_query_lexes (keyword : Text) :
    lex (Server.waypointsQuery keyword) =
      (readLiteral ('%' :: keyword ++ "%'".toList)).bind fun read =>
        (lex read.2).map (patternTokens read.1 ++ ·) := by
  have split : Server.waypointsQuery keyword = "SELECT * FROM WAYPOINT WHERE NAME LIKE '".toList ++
      ('%' :: keyword ++ "%'".toList) := by
    simp [Server.waypointsQuery, textOfParts]
  have opened : Sql.run ⟨.normal, []⟩ "SELECT * FROM WAYPOINT WHERE NAME LIKE '".toList =
      ⟨.quoted '\'' [], [.word "LIKE".toList, .word "NAME".toList, .word "WHERE".toList,
        .word "WAYPOINT".toList, .word "FROM".toList, .sym '*', .word "SELECT".toList]⟩ := rfl
  rw [lex, split, Sql.run_append, opened, Sql.finish_run_quoted]
  simp only [Sql.finish_run_frame, patternTokens, List.reverse_cons, List.reverse_nil,
    List.nil_append, List.cons_append]

theorem query_read_iff (keyword : Text) :
    (∃ pattern, readStatements (Server.waypointsQuery keyword) = some [patternTokens pattern]) ↔
      staysInPattern keyword = true := by
  unfold staysInPattern
  rw [readStatements, waypoints_query_lexes]
  cases readLiteral ('%' :: keyword ++ "%'".toList) with
  | none => simp
  | some read =>
      obtain ⟨value, rest⟩ := read
      simp only [Option.bind_some]
      cases lex rest with
      | none => simp
      | some tokens =>
          have joined : Sql.splitFrom [] (patternTokens value ++ tokens) =
              Sql.splitFrom (patternTokens value) tokens := rfl
          simp only [Option.map_some, Option.some.injEq, joined]
          have alone (pattern : Text) := Sql.split_from_alone (patternTokens value)
            (patternTokens pattern) tokens (by simp [patternTokens]) rfl
          simp only [alone, List.all_eq_true, beq_iff_eq]
          constructor
          · rintro ⟨pattern, same, semicolons⟩
            exact semicolons
          · intro all
            exact ⟨value, rfl, all⟩

theorem pattern_statement (pattern : Text) :
    Sql.parseStatement (patternTokens pattern) =
      some (.select "WAYPOINT".toList (.like "NAME".toList pattern) false) := rfl

theorem read_of_stays (keyword : Text) (stays : staysInPattern keyword = true) :
    ∃ pattern, readStatement (Server.waypointsQuery keyword) =
      some (.select "WAYPOINT".toList (.like "NAME".toList pattern) false) := by
  obtain ⟨pattern, read⟩ := (query_read_iff keyword).mpr stays
  exact ⟨pattern, by rw [readStatement, read]; rfl⟩

theorem read_plain_query (keyword : Text) (quote : '\'' ∉ keyword) (slash : '\\' ∉ keyword) :
    readStatement (Server.waypointsQuery keyword) =
      some (.select "WAYPOINT".toList (.like "NAME".toList ('%' :: keyword ++ ['%'])) false) := by
  have decoded : Sql.decodeLiteral ('%' :: keyword ++ ['%']) = some ('%' :: keyword ++ ['%']) :=
    Sql.decode_plain _ (Sql.plain_of_no_special _ (by simp [quote]) (by simp [slash]))
  have closed : readLiteral ('%' :: keyword ++ "%'".toList) =
      some ('%' :: keyword ++ ['%'], []) := by
    have split : '%' :: keyword ++ "%'".toList = ('%' :: keyword ++ ['%']) ++ ['\''] := by simp
    rw [split, Sql.read_literal_append _ _ _ decoded]
    simp [readLiteral, Sql.readFrom]
  have read : readStatements (Server.waypointsQuery keyword) =
      some [patternTokens ('%' :: keyword ++ ['%'])] := by
    rw [readStatements, waypoints_query_lexes, closed]
    rfl
  rw [readStatement, read]
  exact pattern_statement _

section
variable (runtime : Runtime)

def isSearch (request : Request) : Bool :=
  request.method == "GET".toList && startsWith runtime request.rawUrl "/waypoints"

def searchedKeyword (request : Request) : Text := (request.keyword.map runtime.urlDecode).getD []

/-- The answer made of these rows; empty when one of them cannot be converted or written. -/
def listed (rows : List DataRow) : Text :=
  match rows.mapM (convertDataRowToWaypoint runtime.newtonsoft) with
  | .ok list => (Server.waypointsText runtime list).toOption.getD []
  | .error _ => []

/-- The list of the waypoints as it is read and written, before anything is caught. -/
def waypointsList (rows : List DataRow) : Except Failure Text := do
  let list ← rows.mapM (convertDataRowToWaypoint runtime.newtonsoft)
  Server.waypointsText runtime list

theorem listed_of_ok (rows : List DataRow) (text : Text)
    (made : waypointsList runtime rows = .ok text) : listed runtime rows = text := by
  obtain ⟨list, read, written⟩ := (bind_ok_iff _ _ _).mp made
  rw [listed, read]
  simp [written, Except.toOption]

theorem listed_of_error (rows : List DataRow) (failure : Failure)
    (made : waypointsList runtime rows = .error failure) : listed runtime rows = [] := by
  unfold listed
  cases read : rows.mapM (convertDataRowToWaypoint runtime.newtonsoft) with
  | error other => rfl
  | ok list =>
      simp only [waypointsList, read, bind, Except.bind] at made
      simp [made, Except.toOption]

theorem exec_waypoints (keyword : Option Text) (world : World) :
    exec (Server.waypoints runtime keyword) world =
      match exec (DBManager.select runtime
          (Server.waypointsQuery ((keyword.map runtime.urlDecode).getD []))) world with
      | (.ok (rows :: _), after) => (.ok (listed runtime rows), after)
      | (_, after) => (.ok [], after) := by
  unfold Server.waypoints
  rw [exec_try_catch, exec_bind]
  generalize exec (DBManager.select runtime _) world = ran
  obtain ⟨result, after⟩ := ran
  cases result with
  | error failure => rfl
  | ok data =>
      cases data with
      | nil => rfl
      | cons rows others =>
          simp only [DataSet.first, exec_bind, exec_lift, listed]
          cases rows.mapM (convertDataRowToWaypoint runtime.newtonsoft) with
          | error failure => rfl
          | ok list =>
              simp only
              cases Server.waypointsText runtime list <;> rfl

theorem received_search (request : Request) (world : World)
    (search : isSearch runtime request = true) :
    exec (Server.dataReceived runtime request) world =
      match exec (Server.waypoints runtime request.keyword) world with
      | (.ok text, after) => (.ok (some (restoreApostrophes text)), after)
      | (.error failure, after) => (.error failure, after) := by
  obtain ⟨method, route⟩ := Bool.and_eq_true_iff.mp search
  have get : request.method = "GET".toList := eq_of_beq method
  have image := starts_with_one route "/image" (by decide)
  have recommended := starts_with_one route "/recommend" (by decide)
  simp only [Server.dataReceived, if_pos get, Server.clientGet, route, if_true, image,
    recommended, Bool.false_eq_true, if_false, exec_bind]
  generalize exec (Server.waypoints runtime request.keyword) world = ran
  obtain ⟨result, after⟩ := ran
  cases result <;> rfl

theorem search_after (request : Request) (world : World)
    (search : isSearch runtime request = true) :
    (exec (Server.dataReceived runtime request) world).2 =
      (exec (DBManager.select runtime
        (Server.waypointsQuery (searchedKeyword runtime request))) world).2 := by
  rw [received_search runtime request world search, exec_waypoints, searchedKeyword]
  generalize exec (DBManager.select runtime _) world = ran
  obtain ⟨result, after⟩ := ran
  cases result with
  | error failure => rfl
  | ok data => cases data <;> rfl

end

def searchRequest (keyword : String) : Request where
  method := "GET".toList
  rawUrl := "/waypoints".toList
  keyword := some keyword.toList
  body := []

/-- What the server does with several statements: each in turn, while there is no error. -/
def executeEach (settings : Sql.Settings) : List (List Token) → Tables → Option Tables
  | [], tables => some tables
  | tokens :: others, tables => do
      let statement ← Sql.parseStatement tokens
      let after ← Sql.execute settings tables statement
      executeEach settings others after

def Runtime.several : Runtime :=
  { Runtime.standard with
    foreign := fun text tables => do
      let statements ← readStatements text
      let after ← executeEach Runtime.standard.settings statements tables
      some ([], after) }

def insertingRequest : Request := searchRequest "'; Insert into USER values(7, 'x', ''); -- "

def plusToSpace (c : Char) : Char := if c = '+' then ' ' else c

/-- `HttpUtility.UrlDecode`: pluses are blanks, and an escape sequence stands for fewer
characters than it has. -/
structure UrlDecodes (urlDecode : Text → Text) : Prop where
  plain : ∀ text, '%' ∉ text → urlDecode text = text.map plusToSpace
  shorter : ∀ text, urlDecode text = text.map plusToSpace ∨
    (urlDecode text).length < text.length

/-- What every collation does: a character equals itself, a plus is no blank, and an
underscore does not equal every character. -/
structure Collates (same : Char → Char → Bool) (wild : Char) : Prop where
  reflexive : ∀ c, same c c = true
  plus : same '+' ' ' = false
  underscore : same '_' wild = false

/-- No character of the keyword means something to the decoder or in a pattern. -/
def Literal (keyword : Text) : Prop := '%' ∉ keyword ∧ '_' ∉ keyword ∧ '+' ∉ keyword

section
variable (runtime : Runtime)

def nameContains (keyword : Text) (row : Row TableName.waypoint.columns) : Bool :=
  match Sql.cellAt TableName.waypoint.columns row.cells "name".toList with
  | some (.text name) => Sql.contains runtime.settings.sameChar keyword name
  | _ => false

def rowsContaining (tables : Tables) (keyword : Text) : List DataRow :=
  ((tables .waypoint).filter (nameContains runtime keyword)).map Row.dataRow

/-- The answer is made of the rows whose names contain the keyword, in the order of the table. -/
def AnswersContaining (keyword : Text) : Prop :=
  ∀ request world, isSearch runtime request = true → request.keyword = some keyword →
    NoFailure (Server.dataReceived runtime request) world →
    (exec (Server.dataReceived runtime request) world).1 =
      .ok (some (restoreApostrophes (listed runtime (rowsContaining runtime world.tables keyword))))

/-- The search lists the waypoints whose names contain the keyword, in the order of the table, on
every table where these can be listed. -/
def Exact (keyword : Text) : Prop :=
  ∀ request world text, isSearch runtime request = true → request.keyword = some keyword →
    NoFailure (Server.dataReceived runtime request) world →
    waypointsList runtime (rowsContaining runtime world.tables keyword) = .ok text →
    (exec (Server.dataReceived runtime request) world).1 = .ok (some (restoreApostrophes text))

theorem search_answer (request : Request) (world : World) (search : isSearch runtime request = true)
    (pattern : Text)
    (read : readStatement (Server.waypointsQuery (searchedKeyword runtime request)) =
      some (.select "WAYPOINT".toList (.like "NAME".toList pattern) false))
    (quiet : NoFailure (Server.dataReceived runtime request) world) :
    (exec (Server.dataReceived runtime request) world).1 = .ok (some (restoreApostrophes
      (listed runtime (rowsMeeting runtime world.tables .waypoint
        (.like "NAME".toList pattern))))) := by
  have quiet : NoFailure (DBManager.select runtime
      (Server.waypointsQuery (searchedKeyword runtime request))) world := by
    rw [NoFailure, Quiet, search_after runtime request world search] at quiet
    exact quiet
  obtain ⟨data, tables, answered, ran⟩ := no_failure_select runtime _ world quiet
  obtain ⟨rfl, -, -⟩ := answer_select runtime _ _ _ _ _ _ .waypoint data read rfl answered
  rw [received_search runtime request world search, exec_waypoints, ← searchedKeyword, ran]

theorem name_like (keyword : Text) (ordinary : ∀ c ∈ keyword, Sql.isOrdinary c = true)
    (row : Row TableName.waypoint.columns) :
    (Sql.Condition.like "NAME".toList ('%' :: keyword ++ ['%'])).holds runtime.settings
      TableName.waypoint.columns row.cells = nameContains runtime keyword row := by
  have column : Sql.cellAt TableName.waypoint.columns row.cells "NAME".toList =
      Sql.cellAt TableName.waypoint.columns row.cells "name".toList :=
    Sql.cell_at_same_name _ _ _ _ rfl
  rw [Sql.Condition.holds, nameContains, column]
  cases Sql.cellAt TableName.waypoint.columns row.cells "name".toList with
  | none => rfl
  | some cell =>
      cases cell with
      | text name => exact Sql.like_contains _ keyword name ordinary
      | null | int | bigint | real | decimal | date | bool => rfl

theorem rows_found (tables : Tables) (keyword : Text)
    (ordinary : ∀ c ∈ keyword, Sql.isOrdinary c = true) :
    rowsMeeting runtime tables .waypoint (.like "NAME".toList ('%' :: keyword ++ ['%'])) =
      rowsContaining runtime tables keyword :=
  congrArg (List.map Row.dataRow)
    (List.filter_congr fun row _ => name_like runtime keyword ordinary row)

theorem decoded_literal (decodes : UrlDecodes runtime.urlDecode) (keyword : Text)
    (literal : Literal keyword) : runtime.urlDecode keyword = keyword := by
  obtain ⟨percent, -, plus⟩ := literal
  rw [decodes.plain keyword percent]
  refine (List.map_congr_left fun c member => ?_).trans (List.map_id keyword)
  have other : c ≠ '+' := fun same => plus (same ▸ member)
  simp [plusToSpace, other]

theorem answers_of_literal (decodes : UrlDecodes runtime.urlDecode) (keyword : Text)
    (quote : '\'' ∉ keyword) (slash : '\\' ∉ keyword) (literal : Literal keyword) :
    AnswersContaining runtime keyword := by
  intro request world search sent quiet
  have searched : searchedKeyword runtime request = keyword := by
    simp [searchedKeyword, sent, decoded_literal runtime decodes keyword literal]
  have ordinary (c : Char) (member : c ∈ keyword) : Sql.isOrdinary c = true := by
    simp only [Sql.isOrdinary, Bool.and_eq_true, bne_iff_ne, ne_eq]
    exact ⟨⟨fun same => literal.1 (same ▸ member), fun same => literal.2.1 (same ▸ member)⟩,
      fun same => slash (same ▸ member)⟩
  rw [search_answer runtime request world search _
    (by rw [searched]; exact read_plain_query keyword quote slash) quiet,
    rows_found runtime world.tables keyword ordinary]

theorem exact_of_answers (keyword : Text) (answers : AnswersContaining runtime keyword) :
    Exact runtime keyword := by
  intro request world text search sent quiet made
  rw [answers request world search sent quiet, listed_of_ok runtime _ text made]

def namedRow (name : Text) : Row TableName.waypoint.columns :=
  ⟨[.int 0, .text name, .real (.ofInt 0), .real (.ofInt 0), .decimal (.ofInt 0), .int 0, .int 0,
    .text [], .int 0], rfl⟩

def namedTables (name : Text) : Tables :=
  Function.update Tables.empty .waypoint [namedRow name]

theorem listed_one_ne (row : DataRow) :
    restoreApostrophes (listed runtime [row]) ≠ restoreApostrophes (listed runtime []) := by
  have none : restoreApostrophes (listed runtime []) = "[]".toList := rfl
  have emptied : restoreApostrophes [] ≠ "[]".toList := by decide
  rw [none]
  unfold listed
  simp only [List.mapM_cons, List.mapM_nil]
  cases converted : convertDataRowToWaypoint runtime.newtonsoft row with
  | error failure => exact emptied
  | ok waypoint =>
      simp only [bind, Except.bind, pure, Except.pure]
      cases written : listDocument Waypoint.document [waypoint] with
      | error failure =>
          have failed : Server.waypointsText runtime [waypoint] = .error failure := by
            rw [Server.waypointsText, written]
            rfl
          rw [failed]
          exact emptied
      | ok document =>
          have text : Server.waypointsText runtime [waypoint] =
              .ok (Json.serialize runtime.unicodeAll .compact document) := by
            rw [Server.waypointsText, written]
            rfl
          rw [text]
          obtain ⟨items, rfl, each⟩ := (list_document_iff _ _ _).mp written
          obtain ⟨readable, -⟩ :=
            list_items_shape .rfc8259 _ _ waypointKind.shape [waypoint] items each
          have fits : Json.readable .rfc8259 0 (.arr items) = true := by
            simp [Json.readable, Json.depthAllowed, readable]
          intro same
          have read := congrArg (Json.read .rfc8259) same
          simp only [Except.toOption, Option.getD_some] at read
          rw [read_restored_document runtime.unicodeAll .compact _ fits] at read
          have empty : Json.read .rfc8259 "[]".toList = .value (.arr []) := rfl
          rw [empty] at read
          cases each with
          | cons first rest =>
              split_ifs at read
              simp [Json.toJson, Json.itemsToJson] at read

theorem named_found (name pattern : Text)
    (matched : Sql.likeMatches runtime.settings.sameChar pattern name = true) :
    rowsMeeting runtime (namedTables name) .waypoint (.like "NAME".toList pattern) =
      [(namedRow name).dataRow] := by
  have one : namedTables name .waypoint = [namedRow name] := Function.update_self _ _ _
  have holds : (Sql.Condition.like "NAME".toList pattern).holds runtime.settings
      TableName.waypoint.columns (namedRow name).cells = true := matched
  simp only [rowsMeeting, one, List.filter_cons, holds, if_true, List.filter_nil, List.map_cons,
    List.map_nil]

theorem named_contains (name keyword : Text)
    (apart : Sql.contains runtime.settings.sameChar keyword name = false) :
    rowsContaining runtime (namedTables name) keyword = [] := by
  have one : namedTables name .waypoint = [namedRow name] := Function.update_self _ _ _
  have misses : nameContains runtime keyword (namedRow name) = false := apart
  simp only [rowsContaining, one, List.filter_cons, misses, Bool.false_eq_true, if_false,
    List.filter_nil, List.map_nil]

/-- A shortest name that the pattern of a keyword matches does not contain the keyword,
if a character of it is not literal. -/
theorem sample_misses (decodes : UrlDecodes runtime.urlDecode) (wild : Char)
    (collates : Collates runtime.settings.sameChar wild) (keyword : Text)
    (special : ¬Literal keyword) :
    Sql.contains runtime.settings.sameChar keyword
      (Sql.sample wild (runtime.urlDecode keyword)) = false := by
  rw [Bool.eq_false_iff]
  intro found
  have long := Sql.contains_length _ keyword _ found
  by_cases percent : '%' ∈ keyword
  · obtain ⟨short, shorter⟩ := Sql.sample_length wild (runtime.urlDecode keyword)
    rcases decodes.shorter keyword with same | less
    · have kept : '%' ∈ runtime.urlDecode keyword := by
        rw [same]
        exact List.mem_map.mpr ⟨'%', percent, rfl⟩
      have fewer := shorter kept
      rw [same, List.length_map] at fewer
      rw [same] at long
      omega
    · omega
  · have changed : Sql.sample wild (runtime.urlDecode keyword) =
        keyword.map fun c => if c = '_' then wild else plusToSpace c := by
      rw [decodes.plain keyword percent, Sql.sample, List.flatMap_map,
        ← List.flatMap_singleton' (keyword.map _), List.flatMap_map]
      refine List.flatMap_congr fun c member => ?_
      have other : c ≠ '%' := fun same => percent (same ▸ member)
      by_cases plus : c = '+'
      · subst plus
        rfl
      · simp only [Sql.sampleChar, plusToSpace, plus, if_false, other]
        split_ifs <;> rfl
    rw [changed] at found
    have each := Sql.begins_with_map _ _ keyword
      (Sql.contains_same_length _ keyword _ (by simp) found)
    apply special
    refine ⟨percent, fun underscore => ?_, fun plus => ?_⟩
    · have equal := each '_' underscore
      rw [if_pos rfl, collates.underscore] at equal
      cases equal
    · have equal := each '+' plus
      have blank : (if '+' = '_' then wild else plusToSpace '+') = ' ' := rfl
      rw [blank, collates.plus] at equal
      cases equal

theorem named_search_quiet (works : ∀ call, runtime.outcome call = .works) (name : Text)
    (pattern : Text) (request : Request) (search : isSearch runtime request = true)
    (read : readStatement (Server.waypointsQuery (searchedKeyword runtime request)) =
      some (.select "WAYPOINT".toList (.like "NAME".toList pattern) false))
    (matched : Sql.likeMatches runtime.settings.sameChar pattern name = true) :
    NoFailure (Server.dataReceived runtime request) (.fresh (namedTables name)) := by
  have rows := named_found runtime name pattern matched
  have queried (order : List DataRow → List DataRow) :
      Sql.query runtime.settings order (namedTables name)
        (.select "WAYPOINT".toList (.like "NAME".toList pattern) false) =
        some [(namedRow name).dataRow] := by
    rw [← rows]
    exact @Sql.query_select runtime.settings schema (namedTables name) _ .waypoint rfl order _
  have fits : deliverable [(namedRow name).dataRow] = true := rfl
  have answered (call : Nat) :
      answer runtime call (namedTables name)
        (Server.waypointsQuery (searchedKeyword runtime request)) =
        some ([[(namedRow name).dataRow]], namedTables name) := by
    simp only [answer, read, queried, fits, if_true]
  rw [NoFailure, Quiet, search_after runtime request _ search]
  simp only [DBManager.select, exec_bind, exec_get, works, exec_modify, callEnded]
  have tables : (World.fresh (namedTables name)).tables = namedTables name := rfl
  rw [tables, answered]
  rfl

theorem literal_of_exact (decodes : UrlDecodes runtime.urlDecode) (wild : Char)
    (collates : Collates runtime.settings.sameChar wild)
    (works : ∀ call, runtime.outcome call = .works) (keyword : Text)
    (quote : '\'' ∉ runtime.urlDecode keyword) (slash : '\\' ∉ runtime.urlDecode keyword)
    (exact_ : Exact runtime keyword) : Literal keyword := by
  by_contra special
  let decoded := runtime.urlDecode keyword
  let name := Sql.sample wild decoded
  let request : Request := ⟨"GET".toList, "/waypoints".toList, some keyword, []⟩
  have read : readStatement (Server.waypointsQuery (searchedKeyword runtime request)) = _ :=
    read_plain_query decoded quote slash
  have matched :
      Sql.likeMatches runtime.settings.sameChar ('%' :: decoded ++ ['%']) name = true := by
    have whole : Sql.sample wild ('%' :: decoded ++ ['%']) = name := by
      simp [Sql.sample, Sql.sampleChar, name]
    rw [← whole]
    exact Sql.sample_matches _ wild _ collates.reflexive (by simp [decoded, slash])
  have search : isSearch runtime request = true :=
    Bool.and_eq_true_iff.mpr ⟨rfl, runtime.starts_self _⟩
  have quiet := named_search_quiet runtime works name _ request search read matched
  have answered := search_answer runtime request _ search _ read quiet
  have tables : (World.fresh (namedTables name)).tables = namedTables name := rfl
  have none : rowsContaining runtime (World.fresh (namedTables name)).tables keyword = [] :=
    named_contains runtime name keyword
      (sample_misses runtime decodes wild collates keyword special)
  have expected := exact_ request _ (listed runtime []) search rfl quiet (by rw [none]; rfl)
  rw [answered, tables, named_found runtime name _ matched] at expected
  exact listed_one_ne runtime _ (Option.some.inj (Except.ok.inj expected))

end

/-- A keyword without quotes and backslashes finds exactly the waypoints whose names contain it
if it has no percent sign, underscore or plus; while its statement is read as the search,
only then. One of them that cannot be listed leaves the answer empty. -/
theorem search_exact_iff_literal (runtime : Runtime) (decodes : UrlDecodes runtime.urlDecode)
    (wild : Char) (collates : Collates runtime.settings.sameChar wild) (keyword : Text)
    (quote : '\'' ∉ keyword) (slash : '\\' ∉ keyword) :
    (Literal keyword → AnswersContaining runtime keyword) ∧
    ((∀ call, runtime.outcome call = .works) → '\'' ∉ runtime.urlDecode keyword →
      '\\' ∉ runtime.urlDecode keyword → (Exact runtime keyword ↔ Literal keyword)) := by
  have forward := answers_of_literal runtime decodes keyword quote slash
  refine ⟨forward, fun works decodedQuote decodedSlash => ⟨fun exact_ => ?_, fun literal =>
    exact_of_answers runtime keyword (forward literal)⟩⟩
  exact literal_of_exact runtime decodes wild collates works keyword decodedQuote decodedSlash
    exact_

def Runtime.spaced : Runtime := { Runtime.standard with urlDecode := List.map plusToSpace }

theorem search_exact_iff_literal_name :
    AnswersContaining .spaced "Seoul".toList ∧
      (Exact .spaced "Seoul".toList ↔ Literal "Seoul".toList) := by
  obtain ⟨forward, both⟩ := search_exact_iff_literal .spaced ⟨fun _ _ => rfl, fun _ => Or.inl rfl⟩
    'a' ⟨fun c => beq_self_eq_true _, by decide, by decide⟩ "Seoul".toList (by decide) (by decide)
  exact ⟨forward ⟨by decide, by decide, by decide⟩, both (fun _ => rfl) (by decide) (by decide)⟩

def answerLength : Except Failure (Option Text) → Nat
  | .ok (some text) => text.length
  | _ => 0

/-- An underscore finds a waypoint named A. -/
theorem underscore_finds_letter :
    '\'' ∉ "_".toList ∧ '\\' ∉ "_".toList ∧ ¬Exact .standard "_".toList := by
  refine ⟨by decide, by decide, fun exact_ => ?_⟩
  have expected := exact_ (searchRequest "_") (.fresh (namedTables "A".toList)) _ rfl rfl
    (by unfold NoFailure Quiet; decide +kernel) rfl
  have sizes := congrArg answerLength expected
  revert sizes
  decide +kernel

end TfuServer
