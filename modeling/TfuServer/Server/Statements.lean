import TfuServer.Server.Managers
import TfuServer.Sql.Template

/-!
# The statements the managers send

Every text a manager puts together is a list of literals between fixed gaps.
This module gives the gaps of each builder, the tokens it is meant to be read
as, and the statement these tokens stand for.
-/

namespace TfuServer

set_option autoImplicit false

open Numeral Program
open Sql (Token Value Statement Field Gap Ending Lexes statementText statementTokens
  readStatements readStatement parseStatement decodeLiteral lexes_fixed lexes_int)

def word (text : String) : Token := .word text.toList

def number (n : Int) : Token := .number (intText n)

def literal (value : Text) : Token := .literal value

def comma : Token := .sym ','

def floatingTokens : Floating → List Token
  | .finite numeral => [.number numeral.text]
  | .nonFinite .nan => [word "NaN"]
  | .nonFinite .infinity => [word "Infinity"]
  | .nonFinite .negativeInfinity => [.sym '-', word "Infinity"]

def floatingValue : Floating → Value
  | .finite numeral => .number numeral.text
  | .nonFinite kind => .name kind.text

def boolToken (value : Bool) : Token := .word (ScheduleManager.boolText value)

theorem lexes_floating {rest : Text} {tokens : List Token} (value : Floating)
    (ends : Sql.delimits rest = true) (after : Lexes rest tokens) :
    Lexes (value.text ++ rest) (floatingTokens value ++ tokens) := by
  cases value with
  | finite numeral => exact Sql.lexes_json_number numeral.toJsonNumber ends after
  | nonFinite kind =>
      cases kind with
      | nan => exact Sql.lexes_word [] (fun _ => rfl) ends after
      | infinity => exact Sql.lexes_word [] (fun _ => rfl) ends after
      | negativeInfinity => exact Sql.lexes_word [.sym '-'] (fun _ => rfl) ends after

theorem lexes_bool {rest : Text} {tokens : List Token} (value : Bool)
    (ends : Sql.delimits rest = true) (after : Lexes rest tokens) :
    Lexes (ScheduleManager.boolText value ++ rest) (boolToken value :: tokens) := by
  cases value with
  | true => exact Sql.lexes_word [] (fun _ => rfl) ends after
  | false => exact Sql.lexes_word [] (fun _ => rfl) ends after

namespace ImageManager

theorem read_used_query : readStatement usedQuery =
    some (.select "S3".toList (.equals "status".toList (.number ['1'])) false) := rfl

theorem read_free_query : readStatement freeQuery =
    some (.select "S3".toList (.equals "status".toList (.number ['0'])) false) := rfl

theorem read_row_query (id : Int32) : readStatement (rowQuery id) =
    some (.select "S3".toList (.equals "id".toList (.number (intText id.toInt))) false) := by
  have lexes : Lexes (rowQuery id) ([word "select", .sym '*', word "from", word "S3",
      word "where", word "id", .sym '=', number id.toInt] ++ [.sym ';']) :=
    (lexes_fixed "select * from S3 where id = " [word "select", .sym '*', word "from", word "S3",
      word "where", word "id", .sym '='] fun _ => rfl).append
      (lexes_int id.toInt rfl (lexes_fixed ";" [.sym ';'] fun _ => rfl))
  rw [Sql.read_statement_single (Sql.read_statements_lexes lexes (by simp)
    (by simp [word, number]))]
  rfl

theorem read_update_text (id : Int32) : readStatement (updateText id) =
    some (.update "S3".toList [("status".toList, .number ['1'])]
      (.equals "id".toList (.number (intText id.toInt)))) := by
  have lexes : Lexes (updateText id) ([word "Update", word "S3", word "SET", word "status",
      .sym '=', .number ['1'], word "where", word "id", .sym '=', number id.toInt] ++
        [.sym ';']) :=
    (lexes_fixed "Update S3 SET status = 1 where id = " [word "Update", word "S3", word "SET",
      word "status", .sym '=', .number ['1'], word "where", word "id", .sym '=']
        fun _ => rfl).append
      (lexes_int id.toInt rfl (lexes_fixed ";" [.sym ';'] fun _ => rfl))
  rw [Sql.read_statement_single (Sql.read_statements_lexes lexes (by simp)
    (by simp [word, number]))]
  rfl

theorem read_insert_text (id : Int32) : readStatement (insertText id) =
    some (.insert "S3".toList [.number (intText id.toInt), .number ['1']]) := by
  have lexes : Lexes (insertText id) ([word "Insert", word "into", word "S3", word "values",
      .sym '(', number id.toInt, comma, .number ['1'], .sym ')'] ++ [.sym ';']) :=
    (lexes_fixed "Insert into S3 values(" [word "Insert", word "into", word "S3", word "values",
      .sym '('] fun _ => rfl).append
      (lexes_int id.toInt rfl
        (lexes_fixed ", 1);" [comma, .number ['1'], .sym ')', .sym ';'] fun _ => rfl))
  rw [Sql.read_statement_single
    (Sql.read_statements_lexes lexes (by simp) (by simp [word, number, comma]))]
  rfl

end ImageManager

namespace ClientManager

theorem read_row_query (uid : Int64) : readStatement (rowQuery uid) =
    some (.select "USER".toList (.equals "uid".toList (.number (intText uid.toInt))) false) := by
  have lexes : Lexes (rowQuery uid) ([word "select", .sym '*', word "from", word "USER",
      word "where", word "uid", .sym '=', number uid.toInt] ++ [.sym ';']) :=
    (lexes_fixed "select * from USER where uid = " [word "select", .sym '*', word "from",
      word "USER", word "where", word "uid", .sym '='] fun _ => rfl).append
      (lexes_int uid.toInt rfl (lexes_fixed ";" [.sym ';'] fun _ => rfl))
  rw [Sql.read_statement_single (Sql.read_statements_lexes lexes (by simp)
    (by simp [word, number]))]
  rfl

section
variable (clt : Client) (name profileUrl : Text)

def insertFields : List Field := [
  ⟨.ofLexes ((lexes_fixed "Insert into USER values(" [word "Insert", word "into", word "USER",
      word "values", .sym '('] fun _ => rfl).append
      (lexes_int clt.uid.toInt rfl (lexes_fixed ", " [comma] fun _ => rfl)))
    ⟨'I', _, rfl, by decide, by decide⟩ (by simp [word, comma]), clt.name, name⟩,
  ⟨.ofLexes (lexes_fixed ", " [comma] fun _ => rfl) ⟨',', _, rfl, by decide, by decide⟩
    (by simp [comma]), clt.profileUrl, profileUrl⟩]

def insertEnding : Ending :=
  .ofLexes [.sym ')'] (lexes_fixed ");" [.sym ')', .sym ';'] fun _ => rfl)
    ⟨')', _, rfl, by decide, by decide⟩ (by simp)

def insertTokens : List Token := [word "Insert", word "into", word "USER", word "values",
  .sym '(', number clt.uid.toInt, comma, literal name, comma, literal profileUrl, .sym ')']

theorem insert_text : insertText clt = statementText (insertFields clt name profileUrl)
    insertEnding := by
  simp only [insertText, textOfParts, List.flatten_cons, List.flatten_nil, List.append_nil,
    statementText, insertFields, insertEnding, Gap.ofLexes, Ending.ofLexes, List.append_assoc,
    String.reduceToList,
    List.cons_append, List.nil_append]

theorem insert_tokens : statementTokens (insertFields clt name profileUrl) insertEnding =
    insertTokens clt name profileUrl := rfl

theorem parse_insert : parseStatement (insertTokens clt name profileUrl) =
    some (.insert "USER".toList [.number (intText clt.uid.toInt), .literal name,
      .literal profileUrl]) := rfl

def updateFields : List Field := [
  ⟨.ofLexes (lexes_fixed "Update USER SET name = " [word "Update", word "USER", word "SET",
      word "name", .sym '='] fun _ => rfl)
    ⟨'U', _, rfl, by decide, by decide⟩ (by simp [word]), clt.name, name⟩,
  ⟨.ofLexes (lexes_fixed ", profileUrl = " [comma, word "profileUrl", .sym '='] fun _ => rfl)
    ⟨',', _, rfl, by decide, by decide⟩ (by simp [word, comma]), clt.profileUrl, profileUrl⟩]

def updateEnding : Ending :=
  .ofLexes [word "WHERE", word "uid", .sym '=', number clt.uid.toInt]
    ((lexes_fixed " WHERE uid = " [word "WHERE", word "uid", .sym '='] fun _ => rfl).append
      (lexes_int clt.uid.toInt rfl (lexes_fixed ";" [.sym ';'] fun _ => rfl)))
    ⟨' ', _, rfl, by decide, by decide⟩ (by simp [word, number])

def updateTokens : List Token := [word "Update", word "USER", word "SET", word "name", .sym '=',
  literal name, comma, word "profileUrl", .sym '=', literal profileUrl, word "WHERE", word "uid",
  .sym '=', number clt.uid.toInt]

theorem update_text : updateText clt = statementText (updateFields clt name profileUrl)
    (updateEnding clt) := by
  simp only [updateText, textOfParts, List.flatten_cons, List.flatten_nil, List.append_nil,
    statementText, updateFields, updateEnding, Gap.ofLexes, Ending.ofLexes, String.reduceToList,
    List.cons_append, List.nil_append]

theorem update_tokens : statementTokens (updateFields clt name profileUrl) (updateEnding clt) =
    updateTokens clt name profileUrl := rfl

theorem parse_update : parseStatement (updateTokens clt name profileUrl) =
    some (.update "USER".toList [("name".toList, .literal name),
      ("profileUrl".toList, .literal profileUrl)]
      (.equals "uid".toList (.number (intText clt.uid.toInt)))) := rfl

end
end ClientManager

namespace ScheduleManager

theorem read_row_query (id : Int32) : readStatement (rowQuery id) =
    some (.select "SCHEDULE".toList (.equals "id".toList (.number (intText id.toInt))) false) := by
  have lexes : Lexes (rowQuery id) ([word "SELECT", .sym '*', word "FROM", word "SCHEDULE",
      word "WHERE", word "id", .sym '=', number id.toInt] ++ [.sym ';']) :=
    (lexes_fixed "SELECT * FROM SCHEDULE WHERE id = " [word "SELECT", .sym '*', word "FROM",
      word "SCHEDULE", word "WHERE", word "id", .sym '='] fun _ => rfl).append
      (lexes_int id.toInt rfl (lexes_fixed ";" [.sym ';'] fun _ => rfl))
  rw [Sql.read_statement_single (Sql.read_statements_lexes lexes (by simp)
    (by simp [word, number]))]
  rfl

theorem read_shared_row_query (scheduleId : Int32) :
    readStatement (sharedRowQuery scheduleId) =
      some (.select "SHAREDSCHEDULE".toList
        (.equals "scheduleId".toList (.number (intText scheduleId.toInt))) false) := by
  have lexes : Lexes (sharedRowQuery scheduleId) ([word "SELECT", .sym '*', word "FROM",
      word "SHAREDSCHEDULE", word "WHERE", word "scheduleId", .sym '=',
      number scheduleId.toInt] ++ [.sym ';']) :=
    (lexes_fixed "SELECT * FROM SHAREDSCHEDULE WHERE scheduleId = " [word "SELECT", .sym '*',
      word "FROM", word "SHAREDSCHEDULE", word "WHERE", word "scheduleId", .sym '=']
        fun _ => rfl).append
      (lexes_int scheduleId.toInt rfl (lexes_fixed ";" [.sym ';'] fun _ => rfl))
  rw [Sql.read_statement_single (Sql.read_statements_lexes lexes (by simp)
    (by simp [word, number]))]
  rfl

theorem read_all_query : readStatement "SELECT * FROM SCHEDULE;".toList =
    some (.select "SCHEDULE".toList .all false) := rfl

section
variable (sch : Schedule) (document name destination startDate waypoints : Text)

def insertFields : List Field := [
  ⟨.ofLexes ((lexes_fixed "INSERT INTO SCHEDULE Values(" [word "INSERT", word "INTO",
      word "SCHEDULE", word "Values", .sym '('] fun _ => rfl).append
      (lexes_int sch.id.toInt rfl (lexes_fixed ", " [comma] fun _ => rfl)))
    ⟨'I', _, rfl, by decide, by decide⟩ (by simp [word, comma]), sch.name, name⟩,
  ⟨.ofLexes (lexes_fixed ", " [comma] fun _ => rfl) ⟨',', _, rfl, by decide, by decide⟩
    (by simp [comma]), sch.destination, destination⟩,
  ⟨.ofLexes ((lexes_fixed ", " [comma] fun _ => rfl).append
      (lexes_int sch.days.toInt rfl (lexes_fixed ", " [comma] fun _ => rfl)))
    ⟨',', _, rfl, by decide, by decide⟩ (by simp [comma]), sch.startDate, startDate⟩,
  ⟨.ofLexes (lexes_fixed ", " [comma] fun _ => rfl) ⟨',', _, rfl, by decide, by decide⟩
    (by simp [comma]), document, waypoints⟩]

def insertEnding : Ending :=
  .ofLexes [comma, number sch.memberGroupId.toInt, comma, boolToken sch.isShared, .sym ')']
    ((lexes_fixed ", " [comma] fun _ => rfl).append
      (lexes_int sch.memberGroupId.toInt rfl ((lexes_fixed ", " [comma] fun _ => rfl).append
        (lexes_bool sch.isShared rfl (lexes_fixed ");" [.sym ')', .sym ';'] fun _ => rfl)))))
    ⟨',', _, rfl, by decide, by decide⟩ (by simp [comma, number, boolToken])

def insertTokens : List Token := [word "INSERT", word "INTO", word "SCHEDULE", word "Values",
  .sym '(', number sch.id.toInt, comma, literal name, comma, literal destination, comma,
  number sch.days.toInt, comma, literal startDate, comma, literal waypoints, comma,
  number sch.memberGroupId.toInt, comma, boolToken sch.isShared, .sym ')']

theorem insert_text : insertText sch document =
    statementText (insertFields sch document name destination startDate waypoints)
      (insertEnding sch) := by
  simp only [insertText, textOfParts, List.flatten_cons, List.flatten_nil, List.append_nil,
    statementText, insertFields, insertEnding, Gap.ofLexes, Ending.ofLexes, List.append_assoc,
    String.reduceToList,
    List.cons_append, List.nil_append]

theorem insert_tokens :
    statementTokens (insertFields sch document name destination startDate waypoints)
      (insertEnding sch) = insertTokens sch name destination startDate waypoints := rfl

theorem parse_insert : parseStatement (insertTokens sch name destination startDate waypoints) =
    some (.insert "SCHEDULE".toList [.number (intText sch.id.toInt), .literal name,
      .literal destination, .number (intText sch.days.toInt), .literal startDate,
      .literal waypoints, .number (intText sch.memberGroupId.toInt),
      .name (boolText sch.isShared)]) := rfl

def updateFields : List Field := [
  ⟨.ofLexes (lexes_fixed "UPDATE SCHEDULE SET name = " [word "UPDATE", word "SCHEDULE",
      word "SET", word "name", .sym '='] fun _ => rfl)
    ⟨'U', _, rfl, by decide, by decide⟩ (by simp [word]), sch.name, name⟩,
  ⟨.ofLexes (lexes_fixed ", destination = " [comma, word "destination", .sym '='] fun _ => rfl)
    ⟨',', _, rfl, by decide, by decide⟩ (by simp [word, comma]), sch.destination, destination⟩,
  ⟨.ofLexes ((lexes_fixed ", days = " [comma, word "days", .sym '='] fun _ => rfl).append
      (lexes_int sch.days.toInt rfl
        (lexes_fixed ", startDate = " [comma, word "startDate", .sym '='] fun _ => rfl)))
    ⟨',', _, rfl, by decide, by decide⟩ (by simp [word, comma]), sch.startDate, startDate⟩,
  ⟨.ofLexes (lexes_fixed ", waypoints = " [comma, word "waypoints", .sym '='] fun _ => rfl)
    ⟨',', _, rfl, by decide, by decide⟩ (by simp [word, comma]), document, waypoints⟩]

def updateEnding : Ending :=
  .ofLexes [comma, word "memberGroupId", .sym '=', number sch.memberGroupId.toInt, comma,
      word "isShared", .sym '=', boolToken sch.isShared, word "WHERE", word "id", .sym '=',
      number sch.id.toInt]
    ((lexes_fixed ", memberGroupId = " [comma, word "memberGroupId", .sym '='] fun _ => rfl).append
      (lexes_int sch.memberGroupId.toInt rfl
        ((lexes_fixed ", isShared = " [comma, word "isShared", .sym '='] fun _ => rfl).append
          (lexes_bool sch.isShared rfl
            ((lexes_fixed " WHERE id = " [word "WHERE", word "id", .sym '='] fun _ => rfl).append
              (lexes_int sch.id.toInt rfl (lexes_fixed ";" [.sym ';'] fun _ => rfl)))))))
    ⟨',', _, rfl, by decide, by decide⟩ (by simp [comma, word, number, boolToken])

def updateTokens : List Token := [word "UPDATE", word "SCHEDULE", word "SET", word "name",
  .sym '=', literal name, comma, word "destination", .sym '=', literal destination, comma,
  word "days", .sym '=', number sch.days.toInt, comma, word "startDate", .sym '=',
  literal startDate, comma, word "waypoints", .sym '=', literal waypoints, comma,
  word "memberGroupId", .sym '=', number sch.memberGroupId.toInt, comma, word "isShared", .sym '=',
  boolToken sch.isShared, word "WHERE", word "id", .sym '=', number sch.id.toInt]

theorem update_text : updateText sch document =
    statementText (updateFields sch document name destination startDate waypoints)
      (updateEnding sch) := by
  simp only [updateText, textOfParts, List.flatten_cons, List.flatten_nil, List.append_nil,
    statementText, updateFields, updateEnding, Gap.ofLexes, Ending.ofLexes, List.append_assoc,
    String.reduceToList,
    List.cons_append, List.nil_append]

theorem update_tokens :
    statementTokens (updateFields sch document name destination startDate waypoints)
      (updateEnding sch) = updateTokens sch name destination startDate waypoints := rfl

theorem parse_update : parseStatement (updateTokens sch name destination startDate waypoints) =
    some (.update "SCHEDULE".toList [("name".toList, .literal name),
      ("destination".toList, .literal destination),
      ("days".toList, .number (intText sch.days.toInt)), ("startDate".toList, .literal startDate),
      ("waypoints".toList, .literal waypoints),
      ("memberGroupId".toList, .number (intText sch.memberGroupId.toInt)),
      ("isShared".toList, .name (boolText sch.isShared))]
      (.equals "id".toList (.number (intText sch.id.toInt)))) := rfl

end

section
variable (sch : SharedSchedule) (document titleText descriptionText descriptions : Text)

def insertSharedFields : List Field := [
  ⟨.ofLexes ((lexes_fixed "INSERT INTO SHAREDSCHEDULE Values(" [word "INSERT", word "INTO",
      word "SHAREDSCHEDULE", word "Values", .sym '('] fun _ => rfl).append
      (lexes_int sch.scheduleId.toInt rfl ((lexes_fixed ", " [comma] fun _ => rfl).append
        (lexes_int sch.ownerId.toInt rfl ((lexes_fixed ", " [comma] fun _ => rfl).append
          (lexes_floating sch.rating rfl ((lexes_fixed ", " [comma] fun _ => rfl).append
            (lexes_int sch.likes.toInt rfl ((lexes_fixed ", " [comma] fun _ => rfl).append
              (lexes_int sch.sharedCount.toInt rfl ((lexes_fixed ", " [comma] fun _ => rfl).append
                (lexes_int sch.titleImgId.toInt rfl
                  (lexes_fixed ", " [comma] fun _ => rfl)))))))))))))
    ⟨'I', _, rfl, by decide, by decide⟩
    (by cases sch.rating with
        | finite _ => simp [word, comma, floatingTokens]
        | nonFinite kind => cases kind <;> simp [word, comma, floatingTokens]),
    sch.titleText, titleText⟩,
  ⟨.ofLexes (lexes_fixed ", " [comma] fun _ => rfl) ⟨',', _, rfl, by decide, by decide⟩
    (by simp [comma]), sch.descriptionText, descriptionText⟩,
  ⟨.ofLexes (lexes_fixed ", " [comma] fun _ => rfl) ⟨',', _, rfl, by decide, by decide⟩
    (by simp [comma]), document, descriptions⟩]

def insertSharedEnding : Ending :=
  .ofLexes [.sym ')'] (lexes_fixed ");" [.sym ')', .sym ';'] fun _ => rfl)
    ⟨')', _, rfl, by decide, by decide⟩ (by simp)

def insertSharedTokens : List Token :=
  [word "INSERT", word "INTO", word "SHAREDSCHEDULE", word "Values", .sym '(',
    number sch.scheduleId.toInt, comma, number sch.ownerId.toInt, comma] ++
  floatingTokens sch.rating ++
  [comma, number sch.likes.toInt, comma, number sch.sharedCount.toInt, comma,
    number sch.titleImgId.toInt, comma, literal titleText, comma, literal descriptionText, comma,
    literal descriptions, .sym ')']

theorem insert_shared_text : insertSharedText sch document =
    statementText (insertSharedFields sch document titleText descriptionText descriptions)
      insertSharedEnding := by
  simp only [insertSharedText, textOfParts, List.flatten_cons, List.flatten_nil, List.append_nil,
    statementText, insertSharedFields, insertSharedEnding, Gap.ofLexes, Ending.ofLexes,
    List.append_assoc, String.reduceToList,
    List.cons_append, List.nil_append]

theorem insert_shared_tokens :
    statementTokens (insertSharedFields sch document titleText descriptionText descriptions)
      insertSharedEnding =
      insertSharedTokens sch titleText descriptionText descriptions := by
  simp only [statementTokens, insertSharedFields, insertSharedEnding, Gap.ofLexes, Ending.ofLexes,
    insertSharedTokens, List.append_assoc, List.cons_append, List.nil_append]
  rfl

theorem parse_insert_shared :
    parseStatement (insertSharedTokens sch titleText descriptionText descriptions) =
      some (.insert "SHAREDSCHEDULE".toList [.number (intText sch.scheduleId.toInt),
        .number (intText sch.ownerId.toInt), floatingValue sch.rating,
        .number (intText sch.likes.toInt), .number (intText sch.sharedCount.toInt),
        .number (intText sch.titleImgId.toInt), .literal titleText, .literal descriptionText,
        .literal descriptions]) := by
  unfold insertSharedTokens
  cases sch.rating with
  | finite _ => rfl
  | nonFinite kind => cases kind <;> rfl

def updateSharedFields : List Field := [
  ⟨.ofLexes ((lexes_fixed "UPDATE SHAREDSCHEDULE SET scheduleId = " [word "UPDATE",
      word "SHAREDSCHEDULE", word "SET", word "scheduleId", .sym '='] fun _ => rfl).append
      (lexes_int sch.scheduleId.toInt rfl
        ((lexes_fixed ", ownerId = " [comma, word "ownerId", .sym '='] fun _ => rfl).append
        (lexes_int sch.ownerId.toInt rfl
          ((lexes_fixed ", rating = " [comma, word "rating", .sym '='] fun _ => rfl).append
          (lexes_floating sch.rating rfl
            ((lexes_fixed ", likes = " [comma, word "likes", .sym '='] fun _ => rfl).append
            (lexes_int sch.likes.toInt rfl
              ((lexes_fixed ", sharedCount = " [comma, word "sharedCount", .sym '=']
                fun _ => rfl).append
              (lexes_int sch.sharedCount.toInt rfl
                ((lexes_fixed ", titleImgId = " [comma, word "titleImgId", .sym '=']
                  fun _ => rfl).append
                (lexes_int sch.titleImgId.toInt rfl
                  (lexes_fixed ", titleText = " [comma, word "titleText", .sym '=']
                    fun _ => rfl)))))))))))))
    ⟨'U', _, rfl, by decide, by decide⟩
    (by cases sch.rating with
        | finite _ => simp [word, comma, floatingTokens]
        | nonFinite kind => cases kind <;> simp [word, comma, floatingTokens]),
    sch.titleText, titleText⟩,
  ⟨.ofLexes (lexes_fixed ", descriptionText = " [comma, word "descriptionText", .sym '=']
      fun _ => rfl) ⟨',', _, rfl, by decide, by decide⟩ (by simp [comma, word]),
    sch.descriptionText, descriptionText⟩,
  ⟨.ofLexes (lexes_fixed ", waypointDescription = " [comma, word "waypointDescription", .sym '=']
      fun _ => rfl) ⟨',', _, rfl, by decide, by decide⟩ (by simp [comma, word]),
    document, descriptions⟩]

def updateSharedEnding : Ending :=
  .ofLexes [word "WHERE", word "scheduleId", .sym '=', number sch.scheduleId.toInt]
    ((lexes_fixed " WHERE scheduleId = " [word "WHERE", word "scheduleId", .sym '=']
      fun _ => rfl).append
      (lexes_int sch.scheduleId.toInt rfl (lexes_fixed ";" [.sym ';'] fun _ => rfl)))
    ⟨' ', _, rfl, by decide, by decide⟩ (by simp [word, number])

def updateSharedTokens : List Token :=
  [word "UPDATE", word "SHAREDSCHEDULE", word "SET", word "scheduleId", .sym '=',
    number sch.scheduleId.toInt, comma, word "ownerId", .sym '=', number sch.ownerId.toInt, comma,
    word "rating", .sym '='] ++
  floatingTokens sch.rating ++
  [comma, word "likes", .sym '=', number sch.likes.toInt, comma, word "sharedCount", .sym '=',
    number sch.sharedCount.toInt, comma, word "titleImgId", .sym '=', number sch.titleImgId.toInt,
    comma, word "titleText", .sym '=', literal titleText, comma, word "descriptionText", .sym '=',
    literal descriptionText, comma, word "waypointDescription", .sym '=', literal descriptions,
    word "WHERE", word "scheduleId", .sym '=', number sch.scheduleId.toInt]

theorem update_shared_text : updateSharedText sch document =
    statementText (updateSharedFields sch document titleText descriptionText descriptions)
      (updateSharedEnding sch) := by
  simp only [updateSharedText, textOfParts, List.flatten_cons, List.flatten_nil, List.append_nil,
    statementText, updateSharedFields, updateSharedEnding, Gap.ofLexes, Ending.ofLexes,
    List.append_assoc, String.reduceToList,
    List.cons_append, List.nil_append]

theorem update_shared_tokens :
    statementTokens (updateSharedFields sch document titleText descriptionText descriptions)
      (updateSharedEnding sch) =
      updateSharedTokens sch titleText descriptionText descriptions := by
  simp only [statementTokens, updateSharedFields, updateSharedEnding, Gap.ofLexes, Ending.ofLexes,
    updateSharedTokens, List.append_assoc, List.cons_append, List.nil_append]
  rfl

theorem parse_update_shared :
    parseStatement (updateSharedTokens sch titleText descriptionText descriptions) =
      some (.update "SHAREDSCHEDULE".toList [
        ("scheduleId".toList, .number (intText sch.scheduleId.toInt)),
        ("ownerId".toList, .number (intText sch.ownerId.toInt)),
        ("rating".toList, floatingValue sch.rating),
        ("likes".toList, .number (intText sch.likes.toInt)),
        ("sharedCount".toList, .number (intText sch.sharedCount.toInt)),
        ("titleImgId".toList, .number (intText sch.titleImgId.toInt)),
        ("titleText".toList, .literal titleText),
        ("descriptionText".toList, .literal descriptionText),
        ("waypointDescription".toList, .literal descriptions)]
        (.equals "scheduleId".toList (.number (intText sch.scheduleId.toInt)))) := by
  unfold updateSharedTokens
  cases sch.rating with
  | finite _ => rfl
  | nonFinite kind => cases kind <;> rfl

end
end ScheduleManager

end TfuServer
