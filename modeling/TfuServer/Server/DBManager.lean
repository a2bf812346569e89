import TfuServer.Program
import TfuServer.Server.Records
import TfuServer.Json.StoredText
import TfuServer.Sql.Upsert

/-!
# The process and its database

The state the requests work on, what stands outside the program, and the two
calls through which every table is read and written.
-/

namespace TfuServer

set_option autoImplicit false

open Numeral Program
open Sql (Cell Date DataRow Settings Statement)

inductive CallOutcome where
  | works | fails | unreachable
  deriving DecidableEq, Repr

/-- A data set is the list of its tables. -/
abbrev DataSet := List (List DataRow)

/-- The comparisons of strings that depend on the culture of the process. -/
structure Culture where
  startsWith : Text → Text → Bool
  equalsIgnoreCase : Text → Text → Bool

/-- The routes that the URL of a request is compared with. -/
def routes : List Text := [
  "/image".toList, "/recommend".toList, "/waypoints".toList, "/users".toList,
  "/schedule".toList, "/sharedschedule".toList, "/imageupload".toList]

/-- Two routes of which neither starts with the other. -/
def routesDiffer (route other : Text) : Bool :=
  routes.contains route && routes.contains other &&
    !(other.isPrefixOf route || route.isPrefixOf other)

/-- `outcome` and `shuffle` are asked with the number of the database call;
`foreign` is what the server does with a text outside the grammar. -/
structure Runtime where
  culture : Culture
  starts_self : ∀ text, culture.startsWith text text = true
  /-- In no culture a text starts with two routes that differ. -/
  one_route : ∀ text route other, routesDiffer route other = true →
    culture.startsWith text route = true → culture.startsWith text other = false
  newtonsoft : Json.Newtonsoft
  unicodeAll : Json.JavaScriptEncoder
  urlDecode : Text → Text
  settings : Settings
  outcome : Nat → CallOutcome
  shuffle : Nat → List DataRow → List DataRow
  shuffle_perm : ∀ call rows, (shuffle call rows).Perm rows
  foreign : Text → Tables → Option (DataSet × Tables)

abbrev Dictionary (Key Value : Type) := Key → Option Value

def Dictionary.set {Key Value : Type} [DecidableEq Key] (dictionary : Dictionary Key Value)
    (key : Key) (value : Value) : Dictionary Key Value :=
  Function.update dictionary key (some value)

inductive Call where
  | select (query : Text)
  | executeQuery (query : Text)
  deriving DecidableEq, Repr

/-- The manager that the field `instance` of its class refers to. Two threads that both find
the field empty each build one; the number says which of those built it is. -/
structure Manager (Key Value : Type) where
  number : Nat
  dictionary : Dictionary Key Value

namespace Manager

variable {Key Value : Type}

/-- A new manager takes the place of the one before. -/
def build (before : Option (Manager Key Value)) (dictionary : Dictionary Key Value) :
    Manager Key Value where
  number := match before with
    | some manager => manager.number + 1
    | none => 0
  dictionary

def current (manager : Option (Manager Key Value)) : Nat :=
  match manager with
  | some manager => manager.number
  | none => 0

def enter [DecidableEq Key] (key : Key) (value : Value) (manager : Manager Key Value) :
    Manager Key Value :=
  { manager with dictionary := manager.dictionary.set key value }

end Manager

/-- A manager is there once it has been asked for. Listeners are numbered as they are made;
`serving` says that the loop of the listener has not ended. -/
structure World where
  tables : Tables
  imageManager : Option (Manager Int32 Text)
  clientManager : Option (Manager Int64 Client)
  scheduleDic : Dictionary Int32 Schedule
  sharedScheduleDic : Dictionary Int32 SharedSchedule
  httpListener : Nat
  listening : Bool
  serving : Bool
  log : List Call
  failedCalls : Nat

/-- `imageDictionary`, once the image manager has been built. -/
def World.imageDictionary (world : World) : Option (Dictionary Int32 Text) :=
  world.imageManager.map Manager.dictionary

/-- `clientDictionary`; there are no entries before its manager has been built. -/
def World.clientDictionary (world : World) : Dictionary Int64 Client :=
  match world.clientManager with
  | some manager => manager.dictionary
  | none => fun _ => none

abbrev Action (Value : Type) := Program World Failure Value

def maxRows : Nat := 16777216

/-- A date with a zero month or day cannot be handed out. -/
def deliverable (rows : List DataRow) : Bool :=
  rows.length ≤ maxRows && rows.all fun row => row.cells.all fun cell =>
    match cell with
    | .date date => date.valid
    | _ => true

def DataSet.first (data : DataSet) : Except Failure (List DataRow) :=
  match data with
  | rows :: _ => .ok rows
  | [] => .error .indexOutOfRange

def itemAt (row : DataRow) (index : Nat) : Except Failure Cell :=
  match row.cells[index]? with
  | some cell => .ok cell
  | none => .error .indexOutOfRange

def itemNamed (row : DataRow) (name : String) : Except Failure Cell :=
  match row.cell name.toList with
  | some cell => .ok cell
  | none => .error .argument

def castInt : Cell → Except Failure Int32
  | .int n => .ok n
  | _ => .error .invalidCast

def castLong : Cell → Except Failure Int64
  | .bigint n => .ok n
  | _ => .error .invalidCast

def castText : Cell → Except Failure Text
  | .text value => .ok value
  | _ => .error .invalidCast

def castDate : Cell → Except Failure Date
  | .date value => .ok value
  | _ => .error .invalidCast

def castBool : Cell → Except Failure Bool
  | .bool value => .ok value
  | _ => .error .invalidCast

def castDecimal : Cell → Except Failure PrintedNumber
  | .decimal number =>
      if short : number.text.length ≤ 40 then .ok ⟨number, short⟩ else .error .overflow
  | _ => .error .invalidCast

/-- `ToString()`. -/
def printCell : Cell → Text
  | .null => []
  | .int n => intText n.toInt
  | .bigint n => intText n.toInt
  | .real number | .decimal number => number.text
  | .text value => value
  | .date value => value.format
  | .bool value => (if value then "True" else "False").toList

section
variable (runtime : Runtime)

def answer (call : Nat) (tables : Tables) (query : Text) : Option (DataSet × Tables) :=
  match Sql.readStatement query with
  | some (.select table condition shuffled) =>
      match Sql.query runtime.settings (runtime.shuffle call) tables
          (.select table condition shuffled) with
      | some rows => if deliverable rows then some ([rows], tables) else none
      | none => none
  | some statement => (Sql.execute runtime.settings tables statement).map fun after => ([], after)
  | none =>
      match Sql.readFurther query with
      | some (.upsert table values assignments) =>
          (Sql.executeUpsert runtime.settings tables table values assignments).map fun after =>
            ([], after)
      | some (.column column table) =>
          match Sql.queryColumn tables column table with
          | some rows => if deliverable rows then some ([rows], tables) else none
          | none => none
      | none => runtime.foreign query tables

/-- The call is over; `none` when it failed. -/
def callEnded (call : Call) (result : Option (DataSet × Tables)) (world : World) : World :=
  match result with
  | some (_, tables) => { world with tables, log := world.log ++ [call] }
  | none => { world with log := world.log ++ [call], failedCalls := world.failedCalls + 1 }

namespace DBManager

/-- Only the connection is opened outside the `try`. -/
def select (query : Text) : Action DataSet := do
  let world ← get
  match runtime.outcome world.log.length with
  | .unreachable =>
      modify (callEnded (.select query) none)
      throw .connection
  | .fails =>
      modify (callEnded (.select query) none)
      return []
  | .works =>
      let result := answer runtime world.log.length world.tables query
      modify (callEnded (.select query) result)
      match result with
      | some (data, _) => return data
      | none => return []

def executeQuery (query : Text) : Action Unit := do
  let world ← get
  match runtime.outcome world.log.length with
  | .unreachable =>
      modify (callEnded (.executeQuery query) none)
      throw .connection
  | .fails => modify (callEnded (.executeQuery query) none)
  | .works =>
      modify (callEnded (.executeQuery query)
        (answer runtime world.log.length world.tables query))

/-- A call that succeeds has an answer; one that does not leaves the tables alone. -/
theorem select_cases (query : Text) (world : World) :
    (∃ data tables, runtime.outcome world.log.length = .works ∧
      answer runtime world.log.length world.tables query = some (data, tables) ∧
      exec (select runtime query) world =
        (.ok data, callEnded (.select query) (some (data, tables)) world)) ∨
    exec (select runtime query) world = (.ok [], callEnded (.select query) none world) ∨
    runtime.outcome world.log.length = .unreachable ∧
      exec (select runtime query) world =
        (.error .connection, callEnded (.select query) none world) := by
  unfold select
  simp only [exec_bind, exec_get]
  cases outcome : runtime.outcome world.log.length with
  | unreachable => exact Or.inr (Or.inr ⟨rfl, rfl⟩)
  | fails => exact Or.inr (Or.inl rfl)
  | works =>
      simp only [exec_bind, exec_modify]
      cases answered : answer runtime world.log.length world.tables query with
      | none => exact Or.inr (Or.inl rfl)
      | some pair => exact Or.inl ⟨pair.1, pair.2, trivial, rfl, rfl⟩

theorem execute_cases (query : Text) (world : World) :
    (∃ data tables, runtime.outcome world.log.length = .works ∧
      answer runtime world.log.length world.tables query = some (data, tables) ∧
      exec (executeQuery runtime query) world =
        (.ok (), callEnded (.executeQuery query) (some (data, tables)) world)) ∨
    exec (executeQuery runtime query) world =
      (.ok (), callEnded (.executeQuery query) none world) ∨
    runtime.outcome world.log.length = .unreachable ∧
      exec (executeQuery runtime query) world =
        (.error .connection, callEnded (.executeQuery query) none world) := by
  unfold executeQuery
  simp only [exec_bind, exec_get]
  cases outcome : runtime.outcome world.log.length with
  | unreachable => exact Or.inr (Or.inr ⟨rfl, rfl⟩)
  | fails => exact Or.inr (Or.inl rfl)
  | works =>
      simp only [exec_modify]
      cases answered : answer runtime world.log.length world.tables query with
      | none => exact Or.inr (Or.inl rfl)
      | some pair => exact Or.inl ⟨pair.1, pair.2, trivial, rfl, rfl⟩

theorem select_log (query : Text) (world : World) :
    (exec (select runtime query) world).2.log = world.log ++ [.select query] := by
  rcases select_cases runtime query world with ⟨data, tables, -, -, ran⟩ | ran | ⟨-, ran⟩ <;>
    · rw [ran]
      rfl

theorem execute_log (query : Text) (world : World) :
    (exec (executeQuery runtime query) world).2.log = world.log ++ [.executeQuery query] := by
  rcases execute_cases runtime query world with ⟨data, tables, -, -, ran⟩ | ran | ⟨-, ran⟩ <;>
    · rw [ran]
      rfl

end DBManager
end

end TfuServer
