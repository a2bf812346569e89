import TfuServer.Server.Dataset
import TfuServer.Server.Standard

/-!
# The console

Lines typed at the console start and stop the listener, load the dataset and send
queries. Each line is read once, but the end of the input is read as an empty line, and
the words before a query are removed wherever they stand.
-/

namespace TfuServer

set_option autoImplicit false

open Program
open Replace (replace)

inductive Command where
  | start | stop | exit | syncWP
  | select (query : Text)
  | executeQuery (query : Text)
  | invalid
  deriving DecidableEq, Repr

/-- What a command does; `file` is what the dataset file holds when it is asked for. -/
def Command.run (runtime : Runtime) (file : Option Text) : Command → Action Unit
  | .start => Server.start runtime
  | .stop => Server.stopServer
  | .exit => Server.stopServer
  | .syncWP => DBManager.insertWaypointIntoDB runtime file
  | .select query => do
      let _ ← DBManager.select runtime query
      return
  | .executeQuery query => DBManager.executeQuery runtime query
  | .invalid => return

/-- The thread of the console; an exception ends it but leaves `isWorking` set. -/
structure Console where
  isWorking : Bool
  crashed : Bool
  input : List Text
  world : World
  performed : List Command

def Console.reading (lines : List Text) (world : World) (performed : List Command) : Console where
  isWorking := true
  crashed := false
  input := lines
  world
  performed

namespace CommandManager

def queryPrefix : Text := "send query ".toList

/-- `query.Split(" ")[0]`. -/
def firstWord (query : Text) : Text := query.takeWhile fun c => decide (c ≠ ' ')

section
variable (culture : Culture)

def command (cmd : Text) : Option Command :=
  if !cmd.contains ' ' then
    some (
      if cmd = "start".toList then .start
      else if cmd = "stop".toList then .stop
      else if cmd = "exit".toList then .exit
      else if cmd = "syncWP".toList then .syncWP
      else .invalid)
  else if culture.startsWith cmd queryPrefix then
    let query := replace queryPrefix [] cmd
    if culture.equalsIgnoreCase (firstWord query) "select".toList then some (.select query)
    else some (.executeQuery query)
  else none

variable (runtime : Runtime) (files : Nat → Option Text)

def perform (file : Option Text) : Option Command → Action Unit
  | some command => command.run runtime file
  | none => return

/-- One turn of the loop. `Console.ReadLine() + ""` is empty once the input has ended; the
dataset file is asked for by the number of lines still to be read. -/
def turn (console : Console) : Console :=
  if console.isWorking && !console.crashed then
    let action := command culture (console.input.headD [])
    let input := console.input.tail
    match exec (perform runtime (files input.length) action) console.world with
    | (.ok _, world) =>
        { console with
          input, world
          performed := console.performed ++ action.toList
          isWorking := decide (action ≠ some .exit) }
    | (.error _, world) =>
        { console with
          input, world
          performed := console.performed ++ action.toList
          crashed := true }
  else console

def commandListener : Nat → Console → Console
  | 0, console => console
  | turns + 1, console => commandListener turns (turn culture runtime files console)

def isSelect (word : Text) : Bool := word.map Char.toLower == "select".toList

def interpret (line : Text) : Option Command :=
  if line = "start".toList then some .start
  else if line = "stop".toList then some .stop
  else if line = "exit".toList then some .exit
  else if line = "syncWP".toList then some .syncWP
  else if ' ' ∉ line then some .invalid
  else if queryPrefix <+: line then
    let query := line.drop queryPrefix.length
    if isSelect (firstWord query) then some (.select query) else some (.executeQuery query)
  else none

/-- Each line once, in order, up to the first `exit`. -/
def interpreted : List Text → List Command
  | [] => []
  | line :: lines =>
      (interpret line).toList ++ if line = "exit".toList then [] else interpreted lines

/-- However many turns the loop has made, it has performed what the lines read so far ask
for, and nothing else. -/
def Refines (lines : List Text) (world : World) : Prop :=
  ∀ turns, (commandListener culture runtime files turns
    (Console.reading lines world [])).performed = interpreted (lines.take turns)

/-- The culture finds the words before a query where they stand, they do not stand in the
query once more, and its first word is compared letter by letter. -/
def TakenAsTyped (line : Text) : Prop :=
  ' ' ∈ line →
    (culture.startsWith line queryPrefix = true ↔ queryPrefix <+: line) ∧
    ∀ query, line = queryPrefix ++ query →
      ¬queryPrefix <:+: query ∧
      culture.equalsIgnoreCase (firstWord query) "select".toList = isSelect (firstWord query)

theorem command_without_blank (line : Text) (absent : ' ' ∉ line) :
    command culture line = interpret line := by
  have none_found : line.contains ' ' = false := by
    rw [Bool.eq_false_iff]
    intro found
    exact absent (List.contains_iff_mem.mp found)
  unfold command interpret
  rw [none_found, Bool.not_false, if_pos rfl]
  split_ifs <;> rfl

theorem replace_query (query : Text) :
    replace queryPrefix [] (queryPrefix ++ query) = replace queryPrefix [] query :=
  Replace.replace_occurrence 's' "end query ".toList [] query

theorem asked_same_iff (one other : Bool) (left right : Text) :
    (if one = true then some (Command.select left) else some (.executeQuery left)) =
        (if other = true then some (.select right) else some (.executeQuery right)) ↔
      left = right ∧ one = other := by
  cases one <;> cases other <;> simp

theorem taken_as_typed_iff (line : Text) :
    command culture line = interpret line ↔ TakenAsTyped culture line := by
  by_cases blank : ' ' ∈ line
  · have found : line.contains ' ' = true := List.contains_iff_mem.mpr blank
    have other (word : Text) (plain : ' ' ∉ word) : line ≠ word := by
      rintro rfl
      exact plain blank
    have start := other "start".toList (by decide)
    have stop := other "stop".toList (by decide)
    have exit := other "exit".toList (by decide)
    have syncWP := other "syncWP".toList (by decide)
    unfold TakenAsTyped
    simp only [command, interpret, found, start, stop, exit, syncWP, blank, not_true_eq_false,
      Bool.not_true, Bool.false_eq_true, if_false, forall_const]
    by_cases query_line : queryPrefix <+: line
    · obtain ⟨query, rfl⟩ := query_line
      simp only [List.prefix_append, List.drop_left, replace_query, if_true, iff_true,
        List.append_cancel_left_eq, forall_eq']
      cases culture.startsWith (queryPrefix ++ query) queryPrefix with
      | false =>
          simp only [Bool.false_eq_true, if_false, false_and, iff_false]
          split <;> exact nofun
      | true =>
          rw [if_pos rfl, asked_same_iff, Replace.removed_same_iff _ _ (by decide)]
          simp only [true_and]
          refine and_congr_right fun absent => ?_
          rw [Replace.replace_absent _ _ _ absent]
    · have never (query : Text) : line ≠ queryPrefix ++ query := by
        rintro rfl
        exact query_line (List.prefix_append _ _)
      simp only [query_line, if_false, iff_false, Bool.not_eq_true, never, false_implies,
        implies_true, and_true]
      cases culture.startsWith line queryPrefix with
      | false => simp
      | true =>
          simp only [if_true, Bool.true_eq_false, iff_false]
          split <;> exact nofun
  · exact ⟨fun _ member => absurd member blank, fun _ => command_without_blank culture line blank⟩

variable (runtime : Runtime) (files : Nat → Option Text)

theorem interpret_exit_iff (line : Text) :
    interpret line = some .exit ↔ line = "exit".toList := by
  constructor
  · intro asked
    unfold interpret at asked
    split_ifs at asked with start stop exit
    case pos => cases asked
    case pos => cases asked
    case pos => exact exit
    case pos => cases asked
    case pos =>
      simp only at asked
      split at asked <;> cases asked
    case neg => cases asked
  · rintro rfl
    decide

theorem interpreted_prefix (lines : List Text) (turns : Nat) :
    interpreted (lines.take turns) <+: interpreted lines := by
  induction lines generalizing turns with
  | nil => simp
  | cons line lines ih =>
      cases turns with
      | zero => exact List.nil_prefix
      | succ turns =>
          rw [List.take_succ_cons, interpreted, interpreted]
          split
          · exact List.prefix_refl _
          · exact (List.prefix_append_right_inj _).mpr (ih turns)

theorem interpreted_nothing_iff (lines : List Text) :
    (∀ turns, interpreted (lines.take turns) = []) ↔ interpreted lines = [] := by
  constructor
  · intro nothing
    have whole := nothing lines.length
    rwa [List.take_length] at whole
  · intro nothing turns
    exact List.prefix_nil.mp (nothing ▸ interpreted_prefix lines turns)

theorem listener_ended (turns : Nat) (console : Console)
    (ended : (console.isWorking && !console.crashed) = false) :
    commandListener culture runtime files turns console = console := by
  induction turns with
  | zero => rfl
  | succ turns ih =>
      have stays : turn culture runtime files console = console := by simp [turn, ended]
      rw [commandListener, stays, ih]

theorem same_action (one other : Option Command) (same : one.toList = other.toList) :
    one = other := by
  cases other with
  | none => exact Option.toList_eq_nil_iff.mp same
  | some command => exact Option.toList_eq_singleton_iff.mp same

theorem turn_working (lines : List Text) (world : World) (done : List Command) :
    turn culture runtime files (Console.reading lines world done) =
      match exec (perform runtime (files lines.tail.length)
          (command culture (lines.headD []))) world with
      | (.ok _, after) =>
          { Console.reading lines.tail after
              (done ++ (command culture (lines.headD [])).toList) with
            isWorking := decide (command culture (lines.headD []) ≠ some .exit) }
      | (.error _, after) =>
          { Console.reading lines.tail after
              (done ++ (command culture (lines.headD [])).toList) with
            crashed := true } :=
  rfl

theorem turn_performed (lines : List Text) (world : World) (done : List Command) :
    (turn culture runtime files (Console.reading lines world done)).performed =
      done ++ (command culture (lines.headD [])).toList := by
  rw [turn_working]
  split <;> rfl

theorem listener_cons_iff (line : Text) (lines : List Text) (world : World)
    (done : List Command) :
    (∀ turns, (commandListener culture runtime files turns
        (Console.reading (line :: lines) world done)).performed =
          done ++ interpreted ((line :: lines).take turns)) ↔
      ∀ turns, (commandListener culture runtime files turns (turn culture runtime files
        (Console.reading (line :: lines) world done))).performed =
          done ++ (interpret line).toList ++
            if line = "exit".toList then [] else interpreted (lines.take turns) := by
  have start : (commandListener culture runtime files 0
      (Console.reading (line :: lines) world done)).performed =
        done ++ interpreted ((line :: lines).take 0) := by
    rw [List.take_zero, interpreted, List.append_nil]
    rfl
  rw [← Nat.and_forall_add_one, and_iff_right start]
  refine forall_congr' fun turns => ?_
  rw [commandListener, List.take_succ_cons, interpreted, List.append_assoc]

theorem in_step_taken (line : Text) (lines : List Text) (world : World) (done : List Command)
    (same : ∀ turns, (commandListener culture runtime files turns (turn culture runtime files
      (Console.reading (line :: lines) world done))).performed =
        done ++ (interpret line).toList ++
          if line = "exit".toList then [] else interpreted (lines.take turns)) :
    command culture line = interpret line := by
  have once := same 0
  have rest : (if line = "exit".toList then [] else interpreted (lines.take 0)) = [] := by
    split <;> rfl
  rw [commandListener, turn_performed, rest, List.append_nil, List.append_cancel_left_eq] at once
  exact same_action _ _ once

theorem crashed_in_step_iff (lines : List Text) (world : World) (done : List Command) :
    (∀ turns, (commandListener culture runtime files turns
        { Console.reading lines world done with crashed := true }).performed =
          done ++ interpreted (lines.take turns)) ↔
      interpreted lines = [] := by
  have ended (turns : Nat) : (commandListener culture runtime files turns
      { Console.reading lines world done with crashed := true }).performed = done := by
    rw [listener_ended _ _ _ _ _ rfl]
    rfl
  rw [← interpreted_nothing_iff]
  refine forall_congr' fun turns => ?_
  rw [ended]
  exact List.self_eq_append_right

/-- Each line is taken as it is typed, up to an `exit`, or up to a command that ends with
an exception where nothing more is asked for. -/
def InStep : List Text → World → Prop
  | [], _ => False
  | line :: lines, world =>
      TakenAsTyped culture line ∧ (line = "exit".toList ∨
        match exec (perform runtime (files lines.length) (interpret line)) world with
        | (.ok _, after) => InStep lines after
        | (.error _, _) => interpreted lines = [])

theorem listener_in_step_iff (lines : List Text) (world : World) (done : List Command) :
    (∀ turns, (commandListener culture runtime files turns
        (Console.reading lines world done)).performed =
          done ++ interpreted (lines.take turns)) ↔
      InStep culture runtime files lines world := by
  induction lines generalizing world done with
  | nil =>
      refine ⟨fun same => ?_, False.elim⟩
      -- the empty line read at the end of the input is an invalid command
      have once := same 1
      rw [commandListener, commandListener, turn_performed] at once
      simp [command, interpreted] at once
  | cons line lines ih =>
      rw [listener_cons_iff, InStep, ← taken_as_typed_iff]
      by_cases taken : command culture line = interpret line
      · rw [and_iff_right taken, turn_working]
        simp only [List.headD_cons, List.tail_cons, taken]
        by_cases leaves : line = "exit".toList
        · subst leaves
          refine iff_of_true (fun turns => ?_) (Or.inl rfl)
          have stopped : ∃ after, exec (perform runtime (files lines.length)
              (interpret "exit".toList)) world = (.ok (), after) := ⟨_, rfl⟩
          obtain ⟨after, ran⟩ := stopped
          rw [ran, listener_ended _ _ _ _ _ rfl, if_pos rfl, List.append_nil]
          rfl
        · have goes : interpret line ≠ some .exit := fun asks =>
            leaves ((interpret_exit_iff line).mp asks)
          simp only [leaves, false_or, if_false, goes, ne_eq, not_false_eq_true, decide_true]
          generalize exec (perform runtime (files lines.length) (interpret line)) world = ran
          obtain ⟨result, after⟩ := ran
          cases result with
          | ok value => exact ih after (done ++ (interpret line).toList)
          | error failure =>
              exact crashed_in_step_iff culture runtime files lines after
                (done ++ (interpret line).toList)
      · exact iff_of_false
          (fun same => taken (in_step_taken culture runtime files line lines world done same))
          fun both => taken both.1

/-- The loop keeps in step with the interpreter exactly when `exit` is typed, or the last
command ends with an exception, and each line up to there is taken as it is typed. -/
theorem console_refines_iff (world : World) (lines : List Text) :
    Refines culture runtime files lines world ↔ InStep culture runtime files lines world := by
  have started := listener_in_step_iff culture runtime files lines world []
  simp only [List.nil_append] at started
  exact started

end

example : InStep .ordinal .standard (fun _ => none) ["stop".toList, "exit".toList]
    (.fresh Tables.empty) :=
  ⟨fun blank => absurd blank (by decide), Or.inr ⟨fun blank => absurd blank (by decide),
    Or.inl rfl⟩⟩

/-- The words before the query stand in it once more; and nothing ends the loop but `exit`. -/
theorem console_not_refined :
    (commandListener .ordinal .standard (fun _ => none) 1
      (Console.reading ["send query SELECT 'send query '".toList, "exit".toList]
        (.fresh Tables.empty) [])).performed = [.select "SELECT ''".toList] ∧
    ¬Refines .ordinal .standard (fun _ => none)
      ["send query SELECT 'send query '".toList, "exit".toList] (.fresh Tables.empty) ∧
    (commandListener .ordinal .standard (fun _ => none) 3
      (Console.reading ["stop".toList] (.fresh Tables.empty) [])).performed =
        [.stop, .invalid, .invalid] ∧
    ¬Refines .ordinal .standard (fun _ => none) ["stop".toList] (.fresh Tables.empty) := by
  refine ⟨by decide +kernel, fun same => ?_, by decide +kernel, fun same => ?_⟩
  · have once := same 1
    revert once
    decide +kernel
  · have twice := same 2
    revert twice
    decide +kernel

end CommandManager

end TfuServer
