import TfuServer.Server.Growth
import TfuServer.Server.Listener
import TfuServer.Server.Standard

/-!
# The threads and their listeners

A run of the threads of the process is a run of the machine of loops and listeners:
each turn of a thread is none, one or several of its actions, and each loop is in the
phase the machine has it in. So what holds of the machine holds of the threads.
-/

namespace TfuServer

set_option autoImplicit false

open Program
open Listener (Phase perform advance)

/-- Goes on without a step of its own. -/
def Idles (next : List Text → Steps (List Text)) : Prop :=
  ∀ texts, ∃ value, next texts = .ended (.ok value)

section
variable (runtime : Runtime)

def afterRequest (requests : List Request) (next : List Text → Steps (List Text))
    (written : Option Text) : Steps (List Text) :=
  Steps.loop runtime requests >>= fun rest => next (written.toList ++ rest)

/-- What the thread of a loop has left to do in a phase. The response is closed without a
step of its own, and a loop that has got all its requests stays before the next one. -/
inductive LoopAt : Phase → Steps (List Text) → Prop where
  | testing (requests : List Request) (next : List Text → Steps (List Text)) (quiet : Idles next) :
      LoopAt .testing (Steps.loop runtime requests >>= next)
  | waiting (listener : Nat) (request : Request) (requests : List Request)
      (next : List Text → Steps (List Text)) (quiet : Idles next) :
      LoopAt (.waiting listener) (Script.atomic (Steps.accept listener) >>= fun _ =>
        Steps.dataReceived runtime request >>= afterRequest runtime requests next)
  | handling (request : Request) (change : World → World) (rest : World → Steps (Option Text))
      (reached : (Steps.dataReceived runtime request).LeadsTo (.step change rest))
      (requests : List Request) (next : List Text → Steps (List Text)) (quiet : Idles next) :
      LoopAt .handling ((.step change rest : Steps (Option Text)) >>=
        afterRequest runtime requests next)
  | ended (failure : Failure) : LoopAt .ended (.ended (.error failure))

/-- What the thread of the console has left to do, by whether the command `start` is between
its two calls and whether the listener is open. -/
inductive ConsoleAt : Bool → Bool → Steps (List Text) → Prop where
  | idle (listening : Bool) (commands : List Bool) :
      ConsoleAt false listening (Steps.console runtime commands)
  | found (commands : List Bool) :
      ConsoleAt false false (Steps.alter Server.makeListener >>= fun _ =>
        Steps.syncDBToDictionary runtime >>= fun _ =>
          Steps.startServer >>= fun _ => Steps.console runtime commands)
  | syncing (listening : Bool) (rest : Steps Unit)
      (reached : (Steps.syncDBToDictionary runtime).LeadsTo rest) (commands : List Bool) :
      ConsoleAt true listening (rest >>= fun _ =>
        Steps.startServer >>= fun _ => Steps.console runtime commands)
  | ready (listening : Bool) (commands : List Bool) :
      ConsoleAt true listening (Steps.startServer >>= fun _ => Steps.console runtime commands)
  | broken (initialised listening : Bool) (failure : Failure) :
      ConsoleAt initialised listening (.ended (.error failure))

/-- The threads are in the state of the machine. A loop whose listener has not been opened
stands before its first round. -/
structure Shows (count : Nat) (pool : Pool World Failure (List Text)) (state : Listener.State) :
    Prop where
  threads : pool.scripts.length = count + 1
  httpListener : state.httpListener = pool.state.httpListener
  isListening : state.isListening = pool.state.listening
  loops : ∀ index < count, ∃ script, pool.scripts[index + 1]? = some script ∧
    LoopAt runtime (state.loops[index]?.getD .testing) script
  console : ∃ script, pool.scripts[0]? = some script ∧
    ConsoleAt runtime state.initialised pool.state.listening script

end

def stepped {Value : Type} (script : Steps Value) (world : World) : Steps Value × World :=
  match script with
  | .ended result => (.ended result, world)
  | .step change next => (next world, change world)

/-- A step of a loop's thread is some of its loop's actions, and leaves the listener alone. -/
structure LoopShows (runtime : Runtime) (state : Listener.State) (world : World) (phase : Phase)
    (ran : Steps (List Text) × World) : Prop where
  listener : SameListener world ran.2
  phases : ∃ outcomes : List Bool, LoopAt runtime
    (outcomes.foldl (fun phase succeeds => advance state succeeds phase) phase) ran.1

section
variable {runtime : Runtime}

theorem handled (state : Listener.State) (request : Request) (rest : Steps (Option Text))
    (reached : (Steps.dataReceived runtime request).LeadsTo rest) (requests : List Request)
    (next : List Text → Steps (List Text)) (quiet : Idles next) :
    ∃ outcomes : List Bool, LoopAt runtime
      (outcomes.foldl (fun phase succeeds => advance state succeeds phase) .handling)
      (rest >>= afterRequest runtime requests next) := by
  cases rest with
  | step change rest => exact ⟨[], .handling request change rest reached requests next quiet⟩
  | ended result =>
      cases result with
      | error failure => exact ⟨[false], .ended failure⟩
      | ok written =>
          exact ⟨[true, true], .testing requests _ fun texts => quiet (written.toList ++ texts)⟩

theorem received_same_listener (request : Request) :
    Steps.Makes SameListener (Steps.dataReceived runtime request) :=
  Script.always_mono _ (fun before after _ => server_step_listener id before after)
    (Steps.makes_request runtime [request] request List.mem_cons_self)

theorem loop_cons_bind (request : Request) (requests : List Request)
    (next : List Text → Steps (List Text)) :
    Steps.loop runtime (request :: requests) >>= next =
      Steps.getContext >>= fun _ => Steps.dataReceived runtime request >>=
        afterRequest runtime requests next := by
  simp only [Steps.loop, Script.bind_bind]
  rfl

/-- The request is taken exactly when the machine takes it. -/
theorem accept_advances (world : World) (state : Listener.State)
    (number : state.httpListener = world.httpListener)
    (listens : state.isListening = world.listening) (listener : Nat) :
    ((exec (Steps.accept listener) world).1 = .ok () ∧
        advance state true (.waiting listener) = .handling) ∨
      ((exec (Steps.accept listener) world).1 = .error .listener ∧
        advance state true (.waiting listener) = .ended) := by
  simp only [Steps.accept, exec_bind, exec_get]
  split_ifs with opened
  · exact .inl ⟨rfl, by simp [advance, number, listens, opened]⟩
  · refine .inr ⟨rfl, ?_⟩
    rw [Decidable.not_and_iff_or_not] at opened
    rcases opened with closed | other
    · simp [advance, listens, Bool.eq_false_iff.mpr closed]
    · simp [advance, number, Ne.symm other]

theorem testing_stepped (world : World) (state : Listener.State)
    (number : state.httpListener = world.httpListener) (requests : List Request)
    (next : List Text → Steps (List Text)) (quiet : Idles next) :
    LoopShows runtime state world .testing
      (stepped (Steps.loop runtime requests >>= next) world) := by
  cases requests with
  | nil =>
      obtain ⟨value, ended⟩ := quiet []
      have same : Steps.loop runtime [] >>= next = .ended (.ok value) := ended
      have stays : stepped (Steps.loop runtime [] >>= next) world =
          (Steps.loop runtime [] >>= next, world) := by
        rw [same]
        rfl
      rw [stays]
      exact ⟨⟨rfl, rfl⟩, [], .testing [] next quiet⟩
  | cons request requests =>
      rw [loop_cons_bind]
      refine ⟨⟨rfl, rfl⟩, [true], ?_⟩
      change LoopAt runtime (.waiting state.httpListener) _
      rw [number]
      exact .waiting world.httpListener request requests next quiet

theorem waiting_stepped (world : World) (state : Listener.State)
    (number : state.httpListener = world.httpListener)
    (listens : state.isListening = world.listening) (listener : Nat) (request : Request)
    (requests : List Request) (next : List Text → Steps (List Text)) (quiet : Idles next) :
    LoopShows runtime state world (.waiting listener)
      (stepped (Script.atomic (Steps.accept listener) >>= fun _ =>
        Steps.dataReceived runtime request >>= afterRequest runtime requests next) world) := by
  have same : stepped (Script.atomic (Steps.accept listener) >>= fun _ =>
      Steps.dataReceived runtime request >>= afterRequest runtime requests next) world =
        (Script.lift (exec (Steps.accept listener) world).1 >>= fun _ =>
          Steps.dataReceived runtime request >>= afterRequest runtime requests next,
        (exec (Steps.accept listener) world).2) := rfl
  rw [same, Steps.accept_state]
  refine ⟨⟨rfl, rfl⟩, ?_⟩
  rcases accept_advances world state number listens listener with
    ⟨accepted, taken⟩ | ⟨refused, thrown⟩
  · obtain ⟨outcomes, after⟩ := handled state request _ (.here _) requests next quiet
    refine ⟨true :: outcomes, ?_⟩
    rw [List.foldl_cons, taken, accepted]
    exact after
  · refine ⟨[true], ?_⟩
    rw [List.foldl_cons, thrown, refused]
    exact .ended .listener

theorem loop_stepped (world : World) (state : Listener.State)
    (number : state.httpListener = world.httpListener)
    (listens : state.isListening = world.listening) (phase : Phase) (script : Steps (List Text))
    (here : LoopAt runtime phase script) :
    LoopShows runtime state world phase (stepped script world) := by
  cases here with
  | testing requests next quiet => exact testing_stepped world state number requests next quiet
  | waiting listener request requests next quiet =>
      exact waiting_stepped world state number listens listener request requests next quiet
  | handling request change rest reached requests next quiet =>
      have keeps := Script.always_leads (received_same_listener request) reached
      refine ⟨(keeps world trivial).1, ?_⟩
      exact handled state request (rest world) (Script.leads_step reached world) requests next quiet
  | ended failure => exact ⟨⟨rfl, rfl⟩, [], .ended failure⟩

theorem perform_outcomes (index : Nat) (outcomes : List Bool) (state : Listener.State) :
    Listener.performAll (outcomes.map (Listener.Action.loop index)) state =
      { state with loops := state.loops.modify index fun phase =>
          outcomes.foldl (fun phase succeeds => advance state succeeds phase) phase } := by
  induction outcomes generalizing state with
  | nil =>
      have same : state.loops.modify index id = state.loops := List.modify_id index state.loops
      exact congrArg (fun loops => ({ state with loops } : Listener.State)) same.symm
  | cons succeeds outcomes ih =>
      have kept (loops : List Phase) (phase : Phase) (succeeds : Bool) :
          advance { state with loops } succeeds phase = advance state succeeds phase := by
        cases phase <;> rfl
      simp only [List.map_cons, Listener.performAll, perform, ih, kept, List.modify_modify_eq,
        List.foldl_cons]
      rfl

theorem console_start (commands : List Bool) :
    Steps.console runtime (true :: commands) =
      Steps.look >>= fun world =>
        if world.listening then Steps.startServer >>= fun _ => Steps.console runtime commands
        else Steps.alter Server.makeListener >>= fun _ =>
          Steps.syncDBToDictionary runtime >>= fun _ =>
            Steps.startServer >>= fun _ => Steps.console runtime commands := by
  simp only [Steps.console, Steps.serverInit, Script.bind_bind]
  refine congrArg (Steps.look >>= ·) (funext fun world => ?_)
  cases world.listening <;> rfl

theorem sync_same_listener : Steps.Makes SameListener (Steps.syncDBToDictionary runtime) := by
  have makes : Steps.Makes (ServerStep runtime { Permits.console with flags := False })
      (Steps.syncDBToDictionary runtime) := Steps.makes_sync runtime trivial rfl
  exact Script.always_mono _ (fun before after _ => server_step_listener id before after) makes

end

structure ConsoleShows (runtime : Runtime) (state after : Listener.State) (world later : World)
    (script : Steps (List Text)) : Prop where
  httpListener : after.httpListener = later.httpListener
  isListening : after.isListening = later.listening
  console : ConsoleAt runtime after.initialised later.listening script
  loops : after.loops =
    state.loops ++ if !world.listening && later.listening then [.testing] else []

section
variable {runtime : Runtime}

theorem console_rests (state : Listener.State) (world later : World) (script : Steps (List Text))
    (number : state.httpListener = world.httpListener)
    (listens : state.isListening = world.listening) (same : SameListener world later)
    (here : ConsoleAt runtime state.initialised later.listening script) :
    ConsoleShows runtime state (Listener.performAll [] state) world later script where
  httpListener := number.trans same.httpListener.symm
  isListening := listens.trans same.listening.symm
  console := here
  loops := by simp [Listener.performAll, same.listening]

theorem stop_listener (world : World) :
    (exec Server.stopServer world).2.httpListener = world.httpListener ∧
      (exec Server.stopServer world).2.listening = false := by
  simp only [Server.stopServer, exec_modify]
  split_ifs with listening
  · exact ⟨rfl, rfl⟩
  · exact ⟨rfl, Bool.eq_false_iff.mpr listening⟩

theorem start_listener (world : World) :
    (exec Server.startServer world).2.httpListener = world.httpListener ∧
      (exec Server.startServer world).2.listening = true := by
  simp only [Server.startServer, exec_modify]
  split_ifs with listening
  · exact ⟨rfl, listening⟩
  · exact ⟨rfl, rfl⟩

theorem console_idle (world : World) (state : Listener.State)
    (number : state.httpListener = world.httpListener)
    (listens : state.isListening = world.listening) (ready : state.initialised = false)
    (commands : List Bool) :
    ∃ actions, ConsoleShows runtime state (Listener.performAll actions state) world
      (stepped (Steps.console runtime commands) world).2
      (stepped (Steps.console runtime commands) world).1 := by
  cases commands with
  | nil =>
      refine ⟨[], console_rests state world _ _ number listens ⟨rfl, rfl⟩ ?_⟩
      rw [ready]
      exact .idle _ []
  | cons command commands =>
      cases command with
      | true =>
          rw [console_start]
          cases listening : world.listening with
          | true =>
              have acted : Listener.performAll [.serverInit] state =
                  { state with initialised := true } := by
                simp [Listener.performAll, perform, ready, listens, listening]
              refine ⟨[.serverInit], ?_⟩
              change ConsoleShows runtime state _ world world (if world.listening then _ else _)
              rw [acted, if_pos listening]
              exact ⟨number, listens, .ready _ commands, by simp⟩
          | false =>
              refine ⟨[], console_rests state world _ _ number listens ⟨rfl, rfl⟩ ?_⟩
              change ConsoleAt runtime state.initialised world.listening
                (if world.listening then _ else _)
              rw [ready, if_neg (by simp [listening]), listening]
              exact .found commands
      | false =>
          have acted : Listener.performAll [.stopServer] state =
              { state with isListening := false } := by
            simp [Listener.performAll, perform, ready]
          obtain ⟨same, closed⟩ := stop_listener world
          refine ⟨[.stopServer], ?_⟩
          change ConsoleShows runtime state _ world (exec Server.stopServer world).2
            (Steps.console runtime commands)
          rw [acted]
          refine ⟨number.trans same.symm, closed.symm, ?_, by simp [closed]⟩
          change ConsoleAt runtime state.initialised _ _
          rw [ready]
          exact .idle _ commands

theorem console_ready (world : World) (state : Listener.State)
    (number : state.httpListener = world.httpListener)
    (listens : state.isListening = world.listening) (ready : state.initialised = true)
    (commands : List Bool) :
    ∃ actions, ConsoleShows runtime state (Listener.performAll actions state) world
      (exec Server.startServer world).2 (Steps.console runtime commands) := by
  refine ⟨[.startServer], ?_⟩
  obtain ⟨same, opened⟩ := start_listener world
  cases listening : world.listening with
  | true =>
      have acted : Listener.performAll [.startServer] state =
          { state with initialised := false } := by
        simp [Listener.performAll, perform, ready, listens, listening]
      rw [acted]
      exact ⟨number.trans same.symm, (listens.trans listening).trans opened.symm,
        .idle _ commands, by simp [listening]⟩
  | false =>
      have acted : Listener.performAll [.startServer] state =
          { state with
            isListening := true
            initialised := false
            loops := state.loops ++ [.testing] } := by
        simp [Listener.performAll, perform, ready, listens, listening]
      rw [acted]
      exact ⟨number.trans same.symm, opened.symm, .idle _ commands,
        by simp [listening, opened]⟩

theorem console_stepped (world : World) (state : Listener.State)
    (number : state.httpListener = world.httpListener)
    (listens : state.isListening = world.listening) (script : Steps (List Text))
    (here : ConsoleAt runtime state.initialised world.listening script) :
    ∃ actions, ConsoleShows runtime state (Listener.performAll actions state) world
      (stepped script world).2 (stepped script world).1 := by
  generalize ready : state.initialised = initialised at here
  generalize open_ : world.listening = listening at here
  cases here with
  | idle listening commands => exact console_idle world state number listens ready commands
  | found commands =>
      have acted : Listener.performAll [.serverInit] state =
          { state with httpListener := state.httpListener + 1, initialised := true } := by
        simp [Listener.performAll, perform, ready, listens, open_]
      refine ⟨[.serverInit], ?_⟩
      change ConsoleShows runtime state _ world (Server.makeListener world) _
      rw [acted]
      refine ⟨congrArg (· + 1) number, listens, ?_, by simp [Server.makeListener]⟩
      exact .syncing _ _ (.here _) commands
  | syncing listening rest reached commands =>
      cases rest with
      | step change rest =>
          have keeps := Script.always_leads sync_same_listener reached
          refine ⟨[], console_rests state world _ _ number listens (keeps world trivial).1 ?_⟩
          rw [ready]
          exact .syncing _ (rest world) (Script.leads_step reached world) commands
      | ended result =>
          cases result with
          | error failure =>
              refine ⟨[], console_rests state world _ _ number listens ⟨rfl, rfl⟩ ?_⟩
              exact .broken _ _ failure
          | ok done => exact console_ready world state number listens ready commands
  | ready listening commands => exact console_ready world state number listens ready commands
  | broken initialised listening failure =>
      refine ⟨[], console_rests state world _ _ number listens ⟨rfl, rfl⟩ ?_⟩
      exact .broken _ _ failure

end

/-- No loop gets a turn before its listener has been opened; `opened` of them have been. -/
def startedFirst (count : Nat) : Nat → List Nat → Pool World Failure (List Text) → Bool
  | _, [], _ => true
  | opened, index :: schedule, pool =>
      let after := Pool.turn index pool
      (index ≤ opened || count < index) &&
        startedFirst count
          (opened + if !pool.state.listening && after.state.listening then 1 else 0) schedule after

section
variable {runtime : Runtime}

theorem turn_stepped (index : Nat) (pool : Pool World Failure (List Text))
    (script : Steps (List Text)) (there : pool.scripts[index]? = some script) :
    (Pool.turn index pool).state = (stepped script pool.state).2 ∧
      (Pool.turn index pool).scripts[index]? = some (stepped script pool.state).1 := by
  cases script with
  | ended result =>
      rw [Pool.turn_ended index pool result there]
      exact ⟨rfl, there⟩
  | step change next =>
      refine ⟨?_, Pool.turn_step index pool change next there⟩
      simp only [Pool.turn, there]
      rfl

theorem getD_waiting_loop (loops : List Phase) (opened : Bool) (index : Nat) :
    (loops ++ if opened then [Phase.testing] else [])[index]?.getD .testing =
      loops[index]?.getD .testing := by
  cases opened with
  | false => simp
  | true =>
      by_cases within : index < loops.length
      · rw [List.getElem?_append_left within]
      · rw [List.getElem?_append_right (Nat.le_of_not_lt within),
          List.getElem?_eq_none (Nat.le_of_not_lt within)]
        cases index - loops.length <;> rfl

theorem console_turn (count : Nat) (pool : Pool World Failure (List Text)) (state : Listener.State)
    (shown : Shows runtime count pool state) :
    ∃ actions, Shows runtime count (Pool.turn 0 pool) (Listener.performAll actions state) ∧
      (Listener.performAll actions state).loops.length = state.loops.length +
        if !pool.state.listening && (Pool.turn 0 pool).state.listening then 1 else 0 := by
  obtain ⟨script, there, here⟩ := shown.console
  obtain ⟨moved, next⟩ := turn_stepped 0 pool script there
  obtain ⟨actions, after⟩ :=
    console_stepped pool.state state shown.httpListener shown.isListening script here
  rw [moved]
  refine ⟨actions, ⟨?_, ?_, ?_, fun index within => ?_, ?_⟩, ?_⟩
  · exact (Pool.run_length [0] pool).trans shown.threads
  · rw [moved]
    exact after.httpListener
  · rw [moved]
    exact after.isListening
  · obtain ⟨own, found, phase⟩ := shown.loops index within
    refine ⟨own, (Pool.turn_other 0 (index + 1) (by omega) pool).trans found, ?_⟩
    rw [after.loops, getD_waiting_loop]
    exact phase
  · refine ⟨_, next, ?_⟩
    rw [moved]
    exact after.console
  · rw [after.loops, List.length_append]
    split_ifs <;> rfl

theorem loop_turn (count : Nat) (pool : Pool World Failure (List Text)) (state : Listener.State)
    (shown : Shows runtime count pool state) (own : Nat) (within : own < count)
    (started : own < state.loops.length) :
    ∃ actions, Shows runtime count (Pool.turn (own + 1) pool) (Listener.performAll actions state) ∧
      SameListener pool.state (Pool.turn (own + 1) pool).state ∧
      (Listener.performAll actions state).loops.length = state.loops.length := by
  obtain ⟨script, there, here⟩ := shown.loops own within
  obtain ⟨moved, next⟩ := turn_stepped (own + 1) pool script there
  obtain ⟨same, outcomes, after⟩ :=
    loop_stepped pool.state state shown.httpListener shown.isListening _ script here
  rw [← moved] at same
  refine ⟨outcomes.map (Listener.Action.loop own), ?_, same, ?_⟩
  · rw [perform_outcomes]
    refine ⟨?_, shown.httpListener.trans same.httpListener.symm,
      shown.isListening.trans same.listening.symm, fun index below => ?_, ?_⟩
    · exact (Pool.run_length [own + 1] pool).trans shown.threads
    · by_cases mine : index = own
      · subst mine
        refine ⟨_, next, ?_⟩
        rw [List.getElem?_eq_getElem started, Option.getD_some] at after
        rw [List.getElem?_modify_eq, List.getElem?_eq_getElem started]
        exact after
      · obtain ⟨other, found, phase⟩ := shown.loops index below
        refine ⟨other, (Pool.turn_other _ _ (by omega) pool).trans found, ?_⟩
        simp only [List.getElem?_modify_ne _ _ (Ne.symm mine)]
        exact phase
    · obtain ⟨console, found, idle⟩ := shown.console
      refine ⟨console, (Pool.turn_other _ _ (by omega) pool).trans found, ?_⟩
      rw [same.listening]
      exact idle
  · rw [perform_outcomes]
    exact List.length_modify _ _ _

/-- A turn is some actions of the machine, and opens a listener where one of them does. -/
theorem turn_shows (count : Nat) (pool : Pool World Failure (List Text)) (state : Listener.State)
    (shown : Shows runtime count pool state) (index : Nat)
    (started : index ≤ state.loops.length ∨ count < index) :
    ∃ actions, Shows runtime count (Pool.turn index pool) (Listener.performAll actions state) ∧
      (Listener.performAll actions state).loops.length = state.loops.length +
        if !pool.state.listening && (Pool.turn index pool).state.listening then 1 else 0 := by
  cases index with
  | zero => exact console_turn count pool state shown
  | succ own =>
      by_cases within : own < count
      · obtain ⟨actions, shows, same, loops⟩ :=
          loop_turn count pool state shown own within (by omega)
        exact ⟨actions, shows, by rw [same.listening, loops]; cases pool.state.listening <;> rfl⟩
      · have absent : pool.scripts[own + 1]? = none :=
          List.getElem?_eq_none (by rw [shown.threads]; omega)
        have still : Pool.turn (own + 1) pool = pool := by simp only [Pool.turn, absent]
        refine ⟨[], ?_, ?_⟩
        · rw [still]
          exact shown
        · rw [still]
          cases pool.state.listening <;> rfl

end

/-- A run of the threads and a run of the machine, in the same state before each turn and at
the end. -/
inductive Followed (runtime : Runtime) (count : Nat) : List Nat → Pool World Failure (List Text) →
    Listener.State → List Listener.Action → Prop where
  | done (pool : Pool World Failure (List Text)) (state : Listener.State)
      (shown : Shows runtime count pool state) : Followed runtime count [] pool state []
  | turn (index : Nat) (schedule : List Nat) (pool : Pool World Failure (List Text))
      (state : Listener.State) (first rest : List Listener.Action)
      (shown : Shows runtime count pool state)
      (later : Followed runtime count schedule (Pool.turn index pool)
        (Listener.performAll first state) rest) :
      Followed runtime count (index :: schedule) pool state (first ++ rest)

section
variable {runtime : Runtime}

theorem run_followed (count : Nat) (schedule : List Nat) (pool : Pool World Failure (List Text))
    (state : Listener.State) (shown : Shows runtime count pool state)
    (started : startedFirst count state.loops.length schedule pool = true) :
    ∃ actions, Followed runtime count schedule pool state actions := by
  induction schedule generalizing pool state with
  | nil => exact ⟨[], .done pool state shown⟩
  | cons index schedule ih =>
      obtain ⟨now, after⟩ := Bool.and_eq_true_iff.mp started
      simp only [Bool.or_eq_true, decide_eq_true_eq] at now
      obtain ⟨first, shows, loops⟩ := turn_shows count pool state shown index now
      rw [← loops] at after
      obtain ⟨rest, later⟩ :=
        ih (Pool.turn index pool) (Listener.performAll first state) shows after
      exact ⟨first ++ rest, .turn index schedule pool state first rest shown later⟩

theorem followed_alone (count : Nat) (schedule : List Nat) (pool : Pool World Failure (List Text))
    (state : Listener.State) (actions : List Listener.Action)
    (followed : Followed runtime count schedule pool state actions)
    (spaced : Listener.Spaced actions state) (alone : Listener.Alone state) (front : List Nat)
    (part : front <+: schedule) :
    ∃ after, Shows runtime count (Pool.run front pool) after ∧ Listener.Alone after := by
  induction followed generalizing front with
  | done pool state shown =>
      obtain rfl := List.prefix_nil.mp part
      exact ⟨state, shown, alone⟩
  | turn index schedule pool state first rest shown later ih =>
      cases front with
      | nil => exact ⟨state, shown, alone⟩
      | cons other front =>
          obtain ⟨rfl, shorter⟩ := List.cons_prefix_cons.mp part
          obtain ⟨before, after⟩ := Listener.spaced_append first rest state spaced
          exact ih after (Listener.alone_after first state alone before) front shorter

end

/-- The threads of the process, whatever their requests and commands and in whatever order they
take turns, do what the machine of loops and listeners does, provided that no loop gets a turn
before its listener is opened. So when each listener is opened while no loop could go on with
it, one loop at a time can take a request from the open one. -/
theorem threads_follow_listener (runtime : Runtime) (commands : List Bool)
    (requests : List (List Request)) (world : World) (closed : world.listening = false)
    (schedule : List Nat)
    (started : startedFirst requests.length 0 schedule
      (process runtime commands requests world) = true) :
    ∃ actions, Followed runtime requests.length schedule (process runtime commands requests world)
        ⟨world.httpListener, false, false, []⟩ actions ∧
      (Listener.Spaced actions ⟨world.httpListener, false, false, []⟩ →
        ∀ front, front <+: schedule → ∃ state,
          Shows runtime requests.length
            (Pool.run front (process runtime commands requests world)) state ∧
          Listener.Alone state) := by
  have shown : Shows runtime requests.length (process runtime commands requests world)
      ⟨world.httpListener, false, false, []⟩ := by
    refine ⟨by simp [process], rfl, closed.symm, fun index within => ?_, ?_⟩
    · refine ⟨Steps.loop runtime requests[index], ?_, ?_⟩
      · simp [process, within]
      · have whole : Steps.loop runtime requests[index] >>= pure =
            Steps.loop runtime requests[index] := Script.bind_pure _
        have here : LoopAt runtime .testing (Steps.loop runtime requests[index] >>= pure) :=
          .testing requests[index] pure fun texts => ⟨texts, rfl⟩
        rw [whole] at here
        exact here
    · exact ⟨_, rfl, .idle _ commands⟩
  obtain ⟨actions, followed⟩ := run_followed requests.length schedule
    (process runtime commands requests world) _ shown started
  refine ⟨actions, followed, fun spaced front part => ?_⟩
  exact followed_alone _ schedule _ _ actions followed spaced
    (fun open_ => nomatch open_) front part

/-- The listener is stopped and started again while the first loop handles a request; then both
loops take one from the new listener. -/
def restartedSchedule : List Nat :=
  [0, 0, 0, 0, 0, 1, 1, 0, 0, 0, 0, 0, 0, 2, 2] ++ List.replicate 20 1 ++ List.replicate 20 2

theorem threads_follow_listener_restarted :
    let image : Request := ⟨"GET".toList, "/image".toList, none, []⟩
    let threads := process .standard [true, false, true] [[image, image], [image]] (.fresh .empty)
    ∃ actions, Followed .standard 2 restartedSchedule threads ⟨0, false, false, []⟩ actions ∧
      (Listener.Spaced actions ⟨0, false, false, []⟩ → ∀ front, front <+: restartedSchedule →
        ∃ state, Shows .standard 2 (Pool.run front threads) state ∧ Listener.Alone state) :=
  threads_follow_listener .standard [true, false, true]
    [[⟨"GET".toList, "/image".toList, none, []⟩, ⟨"GET".toList, "/image".toList, none, []⟩],
      [⟨"GET".toList, "/image".toList, none, []⟩]] (.fresh .empty) rfl restartedSchedule
    (by decide +kernel)

end TfuServer
