import Mathlib.Data.List.Basic
import Mathlib.Logic.Function.Iterate

/-!
# Loops and listeners

Every `start` that opens a listener starts a loop, and every loop reads the
field of the listener again in each round. A loop that is outside `GetContext`
while its listener is stopped and the next one opened goes on with the new one,
beside the loop that was started for it.
-/

namespace TfuServer.Listener

set_option autoImplicit false

/-- Where a loop is. `waiting` is a call of `GetContext` on the listener that was in the
field then. -/
inductive Phase where
  | testing
  | waiting (listener : Nat)
  | handling
  | closing
  | ended
  deriving DecidableEq, Repr

/-- Listeners are numbered as they are made; all but the one in the field are closed or
were never started. `initialised` says that the command `start` is between its two calls. -/
structure State where
  httpListener : Nat
  isListening : Bool
  initialised : Bool
  loops : List Phase
  deriving DecidableEq, Repr

/-- A loop's step either succeeds or ends with an exception, and with it the loop. -/
inductive Action where
  | serverInit
  | startServer
  | stopServer
  | loop (index : Nat) (succeeds : Bool)
  deriving DecidableEq, Repr

def initial : State := ⟨0, false, false, []⟩

/-- What a loop does next. A call of `GetContext` succeeds on the open listener only. -/
def advance (state : State) (succeeds : Bool) : Phase → Phase
  | .testing => .waiting state.httpListener
  | .waiting listener =>
      if listener = state.httpListener && state.isListening && succeeds then .handling else .ended
  | .handling => if succeeds then .closing else .ended
  | .closing => if succeeds then .testing else .ended
  | .ended => .ended

/-- A command is over before the next one is read. -/
def perform : Action → State → State
  | .serverInit, state =>
      if state.initialised then state
      else if state.isListening then { state with initialised := true }
      else { state with httpListener := state.httpListener + 1, initialised := true }
  | .startServer, state =>
      if state.initialised then
        if state.isListening then { state with initialised := false }
        else { state with
          isListening := true, initialised := false, loops := state.loops ++ [.testing] }
      else state
  | .stopServer, state =>
      if state.initialised then state else { state with isListening := false }
  | .loop index succeeds, state =>
      { state with loops := state.loops.modify index (advance state succeeds) }

def performAll : List Action → State → State
  | [], state => state
  | action :: actions, state => performAll actions (perform action state)

/-- The loop gets to the listener in the field by steps of its own. -/
def live (httpListener : Nat) : Phase → Bool
  | .waiting listener => listener == httpListener
  | .ended => false
  | _ => true

/-- A loop is live exactly when its own steps bring it to `GetContext` on the listener
in the field. -/
theorem live_iff_reaches (state : State) (phase : Phase) :
    live state.httpListener phase = true ↔
      ∃ steps, (advance state true)^[steps] phase = .waiting state.httpListener := by
  have stays (steps : Nat) : (advance state true)^[steps] .ended = .ended := by
    induction steps with
    | zero => rfl
    | succ steps ih => exact ih
  cases phase with
  | testing => exact ⟨fun _ => ⟨1, rfl⟩, fun _ => rfl⟩
  | handling => exact ⟨fun _ => ⟨3, rfl⟩, fun _ => rfl⟩
  | closing => exact ⟨fun _ => ⟨2, rfl⟩, fun _ => rfl⟩
  | ended =>
      constructor
      · intro alive
        cases alive
      · rintro ⟨steps, reached⟩
        rw [stays] at reached
        cases reached
  | waiting listener =>
      by_cases current : listener = state.httpListener
      · subst current
        exact ⟨fun _ => ⟨0, rfl⟩, fun _ => beq_self_eq_true _⟩
      · constructor
        · intro alive
          exact absurd (eq_of_beq alive) current
        · rintro ⟨steps, reached⟩
          cases steps with
          | zero => exact absurd (Phase.waiting.inj reached) current
          | succ steps =>
              rw [Function.iterate_succ_apply] at reached
              have thrown : advance state true (.waiting listener) = .ended := by
                simp [advance, current]
              rw [thrown, stays] at reached
              cases reached

def liveLoops (state : State) : Nat := state.loops.countP (live state.httpListener)

/-- While the listener is open, at most one loop can take a context from it. -/
def Alone (state : State) : Prop := state.isListening = true → liveLoops state ≤ 1

/-- No loop is between the start of its round and the next call of `GetContext`, nor in one
on the listener about to be opened. -/
def Clear (state : State) : Prop := liveLoops state = 0

def opens (action : Action) (state : State) : Bool :=
  action == .startServer && state.initialised && !state.isListening

theorem live_of_advance (state : State) (succeeds : Bool) (phase : Phase)
    (alive : live state.httpListener (advance state succeeds phase) = true) :
    live state.httpListener phase = true := by
  cases phase with
  | testing | handling | closing => rfl
  | ended => exact alive
  | waiting listener =>
      simp only [advance] at alive
      split_ifs at alive with taken
      · simp only [Bool.and_eq_true, decide_eq_true_eq] at taken
        exact beq_iff_eq.mpr taken.1.1
      · cases alive

theorem count_modify_le {Item : Type} (counted : Item → Bool) (change : Item → Item)
    (kept : ∀ item, counted (change item) = true → counted item = true) (items : List Item)
    (index : Nat) : (items.modify index change).countP counted ≤ items.countP counted := by
  induction items generalizing index with
  | nil => simp
  | cons item items ih =>
      cases index with
      | zero =>
          simp only [List.modify_zero_cons, List.countP_cons]
          split_ifs with after before
          · exact Nat.le_refl _
          · exact absurd (kept item after) before
          · omega
          · exact Nat.le_refl _
      | succ index =>
          simp only [List.modify_succ_cons, List.countP_cons]
          exact Nat.add_le_add_right (ih index) _

theorem perform_opens (action : Action) (state : State) (opening : opens action state = true) :
    Alone (perform action state) ↔ Clear state := by
  simp only [opens, Bool.and_eq_true, beq_iff_eq, Bool.not_eq_true'] at opening
  obtain ⟨⟨rfl, initialised⟩, closed⟩ := opening
  simp only [perform, initialised, closed, if_true, Bool.false_eq_true, if_false, Alone, Clear,
    liveLoops, List.countP_append, List.countP_singleton, live, forall_const]
  omega

theorem perform_alone (action : Action) (state : State) (other : opens action state = false)
    (alone : Alone state) : Alone (perform action state) := by
  cases action with
  | serverInit =>
      simp only [perform]
      split_ifs with initialised listening
      · exact alone
      · exact alone
      · intro open_
        exact absurd open_ listening
  | startServer =>
      simp only [perform]
      split_ifs with initialised listening
      · exact alone
      · simp [opens, initialised, listening] at other
      · exact alone
  | stopServer =>
      simp only [perform]
      split_ifs
      · exact alone
      · intro open_
        cases open_
  | loop index succeeds =>
      intro open_
      refine Nat.le_trans ?_ (alone open_)
      exact count_modify_le _ _ (live_of_advance state succeeds) state.loops index

/-- Holds before the run and after each of its actions. -/
def Throughout (invariant : State → Prop) : List Action → State → Prop
  | [], state => invariant state
  | action :: actions, state =>
      invariant state ∧ Throughout invariant actions (perform action state)

/-- Listeners are opened only while no loop could go on with them. -/
def Spaced : List Action → State → Prop
  | [], _ => True
  | action :: actions, state =>
      (opens action state = true → Clear state) ∧ Spaced actions (perform action state)

theorem throughout_head (invariant : State → Prop) (actions : List Action) (state : State)
    (always : Throughout invariant actions state) : invariant state := by
  cases actions with
  | nil => exact always
  | cons action actions => exact always.1

theorem alone_iff_spaced (actions : List Action) (state : State) (alone : Alone state) :
    Throughout Alone actions state ↔ Spaced actions state := by
  induction actions generalizing state with
  | nil => exact ⟨fun _ => trivial, fun _ => alone⟩
  | cons action actions ih =>
      have next (kept : Alone (perform action state)) := ih (perform action state) kept
      constructor
      · rintro ⟨-, rest⟩
        have kept := throughout_head Alone actions _ rest
        exact ⟨fun opening => (perform_opens action state opening).mp kept, (next kept).mp rest⟩
      · rintro ⟨clear, rest⟩
        have kept : Alone (perform action state) := by
          cases opening : opens action state with
          | true => exact (perform_opens action state opening).mpr (clear opening)
          | false => exact perform_alone action state opening alone
        exact ⟨alone, (next kept).mpr rest⟩

theorem spaced_append (first rest : List Action) (state : State)
    (spaced : Spaced (first ++ rest) state) :
    Spaced first state ∧ Spaced rest (performAll first state) := by
  induction first generalizing state with
  | nil => exact ⟨trivial, spaced⟩
  | cons action first ih =>
      obtain ⟨clear, later⟩ := spaced
      obtain ⟨before, after⟩ := ih _ later
      exact ⟨⟨clear, before⟩, after⟩

theorem throughout_last (invariant : State → Prop) (actions : List Action) (state : State)
    (always : Throughout invariant actions state) : invariant (performAll actions state) := by
  induction actions generalizing state with
  | nil => exact always
  | cons action actions ih => exact ih _ always.2

theorem alone_after (actions : List Action) (state : State) (alone : Alone state)
    (spaced : Spaced actions state) : Alone (performAll actions state) :=
  throughout_last Alone actions state ((alone_iff_spaced actions state alone).mpr spaced)

/-- At most one loop can take a context in every state of a run exactly when each listener
of the run is opened while no loop could go on with it. -/
theorem one_loop_iff_spaced (actions : List Action) :
    Throughout Alone actions initial ↔ Spaced actions initial :=
  alone_iff_spaced actions initial fun open_ => nomatch open_

def restarted : List Action := [
  .serverInit, .startServer, .loop 0 true, .loop 0 true,
  .stopServer, .serverInit, .startServer,
  .loop 0 true, .loop 0 true, .loop 0 true, .loop 1 true]

/-- Both loops end up in `GetContext` on the new listener. -/
theorem two_loops_wait :
    performAll restarted initial = ⟨2, true, false, [.waiting 2, .waiting 2]⟩ ∧
      ¬Alone (performAll restarted initial) := by
  constructor
  · rfl
  · intro alone
    exact absurd (alone rfl) (by decide)

end TfuServer.Listener
