import Mathlib.Data.List.Basic

/-!
# Programs with a state and exceptions

An exception ends a program but leaves the state as it was changed up to there,
also when the exception is caught. The lemmas run such a program step by step,
and carry an invariant through it without running it.
-/

namespace TfuServer

set_option autoImplicit false

abbrev Program (State Failure Value : Type) := ExceptT Failure (StateM State) Value

namespace Program

section
variable {State Failure Value Next : Type}

def exec (program : Program State Failure Value) (state : State) :
    Except Failure Value × State :=
  program.run.run state

def lift (result : Except Failure Value) : Program State Failure Value := ExceptT.mk (pure result)

/-- `try { .. } catch { .. }` where the handler only reports. -/
def attempt (program : Program State Failure Unit) : Program State Failure Unit :=
  ExceptT.mk ((fun _ => Except.ok ()) <$> program.run)

@[simp] theorem exec_pure (value : Value) (state : State) :
    exec (pure value : Program State Failure Value) state = (.ok value, state) := rfl

@[simp] theorem exec_throw (failure : Failure) (state : State) :
    exec (throw failure : Program State Failure Value) state = (.error failure, state) := rfl

@[simp] theorem exec_get (state : State) :
    exec (get : Program State Failure State) state = (.ok state, state) := rfl

@[simp] theorem exec_modify (change : State → State) (state : State) :
    exec (modify change : Program State Failure PUnit) state = (.ok ⟨⟩, change state) := rfl

@[simp] theorem exec_lift (result : Except Failure Value) (state : State) :
    exec (lift result : Program State Failure Value) state = (result, state) := rfl

theorem exec_bind (program : Program State Failure Value)
    (next : Value → Program State Failure Next) (state : State) :
    exec (program >>= next) state =
      match exec program state with
      | (.ok value, after) => exec (next value) after
      | (.error failure, after) => (.error failure, after) := by
  simp only [exec, ExceptT.run_bind, StateT.run_bind]
  generalize program.run.run state = ran
  obtain ⟨result, after⟩ := ran
  cases result <;> rfl

theorem exec_bind_ok (program : Program State Failure Value)
    (next : Value → Program State Failure Next) (state after : State) (value : Value)
    (ran : exec program state = (.ok value, after)) :
    exec (program >>= next) state = exec (next value) after := by
  rw [exec_bind, ran]

theorem exec_attempt (program : Program State Failure Unit) (state : State) :
    exec (attempt program) state = (.ok (), (exec program state).2) := rfl

theorem exec_try_catch (program : Program State Failure Value)
    (handler : Failure → Program State Failure Value) (state : State) :
    exec (tryCatch program handler) state =
      match exec program state with
      | (.ok value, after) => (.ok value, after)
      | (.error failure, after) => exec (handler failure) after := by
  change ((program.run >>= fun result => match result with
    | .ok value => pure (.ok value)
    | .error failure => (handler failure).run : StateM State _)).run state = _
  simp only [exec, StateT.run_bind]
  generalize program.run.run state = ran
  obtain ⟨result, after⟩ := ran
  cases result <;> rfl

/-- However the program ends, the invariant still holds. -/
def Preserves (invariant : State → Prop) (program : Program State Failure Value) : Prop :=
  ∀ state, invariant state → invariant (exec program state).2

variable {invariant : State → Prop}

theorem preserves_pure (value : Value) :
    Preserves invariant (pure value : Program State Failure Value) :=
  fun _ holds => holds

theorem preserves_lift (result : Except Failure Value) :
    Preserves invariant (lift result : Program State Failure Value) :=
  fun _ holds => holds

theorem preserves_get : Preserves invariant (get : Program State Failure State) :=
  fun _ holds => holds

theorem preserves_modify (change : State → State)
    (kept : ∀ state, invariant state → invariant (change state)) :
    Preserves invariant (modify change : Program State Failure PUnit) :=
  kept

theorem preserves_bind (program : Program State Failure Value)
    (next : Value → Program State Failure Next) (first : Preserves invariant program)
    (second : ∀ value, Preserves invariant (next value)) :
    Preserves invariant (program >>= next) := by
  intro state holds
  have kept := first state holds
  rw [exec_bind]
  generalize exec program state = ran at kept ⊢
  obtain ⟨result, after⟩ := ran
  cases result with
  | ok value => exact second value after kept
  | error failure => exact kept

theorem preserves_bind_lift (result : Except Failure Value)
    (next : Value → Program State Failure Next)
    (second : ∀ value, result = .ok value → Preserves invariant (next value)) :
    Preserves invariant (lift result >>= next) := by
  intro state holds
  rw [exec_bind, exec_lift]
  cases result with
  | ok value => exact second value rfl state holds
  | error failure => exact holds

theorem preserves_bind_result (program : Program State Failure Value)
    (next : Value → Program State Failure Next) (first : Preserves invariant program)
    (second : ∀ state value after, invariant state → exec program state = (.ok value, after) →
      invariant after → invariant (exec (next value) after).2) :
    Preserves invariant (program >>= next) := by
  intro state holds
  have kept := first state holds
  have rest := second state
  rw [exec_bind]
  generalize exec program state = ran at kept rest ⊢
  obtain ⟨result, after⟩ := ran
  cases result with
  | ok value => exact rest value after holds rfl kept
  | error failure => exact kept

theorem preserves_attempt (program : Program State Failure Unit)
    (kept : Preserves invariant program) : Preserves invariant (attempt program) := by
  intro state holds
  rw [exec_attempt]
  exact kept state holds

theorem preserves_try_catch (program : Program State Failure Value)
    (handler : Failure → Program State Failure Value) (kept : Preserves invariant program)
    (handled : ∀ failure, Preserves invariant (handler failure)) :
    Preserves invariant (tryCatch program handler) := by
  intro state holds
  have first := kept state holds
  rw [exec_try_catch]
  generalize exec program state = ran at first ⊢
  obtain ⟨result, after⟩ := ran
  cases result with
  | ok value => exact first
  | error failure => exact handled failure after first

/-- No step takes the count back. -/
def Grows (count : State → Nat) (program : Program State Failure Value) : Prop :=
  ∀ bound, Preserves (fun state => bound ≤ count state) program

def Quiet (count : State → Nat) (program : Program State Failure Value) (state : State) : Prop :=
  count (exec program state).2 = count state

variable {count : State → Nat}

/-- When nothing goes wrong in a program, nothing does in either of its parts. -/
theorem quiet_bind (program : Program State Failure Value)
    (next : Value → Program State Failure Next) (state : State) (first : Grows count program)
    (second : ∀ value, Grows count (next value)) (quiet : Quiet count (program >>= next) state) :
    Quiet count program state ∧
      ∀ value after, exec program state = (.ok value, after) → Quiet count (next value) after := by
  unfold Quiet at quiet ⊢
  rw [exec_bind] at quiet
  have grown := first (count state) state (Nat.le_refl _)
  generalize exec program state = ran at quiet grown ⊢
  obtain ⟨result, middle⟩ := ran
  cases result with
  | error failure => exact ⟨quiet, fun value after same => by cases same⟩
  | ok value =>
      have more := second value (count middle) middle (Nat.le_refl _)
      simp only at quiet grown more ⊢
      refine ⟨by omega, fun other after same => ?_⟩
      cases same
      omega

theorem quiet_rest (program : Program State Failure Value)
    (next : Value → Program State Failure Next) (state after : State) (value : Value)
    (ran : exec program state = (.ok value, after)) (same : count after = count state)
    (quiet : Quiet count (program >>= next) state) : Quiet count (next value) after := by
  unfold Quiet at quiet ⊢
  rw [exec_bind_ok program next state after value ran] at quiet
  rw [quiet, same]

end

end Program
end TfuServer
