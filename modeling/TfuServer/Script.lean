import TfuServer.Program

/-!
# Programs step by step

A script is a program cut into the steps it makes on a state that others may change
between them. Run alone it does what a program does. What it does beside others is
judged by what they may do between its steps, and by what each of its own steps does.
-/

namespace TfuServer

set_option autoImplicit false

/-- A step changes the state at once; what follows may depend on the state it found. -/
inductive Script (State Failure Value : Type) where
  | ended (result : Except Failure Value)
  | step (change : State → State) (next : State → Script State Failure Value)

namespace Script

section
variable {State Failure Value Next : Type}

protected def bind (script : Script State Failure Value)
    (next : Value → Script State Failure Next) : Script State Failure Next :=
  match script with
  | .ended (.ok value) => next value
  | .ended (.error failure) => .ended (.error failure)
  | .step change rest => .step change fun state => (rest state).bind next

instance : Monad (Script State Failure) where
  pure value := .ended (.ok value)
  bind := Script.bind

def lift (result : Except Failure Value) : Script State Failure Value := .ended result

/-- The whole program in one step. -/
def atomic (program : Program State Failure Value) : Script State Failure Value :=
  .step (fun state => (program.exec state).2) fun state => .ended (program.exec state).1

/-- `try { .. } catch { .. }`. -/
def recover (script : Script State Failure Value)
    (handler : Failure → Script State Failure Value) : Script State Failure Value :=
  match script with
  | .ended (.ok value) => .ended (.ok value)
  | .ended (.error failure) => handler failure
  | .step change rest => .step change fun state => (rest state).recover handler

theorem lift_bind (result : Except Failure Value) (next : Value → Except Failure Next) :
    (lift result >>= fun value => lift (next value) : Script State Failure Next) =
      lift (result >>= next) := by
  cases result <;> rfl

theorem bind_bind {Last : Type} (script : Script State Failure Value)
    (next : Value → Script State Failure Next) (last : Next → Script State Failure Last) :
    (script >>= next) >>= last = script >>= fun value => next value >>= last := by
  change (script.bind next).bind last = script.bind fun value => (next value).bind last
  induction script with
  | ended result => cases result <;> rfl
  | step change rest ih => exact congrArg (step change) (funext ih)

theorem bind_pure (script : Script State Failure Value) : script >>= pure = script := by
  change script.bind pure = script
  induction script with
  | ended result => cases result <;> rfl
  | step change rest ih => exact congrArg (step change) (funext ih)

def exec : Script State Failure Value → State → Except Failure Value × State
  | .ended result, state => (result, state)
  | .step change next, state => (next state).exec (change state)

theorem exec_bind (script : Script State Failure Value)
    (next : Value → Script State Failure Next) (state : State) :
    (script >>= next).exec state =
      match script.exec state with
      | (.ok value, after) => (next value).exec after
      | (.error failure, after) => (.error failure, after) := by
  change (script.bind next).exec state = _
  induction script generalizing state with
  | ended result => cases result <;> rfl
  | step change rest ih => exact ih state (change state)

theorem exec_recover (script : Script State Failure Value)
    (handler : Failure → Script State Failure Value) (state : State) :
    (script.recover handler).exec state =
      match script.exec state with
      | (.ok value, after) => (.ok value, after)
      | (.error failure, after) => (handler failure).exec after := by
  induction script generalizing state with
  | ended result => cases result <;> rfl
  | step change rest ih => exact ih state (change state)

/-- Run alone where the invariant holds, the script does what the program does and keeps the
invariant. -/
def ImplementsFrom (invariant : State → Prop) (script : Script State Failure Value)
    (program : Program State Failure Value) : Prop :=
  ∀ state, invariant state →
    script.exec state = program.exec state ∧ invariant (program.exec state).2

/-- Run alone, the script does what the program does. -/
abbrev Implements (script : Script State Failure Value)
    (program : Program State Failure Value) : Prop :=
  ImplementsFrom (fun _ => True) script program

variable {invariant : State → Prop}

theorem implements_pure (value : Value) :
    ImplementsFrom invariant (pure value : Script State Failure Value) (pure value) :=
  fun _ holds => ⟨rfl, holds⟩

theorem implements_lift (result : Except Failure Value) :
    ImplementsFrom invariant (lift result : Script State Failure Value) (Program.lift result) :=
  fun _ holds => ⟨rfl, holds⟩

theorem implements_atomic_from (program : Program State Failure Value)
    (keeps : ∀ state, invariant state → invariant (program.exec state).2) :
    ImplementsFrom invariant (atomic program) program :=
  fun state holds => ⟨rfl, keeps state holds⟩

theorem implements_atomic (program : Program State Failure Value) :
    Implements (atomic program) program :=
  implements_atomic_from program fun _ _ => trivial

theorem implements_bind (script : Script State Failure Value)
    (program : Program State Failure Value) (next : Value → Script State Failure Next)
    (rest : Value → Program State Failure Next) (first : ImplementsFrom invariant script program)
    (second : ∀ value, ImplementsFrom invariant (next value) (rest value)) :
    ImplementsFrom invariant (script >>= next) (program >>= rest) := by
  intro state holds
  obtain ⟨same, kept⟩ := first state holds
  rw [exec_bind, Program.exec_bind, same]
  generalize program.exec state = ran at kept
  obtain ⟨result, after⟩ := ran
  cases result with
  | ok value => exact second value after kept
  | error failure => exact ⟨rfl, kept⟩

theorem implements_recover (script : Script State Failure Value)
    (program : Program State Failure Value)
    (handler : Failure → Script State Failure Value)
    (handled : Failure → Program State Failure Value)
    (first : ImplementsFrom invariant script program)
    (second : ∀ failure, ImplementsFrom invariant (handler failure) (handled failure)) :
    ImplementsFrom invariant (script.recover handler) (tryCatch program handled) := by
  intro state holds
  obtain ⟨same, kept⟩ := first state holds
  rw [exec_recover, Program.exec_try_catch, same]
  generalize program.exec state = ran at kept
  obtain ⟨result, after⟩ := ran
  cases result with
  | ok value => exact ⟨rfl, kept⟩
  | error failure => exact second failure after kept

theorem implements_attempt (script : Script State Failure Unit)
    (program : Program State Failure Unit) (same : ImplementsFrom invariant script program) :
    ImplementsFrom invariant (script.recover fun _ => pure ()) program.attempt := by
  intro state holds
  obtain ⟨same, kept⟩ := same state holds
  rw [exec_recover, Program.exec_attempt, same]
  generalize program.exec state = ran at kept
  obtain ⟨result, after⟩ := ran
  cases result <;> exact ⟨rfl, kept⟩

/-- Whatever state it finds among these, each step of the script is allowed; `allowed` is also
told what is left to do after the step. -/
def AlwaysFrom (found : State → Prop)
    (allowed : State → State → Script State Failure Value → Prop) :
    Script State Failure Value → Prop
  | .ended _ => True
  | .step change next =>
      ∀ state, found state →
        allowed state (change state) (next state) ∧ AlwaysFrom found allowed (next state)

/-- What is left of a script after some steps on some states. -/
inductive LeadsTo : Script State Failure Value → Script State Failure Value → Prop where
  | here (script : Script State Failure Value) : LeadsTo script script
  | step {change : State → State} {next : State → Script State Failure Value}
      {last : Script State Failure Value} (found : State) (later : LeadsTo (next found) last) :
      LeadsTo (.step change next) last

theorem leads_step {script : Script State Failure Value} {change : State → State}
    {next : State → Script State Failure Value} (reached : LeadsTo script (.step change next))
    (found : State) : LeadsTo script (next found) := by
  generalize whole : Script.step change next = last at reached
  induction reached with
  | here script =>
      subst whole
      exact .step found (.here _)
  | step before later ih => exact .step before (ih whole)

abbrev Always (allowed : State → State → Script State Failure Value → Prop)
    (script : Script State Failure Value) : Prop :=
  AlwaysFrom (fun _ => True) allowed script

variable {found : State → Prop}

theorem always_leads {allowed : State → State → Script State Failure Value → Prop}
    {script last : Script State Failure Value} (always : Always allowed script)
    (reached : LeadsTo script last) : Always allowed last := by
  induction reached with
  | here script => exact always
  | step before later ih => exact ih (always before trivial).2

theorem always_pure (allowed : State → State → Script State Failure Value → Prop)
    (value : Value) : AlwaysFrom found allowed (pure value) :=
  trivial

theorem always_lift (allowed : State → State → Script State Failure Value → Prop)
    (result : Except Failure Value) : AlwaysFrom found allowed (lift result) :=
  trivial

theorem always_atomic (allowed : State → State → Script State Failure Value → Prop)
    (program : Program State Failure Value)
    (each : ∀ state, found state →
      allowed state (program.exec state).2 (.ended (program.exec state).1)) :
    AlwaysFrom found allowed (atomic program) :=
  fun state here => ⟨each state here, trivial⟩

theorem always_bind {first : State → State → Script State Failure Value → Prop}
    {allowed : State → State → Script State Failure Next → Prop}
    (script : Script State Failure Value) (next : Value → Script State Failure Next)
    (along : ∀ before after rest, first before after rest → allowed before after (rest >>= next))
    (always : AlwaysFrom found first script)
    (later : ∀ value, AlwaysFrom found allowed (next value)) :
    AlwaysFrom found allowed (script >>= next) := by
  change AlwaysFrom found allowed (script.bind next)
  induction script with
  | ended result =>
      cases result with
      | ok value => exact later value
      | error failure => trivial
  | step change rest ih =>
      intro state here
      exact ⟨along _ _ _ (always state here).1, ih state (always state here).2⟩

theorem always_look_bind {allowed : State → State → Script State Failure Value → Prop}
    (next : State → Script State Failure Value)
    (each : ∀ state, found state →
      allowed state state (next state) ∧ AlwaysFrom found allowed (next state)) :
    AlwaysFrom found allowed (atomic (MonadState.get : Program State Failure State) >>= next) :=
  each

theorem always_recover {first allowed : State → State → Script State Failure Value → Prop}
    (script : Script State Failure Value) (handler : Failure → Script State Failure Value)
    (along : ∀ before after rest, first before after rest →
      allowed before after (rest.recover handler))
    (always : AlwaysFrom found first script)
    (handled : ∀ failure, AlwaysFrom found allowed (handler failure)) :
    AlwaysFrom found allowed (script.recover handler) := by
  induction script with
  | ended result =>
      cases result with
      | ok value => trivial
      | error failure => exact handled failure
  | step change rest ih =>
      intro state here
      exact ⟨along _ _ _ (always state here).1, ih state (always state here).2⟩

theorem always_mono {first allowed : State → State → Script State Failure Value → Prop}
    (script : Script State Failure Value)
    (weaker : ∀ before after rest, first before after rest → allowed before after rest)
    (always : AlwaysFrom found first script) : AlwaysFrom found allowed script := by
  induction script with
  | ended result => trivial
  | step change next ih =>
      intro state here
      exact ⟨weaker _ _ _ (always state here).1, ih state (always state here).2⟩

/-- No more than so many steps are left, whatever they find. -/
def AtMost : Nat → Script State Failure Value → Prop
  | _, .ended _ => True
  | 0, .step _ _ => False
  | steps + 1, .step _ next => ∀ state, AtMost steps (next state)

theorem at_most_ended (steps : Nat) (result : Except Failure Value) :
    AtMost steps (ended result : Script State Failure Value) := by
  cases steps <;> exact trivial

theorem at_most_mono (steps more : Nat) (fewer : steps ≤ more)
    (script : Script State Failure Value) (bounded : AtMost steps script) : AtMost more script := by
  induction script generalizing steps more with
  | ended result => exact at_most_ended more result
  | step change next ih =>
      cases steps with
      | zero => exact bounded.elim
      | succ steps =>
          cases more with
          | zero => exact absurd fewer (by omega)
          | succ more => exact fun state => ih state steps more (by omega) (bounded state)

theorem at_most_atomic (program : Program State Failure Value) : AtMost 1 (atomic program) :=
  fun _ => trivial

theorem atomic_of_at_most (script : Script State Failure Value)
    (program : Program State Failure Value) (same : Implements script program)
    (once : AtMost 1 script) (steps : ∀ result, script ≠ ended result) :
    script = atomic program := by
  cases script with
  | ended result => exact absurd rfl (steps result)
  | step change next =>
      have last (state : State) : ∃ result, next state = ended result := by
        have none := once state
        cases left : next state with
        | ended result => exact ⟨result, rfl⟩
        | step change next =>
            rw [left] at none
            exact none.elim
      have ran (state : State) :
          change state = (program.exec state).2 ∧ next state = ended (program.exec state).1 := by
        obtain ⟨result, left⟩ := last state
        have whole := (same state trivial).1
        rw [exec, left, exec] at whole
        rw [left, ← whole]
        exact ⟨rfl, rfl⟩
      rw [atomic, funext fun state => (ran state).1, funext fun state => (ran state).2]

theorem at_most_bind (first second : Nat) (script : Script State Failure Value)
    (next : Value → Script State Failure Next) (bounded : AtMost first script)
    (later : ∀ value, AtMost second (next value)) :
    AtMost (first + second) (script >>= next) := by
  change AtMost (first + second) (script.bind next)
  induction script generalizing first with
  | ended result =>
      cases result with
      | ok value => exact at_most_mono second _ (by omega) _ (later value)
      | error failure => exact at_most_ended _ _
  | step change rest ih =>
      cases first with
      | zero => exact bounded.elim
      | succ first =>
          rw [Nat.succ_add]
          exact fun state => ih state first (bounded state)

theorem at_most_recover (first second : Nat) (script : Script State Failure Value)
    (handler : Failure → Script State Failure Value) (bounded : AtMost first script)
    (handled : ∀ failure, AtMost second (handler failure)) :
    AtMost (first + second) (script.recover handler) := by
  induction script generalizing first with
  | ended result =>
      cases result with
      | ok value => exact at_most_ended _ _
      | error failure => exact at_most_mono second _ (by omega) _ (handled failure)
  | step change rest ih =>
      cases first with
      | zero => exact bounded.elim
      | succ first =>
          rw [Nat.succ_add]
          exact fun state => ih state first (bounded state)

/-- From this state on, with `rely` between its steps, the script makes steps within `guar`
and ends where `after` holds and keeps holding. -/
def Valid (rely : State → State → Prop)
    (guar : State → State → Script State Failure Value → Prop)
    (after : Except Failure Value → State → Prop) : Script State Failure Value → State → Prop
  | .ended result, state => ∀ later, rely state later → after result later
  | .step change next, state =>
      ∀ found, rely state found →
        guar found (change found) (next found) ∧
          Valid rely guar after (next found) (change found)

abbrev Ends (rely : State → State → Prop) (after : Except Failure Value → State → Prop) :
    Script State Failure Value → State → Prop :=
  Valid rely (fun _ _ _ => True) after

variable {rely : State → State → Prop}
  {guar : State → State → Script State Failure Value → Prop}

section
variable (related : ∀ first second third, rely first second → rely second third →
  rely first third)
include related

/-- What the others do does not harm a script that relies on it. -/
theorem valid_later {after : Except Failure Value → State → Prop}
    (script : Script State Failure Value) (state later : State) (moved : rely state later)
    (valid : Valid rely guar after script state) : Valid rely guar after script later := by
  cases script with
  | ended result => exact fun last further => valid last (related _ _ _ moved further)
  | step change next => exact fun found further => valid found (related _ _ _ moved further)

end

theorem valid_mono {outer : State → State → Script State Failure Value → Prop}
    {first after : Except Failure Value → State → Prop} (script : Script State Failure Value)
    (state : State)
    (allowed : ∀ before later rest, guar before later rest → outer before later rest)
    (weaker : ∀ result later, first result later → after result later)
    (valid : Valid rely guar first script state) : Valid rely outer after script state := by
  induction script generalizing state with
  | ended result => exact fun later moved => weaker _ _ (valid later moved)
  | step change next ih =>
      intro found moved
      exact ⟨allowed _ _ _ (valid found moved).1, ih found (change found) (valid found moved).2⟩

theorem ends_trivial (script : Script State Failure Value) (state : State) :
    Ends rely (fun _ _ => True) script state := by
  induction script generalizing state with
  | ended result => exact fun _ _ => trivial
  | step change next ih => exact fun found _ => ⟨trivial, ih found (change found)⟩

theorem valid_rely {wider : State → State → Prop}
    (narrower : ∀ before later, rely before later → wider before later)
    {after : Except Failure Value → State → Prop} (script : Script State Failure Value)
    (state : State) (valid : Valid wider guar after script state) :
    Valid rely guar after script state := by
  induction script generalizing state with
  | ended result => exact fun later moved => valid later (narrower _ _ moved)
  | step change next ih =>
      intro found moved
      obtain ⟨allowed, rest⟩ := valid found (narrower _ _ moved)
      exact ⟨allowed, ih found (change found) rest⟩

theorem valid_and {first second : Except Failure Value → State → Prop}
    (script : Script State Failure Value) (state : State)
    (one : Valid rely guar first script state) (other : Valid rely guar second script state) :
    Valid rely guar (fun result later => first result later ∧ second result later) script
      state := by
  induction script generalizing state with
  | ended result => exact fun later moved => ⟨one later moved, other later moved⟩
  | step change next ih =>
      intro found moved
      exact ⟨(one found moved).1,
        ih found (change found) (one found moved).2 (other found moved).2⟩

theorem ends_of_valid {after : Except Failure Value → State → Prop}
    (script : Script State Failure Value) (state : State)
    (valid : Valid rely guar after script state) : Ends rely after script state :=
  valid_mono script state (fun _ _ _ _ => trivial) (fun _ _ holds => holds) valid

theorem valid_atomic {after : Except Failure Value → State → Prop}
    (program : Program State Failure Value) (state : State)
    (each : ∀ found, rely state found →
      guar found (program.exec found).2 (.ended (program.exec found).1) ∧
        ∀ later, rely (program.exec found).2 later → after (program.exec found).1 later) :
    Valid rely guar after (atomic program) state :=
  each

theorem valid_atomic_bind {outer : State → State → Script State Failure Next → Prop}
    {after : Except Failure Next → State → Prop} (program : Program State Failure Value)
    (next : Value → Script State Failure Next) (state : State)
    (each : ∀ found, rely state found → ∃ value later,
      program.exec found = (.ok value, later) ∧ outer found later (next value) ∧
        Valid rely outer after (next value) later) :
    Valid rely outer after (atomic program >>= next) state := by
  intro found moved
  obtain ⟨value, later, ran, allowed, valid⟩ := each found moved
  change outer found (program.exec found).2 ((ended (program.exec found).1).bind next) ∧
    Valid rely outer after ((ended (program.exec found).1).bind next) (program.exec found).2
  rw [ran]
  exact ⟨allowed, valid⟩

theorem valid_lift_bind {outer : State → State → Script State Failure Next → Prop}
    {after : Except Failure Next → State → Prop} (result : Except Failure Value)
    (next : Value → Script State Failure Next) (state : State)
    (goes : ∀ value, result = .ok value → Valid rely outer after (next value) state)
    (throws : ∀ failure, result = .error failure → ∀ later, rely state later →
      after (.error failure) later) :
    Valid rely outer after (lift result >>= next) state := by
  cases result with
  | ok value => exact goes value rfl
  | error failure => exact throws failure rfl

/-- A script that stays within what it relies on ends where its own steps and those of the
others have led. -/
theorem valid_moved (related : ∀ first second third, rely first second → rely second third →
      rely first third)
    (within : ∀ before later rest, guar before later rest → rely before later)
    {after : Except Failure Value → State → Prop} (script : Script State Failure Value)
    (start state : State) (moved : rely start state)
    (valid : Valid rely guar after script state) :
    Valid rely guar (fun result later => after result later ∧ rely start later) script state := by
  induction script generalizing state with
  | ended result =>
      exact fun later further => ⟨valid later further, related _ _ _ moved further⟩
  | step change next ih =>
      intro found further
      obtain ⟨allowed, rest⟩ := valid found further
      refine ⟨allowed, ih found (change found) ?_ rest⟩
      exact related _ _ _ (related _ _ _ moved further) (within _ _ _ allowed)

section
variable (still : ∀ state, rely state state)
include still

theorem valid_bind {outer : State → State → Script State Failure Next → Prop}
    {first : Except Failure Value → State → Prop} {after : Except Failure Next → State → Prop}
    (script : Script State Failure Value) (next : Value → Script State Failure Next)
    (state : State)
    (along : ∀ before after rest, guar before after rest → outer before after (rest >>= next))
    (valid : Valid rely guar first script state)
    (goes : ∀ value later, first (.ok value) later → Valid rely outer after (next value) later)
    (throws : ∀ failure later, first (.error failure) later → after (.error failure) later) :
    Valid rely outer after (script >>= next) state := by
  change Valid rely outer after (script.bind next) state
  induction script generalizing state with
  | ended result =>
      cases result with
      | ok value => exact goes value state (valid state (still state))
      | error failure => exact fun later moved => throws failure later (valid later moved)
  | step change rest ih =>
      intro found moved
      exact ⟨along _ _ _ (valid found moved).1,
        ih found (change found) (valid found moved).2⟩

theorem valid_recover {outer : State → State → Script State Failure Value → Prop}
    {first after : Except Failure Value → State → Prop}
    (script : Script State Failure Value) (handler : Failure → Script State Failure Value)
    (state : State)
    (along : ∀ before after rest, guar before after rest →
      outer before after (rest.recover handler))
    (valid : Valid rely guar first script state)
    (goes : ∀ value later, first (.ok value) later → after (.ok value) later)
    (caught : ∀ failure later, first (.error failure) later →
      Valid rely outer after (handler failure) later) :
    Valid rely outer after (script.recover handler) state := by
  induction script generalizing state with
  | ended result =>
      cases result with
      | ok value => exact fun later moved => goes value later (valid later moved)
      | error failure => exact caught failure state (valid state (still state))
  | step change rest ih =>
      intro found moved
      exact ⟨along _ _ _ (valid found moved).1,
        ih found (change found) (valid found moved).2⟩

end

/-- What holds whoever comes between holds when nobody does. -/
theorem exec_of_valid (still : ∀ state, rely state state)
    {after : Except Failure Value → State → Prop} (script : Script State Failure Value)
    (state : State) (valid : Valid rely guar after script state) :
    after (script.exec state).1 (script.exec state).2 := by
  induction script generalizing state with
  | ended result => exact valid state (still state)
  | step change next ih => exact ih state (change state) (valid state (still state)).2

/-- What a script guarantees in every state of a kind that is never left it guarantees from
this one. -/
theorem valid_of_always_from {found : State → Prop}
    (stays : ∀ before later, found before → rely before later → found later)
    (own : ∀ before later rest, found before → guar before later rest → found later)
    {after : Except Failure Value → State → Prop}
    (script : Script State Failure Value) (state : State) (here : found state)
    (keeps : AlwaysFrom found guar script) (valid : Ends rely after script state) :
    Valid rely guar after script state := by
  induction script generalizing state with
  | ended result => exact valid
  | step change next ih =>
      intro later moved
      have there := stays state later here moved
      obtain ⟨allowed, rest⟩ := keeps later there
      exact ⟨allowed,
        ih later (change later) (own _ _ _ there allowed) rest (valid later moved).2⟩

theorem valid_of_always {after : Except Failure Value → State → Prop}
    (script : Script State Failure Value) (state : State)
    (keeps : Always guar script) (valid : Ends rely after script state) :
    Valid rely guar after script state :=
  valid_of_always_from (fun _ _ _ _ => trivial) (fun _ _ _ _ _ => trivial) script state trivial
    keeps valid

section
variable (count : State → Nat) (bound : Nat)

/-- Holds unless the count has gone past the bound. -/
def Unspoiled (holds : Except Failure Value → State → Prop) (result : Except Failure Value)
    (state : State) : Prop :=
  bound ≤ count state ∧ (count state = bound → holds result state)

variable {count bound} (grows : ∀ before later, rely before later → count before ≤ count later)
include grows

theorem valid_spoiled {holds : Except Failure Value → State → Prop}
    (script : Script State Failure Value) (state : State) (spoiled : bound < count state)
    (adds : Always (fun before later _ => count before ≤ count later) script) :
    Ends rely (Unspoiled count bound holds) script state := by
  induction script generalizing state with
  | ended result =>
      intro later moved
      have more := grows state later moved
      exact ⟨by omega, fun same => by omega⟩
  | step change next ih =>
      intro found moved
      have more := grows state found moved
      have own := (adds found trivial).1
      exact ⟨trivial, ih found (change found) (by omega) (adds found trivial).2⟩

theorem valid_unspoiled_atomic {holds : Except Failure Value → State → Prop}
    (program : Program State Failure Value) (state : State) (least : bound ≤ count state)
    (adds : ∀ found, count found ≤ count (program.exec found).2)
    (each : ∀ found, rely state found → count (program.exec found).2 = bound →
      ∀ later, rely (program.exec found).2 later → count later = bound →
        holds (program.exec found).1 later) :
    Ends rely (Unspoiled count bound holds) (atomic program) state := by
  intro found moved
  refine ⟨trivial, fun later further => ?_⟩
  have before := grows state found moved
  have own := adds found
  have after : count (program.exec found).2 ≤ count later := grows _ later further
  exact ⟨by omega, fun same => each found moved (by omega) later further same⟩

theorem valid_unspoiled_bind (still : ∀ state, rely state state)
    {first : Except Failure Value → State → Prop} {holds : Except Failure Next → State → Prop}
    (script : Script State Failure Value) (next : Value → Script State Failure Next)
    (state : State)
    (valid : Ends rely (Unspoiled count bound first) script state)
    (adds : ∀ value, Always (fun before later _ => count before ≤ count later) (next value))
    (goes : ∀ value later, count later = bound → first (.ok value) later →
      Ends rely (Unspoiled count bound holds) (next value) later)
    (throws : ∀ failure later, count later = bound → first (.error failure) later →
      holds (.error failure) later) :
    Ends rely (Unspoiled count bound holds) (script >>= next) state := by
  refine valid_bind still script next state (fun _ _ _ _ => trivial) valid
    (fun value later ended => ?_)
    fun failure later ended =>
      ⟨ended.1, fun same => throws failure later same (ended.2 same)⟩
  by_cases same : count later = bound
  · exact goes value later same (ended.2 same)
  · exact valid_spoiled grows (next value) later (by have least := ended.1; omega) (adds value)

end

/-- Started in related states, both scripts make their steps one by one to related states and
end with one and the same result. -/
def Alike (related : State → State → Prop) :
    Script State Failure Value → Script State Failure Value → Prop
  | .ended result, .ended other => result = other
  | .step change next, .step change' next' =>
      ∀ first second, related first second →
        related (change first) (change' second) ∧ Alike related (next first) (next' second)
  | _, _ => False

variable {related : State → State → Prop}

theorem alike_pure (value : Value) :
    Alike related (pure value : Script State Failure Value) (pure value) :=
  rfl

theorem alike_lift (result : Except Failure Value) : Alike related (lift result) (lift result) :=
  rfl

theorem alike_atomic (program : Program State Failure Value)
    (each : ∀ first second, related first second →
      related (program.exec first).2 (program.exec second).2 ∧
        (program.exec first).1 = (program.exec second).1) :
    Alike related (atomic program) (atomic program) :=
  each

theorem alike_bind (script other : Script State Failure Value)
    (next next' : Value → Script State Failure Next) (alike : Alike related script other)
    (later : ∀ value, Alike related (next value) (next' value)) :
    Alike related (script >>= next) (other >>= next') := by
  change Alike related (script.bind next) (other.bind next')
  induction script generalizing other with
  | ended result =>
      cases other with
      | step change rest => exact alike.elim
      | ended result' =>
          obtain rfl : result = result' := alike
          cases result with
          | ok value => exact later value
          | error failure => exact (rfl : Except.error failure = Except.error failure)
  | step change rest ih =>
      cases other with
      | ended result => exact alike.elim
      | step change' rest' =>
          intro first second both
          obtain ⟨moved, same⟩ := alike first second both
          exact ⟨moved, ih first _ same⟩

/-- What a program finds may differ where what follows does not. -/
theorem alike_atomic_bind (program : Program State Failure Value)
    (next : Value → Script State Failure Next)
    (each : ∀ first second, related first second → ∃ value value' later later',
      program.exec first = (.ok value, later) ∧ program.exec second = (.ok value', later') ∧
        related later later' ∧ Alike related (next value) (next value')) :
    Alike related (atomic program >>= next) (atomic program >>= next) := by
  intro first second both
  obtain ⟨value, value', later, later', ran, ran', moved, alike⟩ := each first second both
  change related (program.exec first).2 (program.exec second).2 ∧
    Alike related ((ended (program.exec first).1).bind next)
      ((ended (program.exec second).1).bind next)
  rw [ran, ran']
  exact ⟨moved, alike⟩

theorem alike_recover (script other : Script State Failure Value)
    (handler : Failure → Script State Failure Value) (alike : Alike related script other)
    (handled : ∀ failure, Alike related (handler failure) (handler failure)) :
    Alike related (script.recover handler) (other.recover handler) := by
  induction script generalizing other with
  | ended result =>
      cases other with
      | step change rest => exact alike.elim
      | ended result' =>
          obtain rfl : result = result' := alike
          cases result with
          | ok value => exact (rfl : Except.ok value = Except.ok value)
          | error failure => exact handled failure
  | step change rest ih =>
      cases other with
      | ended result => exact alike.elim
      | step change' rest' =>
          intro first second both
          obtain ⟨moved, same⟩ := alike first second both
          exact ⟨moved, ih first _ same⟩

end

end Script
end TfuServer
