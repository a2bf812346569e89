import Mathlib.Data.Option.Basic
import TfuServer.Script

/-!
# Scripts beside one another

A pool is a state and the scripts that work on it. A schedule says whose turn it is;
any list of numbers is one. What each script relies on, and what each keeps to, decides
what holds in every state of every schedule.
-/

namespace TfuServer

set_option autoImplicit false

structure Pool (State Failure Value : Type) where
  state : State
  scripts : List (Script State Failure Value)

namespace Pool

section
variable {State Failure Value : Type}

/-- The script at the index makes its next step, if it has one. -/
def turn (index : Nat) (pool : Pool State Failure Value) : Pool State Failure Value :=
  match pool.scripts[index]? with
  | some (.step change next) =>
      { state := change pool.state, scripts := pool.scripts.set index (next pool.state) }
  | _ => pool

def run : List Nat → Pool State Failure Value → Pool State Failure Value
  | [], pool => pool
  | index :: schedule, pool => run schedule (turn index pool)

def Done (pool : Pool State Failure Value) : Prop :=
  ∀ script ∈ pool.scripts, ∃ result, script = .ended result

theorem turn_cases (index : Nat) (pool : Pool State Failure Value) :
    turn index pool = pool ∨
    ∃ change next, pool.scripts[index]? = some (.step change next) ∧
      turn index pool =
        { state := change pool.state, scripts := pool.scripts.set index (next pool.state) } := by
  unfold turn
  split
  · rename_i change next found
    exact Or.inr ⟨change, next, found, rfl⟩
  · exact Or.inl rfl

theorem run_length (schedule : List Nat) (pool : Pool State Failure Value) :
    (run schedule pool).scripts.length = pool.scripts.length := by
  induction schedule generalizing pool with
  | nil => rfl
  | cons index schedule ih =>
      rw [run, ih]
      rcases turn_cases index pool with same | ⟨change, next, -, moved⟩
      · rw [same]
      · rw [moved, List.length_set]

theorem run_keeps {invariant : Pool State Failure Value → Prop}
    (each : ∀ index pool, invariant pool → invariant (turn index pool)) (schedule : List Nat)
    (pool : Pool State Failure Value) (holds : invariant pool) :
    invariant (run schedule pool) := by
  induction schedule generalizing pool with
  | nil => exact holds
  | cons index schedule ih => exact ih _ (each index pool holds)

theorem turn_other (mover index : Nat) (differ : mover ≠ index)
    (pool : Pool State Failure Value) :
    (turn mover pool).scripts[index]? = pool.scripts[index]? := by
  rcases turn_cases mover pool with same | ⟨change, next, -, moved⟩
  · rw [same]
  · rw [moved, List.getElem?_set_ne differ]

theorem turn_ended (index : Nat) (pool : Pool State Failure Value)
    (result : Except Failure Value) (ended : pool.scripts[index]? = some (.ended result)) :
    turn index pool = pool := by
  unfold turn
  rw [ended]

theorem turn_step (index : Nat) (pool : Pool State Failure Value) (change : State → State)
    (next : State → Script State Failure Value)
    (there : pool.scripts[index]? = some (.step change next)) :
    (turn index pool).scripts[index]? = some (next pool.state) := by
  unfold turn
  rw [there]
  exact List.getElem?_set_self (List.getElem?_eq_some_iff.mp there).1

section
variable {found : State → Prop} {allowed : State → State → Script State Failure Value → Prop}

theorem turn_always (index : Nat) (pool : Pool State Failure Value) (here : found pool.state)
    (always : ∀ script ∈ pool.scripts, script.AlwaysFrom found allowed) :
    (∀ script ∈ (turn index pool).scripts, script.AlwaysFrom found allowed) ∧
      (turn index pool = pool ∨
        ∃ script rest, pool.scripts[index]? = some script ∧
          (turn index pool).scripts = pool.scripts.set index rest ∧
          allowed pool.state (turn index pool).state rest) := by
  rcases turn_cases index pool with same | ⟨change, next, there, moved⟩
  · rw [same]
    exact ⟨always, Or.inl rfl⟩
  · have step := always _ (List.mem_of_getElem? there) pool.state here
    rw [moved]
    refine ⟨fun script member => ?_, Or.inr ⟨_, next pool.state, there, rfl, step.1⟩⟩
    rcases List.mem_or_eq_of_mem_set member with old | rfl
    · exact always script old
    · exact step.2

/-- Steps that compose lead from the first state to every later one. -/
theorem run_always_from {steps : State → State → Prop} (still : ∀ state, steps state state)
    (related : ∀ first second third, steps first second → steps second third →
      steps first third)
    (stays : ∀ before after, found before → steps before after → found after)
    (schedule : List Nat) (pool : Pool State Failure Value) (here : found pool.state)
    (always : ∀ script ∈ pool.scripts,
      script.AlwaysFrom found fun before after _ => steps before after) :
    steps pool.state (run schedule pool).state := by
  induction schedule generalizing pool with
  | nil => exact still pool.state
  | cons index schedule ih =>
      obtain ⟨later, moved⟩ := turn_always index pool here always
      have step : steps pool.state (turn index pool).state := by
        rcases moved with same | ⟨script, rest, -, -, step⟩
        · rw [same]
          exact still pool.state
        · exact step
      exact related _ _ _ step (ih (turn index pool) (stays _ _ here step) later)

theorem run_always {steps : State → State → Prop} (still : ∀ state, steps state state)
    (related : ∀ first second third, steps first second → steps second third →
      steps first third)
    (schedule : List Nat) (pool : Pool State Failure Value)
    (always : ∀ script ∈ pool.scripts, script.Always fun before after _ => steps before after) :
    steps pool.state (run schedule pool).state :=
  run_always_from still related (fun _ _ _ _ => trivial) schedule pool trivial always

end

section
variable {rely : Nat → State → State → Prop}
  {guar : Nat → State → State → Script State Failure Value → Prop}
  {after : Nat → Except Failure Value → State → Prop}

def Valid (rely : Nat → State → State → Prop)
    (guar : Nat → State → State → Script State Failure Value → Prop)
    (after : Nat → Except Failure Value → State → Prop) (pool : Pool State Failure Value) : Prop :=
  ∀ index (script : Script State Failure Value), pool.scripts[index]? = some script →
    script.Valid (rely index) (guar index) (after index) pool.state

variable (still : ∀ index state, rely index state state)
  (related : ∀ index first second third, rely index first second → rely index second third →
    rely index first third)
  (compatible : ∀ mover other before after rest, mover ≠ other → guar mover before after rest →
    rely other before after)
include still related compatible

theorem turn_valid (index : Nat) (pool : Pool State Failure Value)
    (valid : Valid rely guar after pool) : Valid rely guar after (turn index pool) := by
  rcases turn_cases index pool with same | ⟨change, next, found, moved⟩
  · rwa [same]
  · rw [moved]
    obtain ⟨keeps, own⟩ := valid index _ found pool.state (still index _)
    intro other script there
    by_cases mover : index = other
    · subst mover
      have within : index < pool.scripts.length := (List.getElem?_eq_some_iff.mp found).1
      rw [List.getElem?_set_self within, Option.some.injEq] at there
      subst there
      exact own
    · rw [List.getElem?_set_ne mover] at there
      exact Script.valid_later (related other) script pool.state _
        (compatible index other _ _ _ mover keeps) (valid other script there)

theorem run_valid (schedule : List Nat) (pool : Pool State Failure Value)
    (valid : Valid rely guar after pool) : Valid rely guar after (run schedule pool) :=
  run_keeps (turn_valid still related compatible) schedule pool valid

theorem run_steps {steps : State → State → Prop} (begins : ∀ state, steps state state)
    (compose : ∀ first second third, steps first second → steps second third →
      steps first third)
    (within : ∀ index before after rest, guar index before after rest → steps before after)
    (schedule : List Nat) (pool : Pool State Failure Value) (valid : Valid rely guar after pool) :
    steps pool.state (run schedule pool).state := by
  induction schedule generalizing pool with
  | nil => exact begins pool.state
  | cons index schedule ih =>
      refine compose _ _ _ ?_ (ih (turn index pool)
        (turn_valid still related compatible index pool valid))
      rcases turn_cases index pool with same | ⟨change, next, found, moved⟩
      · rw [same]
        exact begins pool.state
      · rw [moved]
        exact within index _ _ _ (valid index _ found pool.state (still index _)).1

/-- In whatever order the turns were taken, a script that has ended has done its work. -/
theorem ended_after (schedule : List Nat) (pool : Pool State Failure Value)
    (valid : Valid rely guar after pool) (index : Nat) (result : Except Failure Value)
    (ended : (run schedule pool).scripts[index]? = some (.ended result)) :
    after index result (run schedule pool).state :=
  run_valid still related compatible schedule pool valid index _ ended _ (still index _)

end

/-- A script among others that all keep to the same steps ends where it ends beside them. -/
theorem ended_beside {steps : State → State → Prop} (still : ∀ state, steps state state)
    (related : ∀ first second third, steps first second → steps second third → steps first third)
    (pool : Pool State Failure Value)
    (always : ∀ script ∈ pool.scripts, script.Always fun before after _ => steps before after)
    {after : Except Failure Value → State → Prop} (index : Nat)
    (script : Script State Failure Value) (there : pool.scripts[index]? = some script)
    (ends : script.Ends steps after pool.state) (schedule : List Nat)
    (result : Except Failure Value)
    (ended : (run schedule pool).scripts[index]? = some (.ended result)) :
    after result (run schedule pool).state := by
  have valid : Valid (fun _ => steps) (fun _ before after _ => steps before after)
      (fun other result later => other = index → after result later) pool := by
    intro other own found
    refine Script.valid_of_always own pool.state (always own (List.mem_of_getElem? found)) ?_
    by_cases same : other = index
    · subst same
      obtain rfl := Option.some.inj (there.symm.trans found)
      exact Script.valid_mono script pool.state (fun _ _ _ _ => trivial)
        (fun _ _ holds _ => holds) ends
    · exact Script.valid_mono own pool.state (fun _ _ _ _ => trivial)
        (fun _ _ _ here => absurd here same) (Script.ends_trivial own pool.state)
  exact ended_after (fun _ => still) (fun _ => related) (fun _ _ _ _ _ _ step => step) schedule pool
    valid index result ended rfl

/-- A step that opens something leaves the script with what it takes to settle it, whatever
the others do. -/
def Owing (rely : State → State → Prop) (opened settled : State → Prop)
    (before after : State) (rest : Script State Failure Value) : Prop :=
  rely before after ∧ (¬opened before → opened after → rest.Ends rely (fun _ => settled) after)

/-- Every script keeps to that, and what is open is owed by one of them. -/
structure Owed (rely : State → State → Prop) (opened settled : State → Prop)
    (pool : Pool State Failure Value) : Prop where
  scripts : ∀ script ∈ pool.scripts,
    script.Valid rely (Owing rely opened settled) (fun _ _ => True) pool.state
  owed : ¬opened pool.state ∨
    ∃ script ∈ pool.scripts, script.Ends rely (fun _ => settled) pool.state

section
variable {rely : State → State → Prop} {opened settled : State → Prop}
  (still : ∀ state, rely state state)
  (related : ∀ first second third, rely first second → rely second third → rely first third)
include still related

theorem turn_within {guar : State → State → Script State Failure Value → Prop}
    (within : ∀ before after rest, guar before after rest → rely before after) (index : Nat)
    (pool : Pool State Failure Value)
    (valid : ∀ script ∈ pool.scripts, script.Valid rely guar (fun _ _ => True) pool.state) :
    rely pool.state (turn index pool).state ∧
      ∀ script ∈ (turn index pool).scripts,
        script.Valid rely guar (fun _ _ => True) (turn index pool).state := by
  rcases turn_cases index pool with same | ⟨change, next, found, moved⟩
  · rw [same]
    exact ⟨still _, valid⟩
  · obtain ⟨keeps, own⟩ := valid _ (List.mem_of_getElem? found) pool.state (still _)
    have step := within _ _ _ keeps
    rw [moved]
    refine ⟨step, fun script member => ?_⟩
    rcases List.mem_or_eq_of_mem_set member with old | rfl
    · exact Script.valid_later related script _ _ step (valid script old)
    · exact own

theorem run_within {guar : State → State → Script State Failure Value → Prop}
    (within : ∀ before after rest, guar before after rest → rely before after)
    (schedule : List Nat) (pool : Pool State Failure Value)
    (valid : ∀ script ∈ pool.scripts, script.Valid rely guar (fun _ _ => True) pool.state) :
    rely pool.state (run schedule pool).state := by
  induction schedule generalizing pool with
  | nil => exact still _
  | cons index schedule ih =>
      obtain ⟨step, each⟩ := turn_within still related within index pool valid
      exact related _ _ _ step (ih _ each)

theorem turn_owed (index : Nat) (pool : Pool State Failure Value)
    (owed : Owed rely opened settled pool) : Owed rely opened settled (turn index pool) := by
  refine ⟨(turn_within still related (fun _ _ _ owing => owing.1) index pool owed.scripts).2, ?_⟩
  rcases turn_cases index pool with same | ⟨change, next, found, moved⟩
  · rw [same]
    exact owed.owed
  · have within : index < pool.scripts.length := (List.getElem?_eq_some_iff.mp found).1
    have placed : next pool.state ∈ pool.scripts.set index (next pool.state) :=
      List.mem_of_getElem? (List.getElem?_set_self within)
    obtain ⟨⟨keeps, opens⟩, -⟩ :=
      owed.scripts _ (List.mem_of_getElem? found) pool.state (still _)
    rw [moved]
    rcases owed.owed with closed | ⟨script, member, settles⟩
    · by_cases now : opened (change pool.state)
      · exact Or.inr ⟨next pool.state, placed, opens closed now⟩
      · exact Or.inl now
    · obtain ⟨other, there⟩ := List.mem_iff_getElem?.mp member
      by_cases mover : index = other
      · subst mover
        obtain rfl := Option.some.inj (there.symm.trans found)
        exact Or.inr ⟨next pool.state, placed, (settles pool.state (still _)).2⟩
      · refine Or.inr ⟨script, ?_, Script.valid_later related script _ _ keeps settles⟩
        exact List.mem_of_getElem? ((List.getElem?_set_ne mover).trans there)

theorem done_settled (schedule : List Nat) (pool : Pool State Failure Value)
    (owed : Owed rely opened settled pool) (done : Done (run schedule pool)) :
    ¬opened (run schedule pool).state ∨ settled (run schedule pool).state := by
  have each := run_keeps (turn_owed still related) schedule pool owed
  refine each.owed.imp_right ?_
  rintro ⟨script, member, settles⟩
  obtain ⟨result, rfl⟩ := done script member
  exact settles _ (still _)

end

section
variable {related : State → State → Prop}

/-- Related states, and scripts that go in step. -/
structure Alike (related : State → State → Prop) (pool other : Pool State Failure Value) :
    Prop where
  state : related pool.state other.state
  scripts : ∀ index : Nat,
    Option.Rel (Script.Alike related) pool.scripts[index]? other.scripts[index]?

theorem alike_same (state other : State) (scripts : List (Script State Failure Value))
    (start : related state other) (each : ∀ script ∈ scripts, Script.Alike related script script) :
    Alike related ⟨state, scripts⟩ ⟨other, scripts⟩ where
  state := start
  scripts := fun index => by
    cases there : scripts[index]? with
    | none => exact .none
    | some script => exact .some (each script (List.mem_of_getElem? there))

theorem turn_alike (index : Nat) (pool other : Pool State Failure Value)
    (alike : Alike related pool other) : Alike related (turn index pool) (turn index other) := by
  have here := alike.scripts index
  unfold turn
  cases there : pool.scripts[index]? with
  | none =>
      rw [there] at here
      cases there' : other.scripts[index]? with
      | none => exact alike
      | some script' => rw [there'] at here; cases here
  | some script =>
      rw [there] at here
      cases there' : other.scripts[index]? with
      | none => rw [there'] at here; cases here
      | some script' =>
          rw [there'] at here
          obtain ⟨same⟩ := here
          cases script with
          | ended result =>
              cases script' with
              | ended result' => exact alike
              | step change next => exact same.elim
          | step change next =>
              cases script' with
              | ended result => exact same.elim
              | step change' next' =>
                  obtain ⟨moved, rest⟩ := same _ _ alike.state
                  have within : index < pool.scripts.length :=
                    (List.getElem?_eq_some_iff.mp there).1
                  have within' : index < other.scripts.length :=
                    (List.getElem?_eq_some_iff.mp there').1
                  refine ⟨moved, fun place => ?_⟩
                  by_cases mover : index = place
                  · subst mover
                    rw [List.getElem?_set_self within, List.getElem?_set_self within']
                    exact .some rest
                  · rw [List.getElem?_set_ne mover, List.getElem?_set_ne mover]
                    exact alike.scripts place

theorem run_alike (schedule : List Nat) (pool other : Pool State Failure Value)
    (alike : Alike related pool other) :
    Alike related (run schedule pool) (run schedule other) := by
  induction schedule generalizing pool other with
  | nil => exact alike
  | cons index schedule ih => exact ih _ _ (turn_alike index pool other alike)

theorem alike_ended (pool other : Pool State Failure Value) (alike : Alike related pool other)
    (index : Nat) (result : Except Failure Value)
    (ended : pool.scripts[index]? = some (.ended result)) :
    other.scripts[index]? = some (.ended result) := by
  have here := alike.scripts index
  rw [ended] at here
  cases there : other.scripts[index]? with
  | none => rw [there] at here; cases here
  | some script =>
      rw [there] at here
      obtain ⟨same⟩ := here
      cases script with
      | step change next => exact same.elim
      | ended result' =>
          obtain rfl : result = result' := same
          rfl

/-- A script beside others whose steps keep the states related goes in step with one that is
alone in a state of its own. -/
structure Abreast (related : State → State → Prop) (index : Nat)
    (pool : Pool State Failure Value) (alone : Script State Failure Value) (state : State) :
    Prop where
  script : ∃ script, pool.scripts[index]? = some script ∧ Script.Alike related script alone
  state : related pool.state state
  others : ∀ other own, other ≠ index → pool.scripts[other]? = some own →
    own.Always fun before after _ => related before after

theorem turn_others (mover index : Nat) (pool : Pool State Failure Value)
    (others : ∀ other own, other ≠ index → pool.scripts[other]? = some own →
      own.Always fun before after _ => related before after)
    (other : Nat) (script : Script State Failure Value) (differs : other ≠ index)
    (found : (turn mover pool).scripts[other]? = some script) :
    script.Always fun before after _ => related before after := by
  rcases turn_cases mover pool with still | ⟨change, next, here, -⟩
  · rw [still] at found
    exact others other script differs found
  · by_cases self : mover = other
    · subst self
      rw [turn_step mover pool change next here] at found
      obtain rfl := Option.some.inj found
      exact (others mover _ differs here pool.state trivial).2
    · rw [turn_other mover other self pool] at found
      exact others other script differs found

theorem turn_abreast (equivalence : Equivalence related) (mover index : Nat)
    (pool : Pool State Failure Value) (alone : Script State Failure Value) (state : State)
    (abreast : Abreast related index pool alone state) :
    ∃ later settled, later.exec settled = alone.exec state ∧
      Abreast related index (turn mover pool) later settled := by
  obtain ⟨script, there, alike⟩ := abreast.script
  have others := turn_others mover index pool abreast.others
  by_cases own : mover = index
  · subst own
    cases script with
    | ended result =>
        refine ⟨alone, state, rfl, ?_⟩
        rw [turn_ended mover pool result there]
        exact abreast
    | step change next =>
        cases alone with
        | ended result => exact alike.elim
        | step change' next' =>
            obtain ⟨moved, rest⟩ := alike _ _ abreast.state
            refine ⟨next' state, change' state, rfl,
              ⟨_, turn_step mover pool change next there, rest⟩, ?_, others⟩
            simp only [turn, there]
            exact moved
  · refine ⟨alone, state, rfl,
      ⟨script, (turn_other mover index own pool).trans there, alike⟩, ?_, others⟩
    rcases turn_cases mover pool with still | ⟨change, next, found, stepped⟩
    · rw [still]
      exact abreast.state
    · rw [stepped]
      have step := (abreast.others mover _ own found pool.state trivial).1
      exact equivalence.trans (equivalence.symm step) abreast.state

theorem run_abreast (equivalence : Equivalence related) (schedule : List Nat) (index : Nat)
    (pool : Pool State Failure Value) (alone : Script State Failure Value) (state : State)
    (abreast : Abreast related index pool alone state) :
    ∃ later settled, later.exec settled = alone.exec state ∧
      Abreast related index (run schedule pool) later settled := by
  induction schedule generalizing pool alone state with
  | nil => exact ⟨alone, state, rfl, abreast⟩
  | cons mover schedule ih =>
      obtain ⟨later, settled, same, next⟩ :=
        turn_abreast equivalence mover index pool alone state abreast
      obtain ⟨last, ends, kept, after⟩ := ih _ later settled next
      exact ⟨last, ends, kept.trans same, after⟩

/-- A script that goes in step with itself on related states, beside others whose steps keep
them related, ends as it ends alone. -/
theorem ended_as_alone (equivalence : Equivalence related) (schedule : List Nat)
    (pool : Pool State Failure Value) (index : Nat) (script : Script State Failure Value)
    (there : pool.scripts[index]? = some script) (alike : Script.Alike related script script)
    (others : ∀ other own, other ≠ index → pool.scripts[other]? = some own →
      own.Always fun before after _ => related before after)
    (result : Except Failure Value)
    (ended : (run schedule pool).scripts[index]? = some (.ended result)) :
    result = (script.exec pool.state).1 ∧
      related (run schedule pool).state (script.exec pool.state).2 := by
  obtain ⟨alone, state, same, abreast⟩ := run_abreast equivalence schedule index pool script
    pool.state ⟨⟨script, there, alike⟩, equivalence.refl _, others⟩
  obtain ⟨last, here, alike⟩ := abreast.script
  obtain rfl := Option.some.inj (ended.symm.trans here)
  rw [← same]
  cases alone with
  | ended result' => exact ⟨alike, abreast.state⟩
  | step change next => exact alike.elim

end

theorem run_alone (index : Nat) (script : Script State Failure Value)
    (pool : Pool State Failure Value) (there : pool.scripts[index]? = some script) :
    ∃ schedule, run schedule pool =
      { state := (script.exec pool.state).2,
        scripts := pool.scripts.set index (.ended (script.exec pool.state).1) } := by
  have within : index < pool.scripts.length := (List.getElem?_eq_some_iff.mp there).1
  induction script generalizing pool with
  | ended result =>
      refine ⟨[], ?_⟩
      obtain ⟨_, same⟩ := List.getElem?_eq_some_iff.mp there
      have kept : pool.scripts.set index (.ended result) = pool.scripts := by
        rw [← same, List.set_getElem_self]
      simp only [run, Script.exec, kept]
  | step change next ih =>
      have moved : turn index pool =
          { state := change pool.state, scripts := pool.scripts.set index (next pool.state) } := by
        simp only [turn, there]
      obtain ⟨schedule, ran⟩ := ih pool.state (turn index pool)
        (by rw [moved]; exact List.getElem?_set_self within)
        (by rw [moved, List.length_set]; exact within)
      refine ⟨index :: schedule, ?_⟩
      rw [run, ran, moved]
      simp only [Script.exec, List.set_set]

end

end Pool

def endsWell {State Failure Value : Type} : Script State Failure Value → Bool
  | .ended (.ok _) => true
  | _ => false

theorem ended_of_ends_well {State Failure Value : Type} (script : Script State Failure Value)
    (well : endsWell script = true) : ∃ value, script = .ended (.ok value) := by
  match script, well with
  | .ended (.ok value), _ => exact ⟨value, rfl⟩

theorem ended_well_at {State Failure Value : Type} (schedule : List Nat)
    (pool : Pool State Failure Value) (index : Nat) (within : index < pool.scripts.length)
    (well : (Pool.run schedule pool).scripts.all endsWell = true) :
    ∃ value, (Pool.run schedule pool).scripts[index]? = some (.ended (.ok value)) := by
  rw [← Pool.run_length schedule pool] at within
  obtain ⟨value, ended⟩ :=
    ended_of_ends_well _ (List.all_eq_true.mp well _ (List.getElem_mem within))
  exact ⟨value, (List.getElem?_eq_getElem within).trans (congrArg some ended)⟩

end TfuServer
