import Mathlib.Data.List.Forall2
import TfuServer.Pool

/-!
# Scripts on parts of their own

A state is seen as one slot for each place. Scripts that work on places of their own, from
states where an invariant holds, do not disturb one another: what each of them has done to
its slots does not depend on when the others took their turns.
-/

namespace TfuServer.Footprint

set_option autoImplicit false

open Script (AlwaysFrom Always Ends Unspoiled valid_unspoiled_bind valid_mono valid_moved
  valid_of_always_from valid_rely valid_and ends_trivial)

section
variable {State Failure Value Next Place Slot Change : Type} (view : Place → State → Slot)
  (count : State → Nat) (invariant : State → Prop)

/-- The others leave these places alone, and the invariant as it is. -/
structure Undisturbed (mine : Place → Prop) (before after : State) : Prop where
  places : ∀ place, mine place → view place after = view place before
  grows : count before ≤ count after
  stays : invariant before → invariant after

def Within (mine : Place → Prop) (before after : State) : Prop :=
  Undisturbed view count invariant (fun place => ¬mine place) before after

theorem undisturbed_refl (mine : Place → Prop) (state : State) :
    Undisturbed view count invariant mine state state :=
  ⟨fun _ _ => rfl, Nat.le_refl _, fun holds => holds⟩

variable {view count invariant}

theorem undisturbed_trans {mine : Place → Prop} (first second third : State)
    (earlier : Undisturbed view count invariant mine first second)
    (later : Undisturbed view count invariant mine second third) :
    Undisturbed view count invariant mine first third :=
  ⟨fun place own => (later.places place own).trans (earlier.places place own),
    Nat.le_trans earlier.grows later.grows, fun holds => later.stays (earlier.stays holds)⟩

theorem undisturbed_mono {mine wider : Place → Prop} (fewer : ∀ place, mine place → wider place)
    (before after : State) (left : Undisturbed view count invariant wider before after) :
    Undisturbed view count invariant mine before after :=
  ⟨fun place own => left.places place (fewer place own), left.grows, left.stays⟩

variable (view count invariant) [DecidableEq Place] (apply : Change → Slot → Option Slot)

def applyAt (place : Place) : List (Place × Change) → Slot → Option Slot
  | [], slot => some slot
  | (there, change) :: changes, slot =>
      if there = place then (apply change slot).bind (applyAt place changes)
      else applyAt place changes slot

theorem apply_at_append (place : Place) (first second : List (Place × Change)) (slot : Slot) :
    applyAt apply place (first ++ second) slot =
      (applyAt apply place first slot).bind (applyAt apply place second) := by
  induction first generalizing slot with
  | nil => rfl
  | cons change first ih =>
      obtain ⟨there, change⟩ := change
      simp only [List.cons_append, applyAt]
      split_ifs
      · rw [Option.bind_assoc]
        exact Option.bind_congr fun later _ => ih later
      · exact ih slot

theorem apply_at_absent (place : Place) (changes : List (Place × Change)) (slot : Slot)
    (absent : ∀ change ∈ changes, change.1 ≠ place) :
    applyAt apply place changes slot = some slot := by
  induction changes with
  | nil => rfl
  | cons change changes ih =>
      obtain ⟨there, change⟩ := change
      rw [applyAt, if_neg (absent (there, change) (by simp)),
        ih fun other member => absent other (List.mem_cons_of_mem _ member)]

theorem apply_at_filter (place : Place) (changes : List (Place × Change)) :
    applyAt apply place (changes.filter fun change => change.1 = place) =
      applyAt apply place changes := by
  induction changes with
  | nil => rfl
  | cons change changes ih =>
      obtain ⟨there, change⟩ := change
      funext slot
      by_cases here : there = place
      · simp only [here, List.filter_cons, decide_true, if_true, applyAt, ih]
      · simp only [here, List.filter_cons, decide_false, Bool.false_eq_true, if_false, applyAt, ih]

theorem apply_at_flatten (place : Place) (lists : List (List (Place × Change))) (index : Nat)
    (own : List (Place × Change)) (there : lists[index]? = some own)
    (others : ∀ other changes, lists[other]? = some changes → other ≠ index →
      ∀ change ∈ changes, change.1 ≠ place) (slot : Slot) :
    applyAt apply place lists.flatten slot = applyAt apply place own slot := by
  induction lists generalizing index with
  | nil => simp at there
  | cons first lists ih =>
      rw [List.flatten_cons, apply_at_append]
      cases index with
      | zero =>
          obtain rfl := Option.some.inj there
          have rest : applyAt apply place lists.flatten = some := by
            funext later
            refine apply_at_absent apply place _ later fun change member => ?_
            obtain ⟨changes, within, member⟩ := List.mem_flatten.mp member
            obtain ⟨other, found⟩ := List.mem_iff_getElem?.mp within
            exact others (other + 1) changes found (by omega) change member
          rw [rest, Option.bind_fun_some]
      | succ index =>
          rw [apply_at_absent apply place first slot (others 0 first rfl (by omega)),
            Option.bind_some]
          exact ih index there fun other changes found differs =>
            others (other + 1) changes found (by omega)

/-- The slots of these places are as the changes leave them. -/
def Effect (mine : Place → Prop) (changes : List (Place × Change)) (before after : State) : Prop :=
  ∀ place, mine place → applyAt apply place changes (view place before) = some (view place after)

/-- Whoever comes between, a script that ends well and with nothing gone wrong has made these
changes, and the invariant still holds. -/
def Performs (mine : Place → Prop) (changes : List (Place × Change))
    (script : Script State Failure Value) : Prop :=
  ∀ bound state, bound ≤ count state → invariant state →
    Ends (Undisturbed view count invariant mine)
      (Unspoiled count bound fun result later => (∃ value, result = .ok value) →
        Effect view apply mine changes state later ∧ invariant later) script state

variable {view count invariant apply} {mine : Place → Prop}

theorem performs_pure (value : Value) :
    Performs view count invariant apply mine [] (pure value : Script State Failure Value) := by
  intro bound state least holds later moved
  refine ⟨Nat.le_trans least moved.grows, fun _ _ => ⟨fun place own => ?_, moved.stays holds⟩⟩
  rw [applyAt, moved.places place own]

theorem performs_bind (first second : List (Place × Change))
    (script : Script State Failure Value) (next : Value → Script State Failure Next)
    (starts : Performs view count invariant apply mine first script)
    (goes : ∀ value, Performs view count invariant apply mine second (next value))
    (adds : ∀ value, Always (fun before after _ => count before ≤ count after) (next value)) :
    Performs view count invariant apply mine (first ++ second) (script >>= next) := by
  intro bound state least holds
  refine valid_unspoiled_bind (fun _ _ moved => moved.grows)
    (undisturbed_refl view count invariant mine) script next state (starts bound state least holds)
    adds (fun value later same ended => ?_) fun failure later _ _ well => ?_
  · obtain ⟨effect, still⟩ := ended ⟨value, rfl⟩
    refine valid_mono _ _ (fun _ _ _ _ => trivial) (fun result last ended => ?_)
      (goes value bound later (by omega) still)
    refine ⟨ended.1, fun quiet well => ⟨fun place own => ?_, (ended.2 quiet well).2⟩⟩
    rw [apply_at_append, effect place own, Option.bind_some]
    exact (ended.2 quiet well).1 place own
  · obtain ⟨value, same⟩ := well
    cases same

omit [DecidableEq Place] in
/-- What a script that keeps the invariant always does it does from a state where it holds. -/
theorem valid_invariant {guar : State → State → Script State Failure Value → Prop}
    {after : Except Failure Value → State → Prop}
    (own : ∀ before later rest, guar before later rest → invariant before → invariant later)
    (script : Script State Failure Value) (state : State) (holds : invariant state)
    (keeps : AlwaysFrom invariant guar script)
    (ends : Ends (Undisturbed view count invariant mine) after script state) :
    Script.Valid (Undisturbed view count invariant mine) guar after script state :=
  valid_of_always_from (fun _ _ here moved => moved.stays here)
    (fun before later rest here step => own before later rest step here) script state holds keeps
    ends

omit [DecidableEq Place] in
theorem ends_undisturbed (script : Script State Failure Value) (state : State)
    (holds : invariant state) (keeps : AlwaysFrom invariant
      (fun before after _ => Undisturbed view count invariant mine before after) script) :
    Ends (Undisturbed view count invariant mine)
      (fun _ later => Undisturbed view count invariant mine state later) script state := by
  refine valid_mono script state (fun _ _ _ _ => trivial) (fun _ _ ended => ended.2)
    (valid_moved undisturbed_trans (fun _ _ _ step => step) script state state
      (undisturbed_refl view count invariant mine state)
      (valid_invariant (fun _ _ _ step => step.stays) script state holds keeps
        (ends_trivial script state)))

omit [DecidableEq Place] in
/-- A script that works on one of the places leaves the others as they are. -/
theorem ends_beside {after : Except Failure Value → State → Prop} (place : Place)
    (own : mine place) (script : Script State Failure Value) (state : State)
    (holds : invariant state) (within : AlwaysFrom invariant
      (fun before after _ => Within view count invariant (· = place) before after) script)
    (ends : Ends (Undisturbed view count invariant (· = place)) after script state) :
    Ends (Undisturbed view count invariant mine)
      (fun result later => after result later ∧ invariant later ∧
        ∀ other, mine other → other ≠ place → view other later = view other state) script
      state := by
  have others : Ends (Undisturbed view count invariant fun other => mine other ∧ other ≠ place)
      (fun _ later =>
        Undisturbed view count invariant (fun other => mine other ∧ other ≠ place) state later)
      script state :=
    ends_undisturbed script state holds (Script.always_mono script
      (fun _ _ _ step => undisturbed_mono (fun other both => both.2) _ _ step) within)
  refine valid_mono _ _ (fun _ _ _ _ => trivial) (fun result later both => ?_)
    (valid_and script state
      (valid_rely (undisturbed_mono fun other same => same ▸ own) script state ends)
      (valid_rely (undisturbed_mono fun other both => both.1) script state others))
  exact ⟨both.1, both.2.stays holds, fun other here differs => both.2.places other ⟨here, differs⟩⟩

def Touched (changes : List (Place × Change)) (place : Place) : Prop :=
  ∃ change ∈ changes, change.1 = place

/-- No place is changed by two of the lists. -/
def Apart (lists : List (List (Place × Change))) : Prop :=
  lists.Pairwise fun own other => ∀ place, Touched own place → ¬Touched other place

def changesAt (lists : List (List (Place × Change))) (index : Nat) : List (Place × Change) :=
  lists[index]?.getD []

omit [DecidableEq Place] in
theorem apart_at (lists : List (List (Place × Change))) (apart : Apart lists) (index other : Nat)
    (differs : index ≠ other) (place : Place) (touched : Touched (changesAt lists index) place) :
    ¬Touched (changesAt lists other) place := by
  unfold changesAt at touched ⊢
  cases there : lists[index]? with
  | none => simp [there, Touched] at touched
  | some own =>
      cases found : lists[other]? with
      | none => simp [Touched]
      | some changes =>
          rw [there, Option.getD_some] at touched
          obtain ⟨within, rfl⟩ := List.getElem?_eq_some_iff.mp there
          obtain ⟨also, rfl⟩ := List.getElem?_eq_some_iff.mp found
          intro again
          rcases Nat.lt_or_gt_of_ne differs with before | after
          · exact List.pairwise_iff_getElem.mp apart index other within also before place touched
              again
          · exact List.pairwise_iff_getElem.mp apart other index also within after place again
              touched

/-- Each script makes its changes and touches nothing else. -/
def Keeps (view : Place → State → Slot) (count : State → Nat) (invariant : State → Prop)
    (apply : Change → Slot → Option Slot) (script : Script State Failure Value)
    (changes : List (Place × Change)) : Prop :=
  script.AlwaysFrom invariant
      (fun before after _ => Within view count invariant (Touched changes) before after) ∧
    Performs view count invariant apply (Touched changes) changes script

omit [DecidableEq Place] in
theorem keeps_at (lists : List (List (Place × Change)))
    {related : Script State Failure Value → List (Place × Change) → Prop}
    (scripts : List (Script State Failure Value)) (keeps : List.Forall₂ related scripts lists)
    (index : Nat) (script : Script State Failure Value) (there : scripts[index]? = some script) :
    related script (changesAt lists index) := by
  obtain ⟨within, rfl⟩ := List.getElem?_eq_some_iff.mp there
  have also : index < lists.length := keeps.length_eq ▸ within
  rw [changesAt, List.getElem?_eq_getElem also, Option.getD_some]
  exact keeps.get within also

/-- Whatever the schedule: when all have ended well and nothing has gone wrong, each place is
as all changes one after another leave it. -/
theorem run_apart (lists : List (List (Place × Change))) (schedule : List Nat)
    (pool : Pool State Failure Value) (apart : Apart lists) (holds : invariant pool.state)
    (keeps : List.Forall₂ (Keeps view count invariant apply) pool.scripts lists)
    (quiet : count (Pool.run schedule pool).state = count pool.state)
    (well : ∀ script ∈ (Pool.run schedule pool).scripts, ∃ value, script = .ended (.ok value)) :
    Effect view apply (fun _ => True) lists.flatten pool.state (Pool.run schedule pool).state := by
  intro place _
  have each (index : Nat) (script : Script State Failure Value)
      (there : pool.scripts[index]? = some script) :=
    keeps_at lists pool.scripts keeps index script there
  by_cases touched : ∃ index, index < pool.scripts.length ∧ Touched (changesAt lists index) place
  · obtain ⟨index, within, touched⟩ := touched
    have also : index < lists.length := keeps.length_eq ▸ within
    have own : lists[index]? = some (changesAt lists index) := by
      rw [changesAt, List.getElem?_eq_getElem also, Option.getD_some]
    rw [apply_at_flatten apply place lists index _ own fun other changes found differs change
      member same => apart_at lists apart index other differs.symm place touched
        ⟨change, by rwa [changesAt, found, Option.getD_some], same⟩]
    have ran : index < (Pool.run schedule pool).scripts.length :=
      (Pool.run_length schedule pool).symm ▸ within
    obtain ⟨value, ended⟩ := well _ (List.getElem_mem ran)
    have valid : Pool.Valid
        (fun index => Undisturbed view count invariant (Touched (changesAt lists index)))
        (fun index before after _ =>
          Within view count invariant (Touched (changesAt lists index)) before after)
        (fun index => Unspoiled count (count pool.state) fun result later =>
          (∃ value, result = .ok value) → Effect view apply (Touched (changesAt lists index))
            (changesAt lists index) pool.state later ∧ invariant later) pool :=
      fun index script there => valid_invariant (fun _ _ _ step => step.stays) script pool.state
        holds (each index script there).1
        ((each index script there).2 (count pool.state) pool.state (Nat.le_refl _) holds)
    have compatible (mover other : Nat) (before after : State) (_ : Script State Failure Value)
        (differs : mover ≠ other)
        (step : Within view count invariant (Touched (changesAt lists mover)) before after) :
        Undisturbed view count invariant (Touched (changesAt lists other)) before after :=
      undisturbed_mono (fun place here => apart_at lists apart other mover differs.symm place here)
        before after step
    have done := Pool.ended_after (fun _ => undisturbed_refl view count invariant _)
      (fun _ => undisturbed_trans) compatible schedule pool valid index (.ok value)
      ((List.getElem?_eq_getElem ran).trans (congrArg some ended))
    exact (done.2 quiet ⟨value, rfl⟩).1 place touched
  · have same : view place (Pool.run schedule pool).state = view place pool.state := by
      have steps : ∀ script ∈ pool.scripts, script.AlwaysFrom invariant fun before after _ =>
          Undisturbed view count invariant (· = place) before after := by
        intro script member
        obtain ⟨index, there⟩ := List.mem_iff_getElem?.mp member
        have elsewhere (other : Place) (same : other = place) :
            ¬Touched (changesAt lists index) other := fun here =>
          touched ⟨index, (List.getElem?_eq_some_iff.mp there).1, same ▸ here⟩
        exact Script.always_mono script
          (fun before after _ step => undisturbed_mono elsewhere before after step)
          (each index script there).1
      exact (Pool.run_always_from (undisturbed_refl view count invariant _) undisturbed_trans
        (fun _ _ here step => step.stays here) schedule pool holds steps).places place rfl
    rw [apply_at_absent apply place _ _ fun change member here => ?_, same]
    obtain ⟨own, within, member⟩ := List.mem_flatten.mp member
    obtain ⟨index, there⟩ := List.mem_iff_getElem?.mp within
    refine touched ⟨index, ?_, change, ?_, here⟩
    · rw [keeps.length_eq]
      exact (List.getElem?_eq_some_iff.mp there).1
    · rwa [changesAt, there, Option.getD_some]

end

end TfuServer.Footprint
