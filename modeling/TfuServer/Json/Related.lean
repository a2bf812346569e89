import Mathlib.Data.List.Forall2
import TfuServer.Json.Reader

/-!
# Readers in lockstep

Two readers whose inputs differ in the strings alone stay in corresponding states,
and end with the same document up to its strings. How the strings correspond, and
the readers inside them, is a parameter.
-/

namespace TfuServer.Json

set_option autoImplicit false

/-- How names, strings and the modes inside a string correspond. -/
structure Likeness where
  names : Text → Text → Prop
  strings : Text → Text → Prop
  modes : Bool → StrMode → StrMode → Prop
  opened : ∀ isKey, modes isKey (.plain []) (.plain [])

section
variable (like : Likeness)

inductive RelatedJson : Json → Json → Prop where
  | null : RelatedJson .null .null
  | bool (value : Bool) : RelatedJson (.bool value) (.bool value)
  | number (value : Numeral.JsonNumber) : RelatedJson (.number value) (.number value)
  | nonFinite (kind : Numeral.NonFinite) : RelatedJson (.nonFinite kind) (.nonFinite kind)
  | str {text other : Text} (same : like.strings text other) : RelatedJson (.str text) (.str other)
  | arr {items others : List Json} (each : List.Forall₂ RelatedJson items others) :
      RelatedJson (.arr items) (.arr others)
  | obj {members others : List (Text × Json)}
      (names : List.Forall₂ like.names (members.map Prod.fst) (others.map Prod.fst))
      (values : List.Forall₂ RelatedJson (members.map Prod.snd) (others.map Prod.snd)) :
      RelatedJson (.obj members) (.obj others)
  | call : RelatedJson .call .call

structure RelatedMembers (members others : List (Text × Json)) : Prop where
  names : List.Forall₂ like.names (members.map Prod.fst) (others.map Prod.fst)
  values : List.Forall₂ (RelatedJson like) (members.map Prod.snd) (others.map Prod.snd)

inductive RelatedFrame : Frame → Frame → Prop where
  | items {done others : List Json} (each : List.Forall₂ (RelatedJson like) done others) :
      RelatedFrame (.items done) (.items others)
  | members {done others : List (Text × Json)} (each : RelatedMembers like done others) :
      RelatedFrame (.members done) (.members others)
  | value {done others : List (Text × Json)} {name other : Text}
      (each : RelatedMembers like done others) (same : like.names name other) :
      RelatedFrame (.value done name) (.value others other)

inductive RelatedMode : Mode → Mode → Prop where
  | value : RelatedMode .value .value
  | firstItem : RelatedMode .firstItem .firstItem
  | firstKey : RelatedMode .firstKey .firstKey
  | key : RelatedMode .key .key
  | colon {name other : Text} (same : like.names name other) :
      RelatedMode (.colon name) (.colon other)
  | after : RelatedMode .after .after
  | bare (text : Text) : RelatedMode (.bare text) (.bare text)
  | str (isKey : Bool) {mode other : StrMode} (same : like.modes isKey mode other) :
      RelatedMode (.str isKey mode) (.str isKey other)
  | finished {value other : Json} (same : RelatedJson like value other) :
      RelatedMode (.finished value) (.finished other)

structure RelatedState (state other : State) : Prop where
  mode : RelatedMode like state.mode other.mode
  stack : List.Forall₂ (RelatedFrame like) state.stack other.stack

def Lost (state : State) : Prop := state.mode = .malformed ∨ state.mode = .extension

/-- The first reader is lost, or the other one is in the corresponding state. -/
def Shadows (state other : State) : Prop := Lost state ∨ RelatedState like state other

end

theorem lost_step (dialect : Dialect) (state : State) (lost : Lost state) (c : Char) :
    Lost (step dialect state c) := by
  obtain ⟨mode, stack⟩ := state
  rcases lost with rfl | rfl
  · exact Or.inl rfl
  · exact Or.inr rfl

theorem lost_run (dialect : Dialect) (state : State) (lost : Lost state) (text : Text) :
    Lost (run dialect state text) := by
  induction text generalizing state with
  | nil => exact lost
  | cons c text ih => exact ih _ (lost_step dialect state lost c)

section
variable {like : Likeness}

theorem RelatedJson.of_obj {members : List (Text × Json)} {other : Json}
    (related : RelatedJson like (.obj members) other) :
    ∃ others, other = .obj others ∧ RelatedMembers like members others := by
  cases related with
  | obj names values => exact ⟨_, rfl, names, values⟩

theorem RelatedMembers.nil : RelatedMembers like [] [] := ⟨.nil, .nil⟩

theorem RelatedMembers.snoc {members others : List (Text × Json)} {name otherName : Text}
    {value other : Json} (before : RelatedMembers like members others)
    (names : like.names name otherName) (values : RelatedJson like value other) :
    RelatedMembers like (members ++ [(name, value)]) (others ++ [(otherName, other)]) := by
  constructor
  · simpa using List.rel_append before.names (List.Forall₂.cons names .nil)
  · simpa using List.rel_append before.values (List.Forall₂.cons values .nil)

theorem Shadows.lost_malformed (stack : List Frame) (other : State) :
    Shadows like ⟨.malformed, stack⟩ other := Or.inl (Or.inl rfl)

theorem Shadows.lost_extension (stack : List Frame) (other : State) :
    Shadows like ⟨.extension, stack⟩ other := Or.inl (Or.inr rfl)

theorem stray_follows (c : Char) (stack : List Frame) (other : State) :
    Shadows like (stray c stack) other := by
  unfold stray
  split_ifs
  · exact .lost_extension _ _
  · exact .lost_malformed _ _

section
variable {stack others : List Frame} (frames : List.Forall₂ (RelatedFrame like) stack others)
include frames

theorem complete_follows {value other : Json} (same : RelatedJson like value other) :
    Shadows like (complete value stack) (complete other others) := by
  cases frames with
  | nil => exact Or.inr ⟨.finished same, .nil⟩
  | cons frame rest =>
      cases frame with
      | items each =>
          exact Or.inr ⟨.after, .cons (.items (List.rel_append each (.cons same .nil))) rest⟩
      | members each => exact .lost_malformed _ _
      | value each name => exact Or.inr ⟨.after, .cons (.members (each.snoc name same)) rest⟩

theorem start_value_follows (dialect : Dialect) {mode otherMode : Mode}
    (modes : RelatedMode like mode otherMode) (c : Char) :
    Shadows like (startValue dialect mode stack c) (startValue dialect otherMode others c) := by
  unfold startValue
  rw [frames.length_eq]
  split_ifs
  · exact Or.inr ⟨modes, frames⟩
  · exact Or.inr ⟨.str false (like.opened false), frames⟩
  · exact Or.inr ⟨.firstItem, .cons (.items .nil) frames⟩
  · exact .lost_malformed _ _
  · exact Or.inr ⟨.firstKey, .cons (.members .nil) frames⟩
  · exact .lost_malformed _ _
  · exact Or.inr ⟨.bare [c], frames⟩
  · exact .lost_extension _ _

theorem start_key_follows {mode otherMode : Mode} (modes : RelatedMode like mode otherMode)
    (c : Char) :
    Shadows like (startKey mode stack c) (startKey otherMode others c) := by
  unfold startKey
  split_ifs
  · exact Or.inr ⟨modes, frames⟩
  · exact Or.inr ⟨.str true (like.opened true), frames⟩
  · exact .lost_extension _ _

theorem settled_after_follows (c : Char) :
    Shadows like (settledStep ⟨.after, stack⟩ c) (settledStep ⟨.after, others⟩ c) := by
  cases frames with
  | nil => exact .lost_malformed _ _
  | cons frame rest =>
      cases frame with
      | items each =>
          simp only [settledStep]
          split_ifs
          · exact Or.inr ⟨.after, .cons (.items each) rest⟩
          · exact Or.inr ⟨.value, .cons (.items each) rest⟩
          · exact complete_follows rest (.arr each)
          · exact stray_follows _ _ _
      | members each =>
          simp only [settledStep]
          split_ifs
          · exact Or.inr ⟨.after, .cons (.members each) rest⟩
          · exact Or.inr ⟨.key, .cons (.members each) rest⟩
          · exact complete_follows rest (.obj each.names each.values)
          · exact stray_follows _ _ _
      | value each name => exact .lost_malformed _ _

theorem settled_finished_follows {value other : Json} (same : RelatedJson like value other)
    (c : Char) :
    Shadows like (settledStep ⟨.finished value, stack⟩ c)
      (settledStep ⟨.finished other, others⟩ c) := by
  simp only [settledStep]
  split_ifs
  · exact Or.inr ⟨.finished same, frames⟩
  · exact stray_follows _ _ _

theorem complete_bare_follows (dialect : Dialect) (text : Text) :
    Shadows like (completeBare dialect text stack) (completeBare dialect text others) := by
  unfold completeBare
  split_ifs
  · exact complete_follows frames (.number _)
  · exact .lost_malformed _ _
  · exact complete_follows frames (.bool true)
  · exact complete_follows frames (.bool false)
  · exact complete_follows frames .null
  · exact .lost_extension _ _

end

theorem settled_follows {state other : State} (related : Shadows like state other) (c : Char) :
    Shadows like
      (match state.mode with
        | .extension => state
        | _ => settledStep state c)
      (match other.mode with
        | .extension => other
        | _ => settledStep other c) := by
  obtain ⟨mode, stack⟩ := state
  rcases related with (rfl | rfl) | related
  · exact .lost_malformed _ _
  · exact .lost_extension _ _
  · obtain ⟨otherMode, others⟩ := other
    obtain ⟨modes, frames⟩ := related
    simp only at modes frames
    cases modes with
    | after => exact settled_after_follows frames c
    | finished same => exact settled_finished_follows frames same c
    | value | firstItem | firstKey | key | colon | bare | str => exact .lost_malformed _ _

theorem step_outside_follows (dialect : Dialect) {state other : State}
    (related : RelatedState like state other)
    (outside : ∀ isKey mode, state.mode ≠ .str isKey mode) (c : Char) :
    Shadows like (step dialect state c) (step dialect other c) := by
  obtain ⟨mode, stack⟩ := state
  obtain ⟨otherMode, others⟩ := other
  obtain ⟨modes, frames⟩ := related
  simp only at modes frames
  cases modes with
  | value => exact start_value_follows frames dialect .value c
  | firstItem =>
      cases frames with
      | nil => exact .lost_malformed _ _
      | cons frame rest =>
          cases frame with
          | items each =>
              simp only [step]
              split_ifs
              · exact complete_follows rest (.arr each)
              · exact start_value_follows (.cons (.items each) rest) dialect .firstItem c
          | members each => exact .lost_malformed _ _
          | value each name => exact .lost_malformed _ _
  | firstKey =>
      cases frames with
      | nil => exact .lost_malformed _ _
      | cons frame rest =>
          cases frame with
          | members each =>
              simp only [step]
              split_ifs
              · exact complete_follows rest (.obj each.names each.values)
              · exact start_key_follows (.cons (.members each) rest) .firstKey c
          | items each => exact .lost_malformed _ _
          | value each name => exact .lost_malformed _ _
  | key => exact start_key_follows frames .key c
  | colon name =>
      cases frames with
      | nil => exact .lost_malformed _ _
      | cons frame rest =>
          cases frame with
          | members each =>
              simp only [step]
              split_ifs
              · exact Or.inr ⟨.colon name, .cons (.members each) rest⟩
              · exact Or.inr ⟨.value, .cons (.value each name) rest⟩
              · exact stray_follows _ _ _
          | items each => exact .lost_malformed _ _
          | value each name => exact .lost_malformed _ _
  | after => exact settled_after_follows frames c
  | bare text =>
      simp only [step]
      split_ifs
      · exact Or.inr ⟨.bare _, frames⟩
      · exact settled_follows (complete_bare_follows frames dialect text) c
  | str isKey same => exact absurd rfl (outside isKey _)
  | finished same => exact settled_finished_follows frames same c

/-- Two steps of a string correspond; the first may also be bad. -/
inductive FollowsStr (like : Likeness) (isKey : Bool) : StrStep → StrStep → Prop where
  | more {mode other : StrMode} (same : like.modes isKey mode other) :
      FollowsStr like isKey (.more mode) (.more other)
  | close {text other : Text} (name : isKey = true → like.names text other)
      (string : isKey = false → like.strings text other) :
      FollowsStr like isKey (.close text) (.close other)
  | bad (other : StrStep) : FollowsStr like isKey .bad other

end

def strResult (isKey : Bool) (stack : List Frame) : StrStep → State
  | .more next => ⟨.str isKey next, stack⟩
  | .close text => if isKey then ⟨.colon text, stack⟩ else complete (.str text) stack
  | .bad => ⟨.malformed, stack⟩

theorem step_str (dialect : Dialect) (isKey : Bool) (mode : StrMode) (stack : List Frame)
    (c : Char) :
    step dialect ⟨.str isKey mode, stack⟩ c = strResult isKey stack (strStep dialect mode c) := by
  simp only [step]
  cases strStep dialect mode c <;> rfl

section
variable {like : Likeness}

theorem result_follows {stack others : List Frame}
    (frames : List.Forall₂ (RelatedFrame like) stack others) (isKey : Bool)
    {first second : StrStep} (steps : FollowsStr like isKey first second) :
    Shadows like (strResult isKey stack first) (strResult isKey others second) := by
  cases steps with
  | more same => exact Or.inr ⟨.str isKey same, frames⟩
  | bad => exact .lost_malformed _ _
  | close name string =>
      cases isKey with
      | true => exact Or.inr ⟨.colon (name rfl), frames⟩
      | false => exact complete_follows frames (.str (string rfl))

theorem finish_follows (dialect : Dialect) {state other : State}
    (related : RelatedState like state other) (value : Json)
    (held : finish dialect state = .value value) :
    ∃ second, finish dialect other = .value second ∧ RelatedJson like value second := by
  obtain ⟨mode, stack⟩ := state
  obtain ⟨otherMode, others⟩ := other
  obtain ⟨modes, frames⟩ := related
  simp only at modes frames
  cases modes with
  | @finished own other same =>
      obtain rfl : own = value := Reading.value.inj held
      exact ⟨other, rfl, same⟩
  | bare word =>
      have completed := complete_bare_follows frames dialect word
      simp only [finish] at held ⊢
      generalize completeBare dialect word stack = settled at held completed
      generalize completeBare dialect word others = otherSettled at completed ⊢
      obtain ⟨mode, rest⟩ := settled
      obtain ⟨otherMode, otherRest⟩ := otherSettled
      rcases completed with (rfl | rfl) | ⟨modes, -⟩
      · cases held
      · cases held
      · simp only at modes
        cases modes with
        | @finished own other same =>
            obtain rfl : own = value := Reading.value.inj held
            exact ⟨other, rfl, same⟩
        | value | firstItem | firstKey | key | colon | after | bare | str => cases held
  | value | firstItem | firstKey | key | colon | after | str => cases held

theorem finish_lost (dialect : Dialect) (state : State) (lost : Lost state) (value : Json) :
    finish dialect state ≠ .value value := by
  obtain ⟨mode, stack⟩ := state
  rcases lost with rfl | rfl <;> rintro ⟨⟩

end

theorem member_cons (first : Text × Json) (members : List (Text × Json)) (name : Text) :
    member (first :: members) name =
      (member members name).or (if first.1 = name then some first.2 else none) := by
  unfold member
  rw [List.reverse_cons, List.find?_append, List.find?_singleton]
  cases List.find? (fun member => member.1 == name) members.reverse with
  | some found => rfl
  | none =>
      by_cases same : first.1 = name
      · simp [same]
      · simp [same]

theorem related_member {like : Likeness} {members others : List (Text × Json)}
    (related : RelatedMembers like members others) (name : Text)
    (alike : ∀ text other, like.names text other → (text = name ↔ other = name)) :
    Option.Rel (RelatedJson like) (member members name) (member others name) := by
  obtain ⟨names, values⟩ := related
  induction members generalizing others with
  | nil =>
      cases others with
      | nil => exact .none
      | cons other others => cases names
  | cons first members ih =>
      cases others with
      | nil => cases names
      | cons other others =>
          rw [List.map_cons, List.map_cons] at names values
          cases names with
          | cons firstName restNames =>
              cases values with
              | cons firstValue restValues =>
                  have rest := ih restNames restValues
                  have same := alike _ _ firstName
                  rw [member_cons, member_cons]
                  generalize member members name = mine at rest ⊢
                  generalize member others name = theirs at rest ⊢
                  cases rest with
                  | some found => exact .some found
                  | none =>
                      by_cases here : first.1 = name
                      · simp only [here, same.mp here, if_true, Option.none_or]
                        exact .some firstValue
                      · have otherwhere : ¬other.1 = name := fun there => here (same.mpr there)
                        simp only [here, otherwhere, if_false, Option.none_or]
                        exact .none

end TfuServer.Json
