import Mathlib.Algebra.Order.BigOperators.Group.List
import TfuServer.Json.Reader

/-!
# Lengths of the strings read

No character of a document adds more than one to the strings the reader holds, so
a string member of an object is shorter than the text of the object.
-/

namespace TfuServer.Json

set_option autoImplicit false

def textLength : Json → Nat
  | .str text => text.length
  | _ => 0

def membersLength (members : List (Text × Json)) : Nat :=
  (members.map fun member => textLength member.2).sum

/-- The strings of a whole document, one level deep. -/
def heldLength : Json → Nat
  | .str text => text.length
  | .obj members => membersLength members
  | _ => 0

/-- A high surrogate that waits for its low one may still become two characters. -/
def strModeLength : StrMode → Nat
  | .plain text | .escape text | .hex text none _ _ => text.length
  | .hex text (some _) _ _ | .high text _ | .highEscape text _ => text.length + 1

def modeLength : Mode → Nat
  | .str _ mode => strModeLength mode
  | .finished value => heldLength value
  | _ => 0

def frameLength : Frame → Nat
  | .members done | .value done _ => membersLength done
  | .items _ => 0

def stateLength (state : State) : Nat :=
  modeLength state.mode + (state.stack.map frameLength).sum

theorem frames_lt_state (mode : Mode) (stack : List Frame) :
    (stack.map frameLength).sum ≤ stateLength ⟨mode, stack⟩ + 1 :=
  (Nat.le_add_left _ _).trans (Nat.le_succ _)

theorem text_le_held (value : Json) : textLength value ≤ heldLength value := by
  cases value <;> simp [textLength, heldLength]

theorem members_length_append (done : List (Text × Json)) (name : Text) (value : Json) :
    membersLength (done ++ [(name, value)]) = membersLength done + textLength value := by
  simp [membersLength]

theorem complete_length (value : Json) (stack : List Frame) :
    stateLength (complete value stack) ≤ heldLength value + (stack.map frameLength).sum := by
  have held := text_le_held value
  cases stack with
  | nil => exact Nat.le_refl _
  | cons frame stack =>
      cases frame with
      | items done => simp [complete, stateLength, modeLength, frameLength]
      | members done => simp [complete, stateLength, modeLength, frameLength]
      | value done name =>
          simp only [complete, stateLength, modeLength, List.map_cons, List.sum_cons, frameLength,
            members_length_append]
          omega

theorem start_value_length (dialect : Dialect) (mode : Mode) (stack : List Frame) (c : Char)
    (empty : modeLength mode = 0) :
    stateLength (startValue dialect mode stack c) ≤ (stack.map frameLength).sum := by
  unfold startValue
  split_ifs
  · simp [stateLength, empty]
  all_goals simp [stateLength, modeLength, strModeLength, frameLength, membersLength]

theorem start_key_length (mode : Mode) (stack : List Frame) (c : Char)
    (empty : modeLength mode = 0) :
    stateLength (startKey mode stack c) ≤ (stack.map frameLength).sum := by
  unfold startKey
  split_ifs
  · simp [stateLength, empty]
  all_goals simp [stateLength, modeLength, strModeLength]

theorem stray_length (c : Char) (stack : List Frame) :
    stateLength (stray c stack) = (stack.map frameLength).sum := by
  unfold stray
  split_ifs <;> simp [stateLength, modeLength]

theorem settled_step_length (state : State) (c : Char) :
    stateLength (settledStep state c) ≤ stateLength state := by
  fun_cases settledStep state c with
  | case1 => exact Nat.le_refl _
  | case2 => simp [stateLength, modeLength]
  | case3 =>
      refine (complete_length _ _).trans ?_
      simp [heldLength, stateLength, modeLength, frameLength]
  | case4 => exact (stray_length c _).le.trans (by simp [stateLength, modeLength])
  | case5 => exact Nat.le_refl _
  | case6 => simp [stateLength, modeLength]
  | case7 =>
      refine (complete_length _ _).trans ?_
      simp [heldLength, stateLength, modeLength, frameLength]
  | case8 => exact (stray_length c _).le.trans (by simp [stateLength, modeLength])
  | case9 => exact Nat.le_refl _
  | case10 => exact (stray_length c _).le.trans (Nat.le_add_left _ _)
  | case11 => simp [stateLength, modeLength]

theorem complete_bare_length (dialect : Dialect) (text : Text) (stack : List Frame) :
    stateLength (completeBare dialect text stack) ≤ (stack.map frameLength).sum := by
  have empty (value : Json) (none : heldLength value = 0) :
      stateLength (complete value stack) ≤ (stack.map frameLength).sum := by
    simpa [none] using complete_length value stack
  unfold completeBare
  split_ifs
  · exact empty _ rfl
  · simp [stateLength, modeLength]
  · exact empty _ rfl
  · exact empty _ rfl
  · exact empty _ rfl
  · simp [stateLength, modeLength]

def StrStep.length : StrStep → Nat
  | .more mode => strModeLength mode
  | .close text => text.length
  | .bad => 0

theorem plain_step_length (dialect : Dialect) (text : Text) (c : Char) :
    (plainStep dialect text c).length ≤ text.length + 1 := by
  unfold plainStep
  split_ifs <;> simp [StrStep.length, strModeLength]

theorem escape_step_length (dialect : Dialect) (text : Text) (c : Char) :
    (escapeStep dialect text c).length ≤ text.length + 1 := by
  unfold escapeStep
  split_ifs
  · simp [StrStep.length, strModeLength]
  · split <;> simp [StrStep.length, strModeLength]

theorem finish_unit_length (text : Text) (high : Option Nat) (unit : Nat) :
    strModeLength (finishUnit text high unit) ≤ strModeLength (.hex text high 3 0) + 1 := by
  cases high <;> unfold finishUnit <;> simp only <;> split_ifs <;> simp [strModeLength]

theorem str_step_length (dialect : Dialect) (mode : StrMode) (c : Char) :
    (strStep dialect mode c).length ≤ strModeLength mode + 1 := by
  cases mode with
  | plain text => exact plain_step_length dialect text c
  | escape text => exact escape_step_length dialect text c
  | hex text high digits value =>
      simp only [strStep]
      cases hexValue c with
      | none => exact Nat.zero_le _
      | some digit =>
          split_ifs
          · cases high <;> simp [StrStep.length, strModeLength]
          · refine (finish_unit_length text high _).trans (Nat.le_of_eq ?_)
            cases high <;> rfl
  | high text unit =>
      simp only [strStep]
      split_ifs
      · exact Nat.le_succ _
      · simpa [strModeLength] using plain_step_length dialect (text ++ [replacement]) c
  | highEscape text unit =>
      simp only [strStep]
      split_ifs
      · exact Nat.le_succ _
      · simpa [strModeLength] using escape_step_length dialect (text ++ [replacement]) c

theorem str_mode_length (dialect : Dialect) (isKey : Bool) (mode : StrMode) (stack : List Frame)
    (c : Char) :
    stateLength (step dialect ⟨.str isKey mode, stack⟩ c) ≤
      stateLength ⟨.str isKey mode, stack⟩ + 1 := by
  have bound := str_step_length dialect mode c
  simp only [step]
  cases stepped : strStep dialect mode c with
  | more next =>
      rw [stepped] at bound
      simp only [StrStep.length] at bound
      simp only [stateLength, modeLength]
      omega
  | close text =>
      rw [stepped] at bound
      simp only [StrStep.length] at bound
      have completed := complete_length (.str text) stack
      simp only [heldLength] at completed
      cases isKey <;> simp only [stateLength, modeLength, Bool.false_eq_true, if_false,
        if_true] at completed ⊢ <;> omega
  | bad =>
      simp only [stateLength, modeLength]
      omega

theorem step_length (dialect : Dialect) (state : State) (c : Char) :
    stateLength (step dialect state c) ≤ stateLength state + 1 := by
  obtain ⟨mode, stack⟩ := state
  cases mode with
  | str isKey mode => exact str_mode_length dialect isKey mode stack c
  | value => exact (start_value_length dialect .value stack c rfl).trans (frames_lt_state _ _)
  | key => exact (start_key_length .key stack c rfl).trans (frames_lt_state _ _)
  | bare text =>
      have completed := complete_bare_length dialect text stack
      have kept : stateLength ⟨.bare text, stack⟩ = (stack.map frameLength).sum := Nat.zero_add _
      simp only [step]
      split_ifs
      · simp [stateLength, modeLength]
      · split
        · omega
        · have settled := settled_step_length (completeBare dialect text stack) c
          omega
  | after => exact (settled_step_length _ c).trans (Nat.le_succ _)
  | finished value => exact (settled_step_length _ c).trans (Nat.le_succ _)
  | extension => exact Nat.le_succ _
  | malformed => exact Nat.le_succ _
  | firstItem =>
      rcases stack with - | ⟨done | done | ⟨done, name⟩, stack⟩
      case cons.items =>
        simp only [step]
        split_ifs
        · refine (complete_length _ _).trans ?_
          simp [heldLength, stateLength, modeLength, frameLength]
        · exact (start_value_length dialect .firstItem _ c rfl).trans (frames_lt_state _ _)
      all_goals simp [step, stateLength, modeLength]
  | firstKey =>
      rcases stack with - | ⟨done | done | ⟨done, name⟩, stack⟩
      case cons.members =>
        simp only [step]
        split_ifs
        · refine (complete_length _ _).trans ?_
          simp [heldLength, stateLength, modeLength, frameLength]
        · exact (start_key_length .firstKey _ c rfl).trans (frames_lt_state _ _)
      all_goals simp [step, stateLength, modeLength]
  | colon name =>
      rcases stack with - | ⟨done | done | ⟨done, name⟩, stack⟩
      case cons.members =>
        simp only [step]
        split_ifs
        · exact Nat.le_succ _
        · simp [stateLength, modeLength, frameLength]
        · exact (stray_length c _).le.trans (frames_lt_state _ _)
      all_goals simp [step, stateLength, modeLength]

theorem run_length (dialect : Dialect) (state : State) (text : Text) :
    stateLength (run dialect state text) ≤ stateLength state + text.length := by
  induction text generalizing state with
  | nil => exact Nat.le_refl _
  | cons c text ih =>
      have first := step_length dialect state c
      have others := ih (step dialect state c)
      rw [run_cons, List.length_cons]
      omega

theorem finish_length (dialect : Dialect) (state : State) (value : Json)
    (finished : finish dialect state = .value value) : heldLength value ≤ stateLength state := by
  obtain ⟨mode, stack⟩ := state
  cases mode with
  | finished held =>
      cases finished
      exact Nat.le_add_right _ _
  | bare text =>
      have bound := complete_bare_length dialect text stack
      simp only [finish] at finished
      split at finished
      · rename_i held mode
        cases finished
        rw [stateLength, mode] at bound
        exact (Nat.le_add_right _ _).trans (bound.trans (Nat.le_add_left _ _))
      · cases finished
      · cases finished
  | _ => cases finished

theorem text_le_members (members : List (Text × Json)) (name text : Text)
    (found : member members name = some (.str text)) : text.length ≤ membersLength members := by
  obtain ⟨⟨key, value⟩, held, same⟩ := Option.map_eq_some_iff.mp found
  have inside : (key, value) ∈ members :=
    List.mem_reverse.mp (List.mem_of_find?_eq_some held)
  cases same
  exact List.le_sum_of_mem (List.mem_map.mpr ⟨_, inside, rfl⟩)

/-- The brace that opens the object is in none of its strings. -/
theorem member_shorter (dialect : Dialect) (rest name text : Text) (members : List (Text × Json))
    (whole : read dialect ('\x7b' :: rest) = .value (.obj members))
    (found : member members name = some (.str text)) :
    text.length < ('\x7b' :: rest).length := by
  have opened : stateLength (step dialect ⟨.value, []⟩ '\x7b') = 0 := by
    cases dialect <;> rfl
  have bound := run_length dialect (step dialect ⟨.value, []⟩ '\x7b') rest
  have held := finish_length dialect _ _ whole
  have inside := text_le_members members name text found
  rw [run_cons] at held
  simp only [heldLength] at held
  rw [List.length_cons]
  omega

end TfuServer.Json
