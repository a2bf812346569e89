import TfuServer.Json.Related
import TfuServer.Json.Escaped

/-!
# Apostrophes masked before reading

A text whose apostrophes are replaced by u0027 is read in lockstep with the text
itself. Where that holds a document, the masked text holds the same document with
each raw apostrophe masked, and with those that were written as escapes as they were.
-/

namespace TfuServer.Json

set_option autoImplicit false

def maskText (text : Text) : Text :=
  text.flatMap fun c => if c = '\'' then "u0027".toList else [c]

@[simp] theorem mask_text_nil : maskText [] = [] := rfl

theorem mask_text_append (left right : Text) :
    maskText (left ++ right) = maskText left ++ maskText right := by
  simp [maskText]

theorem mask_text_other (c : Char) (other : c ≠ '\'') : maskText [c] = [c] := by
  simp [maskText, other]

theorem no_quote_in_mask (text : Text) : '\'' ∉ maskText text := by
  intro member
  obtain ⟨c, -, within⟩ := List.mem_flatMap.mp member
  split_ifs at within with quote
  · exact absurd within (by decide)
  · exact quote (List.mem_singleton.mp within).symm

/-- `masked` is `text` with some of its apostrophes replaced. -/
inductive Masked : Text → Text → Prop where
  | nil : Masked [] []
  | kept {text masked : Text} (c : Char) (rest : Masked text masked) :
      Masked (text ++ [c]) (masked ++ [c])
  | marked {text masked : Text} (rest : Masked text masked) :
      Masked (text ++ ['\'']) (masked ++ "u0027".toList)

namespace Masked

variable {text masked : Text}

theorem two (first second : Char) (related : Masked text masked) :
    Masked (text ++ [first, second]) (masked ++ [first, second]) := by
  have longer := (related.kept first).kept second
  simpa using longer

theorem eq_mask (related : Masked text masked) (absent : '\'' ∉ masked) :
    masked = maskText text := by
  induction related with
  | nil => rfl
  | kept c rest ih =>
      simp only [List.mem_append, List.mem_singleton, not_or] at absent
      rw [mask_text_append, mask_text_other c (Ne.symm absent.2), ih absent.1]
  | marked rest ih =>
      simp only [List.mem_append, not_or] at absent
      rw [mask_text_append, ih absent.1]
      rfl

theorem eq_mask_iff (related : Masked text masked) : masked = maskText text ↔ '\'' ∉ masked := by
  constructor
  · rintro rfl
    exact no_quote_in_mask text
  · exact related.eq_mask

theorem eq_of_absent (related : Masked text masked) (absent : '\'' ∉ text) : masked = text := by
  induction related with
  | nil => rfl
  | kept c rest ih =>
      simp only [List.mem_append, not_or] at absent
      rw [ih absent.1]
  | marked rest ih => simp at absent

theorem eq_of_no_zero (related : Masked text masked) (absent : '0' ∉ masked) :
    masked = text := by
  induction related with
  | nil => rfl
  | kept c rest ih =>
      simp only [List.mem_append, not_or] at absent
      rw [ih absent.1]
  | marked rest ih => simp at absent

theorem mem_mask (related : Masked text masked) (c : Char) (other : c ≠ '\'')
    (member : c ∈ masked) : c ∈ maskText text := by
  induction related with
  | nil => cases member
  | kept d rest ih =>
      rw [mask_text_append, List.mem_append]
      rcases List.mem_append.mp member with before | last
      · exact Or.inl (ih before)
      · obtain rfl := List.mem_singleton.mp last
        rw [mask_text_other c other]
        exact Or.inr last
  | marked rest ih =>
      rw [mask_text_append, List.mem_append]
      exact (List.mem_append.mp member).imp ih id

theorem length_mask (related : Masked text masked) : masked.length ≤ (maskText text).length := by
  induction related with
  | nil => exact Nat.le_refl _
  | kept c rest ih =>
      have some_text : 1 ≤ (maskText [c]).length := by
        unfold maskText
        by_cases quote : c = '\'' <;> simp [quote]
      rw [mask_text_append, List.length_append, List.length_append]
      exact Nat.add_le_add ih some_text
  | marked rest ih =>
      rw [mask_text_append, List.length_append, List.length_append]
      exact Nat.add_le_add_right ih _

theorem head_mask (related : Masked text masked) (c : Char) (other : c ≠ '\'')
    (head : masked.head? = some c) : (maskText text).head? = some c := by
  induction related with
  | nil => cases head
  | kept d rest ih =>
      rw [mask_text_append]
      cases rest with
      | nil =>
          obtain rfl : d = c := by simpa using head
          rw [mask_text_other d other]
          exact head
      | kept | marked => simp_all
  | marked rest ih =>
      rw [mask_text_append]
      cases rest with
      | nil => exact head
      | kept | marked => simp_all

end Masked

inductive MaskedStr : StrMode → StrMode → Prop where
  | plain {text masked : Text} (same : Masked text masked) :
      MaskedStr (.plain text) (.plain masked)
  | escape {text masked : Text} (same : Masked text masked) :
      MaskedStr (.escape text) (.escape masked)
  | hex {text masked : Text} (same : Masked text masked) (first : Option Nat)
      (digits value : Nat) :
      MaskedStr (.hex text first digits value) (.hex masked first digits value)
  | high {text masked : Text} (same : Masked text masked) (unit : Nat) :
      MaskedStr (.high text unit) (.high masked unit)
  | highEscape {text masked : Text} (same : Masked text masked) (unit : Nat) :
      MaskedStr (.highEscape text unit) (.highEscape masked unit)

/-- A text and its masked form, names and strings alike. -/
def masking : Likeness := ⟨Masked, Masked, fun _ => MaskedStr, fun _ => .plain .nil⟩

abbrev MaskedJson : Json → Json → Prop := RelatedJson masking

abbrev MaskedMembers : List (Text × Json) → List (Text × Json) → Prop := RelatedMembers masking

section
variable {text masked : Text} (same : Masked text masked)
include same

theorem finish_unit_follows (first : Option Nat) (unit : Nat) :
    MaskedStr (finishUnit text first unit) (finishUnit masked first unit) := by
  cases first with
  | none =>
      simp only [finishUnit]
      split_ifs
      · exact .high same unit
      · exact .plain (same.kept _)
      · exact .plain (same.kept _)
  | some first =>
      simp only [finishUnit]
      split_ifs
      · exact .plain (same.kept _)
      · exact .high (same.kept _) unit
      · exact .plain (same.two _ _)

theorem plain_step_follows (dialect : Dialect) (isKey : Bool) (c : Char) :
    FollowsStr masking isKey (plainStep dialect text c) (plainStep dialect masked c) := by
  unfold plainStep
  split_ifs
  · exact .close (fun _ => same) (fun _ => same)
  · exact .more (.escape same)
  · exact .more (.plain (same.kept c))
  · exact .bad _

theorem escape_step_follows (dialect : Dialect) (isKey : Bool) (c : Char) :
    FollowsStr masking isKey (escapeStep dialect text c) (escapeStep dialect masked c) := by
  unfold escapeStep
  split_ifs
  · exact .more (.hex same none 0 0)
  · cases simpleEscape dialect c with
    | none => exact .bad _
    | some d => exact .more (.plain (same.kept d))

end

theorem str_step_follows (dialect : Dialect) (isKey : Bool) {mode other : StrMode}
    (same : MaskedStr mode other) (c : Char) :
    FollowsStr masking isKey (strStep dialect mode c) (strStep dialect other c) := by
  cases same with
  | plain same => exact plain_step_follows same dialect isKey c
  | escape same => exact escape_step_follows same dialect isKey c
  | hex same first digits value =>
      simp only [strStep]
      cases hexValue c with
      | none => exact .bad _
      | some digit =>
          simp only
          split_ifs
          · exact .more (.hex same first _ _)
          · exact .more (finish_unit_follows same first _)
  | high same unit =>
      simp only [strStep]
      split_ifs
      · exact .more (.highEscape same unit)
      · exact plain_step_follows (same.kept _) dialect isKey c
  | highEscape same unit =>
      simp only [strStep]
      split_ifs
      · exact .more (.hex same (some unit) 0 0)
      · exact escape_step_follows (same.kept _) dialect isKey c

theorem step_follows (dialect : Dialect) {state other : State}
    (related : RelatedState masking state other) (c : Char) :
    Shadows masking (step dialect state c) (step dialect other c) := by
  by_cases outside : ∀ isKey mode, state.mode ≠ .str isKey mode
  · exact step_outside_follows dialect related outside c
  · obtain ⟨mode, stack⟩ := state
    obtain ⟨otherMode, others⟩ := other
    obtain ⟨modes, frames⟩ := related
    simp only at modes frames
    cases modes with
    | @str isKey _ _ same =>
        rw [step_str, step_str]
        exact result_follows frames isKey (str_step_follows dialect isKey same c)
    | value | firstItem | firstKey | key | colon | after | bare | finished => simp at outside

theorem settled_quote_lost (state : State) : Lost (settledStep state '\'') := by
  have strayed (stack : List Frame) : Lost (stray '\'' stack) := Or.inl rfl
  obtain ⟨mode, stack⟩ := state
  cases mode with
  | after =>
      cases stack with
      | nil => exact Or.inl rfl
      | cons frame stack => cases frame <;> exact strayed _
  | finished value => exact strayed _
  | value | firstItem | firstKey | key | colon | bare | str | malformed | extension =>
      exact Or.inl rfl

/-- Outside a string an apostrophe leads nowhere. -/
theorem quote_lost (dialect : Dialect) (state : State) (outside : ∀ isKey mode,
    state.mode ≠ .str isKey mode) : Lost (step dialect state '\'') := by
  obtain ⟨mode, stack⟩ := state
  cases mode with
  | str isKey mode => exact absurd rfl (outside isKey mode)
  | bare text =>
      have other : isBare '\'' = false := rfl
      simp only [step, other, Bool.false_eq_true, if_false]
      split
      · rename_i settled
        exact Or.inr settled
      · exact settled_quote_lost _
  | after => exact settled_quote_lost _
  | finished value => exact settled_quote_lost _
  | firstItem | firstKey | colon =>
      cases stack with
      | nil => exact Or.inl rfl
      | cons frame stack => cases frame <;> first | exact Or.inl rfl | exact Or.inr rfl
  | value | key | extension => exact Or.inr rfl
  | malformed => exact Or.inl rfl

theorem run_mark_plain (dialect : Dialect) (text : Text) :
    runStr dialect (.plain text) "u0027".toList = some (.plain (text ++ "u0027".toList)) := by
  have marks : "u0027".toList = ['u', '0', '0', '2', '7'] := rfl
  rw [marks, run_str_raw _ _ _ _ rfl, run_str_raw _ _ _ _ rfl, run_str_raw _ _ _ _ rfl,
    run_str_raw _ _ _ _ rfl, run_str_raw _ _ _ _ rfl]
  simp [runStr]

theorem plain_step_quote (dialect : Dialect) (text : Text) :
    plainStep dialect text '\'' = .more (.plain (text ++ ['\''])) := by
  cases dialect <;> rfl

/-- In a string an apostrophe is kept, also behind a backslash, and so is its replacement. -/
theorem quote_in_string (dialect : Dialect) {mode other : StrMode} (same : MaskedStr mode other) :
    strStep dialect mode '\'' = .bad ∨
      ∃ next marked, strStep dialect mode '\'' = .more next ∧
        runStr dialect other "u0027".toList = some marked ∧ MaskedStr next marked := by
  cases same with
  | plain same =>
      exact Or.inr ⟨_, _, plain_step_quote dialect _, run_mark_plain dialect _, .plain same.marked⟩
  | escape same =>
      cases dialect with
      | rfc8259 => exact Or.inl rfl
      | newtonsoft => exact Or.inr ⟨_, _, rfl, rfl, .plain (same.kept '\'')⟩
  | hex same first digits value => exact Or.inl rfl
  | high same unit =>
      exact Or.inr ⟨_, _, plain_step_quote dialect _, run_mark_plain dialect _,
        .plain (same.kept replacement).marked⟩
  | @highEscape text masked same unit =>
      cases dialect with
      | rfc8259 => exact Or.inl rfl
      | newtonsoft =>
          have kept := same.two replacement '\''
          refine Or.inr ⟨.plain (text ++ [replacement] ++ ['\'']), _, rfl, rfl, .plain ?_⟩
          rw [List.append_assoc]
          exact kept

theorem mark_follows (dialect : Dialect) {state other : State}
    (related : RelatedState masking state other) :
    Shadows masking (step dialect state '\'') (run dialect other "u0027".toList) := by
  obtain ⟨mode, stack⟩ := state
  obtain ⟨otherMode, others⟩ := other
  obtain ⟨modes, frames⟩ := related
  simp only at modes frames
  cases modes with
  | @str isKey _ _ same =>
      rw [step_str]
      rcases quote_in_string dialect same with bad | ⟨next, marked, stepped, ran, same⟩
      · rw [bad]
        exact .lost_malformed _ _
      · rw [stepped, run_of_run_str dialect isKey others _ _ marked ran]
        exact Or.inr ⟨.str isKey same, frames⟩
  | value | firstItem | firstKey | key | colon | after | bare | finished =>
      exact Or.inl (quote_lost dialect _ (by simp))

theorem run_follows (dialect : Dialect) (text : Text) {state other : State}
    (related : Shadows masking state other) :
    Shadows masking (run dialect state text) (run dialect other (maskText text)) := by
  induction text generalizing state other with
  | nil => exact related
  | cons c text ih =>
      have split : maskText (c :: text) = maskText [c] ++ maskText text :=
        mask_text_append [c] text
      rw [run_cons, split, run_append]
      apply ih
      rcases related with lost | related
      · exact Or.inl (lost_step dialect state lost c)
      · by_cases quote : c = '\''
        · subst quote
          exact mark_follows dialect related
        · rw [mask_text_other c quote]
          exact step_follows dialect related c

/-- A text that holds a document still holds it when its apostrophes are masked, with
the raw ones among them masked in its strings. -/
theorem read_masked (dialect : Dialect) (text : Text) (value : Json)
    (held : read dialect text = .value value) :
    ∃ other, read dialect (maskText text) = .value other ∧ MaskedJson value other := by
  have followed := @run_follows dialect text ⟨.value, []⟩ ⟨.value, []⟩ (Or.inr ⟨.value, .nil⟩)
  rcases followed with lost | related
  · exact absurd held (finish_lost dialect _ lost value)
  · exact finish_follows dialect related value held

theorem Masked.same_name {text masked : Text} (related : Masked text masked) (name : Text)
    (quote : '\'' ∉ name) (zero : '0' ∉ name) : text = name ↔ masked = name := by
  constructor
  · rintro rfl
    exact related.eq_of_absent quote
  · rintro rfl
    exact (related.eq_of_no_zero zero).symm

theorem masked_member {members others : List (Text × Json)} (related : MaskedMembers members others)
    (name : Text) (quote : '\'' ∉ name) (zero : '0' ∉ name) :
    Option.Rel MaskedJson (member members name) (member others name) :=
  related_member related name fun _ _ same => same.same_name name quote zero

end TfuServer.Json
