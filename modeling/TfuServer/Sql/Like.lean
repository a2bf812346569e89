import Mathlib.Data.List.Infix
import TfuServer.Sql.Table

/-!
# Substring search with LIKE

A pattern between two percent signs finds the texts that contain it, as long as
it has no character with a meaning of its own.
-/

namespace TfuServer.Sql

set_option autoImplicit false

/-- Columns are found whatever the case of their names. -/
theorem cell_at_same_name (columns : List Column) (cells : List Cell) (left right : Text)
    (equal : sameName left right = true) :
    cellAt columns cells left = cellAt columns cells right := by
  have lowered := eq_of_beq equal
  induction columns generalizing cells with
  | nil => cases cells <;> rfl
  | cons column columns ih =>
      cases cells with
      | nil => rfl
      | cons cell cells =>
          have head : sameName column.name left = sameName column.name right := by
            rw [sameName, sameName, lowered]
          rw [cellAt, cellAt, head, ih cells]

section
variable (same : Char → Char → Bool)

/-- The text starts with the keyword, up to the characters that are taken for equal. -/
def beginsWith : Text → Text → Bool
  | [], _ => true
  | _ :: _, [] => false
  | c :: keyword, d :: text => same c d && beginsWith keyword text

def contains (keyword text : Text) : Bool := text.tails.any (beginsWith same keyword)

/-- Stands for itself in a pattern. -/
def isOrdinary (c : Char) : Bool := c != '%' && c != '_' && c != '\\'

theorem begins_length (keyword text : Text) (begins : beginsWith same keyword text = true) :
    keyword.length ≤ text.length := by
  induction keyword generalizing text with
  | nil => exact Nat.zero_le _
  | cons c keyword ih =>
      cases text with
      | nil => cases begins
      | cons d text =>
          exact Nat.succ_le_succ (ih text (Bool.and_eq_true_iff.mp begins).2)

theorem contains_nil (text : Text) : contains same [] text = true := by
  rw [contains, List.any_eq_true]
  exact ⟨text, (List.mem_tails _ _).mpr List.suffix_rfl, rfl⟩

theorem contains_length (keyword text : Text) (found : contains same keyword text = true) :
    keyword.length ≤ text.length := by
  obtain ⟨rest, within, begins⟩ := List.any_eq_true.mp found
  have suffix := (List.mem_tails rest text).mp within
  exact Nat.le_trans (begins_length same keyword rest begins) suffix.length_le

theorem contains_same_length (keyword text : Text) (equal : keyword.length = text.length)
    (found : contains same keyword text = true) : beginsWith same keyword text = true := by
  obtain ⟨rest, within, begins⟩ := List.any_eq_true.mp found
  have suffix := (List.mem_tails rest text).mp within
  have longer := begins_length same keyword rest begins
  have whole : rest = text := suffix.eq_of_length (by have := suffix.length_le; omega)
  rwa [whole] at begins

theorem like_any_ending (text : Text) : likeMatches same ['%'] text = true := by
  unfold likeMatches
  refine List.any_eq_true.mpr ⟨[], (List.mem_tails _ _).mpr (List.nil_suffix), ?_⟩
  rfl

theorem like_cons_ordinary (c : Char) (pattern : Text) (d : Char) (text : Text)
    (ordinary : isOrdinary c = true) :
    likeMatches same (c :: pattern) (d :: text) = (same c d && likeMatches same pattern text) := by
  simp only [isOrdinary, Bool.and_eq_true, bne_iff_ne, ne_eq] at ordinary
  obtain ⟨⟨percent, underscore⟩, backslash⟩ := ordinary
  rw [likeMatches]
  · exact percent
  · exact underscore
  · exact fun _ _ escape _ => backslash escape

theorem like_cons_nil (c : Char) (pattern : Text) (ordinary : isOrdinary c = true) :
    likeMatches same (c :: pattern) [] = false := by
  simp only [isOrdinary, Bool.and_eq_true, bne_iff_ne, ne_eq] at ordinary
  rw [likeMatches]
  exact ordinary.1.1

theorem like_begins (keyword text : Text) (ordinary : ∀ c ∈ keyword, isOrdinary c = true) :
    likeMatches same (keyword ++ ['%']) text = beginsWith same keyword text := by
  induction keyword generalizing text with
  | nil => exact like_any_ending same text
  | cons c keyword ih =>
      obtain ⟨first, rest⟩ := List.forall_mem_cons.mp ordinary
      rw [List.cons_append]
      cases text with
      | nil => exact like_cons_nil same c _ first
      | cons d text =>
          rw [like_cons_ordinary same c _ d text first, ih text rest]
          rfl

theorem like_contains (keyword text : Text) (ordinary : ∀ c ∈ keyword, isOrdinary c = true) :
    likeMatches same ('%' :: keyword ++ ['%']) text = contains same keyword text := by
  rw [List.cons_append, likeMatches, contains]
  exact congrArg text.tails.any (funext fun rest => like_begins same keyword rest ordinary)

/-- One character of a pattern, with `wild` where any character does. -/
def sampleChar (wild c : Char) : Text := if c = '%' then [] else if c = '_' then [wild] else [c]

def sample (wild : Char) (pattern : Text) : Text := pattern.flatMap (sampleChar wild)

theorem sample_matches (wild : Char) (pattern : Text) (reflexive : ∀ c, same c c = true)
    (escapes : '\\' ∉ pattern) : likeMatches same pattern (sample wild pattern) = true := by
  induction pattern with
  | nil => rfl
  | cons c pattern ih =>
      rw [List.mem_cons, not_or] at escapes
      obtain ⟨notEscape, rest⟩ := escapes
      have tail := ih rest
      by_cases percent : c = '%'
      · subst percent
        rw [likeMatches]
        exact List.any_eq_true.mpr ⟨sample wild pattern,
          (List.mem_tails _ _).mpr List.suffix_rfl, tail⟩
      · by_cases underscore : c = '_'
        · subst underscore
          exact tail
        · have own : sample wild (c :: pattern) = c :: sample wild pattern := by
            simp [sample, sampleChar, percent, underscore]
          have ordinary : isOrdinary c = true := by
            simp [isOrdinary, percent, underscore, Ne.symm notEscape]
          rw [own, like_cons_ordinary same c _ _ _ ordinary, reflexive, tail]
          rfl

theorem sample_length (wild : Char) (pattern : Text) :
    (sample wild pattern).length ≤ pattern.length ∧
      ('%' ∈ pattern → (sample wild pattern).length < pattern.length) := by
  induction pattern with
  | nil => simp [sample]
  | cons c pattern ih =>
      have split : sample wild (c :: pattern) = sampleChar wild c ++ sample wild pattern := by
        simp [sample]
      rw [split, List.length_append, List.length_cons]
      by_cases percent : c = '%'
      · subst percent
        have nothing : (sampleChar wild '%').length = 0 := rfl
        exact ⟨by omega, fun _ => by omega⟩
      · have one : (sampleChar wild c).length = 1 := by
          unfold sampleChar
          rw [if_neg percent]
          split_ifs <;> rfl
        refine ⟨by omega, fun member => ?_⟩
        have later : '%' ∈ pattern := (List.mem_cons.mp member).resolve_left (Ne.symm percent)
        have shorter := ih.2 later
        omega

theorem begins_with_map (change : Char → Char) (keyword : Text)
    (begins : beginsWith same keyword (keyword.map change) = true) :
    ∀ c ∈ keyword, same c (change c) = true := by
  induction keyword with
  | nil => simp
  | cons c keyword ih =>
      obtain ⟨first, rest⟩ := Bool.and_eq_true_iff.mp begins
      exact List.forall_mem_cons.mpr ⟨first, ih rest⟩

end

end TfuServer.Sql
