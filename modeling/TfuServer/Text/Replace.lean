import TfuServer.Text.Numeral

/-!
# Ordinal replacement

Leftmost, non-overlapping replacement of a fixed text. A character that does
not occur in the replaced text cuts the input: no occurrence can reach over it.
-/

namespace TfuServer.Replace

set_option autoImplicit false

/-- `skip` characters of the last occurrence are still to be passed over. -/
def replaceFrom (old new : Text) : Nat → Text → Text
  | _, [] => []
  | skip + 1, _ :: rest => replaceFrom old new skip rest
  | 0, c :: rest =>
      if old.isPrefixOf (c :: rest) then new ++ replaceFrom old new (old.length - 1) rest
      else c :: replaceFrom old new 0 rest

def replace (old new text : Text) : Text := replaceFrom old new 0 text

@[simp] theorem replace_nil (old new : Text) : replace old new [] = [] := rfl

theorem replace_cons_kept (old new : Text) (c : Char) (rest : Text)
    (absent : old.isPrefixOf (c :: rest) = false) :
    replace old new (c :: rest) = c :: replace old new rest := by
  simp [replace, replaceFrom, absent]

theorem replace_from_skip (old new skipped rest : Text) :
    replaceFrom old new skipped.length (skipped ++ rest) = replace old new rest := by
  induction skipped with
  | nil => rfl
  | cons c skipped ih => simpa [replaceFrom] using ih

theorem replace_occurrence (c : Char) (old new rest : Text) :
    replace (c :: old) new (c :: old ++ rest) = new ++ replace (c :: old) new rest := by
  have found : (c :: old).isPrefixOf (c :: (old ++ rest)) = true := by
    rw [List.isPrefixOf_iff_prefix]
    exact ⟨rest, rfl⟩
  simp only [replace, replaceFrom, List.cons_append, found, if_true, List.length_cons,
    Nat.add_sub_cancel]
  rw [replace_from_skip, replace]

/-- A single character is replaced wherever it stands. -/
theorem replace_char (old : Char) (new text : Text) :
    replace [old] new text = text.flatMap fun c => if c = old then new else [c] := by
  induction text with
  | nil => rfl
  | cons c text ih =>
      rw [List.flatMap_cons, ← ih]
      by_cases same : c = old
      · subst same
        rw [if_pos rfl]
        exact replace_occurrence c [] new text
      · rw [if_neg same, replace_cons_kept _ _ _ _ (by simp [List.isPrefixOf, Ne.symm same])]
        rfl

/-- An occurrence that starts before a cut also ends before it. -/
theorem prefix_before_cut {old left right : Text} {cut : Char} (outside : cut ∉ old)
    (found : old <+: left ++ cut :: right) : old <+: left := by
  rcases List.prefix_or_prefix_of_prefix found (List.prefix_append left _) with before | ⟨more, rfl⟩
  · exact before
  · rw [List.prefix_append_right_inj] at found
    cases more with
    | nil => simp
    | cons c more =>
        have same : c = cut := (List.cons_prefix_cons.mp found).1
        exact absurd (by simp [same]) outside

theorem is_prefix_of_cut {old left right : Text} {cut : Char} (outside : cut ∉ old) :
    old.isPrefixOf (left ++ cut :: right) = old.isPrefixOf left := by
  rw [Bool.eq_iff_iff, List.isPrefixOf_iff_prefix, List.isPrefixOf_iff_prefix]
  exact ⟨prefix_before_cut outside, fun before => before.trans (List.prefix_append _ _)⟩

theorem replace_from_cut (old new left right : Text) (cut : Char) (skip : Nat)
    (some_old : old ≠ []) (outside : cut ∉ old) (within : skip ≤ left.length) :
    replaceFrom old new skip (left ++ cut :: right) =
      replaceFrom old new skip left ++ cut :: replace old new right := by
  induction left generalizing skip with
  | nil =>
      obtain rfl : skip = 0 := by simpa using within
      have absent : old.isPrefixOf (cut :: right) = false := by
        have shorter := @is_prefix_of_cut old [] right cut outside
        cases old with
        | nil => exact absurd rfl some_old
        | cons c old => simpa using shorter
      simp [replaceFrom, absent, replace]
  | cons c left ih =>
      cases skip with
      | succ skip =>
          simpa [replaceFrom] using ih skip (by simpa using within)
      | zero =>
          simp only [List.cons_append, replaceFrom]
          rw [show c :: (left ++ cut :: right) = (c :: left) ++ cut :: right from rfl,
            is_prefix_of_cut outside]
          split
          · rename_i found
            have short : old.length ≤ left.length + 1 := by
              simpa using (List.isPrefixOf_iff_prefix.mp found).length_le
            rw [ih (old.length - 1) (by omega), List.append_assoc]
          · rw [ih 0 (Nat.zero_le _), List.cons_append]

theorem replace_cut (old new left right : Text) (cut : Char) (some_old : old ≠ [])
    (outside : cut ∉ old) :
    replace old new (left ++ cut :: right) = replace old new left ++ cut :: replace old new right :=
  replace_from_cut old new left right cut 0 some_old outside (Nat.zero_le _)

/-- Text before the first possible start of an occurrence is passed over. -/
theorem replace_append_of_head_not_mem (head : Char) (old new left right : Text)
    (absent : head ∉ left) :
    replace (head :: old) new (left ++ right) = left ++ replace (head :: old) new right := by
  induction left with
  | nil => rfl
  | cons c left ih =>
      have differs : head ≠ c := fun same => absent (by simp [same])
      have notFound : (head :: old).isPrefixOf (c :: (left ++ right)) = false := by
        simp [List.isPrefixOf, differs]
      rw [List.cons_append, replace_cons_kept _ _ _ _ notFound,
        ih fun member => absent (List.mem_cons_of_mem _ member), List.cons_append]

theorem replace_of_char_not_mem (old new text : Text) (c : Char) (within : c ∈ old)
    (absent : c ∉ text) : replace old new text = text := by
  induction text with
  | nil => rfl
  | cons d text ih =>
      have notFound : old.isPrefixOf (d :: text) = false := by
        rw [Bool.eq_false_iff]
        intro found
        exact absent ((List.isPrefixOf_iff_prefix.mp found).subset within)
      rw [replace_cons_kept _ _ _ _ notFound,
        ih fun member => absent (List.mem_cons_of_mem _ member)]

theorem replace_absent (old new text : Text) (absent : ¬old <:+: text) :
    replace old new text = text := by
  induction text with
  | nil => rfl
  | cons c text ih =>
      have notFound : old.isPrefixOf (c :: text) = false := by
        rw [Bool.eq_false_iff]
        exact fun found => absent (List.isPrefixOf_iff_prefix.mp found).isInfix
      rw [replace_cons_kept _ _ _ _ notFound, ih fun later => absent (List.infix_cons later)]

theorem removed_length (old text : Text) (skip : Nat) :
    (replaceFrom old [] skip text).length ≤ text.length := by
  induction text generalizing skip with
  | nil => simp [replaceFrom]
  | cons c text ih =>
      cases skip with
      | succ skip => exact (ih skip).trans (Nat.le_succ _)
      | zero =>
          simp only [replaceFrom]
          split
          · exact (ih (old.length - 1)).trans (Nat.le_succ _)
          · exact Nat.succ_le_succ (ih 0)

theorem removed_shorter (old text : Text) (found : old <:+: text) (some_old : old ≠ []) :
    (replace old [] text).length < text.length := by
  induction text with
  | nil => exact absurd (List.infix_nil.mp found) some_old
  | cons c text ih =>
      cases start : old.isPrefixOf (c :: text) with
      | true =>
          simp only [replace, replaceFrom, start, if_true, List.nil_append, List.length_cons]
          exact Nat.lt_succ_of_le (removed_length old text _)
      | false =>
          rw [replace_cons_kept _ _ _ _ start]
          rcases List.infix_cons_iff.mp found with first | later
          · exact absurd (List.isPrefixOf_iff_prefix.mpr first) (Bool.eq_false_iff.mp start)
          · exact Nat.succ_lt_succ (ih later)

/-- Removing a text leaves another as it is only where it does not occur. -/
theorem removed_same_iff (old text : Text) (some_old : old ≠ []) :
    replace old [] text = text ↔ ¬old <:+: text := by
  constructor
  · intro same found
    have shorter := removed_shorter old text found some_old
    rw [same] at shorter
    exact Nat.lt_irrefl _ shorter
  · exact replace_absent old [] text

theorem replace_from_chars (old new text : Text) (skip : Nat) (c : Char)
    (member : c ∈ replaceFrom old new skip text) : c ∈ new ∨ c ∈ text := by
  induction text generalizing skip with
  | nil => simp [replaceFrom] at member
  | cons d text ih =>
      cases skip with
      | succ skip =>
          rcases ih skip member with inNew | inText
          · exact Or.inl inNew
          · exact Or.inr (List.mem_cons_of_mem _ inText)
      | zero =>
          simp only [replaceFrom] at member
          split at member
          · rcases List.mem_append.mp member with inNew | later
            · exact Or.inl inNew
            · rcases ih _ later with inNew | inText
              · exact Or.inl inNew
              · exact Or.inr (List.mem_cons_of_mem _ inText)
          · rcases List.mem_cons.mp member with rfl | later
            · exact Or.inr (by simp)
            · rcases ih _ later with inNew | inText
              · exact Or.inl inNew
              · exact Or.inr (List.mem_cons_of_mem _ inText)

theorem replace_chars (old new text : Text) (c : Char) (member : c ∈ replace old new text) :
    c ∈ new ∨ c ∈ text :=
  replace_from_chars old new text 0 c member

end TfuServer.Replace
