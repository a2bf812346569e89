import TfuServer.Json.ReadBack
import TfuServer.Sql.Literal

/-!
# A document inside an SQL literal

A serialized document that is put into an SQL literal loses one level of
backslashes before it is stored. The stored document has the layout of the
written one, with its strings spelled another way; a string is read back as it
was exactly when it has no character whose escape the literal takes apart.
-/

namespace TfuServer.Json

set_option autoImplicit false

open Sql (decodeLiteral decodeFrom unescape)

section
variable (encoder : JavaScriptEncoder)

def storedChar (c : Char) : Text :=
  if encoder.escapes c then
    match shortEscape c with
    | some d => unescape d
    | none => (units c).flatMap fun unit => 'u' :: hexDigits unit
  else [c]

def stored (text : Text) : Text := text.flatMap (storedChar encoder)

/-- The characters whose escape the literal decodes to the character itself. -/
def keptEscape (c : Char) : Bool := c == '\x08' || c == '\t' || c == '\n' || c == '\r'

def survives (c : Char) : Bool := !encoder.escapes c || keptEscape c

theorem decode_alphanum (text : Text) (alphanum : ∀ c ∈ text, c.isAlphanum = true) :
    decodeLiteral text = some text :=
  Sql.decode_plain text (Sql.plain_of_no_special text
    (fun member => absurd (alphanum '\'' member) (by decide))
    (fun member => absurd (alphanum '\\' member) (by decide)))

theorem decode_units (units : List Nat) :
    decodeLiteral (units.flatMap fun unit => '\\' :: 'u' :: hexDigits unit) =
      some (units.flatMap fun unit => 'u' :: hexDigits unit) := by
  induction units with
  | nil => rfl
  | cons unit units ih =>
      have digits := decode_alphanum (hexDigits unit) (hex_digits_alphanum unit)
      have head : decodeLiteral ('\\' :: 'u' :: hexDigits unit) =
          some ('u' :: hexDigits unit) := by
        simp only [decodeLiteral] at digits
        simp [decodeLiteral, decodeFrom, digits, unescape]
      simp only [List.flatMap_cons]
      rw [Sql.decode_literal_append _ _ _ head, ih]
      rfl

theorem decode_encode_char (c : Char) :
    decodeLiteral (encoder.encodeChar c) = some (storedChar encoder c) := by
  unfold JavaScriptEncoder.encodeChar storedChar
  split
  · cases shortEscape c with
    | some d => simp [decodeLiteral, decodeFrom]
    | none => exact decode_units (units c)
  · rename_i kept
    have quote : c ≠ '\'' := by
      rintro rfl
      simp [JavaScriptEncoder.escapes, alwaysEscaped] at kept
    have slash : c ≠ '\\' := by
      rintro rfl
      simp [JavaScriptEncoder.escapes, alwaysEscaped] at kept
    rw [Sql.decode_ordinary c [] quote slash]
    rfl

theorem decode_encode (text : Text) :
    decodeLiteral (encoder.encode text) = some (stored encoder text) := by
  induction text with
  | nil => rfl
  | cons c text ih =>
      simp only [JavaScriptEncoder.encode, stored, List.flatMap_cons] at ih ⊢
      rw [Sql.decode_literal_append _ _ _ (decode_encode_char encoder c), ih]
      rfl

theorem alphanum_survives (c : Char) (alphanum : c.isAlphanum = true) :
    survives encoder c = true := by
  simp [survives, alphanum_not_escaped encoder c alphanum]

theorem stored_char_of_survives (c : Char) (kept : survives encoder c = true) :
    storedChar encoder c = [c] := by
  unfold storedChar
  split
  · rename_i escaped
    simp only [survives, escaped, Bool.not_true, Bool.false_or, keptEscape, Bool.or_eq_true,
      beq_iff_eq] at kept
    rcases kept with ((rfl | rfl) | rfl) | rfl <;> rfl
  · rfl

theorem stored_char_slash : storedChar encoder '\\' = ['\\'] := by
  have escaped : encoder.escapes '\\' = true := by
    simp [JavaScriptEncoder.escapes, alwaysEscaped]
  simp [storedChar, escaped, shortEscape, unescape]

theorem slash_not_survives : survives encoder '\\' = false := by
  simp [survives, JavaScriptEncoder.escapes, alwaysEscaped, keptEscape]

theorem stored_char_chars (c d : Char) (other : c ≠ '\\') (member : d ∈ storedChar encoder c) :
    survives encoder d = true := by
  unfold storedChar at member
  split at member
  · rename_i escaped
    cases shape : shortEscape c with
    | some short =>
        simp only [shape] at member
        unfold shortEscape at shape
        split_ifs at shape with back tab line feed carriage <;>
          (obtain rfl := Option.some.inj shape
           simp only [unescape, Char.reduceEq, if_true, if_false, or_self,
             List.mem_singleton] at member
           subst member) <;>
          first
            | exact alphanum_survives encoder _ (by decide)
            | simp [survives, keptEscape]
    | none =>
        simp only [shape, List.mem_flatMap, List.mem_cons] at member
        obtain ⟨unit, -, rfl | digit⟩ := member
        · exact alphanum_survives encoder _ (by decide)
        · exact alphanum_survives encoder d (hex_digits_alphanum unit d digit)
  · rename_i kept
    rw [List.mem_singleton] at member
    simp [survives, member, kept]

theorem stored_chars (text : Text) (d : Char) (member : d ∈ stored encoder text) :
    d = '\\' ∨ survives encoder d = true := by
  obtain ⟨c, -, written⟩ := List.mem_flatMap.mp member
  by_cases slash : c = '\\'
  · subst slash
    rw [stored_char_slash, List.mem_singleton] at written
    exact Or.inl written
  · exact Or.inr (stored_char_chars encoder c d slash written)

theorem stored_of_survives (text : Text) (kept : ∀ c ∈ text, survives encoder c = true ∨ c = '\\') :
    stored encoder text = text := by
  induction text with
  | nil => rfl
  | cons c text ih =>
      have tail := ih fun d member => kept d (List.mem_cons_of_mem _ member)
      have head : storedChar encoder c = [c] := by
        rcases kept c (by simp) with survive | slash
        · exact stored_char_of_survives encoder c survive
        · exact slash ▸ stored_char_slash encoder
      simp only [stored, List.flatMap_cons, head] at tail ⊢
      simp [tail]

theorem stored_quoteless (text : Text) : '"' ∉ stored encoder text := by
  intro member
  rcases stored_chars encoder text '"' member with slash | survive
  · exact absurd slash (by decide)
  · exact absurd survive
      (by simp [survives, JavaScriptEncoder.escapes, alwaysEscaped, keptEscape])

def storedSpelling : Spelling where
  body := stored encoder
  quoteless := stored_quoteless encoder
  letters := fun name letters => stored_of_survives encoder name fun c member =>
    Or.inl (alphanum_survives encoder c (alpha_alphanum c (List.all_eq_true.mp letters c member)))

theorem layout_char_plain (c : Char) (char : layoutChar c = true) : c ≠ '\'' ∧ c ≠ '\\' := by
  constructor <;> rintro rfl <;> exact absurd char (by decide)

theorem decode_raw (text : Text) (clean : text.all layoutChar = true) :
    decodeLiteral text = some text :=
  have plain := fun c member => layout_char_plain c (List.all_eq_true.mp clean c member)
  Sql.decode_plain text (Sql.plain_of_no_special text (fun member => (plain _ member).1 rfl)
    (fun member => (plain _ member).2 rfl))

theorem decode_text_of (pieces : List Piece) (shaped : Shaped pieces) :
    decodeLiteral (textOf encoder.spelling pieces) =
      some (textOf (storedSpelling encoder) pieces) := by
  induction pieces with
  | nil => rfl
  | cons piece pieces ih =>
      have rest := ih fun text member => shaped text (List.mem_cons_of_mem _ member)
      cases piece with
      | raw text =>
          rw [textOf, textOf,
            Sql.decode_literal_append _ _ _ (decode_raw text (shaped text (by simp))), rest]
          rfl
      | quoted text =>
          have encoded : decodeLiteral (encoder.spelling.body text) =
              some ((storedSpelling encoder).body text) := decode_encode encoder text
          simp only [textOf]
          rw [Sql.decode_ordinary '"' _ (by decide) (by decide),
            Sql.decode_literal_append _ _ _ encoded,
            Sql.decode_ordinary '"' _ (by decide) (by decide), rest]
          rfl

/-- What is stored when a serialized document is written into a literal. -/
theorem decode_serialize (layout : Layout) (document : Document) :
    decodeLiteral (serialize encoder layout document) =
      some (textOf (storedSpelling encoder) (write layout 0 document)) :=
  decode_text_of encoder _ (write_shaped layout 0 document)

end

section
variable (counted : Char → Bool)

/-- The counted characters a mode stands for, an open escape taken for one. -/
def StrMode.weight : StrMode → Nat
  | .plain text => text.countP counted
  | .escape text => text.countP counted + 1
  | .hex text none _ _ => text.countP counted + 1
  | .hex text (some _) _ _ => text.countP counted + 2
  | .high text _ => text.countP counted + 1
  | .highEscape text _ => text.countP counted + 2

def StrMode.inEscape : StrMode → Bool
  | .plain _ | .high _ _ => false
  | _ => true

theorem count_push (text : Text) (c : Char) :
    (text ++ [c]).countP counted ≤ text.countP counted + 1 := by
  rw [List.countP_append, List.countP_singleton]
  split <;> omega

theorem count_push_raw (text : Text) (c : Char) :
    (text ++ [c]).countP counted = text.countP counted + if counted c then 1 else 0 := by
  rw [List.countP_append, List.countP_singleton]

theorem finish_unit_weight (text : Text) (high : Option Nat) (digits value unit : Nat) :
    (finishUnit text high unit).weight counted ≤
      (StrMode.hex text high digits value).weight counted := by
  cases high with
  | none =>
      simp only [finishUnit]
      split_ifs <;> simp only [StrMode.weight, le_refl, count_push]
  | some first =>
      have two (d : Char) : (text ++ [replacement, d]).countP counted ≤
          text.countP counted + 2 := by
        have once := count_push counted (text ++ [replacement]) d
        have first := count_push counted text replacement
        simp only [List.append_assoc, List.singleton_append] at once
        omega
      simp only [finishUnit]
      split_ifs <;> simp only [StrMode.weight]
      · have once := count_push counted text
          (Char.ofNat (0x10000 + (first - 0xD800) * 0x400 + (unit - 0xDC00)))
        omega
      · have once := count_push counted text replacement
        omega
      · exact two _

theorem escape_step_weight (text : Text) (c : Char) (next : StrMode)
    (stepped : escapeStep .newtonsoft text c = .more next) :
    next.weight counted ≤ text.countP counted + 1 := by
  unfold escapeStep at stepped
  split_ifs at stepped
  · cases stepped
    exact Nat.le_refl _
  · split at stepped
    · cases stepped
      exact count_push counted text _
    · cases stepped

theorem str_step_weight (mode next : StrMode) (c : Char)
    (stepped : strStep .newtonsoft mode c = .more next) :
    next.weight counted ≤ mode.weight counted +
      if mode.inEscape then 0 else if c = '\\' then 1 else if counted c then 1 else 0 := by
  cases mode with
  | plain text =>
      simp only [strStep, plainStep, rawAllowed, if_true] at stepped
      split_ifs at stepped with quote slash
      · cases stepped
        simp [StrMode.weight, StrMode.inEscape, slash]
      · cases stepped
        simp only [StrMode.weight, StrMode.inEscape, slash, count_push_raw, if_false,
          Bool.false_eq_true, le_refl]
  | escape text =>
      have bound := escape_step_weight counted text c next stepped
      simpa [StrMode.weight, StrMode.inEscape] using bound
  | hex text high digits value =>
      simp only [strStep] at stepped
      split at stepped
      · cases stepped
      · split_ifs at stepped
        · cases stepped
          cases high <;> simp [StrMode.weight]
        · cases stepped
          exact Nat.le_trans (finish_unit_weight counted text high digits value _)
            (Nat.le_add_right _ _)
  | high text unit =>
      have pushed := count_push counted text replacement
      simp only [strStep, plainStep, rawAllowed, if_true] at stepped
      split_ifs at stepped with slash quote
      · cases stepped
        simp [StrMode.weight, StrMode.inEscape, slash]
      · cases stepped
        simp only [StrMode.weight, StrMode.inEscape, slash, if_false, Bool.false_eq_true]
        rw [count_push_raw]
        omega
  | highEscape text unit =>
      have pushed := count_push counted text replacement
      simp only [strStep] at stepped
      split_ifs at stepped
      · cases stepped
        simp [StrMode.weight, StrMode.inEscape]
      · have bound := escape_step_weight counted _ c next stepped
        have whole : (StrMode.highEscape text unit).weight counted =
            text.countP counted + 2 := rfl
        rw [whole]
        simp only [StrMode.inEscape, if_true]
        omega

def cost (c : Char) : Nat := if c = '\\' then 1 else if counted c then 1 else 0

theorem run_str_weight (mode final : StrMode) (text : Text)
    (ran : runStr .newtonsoft mode text = some final) :
    final.weight counted ≤ mode.weight counted + (text.map (cost counted)).sum := by
  induction text generalizing mode with
  | nil =>
      cases ran
      simp
  | cons c text ih =>
      simp only [runStr] at ran
      cases stepped : strStep .newtonsoft mode c with
      | more next =>
          simp only [stepped] at ran
          have once := str_step_weight counted mode next c stepped
          have rest := ih next ran
          have bound : (if mode.inEscape then 0 else cost counted c) ≤ cost counted c := by
            split <;> omega
          simp only [List.map_cons, List.sum_cons]
          simp only [cost] at bound rest once ⊢
          omega
      | close closed => simp [stepped] at ran
      | bad => simp [stepped] at ran

theorem close_weight (mode : StrMode) (text : Text)
    (closed : strStep .newtonsoft mode '"' = .close text) :
    text.countP counted ≤ mode.weight counted ∧ mode.inEscape = false := by
  cases mode with
  | plain body =>
      cases closed
      exact ⟨Nat.le_refl _, rfl⟩
  | high body unit =>
      cases closed
      exact ⟨count_push counted body replacement, rfl⟩
  | escape body => cases closed
  | hex body high digits value => cases closed
  | highEscape body unit => cases closed

/-- The counted characters of a string that is read are paid for by its body. -/
theorem read_body_weight (body text : Text) (read : readBody .newtonsoft body = some text) :
    text.countP counted ≤ (body.map (cost counted)).sum := by
  unfold readBody at read
  cases ran : runStr .newtonsoft (.plain []) body with
  | none => simp [ran] at read
  | some mode =>
      simp only [ran] at read
      have spent := run_str_weight counted (.plain []) mode body ran
      cases closed : strStep .newtonsoft mode '"' with
      | close final =>
          simp only [closed, Option.some.injEq] at read
          subst read
          have last := (close_weight counted mode final closed).1
          have empty : (StrMode.plain []).weight counted = 0 := rfl
          omega
      | more next => simp [closed] at read
      | bad => simp [closed] at read

end

theorem cost_all (text : Text) : (text.map (cost fun _ => true)).sum = text.length := by
  induction text with
  | nil => rfl
  | cons c text ih => simp [cost, ih, Nat.add_comm]

theorem run_str_shorter (text body : Text) (final : StrMode) (slash : '\\' ∈ body)
    (ran : runStr .newtonsoft (.plain text) body = some final) (closes : final.inEscape = false) :
    final.weight (fun _ => true) < text.length + body.length := by
  induction body generalizing text with
  | nil => simp at slash
  | cons c rest ih =>
      by_cases here : c = '\\'
      · subst here
        have opened : runStr .newtonsoft (.escape text) rest = some final := ran
        cases rest with
        | nil =>
            cases opened
            cases closes
        | cons d rest =>
            simp only [runStr] at opened
            cases stepped : strStep .newtonsoft (.escape text) d with
            | more next =>
                simp only [stepped] at opened
                have once := str_step_weight (fun _ => true) _ next d stepped
                have later := run_str_weight (fun _ => true) next final rest opened
                have start : (StrMode.escape text).weight (fun _ => true) = text.length + 1 := by
                  simp [StrMode.weight]
                rw [cost_all] at later
                simp only [StrMode.inEscape, if_true] at once
                simp only [List.length_cons]
                omega
            | close closed => simp [stepped] at opened
            | bad => simp [stepped] at opened
      · simp only [runStr, strStep, plainStep, rawAllowed, if_neg here, if_true] at ran
        split_ifs at ran
        have later : '\\' ∈ rest := (List.mem_cons.mp slash).resolve_left (Ne.symm here)
        have shorter := ih (text ++ [c]) later ran
        simp only [List.length_append, List.length_singleton] at shorter
        simp only [List.length_cons]
        omega

theorem read_body_shorter (body text : Text) (slash : '\\' ∈ body)
    (read : readBody .newtonsoft body = some text) : text.length < body.length := by
  unfold readBody at read
  cases ran : runStr .newtonsoft (.plain []) body with
  | none => simp [ran] at read
  | some mode =>
      simp only [ran] at read
      cases closed : strStep .newtonsoft mode '"' with
      | close final =>
          simp only [closed, Option.some.injEq] at read
          subst read
          obtain ⟨last, open_⟩ := close_weight (fun _ => true) mode final closed
          have shorter := run_str_shorter [] body mode slash ran open_
          simp only [List.length_nil, Nat.zero_add, List.countP_true] at shorter last
          omega
      | more next => simp [closed] at read
      | bad => simp [closed] at read

theorem run_str_plain (text body : Text) (quoteless : '"' ∉ body) (slashless : '\\' ∉ body) :
    runStr .newtonsoft (.plain text) body = some (.plain (text ++ body)) := by
  induction body generalizing text with
  | nil => simp [runStr]
  | cons c rest ih =>
      have quote : c ≠ '"' := fun same => quoteless (by simp [same])
      have slash : c ≠ '\\' := fun same => slashless (by simp [same])
      simp only [runStr, strStep, plainStep, rawAllowed, if_neg quote, if_neg slash, if_true]
      rw [ih (text ++ [c]) (fun member => quoteless (List.mem_cons_of_mem _ member))
        (fun member => slashless (List.mem_cons_of_mem _ member))]
      simp

theorem read_body_plain (body : Text) (quoteless : '"' ∉ body) (slashless : '\\' ∉ body) :
    readBody .newtonsoft body = some body := by
  simp [readBody, run_str_plain [] body quoteless slashless, strStep, plainStep]

section
variable (encoder : JavaScriptEncoder)

/-- The characters that do not survive are paid for by the backslashes that are stored. -/
theorem stored_cost (text : Text) :
    ((stored encoder text).map (cost fun c => !survives encoder c)).sum = text.count '\\' := by
  induction text with
  | nil => rfl
  | cons c text ih =>
      have head : ((storedChar encoder c).map (cost fun c => !survives encoder c)).sum =
          if c = '\\' then 1 else 0 := by
        by_cases slash : c = '\\'
        · subst slash
          rw [stored_char_slash]
          rfl
        · rw [if_neg slash, List.sum_eq_zero_iff_forall_eq_nat]
          intro paid member
          obtain ⟨d, written, rfl⟩ := List.mem_map.mp member
          have survive := stored_char_chars encoder c d slash written
          have other : d ≠ '\\' := by
            rintro rfl
            exact absurd survive (by simp [slash_not_survives])
          simp [cost, other, survive]
      simp only [stored, List.flatMap_cons, List.map_append, List.sum_append] at ih ⊢
      rw [head, ih, List.count_cons, Nat.add_comm]
      simp

theorem only_slashes_lost (text : Text)
    (few : text.countP (fun c => !survives encoder c) ≤ text.count '\\') (c : Char)
    (member : c ∈ text) : survives encoder c = true ∨ c = '\\' := by
  induction text with
  | nil => simp at member
  | cons d text ih =>
      have least (rest : Text) : rest.count '\\' ≤ rest.countP fun c => !survives encoder c := by
        refine List.countP_mono_left fun e _ same => ?_
        simp [beq_iff_eq.mp same, slash_not_survives]
      have tail := least text
      rw [List.countP_cons, List.count_cons] at few
      have here : survives encoder d = true ∨ d = '\\' := by
        by_contra lost
        obtain ⟨fails, other⟩ := not_or.mp lost
        simp only [fails, beq_iff_eq, other, Bool.not_false, if_true, if_false] at few
        omega
      have later : text.countP (fun c => !survives encoder c) ≤ text.count '\\' := by
        rcases here with survive | slash
        · simp only [survive, Bool.not_true, Bool.false_eq_true, if_false] at few
          have other : d ≠ '\\' := by
            rintro rfl
            exact absurd survive (by simp [slash_not_survives])
          simpa [other] using few
        · subst slash
          simpa [slash_not_survives] using few
      rcases List.mem_cons.mp member with rfl | rest
      · exact here
      · exact ih later rest

/-- A stored string is read back as it was exactly when each of its characters survives. -/
theorem read_stored_iff (text : Text) :
    readBody .newtonsoft (stored encoder text) = some text ↔
      ∀ c ∈ text, survives encoder c = true := by
  constructor
  · intro read
    have paid := read_body_weight (fun c => !survives encoder c) _ text read
    rw [stored_cost] at paid
    have only := only_slashes_lost encoder text paid
    intro c member
    refine (only c member).resolve_right fun slash => ?_
    rw [stored_of_survives encoder text only] at read
    exact absurd (read_body_shorter text text (slash ▸ member) read) (Nat.lt_irrefl _)
  · intro survive
    have same := stored_of_survives encoder text fun c member => Or.inl (survive c member)
    rw [same]
    refine read_body_plain text (same ▸ stored_quoteless encoder text) fun member => ?_
    exact absurd (survive _ member) (by simp [slash_not_survives])

theorem read_stored_slashless (text : Text) (slashless : '\\' ∉ text) :
    readBody .newtonsoft (stored encoder text) = some (stored encoder text) := by
  refine read_body_plain _ (stored_quoteless encoder text) fun member => ?_
  obtain ⟨c, inText, written⟩ := List.mem_flatMap.mp member
  have other : c ≠ '\\' := fun same => slashless (same ▸ inText)
  have survive := stored_char_chars encoder c '\\' other written
  exact absurd survive (by simp [slash_not_survives])

end

end TfuServer.Json
