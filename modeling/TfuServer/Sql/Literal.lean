import TfuServer.Sql.Lexer

/-!
# What a quoted literal holds

A program that builds SQL by concatenation puts a text between two quotes. This
module says when that text stays inside its literal and what it is decoded to,
and that a text comes back as it was exactly when it has no quote and no
backslash that decodes.
-/

namespace TfuServer.Sql

set_option autoImplicit false

/-- What the last character of a literal may still combine with. -/
inductive Pending where
  | none | quote | slash
  deriving DecidableEq, Repr

def decodeFrom : Pending → Text → Option Text
  | .none, [] => some []
  | .quote, [] => none
  | .slash, [] => none
  | .none, c :: rest =>
      if c = '\'' then decodeFrom .quote rest
      else if c = '\\' then decodeFrom .slash rest
      else (decodeFrom .none rest).map (c :: ·)
  | .quote, c :: rest =>
      if c = '\'' then (decodeFrom .none rest).map (c :: ·) else none
  | .slash, c :: rest => (decodeFrom .none rest).map (unescape c ++ ·)

/-- The value of a text placed between quotes; `none` when it would end the
literal itself or leave an escape open for the closing quote. -/
def decodeLiteral (text : Text) : Option Text := decodeFrom .none text

def readFrom : Pending → Text → Option (Text × Text)
  | .none, [] => none
  | .quote, [] => some ([], [])
  | .slash, [] => none
  | .none, c :: rest =>
      if c = '\'' then readFrom .quote rest
      else if c = '\\' then readFrom .slash rest
      else (readFrom .none rest).map fun read => (c :: read.1, read.2)
  | .quote, c :: rest =>
      if c = '\'' then (readFrom .none rest).map fun read => (c :: read.1, read.2)
      else some ([], c :: rest)
  | .slash, c :: rest => (readFrom .none rest).map fun read => (unescape c ++ read.1, read.2)

/-- Reads from just after the opening quote: the value and what follows the closing one. -/
def readLiteral (text : Text) : Option (Text × Text) := readFrom .none text

def plainFrom : Bool → Text → Bool
  | afterSlash, [] => !afterSlash
  | false, c :: rest => c != '\'' && plainFrom (c == '\\') rest
  | true, c :: rest => (c == '%' || c == '_') && plainFrom false rest

/-- No quote, and no backslash but the ones a literal keeps (before `%` and `_`). -/
def Plain (text : Text) : Prop := plainFrom false text = true

instance (text : Text) : Decidable (Plain text) := inferInstanceAs (Decidable (_ = _))

theorem unescape_length (c : Char) : 1 ≤ (unescape c).length ∧ (unescape c).length ≤ 2 := by
  unfold unescape
  split_ifs <;> simp

theorem unescape_kept (c : Char) : unescape c = ['\\', c] ↔ (c = '%' ∨ c = '_') := by
  unfold unescape
  split_ifs <;> simp_all

theorem unescape_long (c : Char) (long : (unescape c).length = 2) : c = '%' ∨ c = '_' := by
  unfold unescape at long
  split_ifs at long <;> simp_all

theorem plain_of_no_special (text : Text) (quote : '\'' ∉ text) (slash : '\\' ∉ text) :
    Plain text := by
  unfold Plain
  induction text with
  | nil => rfl
  | cons c rest ih =>
      have notQuote : c ≠ '\'' := fun same => quote (by simp [same])
      have notSlash : c ≠ '\\' := fun same => slash (by simp [same])
      simp only [plainFrom, notQuote, bne_iff_ne, ne_eq, not_false_eq_true,
        Bool.and_eq_true, true_and, beq_eq_false_iff_ne.mpr notSlash]
      exact ih (fun member => quote (List.mem_cons_of_mem _ member))
        (fun member => slash (List.mem_cons_of_mem _ member))

/-- Decoding never makes a text longer; the pending character counts. -/
theorem decode_from_length (pending : Pending) (text value : Text)
    (decoded : decodeFrom pending text = some value) :
    value.length ≤ text.length + (if pending = .none then 0 else 1) := by
  induction text generalizing pending value with
  | nil => cases pending <;> simp_all [decodeFrom]
  | cons c rest ih =>
      cases pending with
      | none =>
          simp only [decodeFrom] at decoded
          split_ifs at decoded with quote slash
          · simpa using ih .quote value decoded
          · simpa using ih .slash value decoded
          · obtain ⟨tail, tailDecoded, rfl⟩ := Option.map_eq_some_iff.mp decoded
            simpa using ih .none tail tailDecoded
      | quote =>
          simp only [decodeFrom] at decoded
          split_ifs at decoded
          obtain ⟨tail, tailDecoded, rfl⟩ := Option.map_eq_some_iff.mp decoded
          have shorter := ih .none tail tailDecoded
          simp at shorter ⊢
          omega
      | slash =>
          obtain ⟨tail, tailDecoded, rfl⟩ := Option.map_eq_some_iff.mp decoded
          have shorter := ih .none tail tailDecoded
          have short := unescape_length c
          simp at shorter ⊢
          omega

theorem decode_plain (text : Text) (plain : Plain text) : decodeLiteral text = some text := by
  have both : ∀ text : Text,
      (plainFrom false text = true → decodeFrom .none text = some text) ∧
      (plainFrom true text = true → decodeFrom .slash text = some ('\\' :: text)) := by
    intro text
    induction text with
    | nil => simp [plainFrom, decodeFrom]
    | cons c rest ih =>
        constructor
        · intro plain
          simp only [plainFrom, bne_iff_ne, Bool.and_eq_true] at plain
          obtain ⟨notQuote, tail⟩ := plain
          by_cases slash : c = '\\'
          · subst slash
            simpa [decodeFrom] using ih.2 (by simpa using tail)
          · rw [beq_eq_false_iff_ne.mpr slash] at tail
            simp [decodeFrom, notQuote, slash, ih.1 tail]
        · intro plain
          simp only [plainFrom, Bool.and_eq_true, Bool.or_eq_true, beq_iff_eq] at plain
          obtain ⟨kept, tail⟩ := plain
          simp [decodeFrom, ih.1 tail, (unescape_kept c).mpr kept]
  exact (both text).1 plain

theorem plain_of_decode (text : Text) (decoded : decodeLiteral text = some text) :
    Plain text := by
  have both : ∀ text : Text,
      (decodeFrom .none text = some text → plainFrom false text = true) ∧
      (decodeFrom .slash text = some ('\\' :: text) → plainFrom true text = true) := by
    intro text
    induction text with
    | nil => simp [plainFrom, decodeFrom]
    | cons c rest ih =>
        constructor
        · intro decoded
          simp only [decodeFrom] at decoded
          split_ifs at decoded with quote slash
          · exfalso
            cases rest with
            | nil => simp [decodeFrom] at decoded
            | cons d more =>
                simp only [decodeFrom] at decoded
                split_ifs at decoded
                obtain ⟨tail, tailDecoded, same⟩ := Option.map_eq_some_iff.mp decoded
                have shorter := decode_from_length .none more tail tailDecoded
                have lengths := congrArg List.length same
                simp at shorter lengths
                omega
          · subst slash
            simpa [plainFrom] using ih.2 decoded
          · obtain ⟨tail, tailDecoded, same⟩ := Option.map_eq_some_iff.mp decoded
            rw [(List.cons.inj same).2] at tailDecoded
            simp [plainFrom, quote, beq_eq_false_iff_ne.mpr slash, ih.1 tailDecoded]
        · intro decoded
          obtain ⟨tail, tailDecoded, same⟩ := Option.map_eq_some_iff.mp decoded
          have shorter := decode_from_length .none rest tail tailDecoded
          have short := unescape_length c
          have lengths := congrArg List.length same
          simp at shorter lengths
          have kept := unescape_long c (by omega)
          rw [(unescape_kept c).mpr kept] at same
          obtain rfl : tail = rest := by simpa using same
          simpa [plainFrom, kept] using ih.1 tailDecoded
  exact (both text).1 decoded

theorem decode_iff_plain (text : Text) : decodeLiteral text = some text ↔ Plain text :=
  ⟨plain_of_decode text, decode_plain text⟩

theorem decode_from_append (pending : Pending) (left right value : Text)
    (decoded : decodeFrom pending left = some value) :
    decodeFrom pending (left ++ right) = (decodeLiteral right).map (value ++ ·) := by
  induction left generalizing pending value with
  | nil =>
      cases pending with
      | none =>
          obtain rfl : [] = value := Option.some.inj decoded
          simp [decodeLiteral]
      | quote => simp [decodeFrom] at decoded
      | slash => simp [decodeFrom] at decoded
  | cons c rest ih =>
      cases pending with
      | none =>
          simp only [List.cons_append, decodeFrom] at decoded ⊢
          split_ifs at decoded ⊢ with quote slash
          · exact ih .quote value decoded
          · exact ih .slash value decoded
          · obtain ⟨tail, tailDecoded, rfl⟩ := Option.map_eq_some_iff.mp decoded
            simp [ih .none tail tailDecoded, Function.comp_def]
      | quote =>
          simp only [List.cons_append, decodeFrom] at decoded ⊢
          split_ifs at decoded ⊢
          obtain ⟨tail, tailDecoded, rfl⟩ := Option.map_eq_some_iff.mp decoded
          simp [ih .none tail tailDecoded, Function.comp_def]
      | slash =>
          simp only [List.cons_append, decodeFrom] at decoded ⊢
          obtain ⟨tail, tailDecoded, rfl⟩ := Option.map_eq_some_iff.mp decoded
          simp [ih .none tail tailDecoded, Function.comp_def]

theorem decode_literal_append (left right value : Text)
    (decoded : decodeLiteral left = some value) :
    decodeLiteral (left ++ right) = (decodeLiteral right).map (value ++ ·) :=
  decode_from_append .none left right value decoded

theorem read_from_append (pending : Pending) (left right value : Text)
    (decoded : decodeFrom pending left = some value) :
    readFrom pending (left ++ right) =
      (readLiteral right).map fun read => (value ++ read.1, read.2) := by
  induction left generalizing pending value with
  | nil =>
      cases pending with
      | none =>
          obtain rfl : [] = value := Option.some.inj decoded
          simp [readLiteral]
      | quote => simp [decodeFrom] at decoded
      | slash => simp [decodeFrom] at decoded
  | cons c rest ih =>
      cases pending with
      | none =>
          simp only [List.cons_append, decodeFrom, readFrom] at decoded ⊢
          split_ifs at decoded ⊢ with quote slash
          · exact ih .quote value decoded
          · exact ih .slash value decoded
          · obtain ⟨tail, tailDecoded, rfl⟩ := Option.map_eq_some_iff.mp decoded
            simp [ih .none tail tailDecoded, Function.comp_def]
      | quote =>
          simp only [List.cons_append, decodeFrom, readFrom] at decoded ⊢
          split_ifs at decoded ⊢
          obtain ⟨tail, tailDecoded, rfl⟩ := Option.map_eq_some_iff.mp decoded
          simp [ih .none tail tailDecoded, Function.comp_def]
      | slash =>
          simp only [List.cons_append, decodeFrom, readFrom] at decoded ⊢
          obtain ⟨tail, tailDecoded, rfl⟩ := Option.map_eq_some_iff.mp decoded
          simp [ih .none tail tailDecoded, Function.comp_def]

theorem read_literal_append (left right value : Text)
    (decoded : decodeLiteral left = some value) :
    readLiteral (left ++ right) =
      (readLiteral right).map fun read => (value ++ read.1, read.2) :=
  read_from_append .none left right value decoded

/-- Where a text stops being the inside of a literal: after a decodable part it
has a lone quote, or it ends in a quote or backslash that the closing quote
would combine with. -/
theorem decode_none_shape (text : Text) (undecoded : decodeLiteral text = none) :
    ∃ before value, decodeLiteral before = some value ∧
      ((∃ c more, c ≠ '\'' ∧ text = before ++ '\'' :: c :: more) ∨
        ∃ last, (last = '\'' ∨ last = '\\') ∧ text = before ++ [last]) := by
  induction length : text.length using Nat.strong_induction_on generalizing text with
  | _ n ih =>
      have further (front rest value : Text) (decoded : decodeLiteral front = some value)
          (shape : text = front ++ rest) (some_front : front ≠ []) :
          ∃ before value, decodeLiteral before = some value ∧
            ((∃ c more, c ≠ '\'' ∧ text = before ++ '\'' :: c :: more) ∨
              ∃ last, (last = '\'' ∨ last = '\\') ∧ text = before ++ [last]) := by
        have undecodedRest : decodeLiteral rest = none := by
          rw [shape, decode_literal_append front rest value decoded] at undecoded
          simpa using undecoded
        have shorter : rest.length < n := by
          have positive := List.length_pos_iff.mpr some_front
          rw [← length, shape, List.length_append]
          omega
        obtain ⟨before, tail, tailDecoded, stops⟩ := ih _ shorter rest undecodedRest rfl
        refine ⟨front ++ before, value ++ tail, ?_, ?_⟩
        · rw [decode_literal_append front before value decoded, tailDecoded]
          rfl
        · rcases stops with ⟨c, more, single, same⟩ | ⟨last, special, same⟩
          · exact Or.inl ⟨c, more, single, by rw [shape, same, List.append_assoc]⟩
          · exact Or.inr ⟨last, special, by rw [shape, same, List.append_assoc]⟩
      cases text with
      | nil => simp [decodeLiteral, decodeFrom] at undecoded
      | cons c rest =>
          by_cases quote : c = '\''
          · subst quote
            cases rest with
            | nil => exact ⟨[], [], rfl, Or.inr ⟨'\'', Or.inl rfl, rfl⟩⟩
            | cons d more =>
                by_cases doubled : d = '\''
                · subst doubled
                  exact further ['\'', '\''] more ['\''] rfl rfl (by simp)
                · exact ⟨[], [], rfl, Or.inl ⟨d, more, doubled, rfl⟩⟩
          · by_cases slash : c = '\\'
            · subst slash
              cases rest with
              | nil => exact ⟨[], [], rfl, Or.inr ⟨'\\', Or.inr rfl, rfl⟩⟩
              | cons d more =>
                  exact further ['\\', d] more (unescape d)
                    (by simp [decodeLiteral, decodeFrom]) rfl (by simp)
            · exact further [c] rest [c] (by simp [decodeLiteral, decodeFrom, quote, slash]) rfl
                (by simp)

theorem decode_quote_pair (first : Char) (rest : Text) (special : first = '\'' ∨ first = '\\') :
    decodeLiteral (first :: '\'' :: rest) = (decodeLiteral rest).map ('\'' :: ·) := by
  rcases special with rfl | rfl <;> simp [decodeLiteral, decodeFrom, unescape]

theorem read_quote_pair (first : Char) (rest : Text) (special : first = '\'' ∨ first = '\\') :
    readLiteral (first :: '\'' :: rest) =
      (readLiteral rest).map fun read => ('\'' :: read.1, read.2) := by
  rcases special with rfl | rfl <;> simp [readLiteral, readFrom, unescape]

theorem decode_ordinary (c : Char) (rest : Text) (quote : c ≠ '\'') (slash : c ≠ '\\') :
    decodeLiteral (c :: rest) = (decodeLiteral rest).map (c :: ·) := by
  simp [decodeLiteral, decodeFrom, quote, slash]

theorem read_ordinary (c : Char) (rest : Text) (quote : c ≠ '\'') (slash : c ≠ '\\') :
    readLiteral (c :: rest) = (readLiteral rest).map fun read => (c :: read.1, read.2) := by
  simp [readLiteral, readFrom, quote, slash]

theorem decode_lone_quote (c : Char) (rest : Text) (single : c ≠ '\'') :
    decodeLiteral ('\'' :: c :: rest) = none := by
  simp [decodeLiteral, decodeFrom, single]

theorem read_closing (c : Char) (rest : Text) (single : c ≠ '\'') :
    readLiteral ('\'' :: c :: rest) = some ([], c :: rest) := by
  simp [readLiteral, readFrom, single]

/-- The descent: a text that ends in a quote or backslash, and whose value runs
over the closing quote into what follows it, would have to contain a shorter
text of the same kind. -/
theorem no_text_reads_over_its_end (body value rest : Text) (last next : Char)
    (decoded : decodeLiteral body = some value) (special : last = '\'' ∨ last = '\\')
    (nextQuote : next ≠ '\'') (nextSlash : next ≠ '\\') :
    body ++ [last] ≠ value ++ '\'' :: next :: rest := by
  induction length : body.length using Nat.strong_induction_on
    generalizing body value rest last with
  | _ n ih =>
      intro same
      have lastNext : last ≠ next := by
        rintro rfl
        rcases special with rfl | rfl
        · exact nextQuote rfl
        · exact nextSlash rfl
      rcases List.eq_nil_or_concat rest with rfl | ⟨inner, final, rfl⟩
      · have ends : body ++ [last] = (value ++ ['\'']) ++ [next] := by simpa using same
        exact lastNext (by simpa using (List.append_inj' ends rfl).2)
      · have ends : body ++ [last] = (value ++ '\'' :: next :: inner) ++ [final] := by
          simpa using same
        obtain ⟨bodyShape, -⟩ := List.append_inj' ends rfl
        have shorter : value.length < n := by
          rw [← length, bodyShape]
          simp
        cases valueDecoded : decodeLiteral value with
        | some again =>
            rw [bodyShape, decode_literal_append value _ again valueDecoded,
              decode_lone_quote next inner nextQuote] at decoded
            simp at decoded
        | none =>
            obtain ⟨before, start, startDecoded, stops⟩ := decode_none_shape value valueDecoded
            rcases stops with ⟨c, more, single, valueShape⟩ | ⟨q, qSpecial, valueShape⟩
            · rw [bodyShape, valueShape, List.append_assoc,
                decode_literal_append before _ start startDecoded] at decoded
              simp [decode_lone_quote c _ single] at decoded
            · rw [bodyShape, valueShape, List.append_assoc,
                decode_literal_append before _ start startDecoded] at decoded
              simp only [List.singleton_append, decode_quote_pair q _ qSpecial,
                decode_ordinary next inner nextQuote nextSlash, Option.map_map,
                Option.map_eq_some_iff] at decoded
              obtain ⟨tail, -, shape⟩ := decoded
              have beforeShorter : before.length < n := by
                have lengths := congrArg List.length valueShape
                simp at lengths
                omega
              exact ih before.length beforeShorter before start tail q startDecoded qSpecial rfl
                (by rw [← shape]; simp)

/-- Whatever follows the literal, as long as it starts with neither a quote nor
a backslash: the text is read back only if it is plain. -/
theorem plain_of_read_back (text rest after : Text) (next : Char)
    (nextQuote : next ≠ '\'') (nextSlash : next ≠ '\\')
    (read : readLiteral (text ++ '\'' :: next :: rest) = some (text, after)) : Plain text := by
  cases decoded : decodeLiteral text with
  | some value =>
      rw [read_literal_append text _ value decoded, read_closing next rest nextQuote] at read
      simp only [Option.map_some, List.append_nil, Option.some.injEq, Prod.mk.injEq] at read
      rw [read.1] at decoded
      exact plain_of_decode text decoded
  | none =>
      exfalso
      obtain ⟨before, value, beforeDecoded, stops⟩ := decode_none_shape text decoded
      rcases stops with ⟨c, more, single, shape⟩ | ⟨last, special, shape⟩
      · rw [shape, List.append_assoc, read_literal_append before _ value beforeDecoded] at read
        simp only [List.cons_append, read_closing c _ single, Option.map_some, List.append_nil,
          Option.some.injEq, Prod.mk.injEq] at read
        have shorter := decode_from_length .none before value beforeDecoded
        rw [read.1] at shorter
        simp at shorter
      · have joined : text ++ '\'' :: next :: rest = before ++ last :: '\'' :: next :: rest := by
          rw [shape]
          simp
        rw [joined, read_literal_append before _ value beforeDecoded,
          read_quote_pair last _ special, read_ordinary next rest nextQuote nextSlash] at read
        simp only [Option.map_map, Option.map_eq_some_iff] at read
        obtain ⟨⟨tail, left⟩, -, same⟩ := read
        refine no_text_reads_over_its_end before value tail last next beforeDecoded special
          nextQuote nextSlash ?_
        rw [← shape]
        simpa using (congrArg Prod.fst same).symm

/-- Whatever follows the literal: if it is read as the value, it decodes to the value. -/
def Determined (written value : Text) : Prop :=
  ∀ next rest after, next ≠ '\'' → next ≠ '\\' →
    readLiteral (written ++ '\'' :: next :: rest) = some (value, after) →
      decodeLiteral written = some value

theorem determined_self (text : Text) : Determined text text := by
  intro next rest after nextQuote nextSlash read
  exact decode_plain text (plain_of_read_back text rest after next nextQuote nextSlash read)

theorem determined_of_decode (written decoded value : Text)
    (decodes : decodeLiteral written = some decoded) : Determined written value := by
  intro next rest after nextQuote nextSlash read
  rw [read_literal_append written _ decoded decodes, read_closing next rest nextQuote] at read
  simp only [Option.map_some, List.append_nil, Option.some.injEq, Prod.mk.injEq] at read
  rw [decodes, read.1]

theorem determined_of_no_quote (written value : Text) (quote : '\'' ∉ value)
    (longer : written.length ≤ value.length) : Determined written value := by
  cases decoded : decodeLiteral written with
  | some other => exact determined_of_decode written other value decoded
  | none =>
      intro next rest after nextQuote nextSlash read
      obtain ⟨before, start, beforeDecoded, stops⟩ := decode_none_shape written decoded
      exfalso
      rcases stops with ⟨c, more, single, shape⟩ | ⟨last, special, shape⟩
      · -- The literal ends too early to be as long as the value.
        rw [shape, List.append_assoc, read_literal_append before _ start beforeDecoded] at read
        simp only [List.cons_append, read_closing c _ single, Option.map_some, List.append_nil,
          Option.some.injEq, Prod.mk.injEq] at read
        have shorter := decode_from_length .none before start beforeDecoded
        have lengths := congrArg List.length shape
        rw [read.1] at shorter
        simp at shorter lengths
        omega
      · -- The closing quote becomes part of the value.
        have joined : written ++ '\'' :: next :: rest = before ++ last :: '\'' :: next :: rest := by
          rw [shape]
          simp
        rw [joined, read_literal_append before _ start beforeDecoded,
          read_quote_pair last _ special] at read
        simp only [Option.map_map, Option.map_eq_some_iff] at read
        obtain ⟨⟨tail, left⟩, -, same⟩ := read
        have value_shape : start ++ '\'' :: tail = value := congrArg Prod.fst same
        apply quote
        rw [← value_shape]
        simp

theorem quote_of_decode (pending : Pending) (text value : Text)
    (decoded : decodeFrom pending text = some value) (quote : '\'' ∈ text) : '\'' ∈ value := by
  induction text generalizing pending value with
  | nil => cases quote
  | cons c rest ih =>
      cases pending with
      | none =>
          simp only [decodeFrom] at decoded
          split_ifs at decoded with single slash
          · cases rest with
            | nil => cases decoded
            | cons d rest =>
                simp only [decodeFrom] at decoded
                split_ifs at decoded with double
                obtain ⟨tail, -, rfl⟩ := Option.map_eq_some_iff.mp decoded
                rw [double]
                exact List.mem_cons_self
          · apply ih .slash value decoded
            exact List.mem_of_ne_of_mem (Ne.symm single) quote
          · obtain ⟨tail, tailDecoded, rfl⟩ := Option.map_eq_some_iff.mp decoded
            have later := List.mem_of_ne_of_mem (Ne.symm single) quote
            exact List.mem_cons_of_mem _ (ih .none tail tailDecoded later)
      | quote =>
          simp only [decodeFrom] at decoded
          split_ifs at decoded with double
          obtain ⟨tail, -, rfl⟩ := Option.map_eq_some_iff.mp decoded
          rw [double]
          exact List.mem_cons_self
      | slash =>
          obtain ⟨tail, tailDecoded, rfl⟩ := Option.map_eq_some_iff.mp decoded
          rw [List.mem_append]
          rcases List.mem_cons.mp quote with rfl | later
          · exact Or.inl (by simp [unescape])
          · exact Or.inr (ih .none tail tailDecoded later)

def Pending.mode (value : Text) : Pending → Mode
  | .none => .quoted '\'' value
  | .quote => .closing '\'' value
  | .slash => .escaped '\'' value

theorem run_decode_from (pending : Pending) (value text decoded : Text) (tokens : List Token)
    (same : decodeFrom pending text = some decoded) :
    run ⟨pending.mode value, tokens⟩ text = ⟨.quoted '\'' (value ++ decoded), tokens⟩ := by
  induction text generalizing pending value decoded with
  | nil => cases pending <;> simp_all [decodeFrom, Pending.mode]
  | cons c rest ih =>
      cases pending with
      | none =>
          simp only [decodeFrom] at same
          simp only [Pending.mode, run_cons, step]
          split_ifs at same ⊢ with quote slash
          · exact ih .quote value decoded same
          · exact ih .slash value decoded same
          · obtain ⟨tail, tailDecoded, rfl⟩ := Option.map_eq_some_iff.mp same
            simpa [Pending.mode] using ih .none (value ++ [c]) tail tailDecoded
      | quote =>
          simp only [decodeFrom] at same
          simp only [Pending.mode, run_cons, step]
          split_ifs at same ⊢ with quote
          obtain ⟨tail, tailDecoded, rfl⟩ := Option.map_eq_some_iff.mp same
          subst quote
          simpa [Pending.mode] using ih .none (value ++ ['\'']) tail tailDecoded
      | slash =>
          obtain ⟨tail, tailDecoded, rfl⟩ := Option.map_eq_some_iff.mp same
          simpa [Pending.mode, step] using ih .none (value ++ unescape c) tail tailDecoded

theorem run_decode_literal (text value : Text) (tokens : List Token)
    (decoded : decodeLiteral text = some value) :
    run ⟨.quoted '\'' [], tokens⟩ text = ⟨.quoted '\'' value, tokens⟩ :=
  run_decode_from .none [] text value tokens decoded

theorem finish_run_read_from (pending : Pending) (value text : Text) (tokens : List Token) :
    finish (run ⟨pending.mode value, tokens⟩ text) =
      (readFrom pending text).bind fun read =>
        finish (run ⟨.normal, .literal (value ++ read.1) :: tokens⟩ read.2) := by
  induction text generalizing pending value with
  | nil => cases pending <;> simp [readFrom, Pending.mode, finish]
  | cons c rest ih =>
      cases pending with
      | none =>
          simp only [readFrom, Pending.mode, run_cons, step]
          split_ifs with quote slash
          · exact ih .quote value
          · exact ih .slash value
          · simpa [Pending.mode, Option.bind_map, Function.comp_def] using ih .none (value ++ [c])
      | quote =>
          simp only [readFrom, Pending.mode, run_cons, step]
          split_ifs with quote
          · subst quote
            simpa [Pending.mode, Option.bind_map, Function.comp_def]
              using ih .none (value ++ ['\''])
          · simp [step]
      | slash =>
          simp only [readFrom, Pending.mode, run_cons, step]
          simpa [Pending.mode, Option.bind_map, Function.comp_def]
            using ih .none (value ++ unescape c)

theorem finish_run_quoted (text : Text) (tokens : List Token) :
    finish (run ⟨.quoted '\'' [], tokens⟩ text) =
      (readLiteral text).bind fun read =>
        finish (run ⟨.normal, .literal read.1 :: tokens⟩ read.2) :=
  finish_run_read_from .none [] text tokens

/-- In the literal that was opened after these tokens, and not behind a quote in it. -/
def Inside (tokens : List Token) (lexer : Lexer) : Prop :=
  ∃ value, lexer = ⟨.quoted '\'' value, tokens⟩ ∨ lexer = ⟨.escaped '\'' value, tokens⟩

theorem step_inside (tokens : List Token) (lexer : Lexer) (c : Char) (other : c ≠ '\'')
    (inside : Inside tokens lexer) : Inside tokens (step lexer c) := by
  obtain ⟨value, rfl | rfl⟩ := inside
  · simp only [step, if_neg other]
    split
    · exact ⟨value, Or.inr rfl⟩
    · exact ⟨value ++ [c], Or.inl rfl⟩
  · exact ⟨value ++ unescape c, Or.inl rfl⟩

theorem run_inside (tokens : List Token) (lexer : Lexer) (text : Text)
    (quoteless : '\'' ∉ text) (inside : Inside tokens lexer) :
    Inside tokens (run lexer text) := by
  induction text generalizing lexer with
  | nil => exact inside
  | cons c text ih =>
      simp only [List.mem_cons, not_or] at quoteless
      exact ih (step lexer c) quoteless.2
        (step_inside tokens lexer c (Ne.symm quoteless.1) inside)

/-- The literal of a builder stays open through the text put into it, and the
quote written after the text ends it. -/
def Confined (builder : Text → Text) (text : Text) : Prop :=
  ∃ front back, (∀ hole, builder hole = front ++ '\'' :: (hole ++ '\'' :: back)) ∧
    ∀ tokens, run ⟨.normal, []⟩ (front ++ ['\'']) = ⟨.quoted '\'' [], tokens⟩ →
      (∀ part rest, text = part ++ rest →
        Inside tokens (run ⟨.normal, []⟩ (front ++ '\'' :: part))) ∧
      ∃ value, decodeLiteral text = some value ∧
        run ⟨.normal, []⟩ (builder text) = run ⟨.normal, .literal value :: tokens⟩ back

theorem confined_of_decoded (builder : Text → Text) (front back text value : Text)
    (shape : ∀ hole, builder hole = front ++ '\'' :: (hole ++ '\'' :: back))
    (after : ∃ c rest, back = c :: rest ∧ c ≠ '\'') (quoteless : '\'' ∉ text)
    (decoded : decodeLiteral text = some value) : Confined builder text := by
  refine ⟨front, back, shape, fun tokens opened => ⟨?_, value, decoded, ?_⟩⟩
  · rintro part rest rfl
    have joined : front ++ '\'' :: part = (front ++ ['\'']) ++ part := by simp
    rw [joined, run_append, opened]
    exact run_inside tokens _ part (fun member => quoteless (List.mem_append_left _ member))
      ⟨[], Or.inl rfl⟩
  · obtain ⟨c, rest, rfl, other⟩ := after
    have joined : front ++ '\'' :: (text ++ '\'' :: c :: rest) =
        (front ++ ['\'']) ++ (text ++ '\'' :: c :: rest) := by simp
    rw [shape, joined, run_append, opened, run_append, run_decode_literal text value tokens decoded]
    simp [step, if_neg other]

end TfuServer.Sql
