import TfuServer.Json.Escaped
import TfuServer.Json.Lengths
import TfuServer.Server.Answers

/-!
# Wrapped bodies

A body may be the document itself or an object that has the text of the document
for its `body`. The apostrophes are restored in the whole body before anything is
parsed: in the text itself, or in the text with its escapes. The two shapes are
told apart by a comparison in the culture of the process, and a document that it
takes for the other shape is not parsed.
-/

namespace TfuServer

set_option autoImplicit false

open Numeral Program
open Json (mustEscape mayEscape Escape Escaped runStr hexValue)

theorem mark_needs_no_escape : ∀ c ∈ mark, mayEscape c = false := by
  have every := List.all_eq_true.mp (rfl : (mark.all fun c => !mayEscape c) = true)
  simpa using every

theorem escape_starts (c : Char) (spelling : Text) (escape : Escape c spelling) :
    ∃ rest, spelling = '\\' :: rest := by
  cases escape with
  | short letter named => exact ⟨_, rfl⟩
  | digits first second third fourth number => exact ⟨_, rfl⟩

theorem alphanum_prefix_escaped (front text body : Text) (escaped : Escaped text body)
    (alphanum : ∀ c ∈ front, c.isAlphanum = true) (found : front <+: body) : front <+: text := by
  induction escaped generalizing front with
  | nil => exact found
  | @kept text body c raw rest ih =>
      cases front with
      | nil => exact List.nil_prefix
      | cons d front =>
          rw [List.cons_prefix_cons] at found ⊢
          exact ⟨found.1, ih front (fun e member => alphanum e (List.mem_cons_of_mem _ member))
            found.2⟩
  | @escaped text body c spelling special escape rest ih =>
      cases front with
      | nil => exact List.nil_prefix
      | cons d front =>
          obtain ⟨tail, rfl⟩ := escape_starts c spelling escape
          rw [List.cons_append, List.cons_prefix_cons] at found
          exact absurd (found.1 ▸ alphanum d (by simp)) (by decide)

theorem escaped_append (front rest body : Text) (kept : ∀ c ∈ front, mayEscape c = false)
    (escaped : Escaped (front ++ rest) body) :
    ∃ tail, body = front ++ tail ∧ Escaped rest tail := by
  induction front generalizing body with
  | nil => exact ⟨body, rfl, escaped⟩
  | cons c front ih =>
      rw [List.forall_mem_cons] at kept
      cases escaped with
      | kept _ raw others =>
          obtain ⟨tail, rfl, spelled⟩ := ih _ kept.2 others
          exact ⟨tail, rfl, spelled⟩
      | escaped _ spelling special escape others =>
          rw [kept.1] at special
          cases special

theorem digits_not_unit (c : Char) (n : Nat) (digit : hexValue c = some n) : 'u' ≠ c := by
  rintro rfl
  cases digit

theorem restore_escape (c : Char) (spelling rest : Text) (escape : Escape c spelling)
    (other : c ≠ '\'') :
    restoreApostrophes (spelling ++ rest) = spelling ++ restoreApostrophes rest := by
  cases escape with
  | short letter named =>
      simp only [List.cons_append, List.nil_append]
      rw [restore_cons '\\' _ (by decide),
        restore_cons letter _ (Json.short_not_unit letter c named)]
  | digits first second third fourth number =>
      have absent : ¬mark <+: 'u' :: [first, second, third, fourth] ++ rest := by
        rintro ⟨after, same⟩
        cases same
        have apostrophe : 0x27 = c.toNat := Option.some.inj number
        exact other (by rw [← Char.ofNat_toNat c, ← apostrophe])
      obtain ⟨one, two, three, four, hasOne, hasTwo, hasThree, hasFour, -⟩ :=
        Json.hex_number_values first second third fourth _ number
      have digits : 'u' ∉ [first, second, third, fourth] := by
        simp only [List.mem_cons, List.not_mem_nil, or_false, not_or]
        exact ⟨digits_not_unit _ _ hasOne, digits_not_unit _ _ hasTwo,
          digits_not_unit _ _ hasThree, digits_not_unit _ _ hasFour⟩
      have passed := restore_passes [first, second, third, fourth] rest digits
      simp only [List.cons_append, List.nil_append] at absent passed ⊢
      rw [restore_cons '\\' _ (by decide), restore_kept 'u' _ absent, passed]

theorem not_special_apostrophe (c : Char) (special : mayEscape c = true) : c ≠ '\'' := by
  rintro rfl
  cases special

theorem run_escaped (text body read : Text) (escaped : Escaped text body) :
    runStr .newtonsoft (.plain read) (restoreApostrophes body) =
      some (.plain (read ++ restoreApostrophes text)) := by
  induction size : text.length using Nat.strong_induction_on generalizing text body read with
  | _ length ih =>
      by_cases found : mark <+: text
      · obtain ⟨after, rfl⟩ := found
        obtain ⟨tail, rfl, rest⟩ := escaped_append mark after body mark_needs_no_escape escaped
        have shorter : after.length < length := by
          rw [← size, List.length_append]
          exact Nat.lt_add_of_pos_left (by decide)
        rw [restore_mark, restore_mark, Json.run_str_raw .newtonsoft read _ '\'' rfl,
          ih after.length shorter after tail (read ++ ['\'']) rest rfl]
        simp
      · cases escaped with
        | nil => simp [restoreApostrophes, runStr]
        | @kept text body c raw rest =>
            have absent : ¬mark <+: c :: body := fun marked =>
              found (alphanum_prefix_escaped mark _ _ (.kept c raw rest) mark_alphanum marked)
            rw [restore_kept c body absent, restore_kept c text found,
              Json.run_str_raw .newtonsoft read _ c raw,
              ih text.length (by simp [← size]) text body (read ++ [c]) rest rfl]
            simp
        | @escaped text body c spelling special escape rest =>
            rw [restore_escape c spelling body escape (not_special_apostrophe c special),
              restore_kept c text found, Json.run_str_append,
              Json.run_str_escape .newtonsoft read c spelling escape]
            simp only
            rw [ih text.length (by simp [← size]) text body (read ++ [c]) rest rfl]
            simp

/-- The object that has the text with these escapes for its `body`. -/
def wrapped (body : Text) : Text := "\x7b\"body\":\"".toList ++ body ++ "\"\x7d".toList

/-- Newtonsoft takes a string for a date only where it starts with a digit or a slash. -/
def DatesStart (library : Json.Newtonsoft) : Prop :=
  ∀ text printed, library.dateText text = some printed →
    ∃ c rest, text = c :: rest ∧ (c.isDigit = true ∨ c = '/')

/-- No date prints with a brace. -/
def DatesPrint (library : Json.Newtonsoft) : Prop :=
  ∀ text printed, library.dateText text = some printed → '\x7b' ∉ printed

/-- Beyond the grammar, too, a string is shorter than the text of the object it is in. -/
def StringsShorter (library : Json.Newtonsoft) : Prop :=
  ∀ text members name inner, Json.read .newtonsoft text = .extension →
    library.parse text = some (.obj members) → Json.member members name = some (.str inner) →
    inner.length < text.length

/-- A colon after the quote changes nothing for the comparison. -/
def FindsBody (culture : Culture) : Prop :=
  ∀ rest, culture.startsWith ("\x7b\"body\":".toList ++ rest) "\x7b\"body\"".toList = true

theorem restore_wrapped (body : Text) :
    restoreApostrophes (wrapped body) =
      "\x7b\"body\":\"".toList ++ (restoreApostrophes body ++ "\"\x7d".toList) := by
  have split : wrapped body = "\x7b\"body\":\"".toList ++ (body ++ "\"\x7d".toList) :=
    List.append_assoc _ _ _
  have quoted : "\"\x7d".toList = ['"', '\x7d'] := rfl
  rw [split, restore_passes _ _ (by decide), quoted, restore_quote]
  rfl

theorem read_wrapped (text body : Text) (escaped : Escaped text body) :
    Json.read .newtonsoft (restoreApostrophes (wrapped body)) =
      .value (.obj [("body".toList, .str (restoreApostrophes text))]) := by
  have opened : Json.run .newtonsoft ⟨.value, []⟩ "\x7b\"body\":\"".toList =
      ⟨.str false (.plain []), [.value [] "body".toList]⟩ := rfl
  rw [Json.read, restore_wrapped, Json.run_append, opened, Json.run_append,
    Json.run_of_run_str .newtonsoft false _ _ _ _ (run_escaped text body [] escaped)]
  rfl

section
variable (runtime : Runtime)

/-- The text that the last parse of a body gets. -/
def finalText (body : Text) : Except Failure Text :=
  let body := restoreApostrophes body
  if startsWith runtime body "\x7b\"body\"" then do
    let outer ← Json.parseObject runtime.newtonsoft body
    let inner ← Json.orElse Json.toText [] (← Json.attrValue runtime.newtonsoft outer "body")
    return Server.trimQuotes inner
  else return body

theorem parse_body_final (body : Text) :
    Server.parseBody runtime body =
      match finalText runtime body with
      | .ok text => (Json.parseObject runtime.newtonsoft text).toOption.getD []
      | .error _ => [] := by
  simp only [Server.parseBody, finalText]
  by_cases outer : startsWith runtime (restoreApostrophes body) "\x7b\"body\"" = true
  · simp only [outer, if_true]
    cases Json.parseObject runtime.newtonsoft (restoreApostrophes body) with
    | error failure => rfl
    | ok members =>
        cases held : Json.attrValue runtime.newtonsoft members "body" with
        | error failure => simp [held, bind, Except.bind]
        | ok value =>
            cases inner : Json.orElse Json.toText [] value with
            | error failure => simp [held, inner, bind, Except.bind]
            | ok text =>
                simp only [held, inner, bind, Except.bind, pure, Except.pure]
                cases Json.parseObject runtime.newtonsoft (Server.trimQuotes text) <;> rfl
  · simp only [outer, Bool.false_eq_true, if_false]
    simp only [pure, Except.pure]
    cases Json.parseObject runtime.newtonsoft (restoreApostrophes body) <;> rfl

theorem restore_braces (text : Text) (begins : text.head? = some '\x7b')
    (ends : text.getLast? = some '\x7d') :
    ∃ middle, restoreApostrophes text = '\x7b' :: (middle ++ ['\x7d']) := by
  cases text with
  | nil => cases begins
  | cons c rest =>
      obtain rfl := Option.some.inj begins
      obtain ⟨front, whole⟩ := List.getLast?_eq_some_iff.mp ends
      cases front with
      | nil => cases whole
      | cons d front =>
          obtain ⟨rfl, rfl⟩ := List.cons.inj whole
          refine ⟨restoreApostrophes front, ?_⟩
          rw [restore_cons '\x7b' _ (by decide)]
          exact congrArg _ (Replace.replace_cut mark ['\''] front [] '\x7d' (by decide) (by decide))

theorem trim_braces (middle : Text) :
    Server.trimQuotes ('\x7b' :: (middle ++ ['\x7d'])) = '\x7b' :: (middle ++ ['\x7d']) := by
  simp [Server.trimQuotes, Json.trim]

theorem final_text_plain (text : Text)
    (plain : startsWith runtime (restoreApostrophes text) "\x7b\"body\"" = false) :
    finalText runtime text = .ok (restoreApostrophes text) := by
  simp only [finalText, plain, Bool.false_eq_true, if_false]
  rfl

theorem braced_no_date (dates : DatesStart runtime.newtonsoft) (rest : Text) :
    runtime.newtonsoft.dateText ('\x7b' :: rest) = none := by
  cases taken : runtime.newtonsoft.dateText ('\x7b' :: rest) with
  | none => rfl
  | some printed =>
      obtain ⟨c, others, same, start⟩ := dates _ printed taken
      obtain ⟨rfl, -⟩ := List.cons.inj same
      exact absurd start (by decide)

theorem final_text_wrapped (dates : DatesStart runtime.newtonsoft)
    (finds : FindsBody runtime.culture) (text body : Text)
    (escaped : Escaped text body) (begins : text.head? = some '\x7b')
    (ends : text.getLast? = some '\x7d') :
    finalText runtime (wrapped body) = .ok (restoreApostrophes text) := by
  obtain ⟨middle, shape⟩ := restore_braces text begins ends
  have outer : startsWith runtime (restoreApostrophes (wrapped body)) "\x7b\"body\"" = true := by
    rw [restore_wrapped]
    exact finds ('"' :: (restoreApostrophes body ++ "\"\x7d".toList))
  have parsed : Json.parseObject runtime.newtonsoft (restoreApostrophes (wrapped body)) =
      .ok [("body".toList, .str (restoreApostrophes text))] := by
    rw [Json.parseObject, runtime.newtonsoft.parse_value _ _ (read_wrapped text body escaped)]
  have held : Json.attrValue runtime.newtonsoft
      [("body".toList, .str (restoreApostrophes text))] "body" =
        .ok (.string (restoreApostrophes text)) := by
    have found : Json.attrValue runtime.newtonsoft
        [("body".toList, .str (restoreApostrophes text))] "body" =
          .ok (Json.holdString runtime.newtonsoft (restoreApostrophes text)) := rfl
    rw [found, Json.hold_string_text]
    rw [shape]
    exact braced_no_date runtime dates _
  simp only [finalText, outer, if_true, parsed, held, bind, Except.bind]
  rw [shape]
  exact congrArg Except.ok (trim_braces middle)

theorem number_no_brace (text : Text) (number : isNumber text = true) : '\x7b' ∉ text :=
  fun inside => absurd (number_chars text number _ inside) (by decide)

theorem floating_no_brace (value : Floating) : '\x7b' ∉ value.text := by
  cases value with
  | finite number => exact number_no_brace _ number.wellFormed
  | nonFinite kind => cases kind <;> decide

theorem braced_string (held : Json.Held) (inner : Text)
    (converted : Json.orElse Json.toText [] held = .ok inner) (brace : '\x7b' ∈ inner) :
    held = .string inner ∨ held = .dateTime inner := by
  cases held with
  | null =>
      cases converted
      cases brace
  | bool value =>
      cases converted
      cases value <;> exact absurd brace (by decide)
  | long n =>
      cases converted
      exact absurd brace (number_no_brace _ (int_text_is_number n.toInt))
  | bigInteger n => cases converted
  | double value =>
      cases converted
      exact absurd brace (floating_no_brace value)
  | string text =>
      cases converted
      exact Or.inl rfl
  | dateTime printed =>
      cases converted
      exact Or.inr rfl

theorem hold_text (library : Json.Newtonsoft) (token : Json) (text : Text)
    (held : Json.hold library token = .ok (.string text)) : token = .str text := by
  cases token with
  | number numeral =>
      simp only [Json.hold, Json.holdNumber, Except.ok.injEq] at held
      split at held
      · split at held <;> cases held
      · cases held
  | str inner =>
      simp only [Json.hold, Json.holdString, Except.ok.injEq] at held
      split at held
      · cases held
      · cases held
        rfl
  | _ => cases held

theorem hold_date (library : Json.Newtonsoft) (token : Json) (printed : Text)
    (held : Json.hold library token = .ok (.dateTime printed)) :
    ∃ text, library.dateText text = some printed := by
  cases token with
  | number numeral =>
      simp only [Json.hold, Json.holdNumber, Except.ok.injEq] at held
      split at held
      · split at held <;> cases held
      · cases held
  | str inner =>
      simp only [Json.hold, Json.holdString, Except.ok.injEq] at held
      split at held
      · cases held
        exact ⟨inner, ‹_›⟩
      · cases held
  | _ => cases held

theorem parsed_string_shorter (shorter : StringsShorter runtime.newtonsoft)
    (rest name inner : Text) (members : Members)
    (parsed : Json.parseObject runtime.newtonsoft ('\x7b' :: rest) = .ok members)
    (found : Json.member members name = some (.str inner)) :
    inner.length < ('\x7b' :: rest).length := by
  have whole : runtime.newtonsoft.parse ('\x7b' :: rest) = some (.obj members) := by
    unfold Json.parseObject at parsed
    split at parsed
    · cases parsed
      assumption
    · cases parsed
  cases read : Json.read .newtonsoft ('\x7b' :: rest) with
  | value value =>
      have same := (runtime.newtonsoft.parse_value _ value read).symm.trans whole
      rw [Option.some.inj same] at read
      exact Json.member_shorter .newtonsoft rest name inner members read found
  | malformed => cases (runtime.newtonsoft.parse_malformed _ read).symm.trans whole
  | extension => exact shorter _ members name inner read whole found

theorem braced_shorter (prints : DatesPrint runtime.newtonsoft)
    (shorter : StringsShorter runtime.newtonsoft) (rest inner : Text) (members : Members)
    (held : Json.Held)
    (parsed : Json.parseObject runtime.newtonsoft ('\x7b' :: rest) = .ok members)
    (value : Json.attrValue runtime.newtonsoft members "body" = .ok held)
    (converted : Json.orElse Json.toText [] held = .ok inner) (brace : '\x7b' ∈ inner) :
    inner.length < ('\x7b' :: rest).length := by
  unfold Json.attrValue at value
  cases found : Json.member members "body".toList with
  | none =>
      rw [found] at value
      cases value
      cases converted
      cases brace
  | some token =>
      rw [found] at value
      rcases braced_string held inner converted brace with rfl | rfl
      · rw [hold_text _ token inner value] at found
        exact parsed_string_shorter runtime shorter rest _ inner members parsed found
      · obtain ⟨text, printed⟩ := hold_date _ token inner value
        exact absurd brace (prints text inner printed)

theorem trim_sublist (drop : Char → Bool) (text : Text) :
    List.Sublist (Json.trim drop text) text := by
  have back := (List.dropWhile_suffix drop (l := (text.dropWhile drop).reverse)).sublist
  have front := (List.dropWhile_suffix drop (l := text)).sublist
  have turned := back.reverse
  rw [List.reverse_reverse] at turned
  exact turned.trans front

/-- The final parse never gets the document that was taken for a wrapped one: it gets a
string of the document, or a text without a brace. -/
theorem final_text_differs (prints : DatesPrint runtime.newtonsoft)
    (shorter : StringsShorter runtime.newtonsoft) (text rest final : Text)
    (shape : restoreApostrophes text = '\x7b' :: rest)
    (found : startsWith runtime (restoreApostrophes text) "\x7b\"body\"" = true)
    (read : finalText runtime text = .ok final) : final ≠ restoreApostrophes text := by
  rintro rfl
  simp only [finalText, found, if_true] at read
  rw [shape] at read
  cases parsed : Json.parseObject runtime.newtonsoft ('\x7b' :: rest) with
  | error failure => simp [parsed, bind, Except.bind] at read
  | ok members =>
      cases value : Json.attrValue runtime.newtonsoft members "body" with
      | error failure => simp [parsed, value, bind, Except.bind] at read
      | ok held =>
          cases converted : Json.orElse Json.toText [] held with
          | error failure => simp [parsed, value, converted, bind, Except.bind] at read
          | ok inner =>
              simp only [parsed, value, converted, bind, Except.bind, pure, Except.pure,
                Except.ok.injEq] at read
              have kept := trim_sublist (· == '"') inner
              rw [show Json.trim (· == '"') inner = '\x7b' :: rest from read] at kept
              have smaller := braced_shorter runtime prints shorter rest inner members held parsed
                value converted (kept.subset List.mem_cons_self)
              exact absurd kept.length_le (Nat.not_le_of_lt smaller)

end

/-- The final parse gets the same text from both shapes of a body, and a request ends the
same way with either, exactly when the culture does not find the name of the wrapping at the
start of the document. -/
theorem wrapped_body_same_iff (runtime : Runtime) (dates : DatesStart runtime.newtonsoft)
    (prints : DatesPrint runtime.newtonsoft) (shorter : StringsShorter runtime.newtonsoft)
    (finds : FindsBody runtime.culture) (text body : Text) (escaped : Escaped text body)
    (begins : text.head? = some '\x7b') (ends : text.getLast? = some '\x7d') :
    ((∃ final, finalText runtime text = .ok final ∧
          finalText runtime (wrapped body) = .ok final) ∧
        ∀ (request : Request) (world : World),
          exec (Server.dataReceived runtime { request with body := wrapped body }) world =
            exec (Server.dataReceived runtime { request with body := text }) world) ↔
      startsWith runtime (restoreApostrophes text) "\x7b\"body\"" = false := by
  have fromWrapped := final_text_wrapped runtime dates finds text body escaped begins ends
  constructor
  · rintro ⟨⟨final, fromPlain, same⟩, -⟩
    rw [Bool.eq_false_iff]
    intro found
    obtain ⟨middle, shape⟩ := restore_braces text begins ends
    refine final_text_differs runtime prints shorter text _ final shape found fromPlain ?_
    exact (Except.ok.inj (fromWrapped.symm.trans same)).symm
  · intro plain
    have fromPlain := final_text_plain runtime text plain
    refine ⟨⟨_, fromPlain, fromWrapped⟩, fun request world => ?_⟩
    have same : Server.parseBody runtime (wrapped body) = Server.parseBody runtime text := by
      rw [parse_body_final, parse_body_final, fromPlain, fromWrapped]
    simp only [Server.dataReceived, Server.clientPost, same]
    rfl

theorem standard_strings_shorter : StringsShorter standardNewtonsoft := by
  intro text members name inner read parsed
  simp [standardNewtonsoft, read] at parsed

/-- A document with an escaped backslash before u0027, in both shapes. -/
theorem wrapped_body_same_backslash :
    let text := "\x7b\"name\":\"a\\\\u0027\"\x7d".toList
    ((∃ final, finalText .standard text = .ok final ∧
          finalText .standard (wrapped (Json.escape text)) = .ok final) ∧
        ∀ (request : Request) (world : World),
          exec (Server.dataReceived .standard { request with body := wrapped (Json.escape text) })
            world = exec (Server.dataReceived .standard { request with body := text }) world) ↔
      startsWith .standard (restoreApostrophes text) "\x7b\"body\"" = false :=
  wrapped_body_same_iff .standard (fun _ _ printed => by cases printed)
    (fun _ _ printed => by cases printed) standard_strings_shorter
    (fun rest => List.isPrefixOf_iff_prefix.mpr (List.prefix_append _ (':' :: rest))) _ _
    (Json.escaped_escape _) rfl rfl

def visible (c : Char) : Bool := c != '\u00ad'

/-- The comparison of ICU, as far as it ignores soft hyphens. -/
def Culture.hyphenless : Culture where
  startsWith text start := (start.filter visible).isPrefixOf (text.filter visible)
  equalsIgnoreCase left right :=
    (left.filter visible).map Char.toLower == (right.filter visible).map Char.toLower

theorem route_visible (route : Text) (known : routes.contains route = true) :
    route.filter visible = route := by
  have every : (routes.all fun route => route.filter visible == route) = true := rfl
  exact eq_of_beq (List.all_eq_true.mp every route (List.contains_iff_mem.mp known))

theorem hyphenless_one_route (text route other : Text) (differ : routesDiffer route other = true)
    (found : (route.filter visible).isPrefixOf (text.filter visible) = true) :
    (other.filter visible).isPrefixOf (text.filter visible) = false := by
  obtain ⟨known, -⟩ := Bool.and_eq_true_iff.mp differ
  obtain ⟨first, second⟩ := Bool.and_eq_true_iff.mp known
  rw [route_visible route first] at found
  rw [route_visible other second]
  exact ordinal_one_route _ route other differ found

def Runtime.hyphenless : Runtime :=
  { Runtime.standard with
    culture := .hyphenless
    starts_self := fun _ => List.isPrefixOf_iff_prefix.mpr (List.prefix_refl _)
    one_route := hyphenless_one_route }

/-- The body `{"bo-dy":1,"uid":5}` with a soft hyphen is taken for a wrapped one, and a user
without an id is stored; wrapped, the same document stores the user 5. -/
theorem wrapped_body_differs_soft_hyphen :
    let text := "\x7b\"bo\u00addy\":1,\"uid\":5\x7d".toList
    let users : Request := ⟨"POST".toList, "/users".toList, none, text⟩
    (text.head? = some '\x7b' ∧ text.getLast? = some '\x7d' ∧
        "\x7b\"body\"".toList.isPrefixOf text = false ∧ Escaped text (Json.escape text)) ∧
      (DatesStart Runtime.hyphenless.newtonsoft ∧ DatesPrint Runtime.hyphenless.newtonsoft ∧
        StringsShorter Runtime.hyphenless.newtonsoft ∧ FindsBody Runtime.hyphenless.culture) ∧
      finalText .hyphenless text = .ok [] ∧
      finalText .hyphenless (wrapped (Json.escape text)) = .ok text ∧
      (exec (Server.dataReceived .hyphenless users) (.opened .empty)).2.clientDictionary 5 = none ∧
      (exec (Server.dataReceived .hyphenless { users with body := wrapped (Json.escape text) })
        (.opened .empty)).2.clientDictionary 5 = some ⟨5, [], []⟩ := by
  refine ⟨⟨rfl, rfl, rfl, Json.escaped_escape _⟩, ⟨fun _ _ => ?_, fun _ _ => ?_,
    standard_strings_shorter, fun rest => ?_⟩, rfl, rfl, rfl, rfl⟩
  · rintro ⟨⟩
  · rintro ⟨⟩
  · refine List.isPrefixOf_iff_prefix.mpr ?_
    rw [List.filter_append]
    exact List.prefix_append _ (':' :: rest.filter visible)

end TfuServer
