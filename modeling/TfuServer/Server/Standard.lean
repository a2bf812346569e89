import TfuServer.Server.Server

/-!
# A concrete runtime

The parts outside the program as they behave on ordinary inputs: a document
within the grammar, no date among its strings, numerals in the form they print
in, a database that is up.
-/

namespace TfuServer

set_option autoImplicit false

open Numeral

def finiteText (text : Text) : Option Floating :=
  if wellFormed : isNumber text = true then
    if short : text.length ≤ 40 then some (.finite ⟨⟨text, wellFormed⟩, short⟩) else none
  else none

theorem finite_text_own (number : PrintedNumber) :
    finiteText number.text = some (.finite number) := by
  simp [finiteText, number.wellFormed, number.short]

def finiteInteger (n : Int) : Floating :=
  (finiteText (intText n)).getD (.nonFinite .infinity)

/-- A double past the largest one is an infinity. -/
def standardDouble (number : JsonNumber) : Floating :=
  if 2 ^ 1024 ≤ |number.value| then
    .nonFinite (if number.value < 0 then .negativeInfinity else .infinity)
  else (finiteText number.text).getD (.finite (.ofInt32 0))

def standardNewtonsoft : Json.Newtonsoft where
  parse := fun text =>
    match Json.read .newtonsoft text with
    | .value value => some value
    | _ => none
  parse_value := fun text value read => by simp [read]
  parse_malformed := fun text read => by simp [read]
  dateText := fun _ => none
  date_text_shape := fun _ _ printed => by simp at printed
  roundDouble := standardDouble
  parseDouble := fun text =>
    if wellFormed : isNumber text = true then some (standardDouble ⟨text, wellFormed⟩) else none
  parseSingle := finiteText
  singleOfDouble := id
  singleOfInteger := finiteInteger
  doubleToInteger := fun double =>
    match double with
    | .finite number => some number.value.floor
    | .nonFinite _ => none
  single_of_double_text := fun _ number _ => finite_text_own number
  single_of_integer_text := fun _ number _ => finite_text_own number
  parse_single_text := fun _ number _ => finite_text_own number
  parse_single_zero := rfl

/-- The culture of a process without globalization data. -/
def Culture.ordinal : Culture where
  startsWith text start := start.isPrefixOf text
  equalsIgnoreCase left right := left.map Char.toLower == right.map Char.toLower

theorem ordinal_one_route (text route other : Text) (differ : routesDiffer route other = true)
    (found : route.isPrefixOf text = true) : other.isPrefixOf text = false := by
  obtain ⟨-, apart⟩ := Bool.and_eq_true_iff.mp differ
  obtain ⟨notShorter, notLonger⟩ := Bool.or_eq_false_iff.mp ((Bool.not_eq_true' _).mp apart)
  rw [Bool.eq_false_iff]
  intro also
  rcases List.prefix_or_prefix_of_prefix (List.isPrefixOf_iff_prefix.mp also)
    (List.isPrefixOf_iff_prefix.mp found) with shorter | longer
  · exact absurd (List.isPrefixOf_iff_prefix.mpr shorter) (by simp [notShorter])
  · exact absurd (List.isPrefixOf_iff_prefix.mpr longer) (by simp [notLonger])

def Runtime.standard : Runtime where
  culture := .ordinal
  starts_self text := List.isPrefixOf_iff_prefix.mpr (List.prefix_refl text)
  one_route := ordinal_one_route
  newtonsoft := standardNewtonsoft
  unicodeAll := ⟨fun _ => false⟩
  urlDecode := id
  settings := ⟨fun _ => none, fun _ => none, fun left right => left.toLower == right.toLower⟩
  outcome := fun _ => .works
  shuffle := fun _ rows => rows
  shuffle_perm := fun _ rows => .refl rows
  foreign := fun _ _ => none

/-- A process that has just been started on these tables. -/
def World.fresh (tables : Tables) : World where
  tables
  imageManager := none
  clientManager := none
  scheduleDic := fun _ => none
  sharedScheduleDic := fun _ => none
  httpListener := 0
  listening := false
  serving := false
  log := []
  failedCalls := 0

/-- The same with its listener open. -/
def World.opened (tables : Tables) : World :=
  { World.fresh tables with listening := true, serving := true }

def Tables.empty : Tables := fun _ => []

end TfuServer
