import TfuServer.Json.ReadBack

/-!
# Newtonsoft's documents

What a program gets from a parsed document: the parser itself, the .NET value a
scalar holds, and its conversions. What the library leaves to the runtime
(rounding, dates, the syntax beyond the grammar) stands in a structure together
with the facts that are documented about it.
-/

namespace TfuServer

set_option autoImplicit false

open Numeral

inductive Failure where
  | invalidCast | overflow | format | jsonReader | argument | indexOutOfRange
  | connection | listener
  deriving DecidableEq, Repr

abbrev Members := List (Text × Json)

namespace Json

structure Newtonsoft where
  parse : Text → Option Json
  parse_value : ∀ text value, read .newtonsoft text = .value value → parse text = some value
  parse_malformed : ∀ text, read .newtonsoft text = .malformed → parse text = none
  /-- How the date prints that a string is taken for. -/
  dateText : Text → Option Text
  date_text_shape : ∀ text printed, dateText text = some printed →
    ('T' ∈ text ∨ text.head? = some '/') ∧ 'T' ∉ printed ∧ printed.head? ≠ some '/'
  roundDouble : JsonNumber → Floating
  parseDouble : Text → Option Floating
  parseSingle : Text → Option Floating
  singleOfDouble : Floating → Floating
  singleOfInteger : Int → Floating
  /-- Rounds half to even; `none` when there is no such 64-bit number. -/
  doubleToInteger : Floating → Option Int
  single_of_double_text : ∀ double number, singleOfDouble double = .finite number →
    parseSingle number.text = some (.finite number)
  single_of_integer_text : ∀ n number, singleOfInteger n = .finite number →
    parseSingle number.text = some (.finite number)
  parse_single_text : ∀ text number, parseSingle text = some (.finite number) →
    parseSingle number.text = some (.finite number)
  parse_single_zero : parseSingle "0".toList = some (.finite (.ofInt32 0))

def isBlank (c : Char) : Bool := c == ' ' || (9 ≤ c.toNat && c.toNat ≤ 13)

def trim (drop : Char → Bool) (text : Text) : Text :=
  ((text.dropWhile drop).reverse.dropWhile drop).reverse

def trimEnd (drop : Char → Bool) (text : Text) : Text := (text.reverse.dropWhile drop).reverse

/-- `int.Parse` and `long.Parse`, before the range is checked. NULs at the end are ignored. -/
def parseInteger (text : Text) : Option Int :=
  match trim isBlank (trimEnd (· == '\x00') text) with
  | '-' :: digits => (readNat digits).map fun n => -(n : Int)
  | '+' :: digits => (readNat digits).map fun n => (n : Int)
  | digits => (readNat digits).map fun n => (n : Int)

/-- `char.IsWhiteSpace`. -/
def isWhiteSpace (c : Char) : Bool :=
  isBlank c || c.toNat == 0x85 || c.toNat == 0xa0 || c.toNat == 0x1680 ||
    (0x2000 ≤ c.toNat && c.toNat ≤ 0x200a) || c.toNat == 0x2028 || c.toNat == 0x2029 ||
    c.toNat == 0x202f || c.toNat == 0x205f || c.toNat == 0x3000

/-- `bool.Parse`. -/
def parseBool (text : Text) : Option Bool :=
  let word := (trim (fun c => isWhiteSpace c || c == '\x00') text).map Char.toLower
  if word = "true".toList then some true
  else if word = "false".toList then some false else none

inductive Held where
  | null
  | bool (value : Bool)
  | long (n : Int64)
  | bigInteger (n : Int)
  | double (value : Floating)
  | string (text : Text)
  | dateTime (printed : Text)
  deriving DecidableEq

section
variable (library : Newtonsoft)

/-- `JObject.Parse`. -/
def parseObject (text : Text) : Except Failure Members :=
  match library.parse text with
  | some (.obj members) => .ok members
  | _ => .error .jsonReader

/-- `JArray.Parse`. -/
def parseArray (text : Text) : Except Failure (List Json) :=
  match library.parse text with
  | some (.arr items) => .ok items
  | _ => .error .jsonReader

def holdNumber (numeral : JsonNumber) : Held :=
  match readInt numeral.text with
  | some n =>
      match toInt64 n with
      | some long => .long long
      | none => .bigInteger n
  | none => .double (library.roundDouble numeral)

def holdString (text : Text) : Held :=
  match library.dateText text with
  | some printed => .dateTime printed
  | none => .string text

/-- `token.Value<JValue>()`: containers cannot be cast. -/
def hold : Json → Except Failure Held
  | .null => .ok .null
  | .bool value => .ok (.bool value)
  | .number numeral => .ok (holdNumber library numeral)
  | .nonFinite kind => .ok (.double (.nonFinite kind))
  | .str text => .ok (holdString library text)
  | .arr _ | .obj _ | .call => .error .invalidCast

/-- The value of an attribute, `null` when it is absent. -/
def attrValue (members : Members) (name : String) : Except Failure Held :=
  match member members name.toList with
  | some token => hold library token
  | none => .ok .null

def inRange {Value : Type} (narrow : Int → Option Value) (n : Int) :
    Except Failure (Option Value) :=
  match narrow n with
  | some value => .ok (some value)
  | none => .error .overflow

def toWhole {Value : Type} (narrow : Int → Option Value) :
    Held → Except Failure (Option Value)
  | .null => .ok none
  | .bool value => inRange narrow (if value then 1 else 0)
  | .long n => inRange narrow n.toInt
  | .double value =>
      match library.doubleToInteger value with
      | some n => inRange narrow n
      | none => .error .overflow
  | .string text =>
      match parseInteger text with
      | some n => inRange narrow n
      | none => .error .format
  | .bigInteger _ | .dateTime _ => .error .invalidCast

def toByte (n : Int) : Option Int32 :=
  if 0 ≤ n ∧ n ≤ 255 then some (Int32.ofInt n) else none

def toText : Held → Except Failure (Option Text)
  | .null => .ok none
  | .bool value => .ok (some (if value then "True" else "False").toList)
  | .long n => .ok (some (intText n.toInt))
  | .double value => .ok (some value.text)
  | .string text => .ok (some text)
  | .dateTime printed => .ok (some printed)
  | .bigInteger _ => .error .invalidCast

def toDouble : Held → Except Failure (Option Floating)
  | .null => .ok none
  | .bool value => .ok (some (.finite (.ofInt32 (if value then 1 else 0))))
  | .long n => .ok (some (library.roundDouble (.ofInt n.toInt)))
  | .double value => .ok (some value)
  | .string text =>
      match library.parseDouble text with
      | some value => .ok (some value)
      | none => .error .format
  | .bigInteger _ | .dateTime _ => .error .invalidCast

def toSingle : Held → Except Failure (Option Floating)
  | .null => .ok none
  | .bool value => .ok (some (library.singleOfInteger (if value then 1 else 0)))
  | .long n => .ok (some (library.singleOfInteger n.toInt))
  | .double value => .ok (some (library.singleOfDouble value))
  | .string text =>
      match library.parseSingle text with
      | some value => .ok (some value)
      | none => .error .format
  | .bigInteger _ | .dateTime _ => .error .invalidCast

def toBool : Held → Except Failure (Option Bool)
  | .null => .ok none
  | .bool value => .ok (some value)
  | .long n => .ok (some (n != 0))
  | .double (.finite numeral) => .ok (some (numeral.value != 0))
  | .double (.nonFinite _) => .ok (some true)
  | .string text =>
      match parseBool text with
      | some value => .ok (some value)
      | none => .error .format
  | .bigInteger _ | .dateTime _ => .error .invalidCast

/-- `x?.Value<T?>() ?? fallback`. -/
def orElse {Value : Type} (convert : Held → Except Failure (Option Value)) (fallback : Value)
    (held : Held) : Except Failure Value :=
  (convert held).map fun value => value.getD fallback

/-- `JToken.ToString()` of a scalar. -/
def Held.print : Held → Text
  | .null => []
  | .bool value => (if value then "True" else "False").toList
  | .long n => intText n.toInt
  | .bigInteger n => intText n
  | .double value => value.text
  | .string text => text
  | .dateTime printed => printed

/-- `int.Parse(token.ToString())`; a container prints with brackets. -/
def parseToken (token : Json) : Except Failure Int32 :=
  match hold library token with
  | .ok held =>
      match parseInteger held.print with
      | some n =>
          match toInt32 n with
          | some value => .ok value
          | none => .error .overflow
      | none => .error .format
  | .error _ => .error .format

theorem hold_number_int (n : Int64) : holdNumber library (.ofInt n.toInt) = .long n := by
  simp [holdNumber, read_int_text]

theorem hold_string_text (text : Text) (plain : library.dateText text = none) :
    holdString library text = .string text := by
  simp [holdString, plain]

end

end Json
end TfuServer
