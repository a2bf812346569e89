import TfuServer.Text.Numeral

/-!
# Reading JSON

A pushdown reader that takes one character at a time, so that a document put
together from pieces is read piece by piece. Two dialects share it: the grammar
of RFC 8259, and Newtonsoft's, which also takes raw control characters and an
escaped apostrophe in a string. What else Newtonsoft adds to the grammar is not
read here; the reader stops there and says so.
-/

namespace TfuServer

set_option autoImplicit false

open Numeral (JsonNumber NonFinite isNumber)

/-- `nonFinite` and `call` are the tokens only Newtonsoft knows: NaN and the
infinities, and constructor calls. -/
inductive Json where
  | null
  | bool (value : Bool)
  | number (value : JsonNumber)
  | nonFinite (kind : NonFinite)
  | str (value : Text)
  | arr (items : List Json)
  | obj (members : List (Text × Json))
  | call
  deriving Repr

namespace Json

/-- The value of a name; the last of several members with one name counts. -/
def member (members : List (Text × Json)) (name : Text) : Option Json :=
  (members.reverse.find? fun member => member.1 == name).map Prod.snd

inductive Dialect where
  | rfc8259 | newtonsoft
  deriving DecidableEq, Repr

def replacement : Char := '\uFFFD'

def isHighUnit (unit : Nat) : Bool := 0xD800 ≤ unit && unit ≤ 0xDBFF

def isLowUnit (unit : Nat) : Bool := 0xDC00 ≤ unit && unit ≤ 0xDFFF

/-- `high` is a high surrogate that still waits for its low one. -/
inductive StrMode where
  | plain (text : Text)
  | escape (text : Text)
  | hex (text : Text) (high : Option Nat) (digits : Nat) (value : Nat)
  | high (text : Text) (unit : Nat)
  | highEscape (text : Text) (unit : Nat)
  deriving DecidableEq, Repr

inductive StrStep where
  | more (mode : StrMode)
  | close (text : Text)
  | bad
  deriving DecidableEq, Repr

def hexValue (c : Char) : Option Nat :=
  if c.isDigit then some (c.toNat - '0'.toNat)
  else if 'a' ≤ c ∧ c ≤ 'f' then some (c.toNat - 'a'.toNat + 10)
  else if 'A' ≤ c ∧ c ≤ 'F' then some (c.toNat - 'A'.toNat + 10)
  else none

def simpleEscape (dialect : Dialect) (c : Char) : Option Char :=
  if c = '"' ∨ c = '\\' ∨ c = '/' then some c
  else if c = 'b' then some '\x08' else if c = 'f' then some '\x0c'
  else if c = 'n' then some '\n' else if c = 'r' then some '\r' else if c = 't' then some '\t'
  else if c = '\'' ∧ dialect = .newtonsoft then some c else none

def rawAllowed : Dialect → Char → Bool
  | .rfc8259, c => 0x20 ≤ c.toNat
  | .newtonsoft, _ => true

/-- A complete `\uXXXX`: surrogates pair up, and a lone one is replaced. -/
def finishUnit (text : Text) (high : Option Nat) (unit : Nat) : StrMode :=
  match high with
  | none =>
      if isHighUnit unit then .high text unit
      else if isLowUnit unit then .plain (text ++ [replacement])
      else .plain (text ++ [Char.ofNat unit])
  | some first =>
      if isLowUnit unit then
        .plain (text ++ [Char.ofNat (0x10000 + (first - 0xD800) * 0x400 + (unit - 0xDC00))])
      else if isHighUnit unit then .high (text ++ [replacement]) unit
      else .plain (text ++ [replacement, Char.ofNat unit])

def plainStep (dialect : Dialect) (text : Text) (c : Char) : StrStep :=
  if c = '"' then .close text
  else if c = '\\' then .more (.escape text)
  else if rawAllowed dialect c then .more (.plain (text ++ [c])) else .bad

def escapeStep (dialect : Dialect) (text : Text) (c : Char) : StrStep :=
  if c = 'u' then .more (.hex text none 0 0)
  else match simpleEscape dialect c with
    | some d => .more (.plain (text ++ [d]))
    | none => .bad

def strStep (dialect : Dialect) : StrMode → Char → StrStep
  | .plain text, c => plainStep dialect text c
  | .escape text, c => escapeStep dialect text c
  | .hex text high digits value, c =>
      match hexValue c with
      | none => .bad
      | some digit =>
          if digits < 3 then .more (.hex text high (digits + 1) (16 * value + digit))
          else .more (finishUnit text high (16 * value + digit))
  | .high text unit, c =>
      if c = '\\' then .more (.highEscape text unit)
      else plainStep dialect (text ++ [replacement]) c
  | .highEscape text unit, c =>
      if c = 'u' then .more (.hex text (some unit) 0 0)
      else escapeStep dialect (text ++ [replacement]) c

inductive Frame where
  | items (done : List Json)
  | members (done : List (Text × Json))
  | value (done : List (Text × Json)) (name : Text)
  deriving Repr

inductive Mode where
  | value
  | firstItem
  | firstKey
  | key
  | colon (name : Text)
  | after
  | bare (text : Text)
  | str (isKey : Bool) (mode : StrMode)
  | finished (value : Json)
  | malformed
  | extension
  deriving Repr

structure State where
  mode : Mode
  stack : List Frame
  deriving Repr

/-- Newtonsoft's default bound on the nesting of containers. -/
def maxDepth : Nat := 64

/-- The length of a whole number that Newtonsoft still reads. -/
def maxIntegerLength : Nat := 380

def depthAllowed : Dialect → Nat → Bool
  | .rfc8259, _ => true
  | .newtonsoft, depth => depth < maxDepth

def numberAllowed : Dialect → Text → Bool
  | .rfc8259, _ => true
  | .newtonsoft, text =>
      text.length ≤ maxIntegerLength || text.any fun c => c == '.' || c == 'e' || c == 'E'

def complete (value : Json) : List Frame → State
  | [] => ⟨.finished value, []⟩
  | .items done :: stack => ⟨.after, .items (done ++ [value]) :: stack⟩
  | .value done name :: stack => ⟨.after, .members (done ++ [(name, value)]) :: stack⟩
  | .members done :: stack => ⟨.malformed, .members done :: stack⟩

def isWhite (c : Char) : Bool := c == ' ' || c == '\t' || c == '\n' || c == '\r'

def isBare (c : Char) : Bool := c.isAlphanum || c == '+' || c == '-' || c == '.'

/-- Characters that Newtonsoft may skip or take for a comment between tokens. -/
def maybeSkipped (c : Char) : Bool := c == '/' || c.toNat < 0x20 || 0x7f ≤ c.toNat

/-- A character that no token can start with here. -/
def stray (c : Char) (stack : List Frame) : State :=
  ⟨if maybeSkipped c then .extension else .malformed, stack⟩

def startValue (dialect : Dialect) (mode : Mode) (stack : List Frame) (c : Char) : State :=
  if isWhite c then ⟨mode, stack⟩
  else if c = '"' then ⟨.str false (.plain []), stack⟩
  else if c = '[' then
    if depthAllowed dialect stack.length then ⟨.firstItem, .items [] :: stack⟩
    else ⟨.malformed, stack⟩
  else if c = '\x7b' then
    if depthAllowed dialect stack.length then ⟨.firstKey, .members [] :: stack⟩
    else ⟨.malformed, stack⟩
  else if isBare c then ⟨.bare [c], stack⟩
  else ⟨.extension, stack⟩

def startKey (mode : Mode) (stack : List Frame) (c : Char) : State :=
  if isWhite c then ⟨mode, stack⟩
  else if c = '"' then ⟨.str true (.plain []), stack⟩
  else ⟨.extension, stack⟩

def settledStep : State → Char → State
  | ⟨.after, .items done :: stack⟩, c =>
      if isWhite c then ⟨.after, .items done :: stack⟩
      else if c = ',' then ⟨.value, .items done :: stack⟩
      else if c = ']' then complete (.arr done) stack
      else stray c (.items done :: stack)
  | ⟨.after, .members done :: stack⟩, c =>
      if isWhite c then ⟨.after, .members done :: stack⟩
      else if c = ',' then ⟨.key, .members done :: stack⟩
      else if c = '\x7d' then complete (.obj done) stack
      else stray c (.members done :: stack)
  | ⟨.finished value, stack⟩, c => if isWhite c then ⟨.finished value, stack⟩ else stray c stack
  | ⟨_, stack⟩, _ => ⟨.malformed, stack⟩

def completeBare (dialect : Dialect) (text : Text) (stack : List Frame) : State :=
  if wellFormed : isNumber text = true then
    if numberAllowed dialect text then complete (.number ⟨text, wellFormed⟩) stack
    else ⟨.malformed, stack⟩
  else if text = "true".toList then complete (.bool true) stack
  else if text = "false".toList then complete (.bool false) stack
  else if text = "null".toList then complete .null stack
  else ⟨.extension, stack⟩

def step (dialect : Dialect) : State → Char → State
  | ⟨.value, stack⟩, c => startValue dialect .value stack c
  | ⟨.firstItem, .items done :: stack⟩, c =>
      if c = ']' then complete (.arr done) stack
      else startValue dialect .firstItem (.items done :: stack) c
  | ⟨.firstKey, .members done :: stack⟩, c =>
      if c = '\x7d' then complete (.obj done) stack
      else startKey .firstKey (.members done :: stack) c
  | ⟨.key, stack⟩, c => startKey .key stack c
  | ⟨.colon name, .members done :: stack⟩, c =>
      if isWhite c then ⟨.colon name, .members done :: stack⟩
      else if c = ':' then ⟨.value, .value done name :: stack⟩
      else stray c (.members done :: stack)
  | ⟨.bare text, stack⟩, c =>
      if isBare c then ⟨.bare (text ++ [c]), stack⟩
      else
        let settled := completeBare dialect text stack
        match settled.mode with
        | .extension => settled
        | _ => settledStep settled c
  | ⟨.str isKey mode, stack⟩, c =>
      match strStep dialect mode c with
      | .more next => ⟨.str isKey next, stack⟩
      | .close text => if isKey then ⟨.colon text, stack⟩ else complete (.str text) stack
      | .bad => ⟨.malformed, stack⟩
  | ⟨.after, stack⟩, c => settledStep ⟨.after, stack⟩ c
  | ⟨.finished value, stack⟩, c => settledStep ⟨.finished value, stack⟩ c
  | ⟨.extension, stack⟩, _ => ⟨.extension, stack⟩
  | ⟨_, stack⟩, _ => ⟨.malformed, stack⟩

def run (dialect : Dialect) : State → Text → State := List.foldl (step dialect)

inductive Reading where
  | value (value : Json)
  | malformed
  | extension
  deriving Repr

def finish (dialect : Dialect) (state : State) : Reading :=
  match state.mode with
  | .finished value => .value value
  | .bare text =>
      match (completeBare dialect text state.stack).mode with
      | .finished value => .value value
      | .extension => .extension
      | _ => .malformed
  | .extension => .extension
  | _ => .malformed

def read (dialect : Dialect) (text : Text) : Reading :=
  finish dialect (run dialect ⟨.value, []⟩ text)

@[simp] theorem run_nil (dialect : Dialect) (state : State) : run dialect state [] = state := rfl

@[simp] theorem run_cons (dialect : Dialect) (state : State) (c : Char) (text : Text) :
    run dialect state (c :: text) = run dialect (step dialect state c) text := rfl

theorem run_append (dialect : Dialect) (state : State) (left right : Text) :
    run dialect state (left ++ right) = run dialect (run dialect state left) right :=
  List.foldl_append

theorem run_malformed (dialect : Dialect) (stack : List Frame) (text : Text) :
    run dialect ⟨.malformed, stack⟩ text = ⟨.malformed, stack⟩ := by
  induction text with
  | nil => rfl
  | cons c text ih => simpa [step] using ih

theorem finish_run_malformed (dialect : Dialect) (stack : List Frame) (text : Text) :
    finish dialect (run dialect ⟨.malformed, stack⟩ text) = .malformed := by
  rw [run_malformed]
  rfl

end Json
end TfuServer
