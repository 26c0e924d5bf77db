import ControllerHooks.Json.Basic

/-!
# Pointers into a JSON value

A pointer is a list of tokens. Its text puts a slash before each of them; a slash or a tilde in a
token is written `~1` or `~0`.

* `Pointer.parse` reads a text, `Pointer.text` writes it.
* `Json.at?` finds the value at a list of tokens, `Json.modifyAt?` changes it.
-/

namespace ControllerHooks

structure Pointer where
  tokens : List String
  deriving DecidableEq

namespace Pointer

inductive ParseError where
  | noLeadingSlash
  | badTilde
  deriving DecidableEq

def ParseError.message : ParseError → String
  | noLeadingSlash => "json pointer is malformed as it does not start with a backslash ('/')"
  | badTilde => "json pointer is malformed due to invalid encoding ('~' not followed by '0' or '1')"

def escape (c : Char) : List Char :=
  if c = '~' then ['~', '0'] else if c = '/' then ['~', '1'] else [c]

def tokenChars (token : String) : List Char := '/' :: token.toList.flatMap escape

def text (p : Pointer) : String := String.ofList (p.tokens.flatMap tokenChars)

/-- The rest of the token that is being read, and the tokens after it. -/
def tokensFrom : List Char → Except ParseError (List Char × List String)
  | [] => .ok ([], [])
  | '/' :: rest => do
    let (token, later) ← tokensFrom rest
    return ([], String.ofList token :: later)
  | '~' :: '0' :: rest => do
    let (token, later) ← tokensFrom rest
    return ('~' :: token, later)
  | '~' :: '1' :: rest => do
    let (token, later) ← tokensFrom rest
    return ('/' :: token, later)
  | '~' :: _ => .error .badTilde
  | c :: rest => do
    let (token, later) ← tokensFrom rest
    return (c :: token, later)

def parse (s : String) : Except ParseError Pointer :=
  match s.toList with
  | [] => .ok ⟨[]⟩
  | '/' :: rest => do
    let (token, later) ← tokensFrom rest
    return ⟨String.ofList token :: later⟩
  | _ => .error .noLeadingSlash

/-- Whether another pointer leads strictly below this one. -/
def isAbove (p q : Pointer) : Bool := p.tokens.isPrefixOf q.tokens && p.tokens ≠ q.tokens

/-- The pointer to the value around, and the last token. -/
def split? (p : Pointer) : Option (List String × String) :=
  p.tokens.getLast?.map fun last => (p.tokens.dropLast, last)

end Pointer

namespace Json

/-- A token as a place below `bound` in an array: digits without a leading zero. -/
def index? (token : String) (bound : Nat) : Option Nat :=
  let digits := token.toList
  if digits ≠ [] ∧ digits.all Char.isDigit ∧ (digits.head? = some '0' → digits.length = 1) then
    let i := Nat.ofDigitChars 10 digits 0
    if i < bound then some i else none
  else none

/-- The item or member that a token names. -/
def child? (token : String) : Json → Option Json
  | .object members => Entries.find? token members
  | .array items => (index? token items.length).bind fun i => items[i]?
  | _ => none

/-- The same value with another item or member in the place of a child. -/
def setChild (value : Json) (token : String) (child : Json) : Json :=
  match value with
  | .object members => .object (Entries.insert token child members)
  | .array items =>
    match index? token items.length with
    | some i => .array (items.set i child)
    | none => .array items
  | value => value

def at? : List String → Json → Option Json
  | [], value => some value
  | token :: rest, value => (value.child? token).bind (at? rest)

/-- Change the value at the end of a path, and hand on what the change yields. -/
def modifyAt? {α : Type} (change : Json → Option (α × Json)) :
    List String → Json → Option (α × Json)
  | [], value => change value
  | token :: rest, value => do
    let child ← value.child? token
    let (result, child) ← modifyAt? change rest child
    return (result, value.setChild token child)

end Json

end ControllerHooks
