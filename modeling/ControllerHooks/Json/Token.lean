import ControllerHooks.Json.Basic
import ControllerHooks.Json.SyntaxError
import ControllerHooks.Utf8

/-!
# Tokens of a JSON document

A document is cut into tokens before anybody asks what it should hold, so a token that cannot be
read is kept, as the flaw that a reader of it meets.

* `Flaw` tells reading from skipping: a reader who ignores a member checks its form only, and
  passes over a number out of range or half a surrogate pair.
* `Token.lex` cuts a text. After a token whose end cannot be found there are no more tokens.
-/

namespace ControllerHooks

open Utf8 (Piece)

/-- Why a token cannot be read, and why it cannot even be skipped, if so. -/
structure Flaw where
  read : SyntaxError
  skip : Option SyntaxError
  deriving DecidableEq

/-- The same error for every reader. -/
def Flaw.always (e : SyntaxError) : Flaw := ⟨e, some e⟩

/-- How a value begins that cannot be read. -/
inductive Opening where
  | null
  /-- Another word, or a number. -/
  | plain
  | string
  /-- No value begins here. -/
  | nothing
  deriving DecidableEq

inductive Token where
  | leftBrace
  | rightBrace
  | leftBracket
  | rightBracket
  | comma
  | colon
  | null
  | bool (b : Bool)
  | number (n : Number)
  | string (s : String)
  | flawed (opening : Opening) (flaw : Flaw)
  /-- A character that begins no token. -/
  | stray
  deriving DecidableEq

namespace Token

/-- A token, and how many pieces it takes after its first one if its end was found. -/
abbrev Scan := Token × Option Nat

/-! ## Words -/

/-- What is wrong where these letters must follow. -/
def wordError : List Char → List Piece → Option SyntaxError
  | [], _ => none
  | _ :: _, [] => some .valueCut
  | c :: letters, p :: rest => if p = .char c then wordError letters rest else some .wordExpected

def scanWord (token : Token) (opening : Opening) (letters : List Char) (rest : List Piece) : Scan :=
  match wordError letters rest with
  | none => (token, some letters.length)
  | some e => (.flawed opening (.always e), none)

/-! ## Numbers -/

def digit? : Piece → Option Nat
  | .char c => if '0' ≤ c ∧ c ≤ '9' then some (c.toNat - '0'.toNat) else none
  | .stray _ => none

/-- The digits that a text begins with. -/
def digits : List Piece → List Nat
  | [] => []
  | p :: rest =>
    match digit? p with
    | some d => d :: digits rest
    | none => []

/-- Digits put behind a significand while it fits in 64 bits, and how many were left over. -/
def accumulate : (significand : Nat) → List Nat → Nat × Nat
  | n, [] => (n, 0)
  | n, d :: rest =>
    if n * 10 + d < 0x10000000000000000 then accumulate (n * 10 + d) rest
    else (n, rest.length + 1)

/-- A number as it is written. -/
structure Numeral where
  negative : Bool
  whole : List Nat
  fraction : Option (List Nat)
  exponent : Option Int
  deriving DecidableEq

/-- The value of a numeral, if it is in range. An integer is kept exactly when it fits in 64 bits;
any other number is computed from its first digits, as many as fit. -/
def Numeral.value? (x : Numeral) : Option Number :=
  let (whole, left) := accumulate 0 x.whole
  if left = 0 ∧ x.fraction = none ∧ x.exponent = none ∧
      (x.negative → whole ≠ 0 ∧ whole ≤ 0x8000000000000000) then
    some (.int (if x.negative then -whole else whole))
  else
    let fraction := x.fraction.getD []
    let (significand, unused) := accumulate whole fraction
    let e := left - (fraction.length - unused : Nat) + x.exponent.getD 0
    (Binary64.scaled x.negative significand e).map .real

/-- No digit where one must be. -/
def noDigit (rest : List Piece) : Flaw :=
  ⟨if rest.isEmpty then .valueCut else .invalidNumber, some .invalidNumber⟩

/-- A sign and digits, and how many pieces they take. -/
def scanExponent (rest : List Piece) : Except Flaw (Int × Nat) :=
  let negative := rest.head? = some (.char '-')
  let sign := if negative ∨ rest.head? = some (.char '+') then 1 else 0
  let places := digits (rest.drop sign)
  if places.isEmpty then .error (noDigit (rest.drop sign))
  else
    let e : Nat := places.foldl (fun n d => n * 10 + d) 0
    .ok (if negative then -e else e, sign + places.length)

/-- The numeral at the front of a text, and how many pieces it takes. -/
def scanNumeral (text : List Piece) : Except Flaw (Numeral × Nat) := do
  let negative := text.head? = some (.char '-')
  let sign := if negative then 1 else 0
  let whole := digits (text.drop sign)
  if whole.isEmpty then throw (noDigit (text.drop sign))
  if whole.head? = some 0 ∧ 1 < whole.length then throw (.always .invalidNumber)
  let size := sign + whole.length
  let (fraction, size) ← match text.drop size with
    | .char '.' :: rest =>
      let places := digits rest
      if places.isEmpty then throw (noDigit rest) else pure (some places, size + 1 + places.length)
    | _ => pure (none, size)
  match text.drop size with
  | .char 'e' :: rest | .char 'E' :: rest =>
    let (e, n) ← scanExponent rest
    pure (⟨negative, whole, fraction, some e⟩, size + 1 + n)
  | _ => pure (⟨negative, whole, fraction, none⟩, size)

def scanNumber (text : List Piece) : Scan :=
  match scanNumeral text with
  | .error flaw => (.flawed .plain flaw, none)
  | .ok (numeral, size) =>
    match numeral.value? with
    | some n => (.number n, some (size - 1))
    | none => (.flawed .plain ⟨.numberOutOfRange, none⟩, some (size - 1))

/-! ## Strings -/

def hexDigit? : Piece → Option Nat
  | .char c =>
    if '0' ≤ c ∧ c ≤ '9' then some (c.toNat - '0'.toNat)
    else if 'a' ≤ c ∧ c ≤ 'f' then some (c.toNat - 'a'.toNat + 10)
    else if 'A' ≤ c ∧ c ≤ 'F' then some (c.toNat - 'A'.toNat + 10)
    else none
  | .stray _ => none

/-- The four hexadecimal digits that a text begins with, as a number. -/
def hexUnit (text : List Piece) : Except SyntaxError Nat :=
  match text.take 4, (text.take 4).mapM hexDigit? with
  | [_, _, _, _], some [a, b, c, d] => .ok (((a * 16 + b) * 16 + c) * 16 + d)
  | few, _ =>
    let size := few.foldl (fun n p => n + p.size) 0
    .error (if 4 ≤ size then .invalidEscape else .stringCut)

/-- What a backslash and one more character stand for. -/
def escaped? : Piece → Option Char
  | .char '"' => some '"'
  | .char '\\' => some '\\'
  | .char '/' => some '/'
  | .char 'b' => some '\x08'
  | .char 'f' => some '\x0c'
  | .char 'n' => some '\n'
  | .char 'r' => some '\r'
  | .char 't' => some '\t'
  | _ => none

def isHigh (unit : Nat) : Bool := 0xD800 ≤ unit && unit < 0xDC00
def isLow (unit : Nat) : Bool := 0xDC00 ≤ unit && unit < 0xE000

/-- The second half of a surrogate pair, after the first. -/
def lowUnit (text : List Piece) : Except SyntaxError Nat :=
  match text with
  | [] => .error .stringCut
  | .char '\\' :: [] => .error .stringCut
  | .char '\\' :: .char 'u' :: rest => do
    let unit ← hexUnit rest
    if isLow unit then pure unit else throw .loneSurrogate
  | _ => .error .hexEscapeCut

/-- The character of a `\u` escape, after these two, and how many pieces it takes from there. -/
def unicodeEscape (text : List Piece) : Except SyntaxError (Char × Nat) := do
  let unit ← hexUnit text
  if isLow unit then throw .loneSurrogate
  if isHigh unit then
    let low ← lowUnit (text.drop 4)
    pure (Char.ofNat (0x10000 + (unit - 0xD800) * 0x400 + (low - 0xDC00)), 10)
  else pure (Char.ofNat unit, 4)

/-- The character of an escape, after its backslash, and how many pieces it takes from there. -/
def readEscape : List Piece → Except SyntaxError (Char × Nat)
  | [] => .error .stringCut
  | p :: rest =>
    match escaped? p with
    | some c => .ok (c, 1)
    | none =>
      if p = .char 'u' then (unicodeEscape rest).map fun (c, n) => (c, n + 1)
      else .error .invalidEscape

/-- How many pieces an escape takes after its backslash, one half of a surrogate pair at a time. -/
def skipEscape : List Piece → Except SyntaxError Nat
  | [] => .error .stringCut
  | p :: rest =>
    if (escaped? p).isSome then .ok 1
    else if p = .char 'u' then (hexUnit rest).map fun _ => 5
    else .error .invalidEscape

def isControl : Piece → Bool
  | .char c => c.toNat < 0x20
  | .stray _ => false

/-- What a string says, from `skip` pieces on to its closing quote. -/
def contentsFrom : (skip : Nat) → List Piece → Except SyntaxError (List Piece)
  | _, [] => .error .stringCut
  | skip + 1, _ :: rest => contentsFrom skip rest
  | 0, p :: rest =>
    if p = .char '"' then .ok []
    else if p = .char '\\' then
      match readEscape rest with
      | .error e => .error e
      | .ok (c, n) => (contentsFrom n rest).map (.char c :: ·)
    else if isControl p then .error .controlCharacter
    else (contentsFrom 0 rest).map (p :: ·)

/-- The text of a string after its opening quote. -/
def contents (text : List Piece) : Except SyntaxError String := do
  let pieces ← contentsFrom 0 text
  match pieces.mapM Piece.char? with
  | some cs => pure (String.ofList cs)
  | none => throw .invalidCodePoint

/-- How many pieces a string takes, from `skip` pieces on to its closing quote and with it. -/
def extentFrom : (skip : Nat) → List Piece → Except SyntaxError Nat
  | _, [] => .error .stringCut
  | skip + 1, _ :: rest => (extentFrom skip rest).map (· + 1)
  | 0, p :: rest =>
    if p = .char '"' then .ok 1
    else if p = .char '\\' then
      match skipEscape rest with
      | .error e => .error e
      | .ok n => (extentFrom n rest).map (· + 1)
    else if isControl p then .error .controlCharacter
    else (extentFrom 0 rest).map (· + 1)

/-- The string after its opening quote. -/
def scanString (text : List Piece) : Scan :=
  match contents text, extentFrom 0 text with
  | .ok s, .ok n => (.string s, some n)
  | .error e, .ok n => (.flawed .string ⟨e, none⟩, some n)
  | .error e, .error skip => (.flawed .string ⟨e, some skip⟩, none)
  | .ok _, .error skip => (.flawed .string (.always skip), none)

/-! ## The whole text -/

def isBlank (p : Piece) : Bool :=
  p = .char ' ' || p = .char '\t' || p = .char '\n' || p = .char '\r'

/-- The token that begins with this piece. -/
def scan (p : Piece) (rest : List Piece) : Scan :=
  match p with
  | .char '{' => (.leftBrace, some 0)
  | .char '}' => (.rightBrace, some 0)
  | .char '[' => (.leftBracket, some 0)
  | .char ']' => (.rightBracket, some 0)
  | .char ',' => (.comma, some 0)
  | .char ':' => (.colon, some 0)
  | .char '"' => scanString rest
  | .char 'n' => scanWord .null .null ['u', 'l', 'l'] rest
  | .char 't' => scanWord (.bool true) .plain ['r', 'u', 'e'] rest
  | .char 'f' => scanWord (.bool false) .plain ['a', 'l', 's', 'e'] rest
  | p => if p = .char '-' ∨ (digit? p).isSome then scanNumber (p :: rest) else (.stray, none)

/-- The tokens after `skip` pieces. -/
def lexFrom : (skip : Nat) → List Piece → List Token
  | _, [] => []
  | skip + 1, _ :: rest => lexFrom skip rest
  | 0, p :: rest =>
    if isBlank p then lexFrom 0 rest
    else
      match scan p rest with
      | (token, some n) => token :: lexFrom n rest
      | (token, none) => [token]

def lex (text : List Piece) : List Token := lexFrom 0 text

end Token

end ControllerHooks
