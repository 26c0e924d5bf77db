import ControllerHooks.Utf8

/-!
# Base64

The standard alphabet, always padded. A text stands for bytes in one way only: padding is
required, and the bits that the last symbol has left over are zero.

* `encode` writes three bytes as four symbols, `decode` reads them back.
-/

namespace ControllerHooks.Base64

inductive Error where
  | symbol (byte : UInt8) (offset : Nat)
  | length (count : Nat)
  | lastSymbol (byte : UInt8) (offset : Nat)
  | padding
  deriving DecidableEq

def Error.message : Error → String
  | symbol byte offset => s!"Invalid symbol {byte}, offset {offset}."
  | length count => s!"Invalid input length: {count}"
  | lastSymbol byte offset => s!"Invalid last symbol {byte}, offset {offset}."
  | padding => "Invalid padding"

def symbol (n : Nat) : Char :=
  if n < 26 then Char.ofNat (n + 65)
  else if n < 52 then Char.ofNat (n + 71)
  else if n < 62 then Char.ofNat (n - 4)
  else if n = 62 then '+'
  else '/'

def value? (byte : UInt8) : Option Nat :=
  let n := byte.toNat
  if 65 ≤ n ∧ n ≤ 90 then some (n - 65)
  else if 97 ≤ n ∧ n ≤ 122 then some (n - 71)
  else if 48 ≤ n ∧ n ≤ 57 then some (n + 4)
  else if n = 43 then some 62
  else if n = 47 then some 63
  else none

/-- The byte of the padding sign. -/
def pad : UInt8 := 61

def encode : Bytes → List Char
  | a :: b :: c :: rest =>
    symbol (a.toNat / 4) :: symbol (a.toNat % 4 * 16 + b.toNat / 16) ::
      symbol (b.toNat % 16 * 4 + c.toNat / 64) :: symbol (c.toNat % 64) :: encode rest
  | [a, b] =>
    [symbol (a.toNat / 4), symbol (a.toNat % 4 * 16 + b.toNat / 16), symbol (b.toNat % 16 * 4), '=']
  | [a] => [symbol (a.toNat / 4), symbol (a.toNat % 4 * 16), '=', '=']
  | [] => []

def valueAt (offset : Nat) (byte : UInt8) : Except Error Nat :=
  match value? byte with
  | some v => .ok v
  | none => .error (.symbol byte offset)

/-- The symbols of the last group from one of its places on, and how many padding signs follow.
`padded` is the place of the first padding sign before. -/
def lastSymbols (start : Nat) : (place : Nat) → (padded : Option Nat) → Bytes →
    Except Error (List Nat × Nat)
  | _, _, [] => .ok ([], 0)
  | place, padded, byte :: rest =>
    if byte = pad then
      if place < 2 then .error (.symbol pad (start + place))
      else do
        let (values, pads) ← lastSymbols start (place + 1) (padded.or (some place)) rest
        return (values, pads + 1)
    else
      match padded with
      | some first => .error (.symbol pad (start + first))
      | none => do
        let v ← valueAt (start + place) byte
        let (values, pads) ← lastSymbols start (place + 1) none rest
        return (v :: values, pads)

/-- The bytes of the last group, which begins at offset `start`. -/
def lastGroup (start : Nat) (group : Bytes) : Except Error Bytes := do
  let (values, pads) ← lastSymbols start 0 none group
  let n := values.length
  if n < 2 then throw (.length (start + n))
  if n + pads ≠ 4 then throw .padding
  let lastSymbol := Error.lastSymbol (group.getD (n - 1) 0) (start + n - 1)
  match values with
  | [a, b] =>
    if b % 16 ≠ 0 then throw lastSymbol
    return [UInt8.ofNat (a * 4 + b / 16)]
  | [a, b, c] =>
    if c % 4 ≠ 0 then throw lastSymbol
    return [UInt8.ofNat (a * 4 + b / 16), UInt8.ofNat (b % 16 * 16 + c / 4)]
  | a :: b :: c :: d :: _ =>
    return [UInt8.ofNat (a * 4 + b / 16), UInt8.ofNat (b % 16 * 16 + c / 4),
      UInt8.ofNat (c % 4 * 64 + d)]
  | _ => return []

/-- The bytes of the groups from offset `start` on. -/
def decodeFrom : (start : Nat) → Bytes → Except Error Bytes
  | _, [] => .ok []
  | start, a :: b :: c :: d :: e :: rest => do
    let a ← valueAt start a
    let b ← valueAt (start + 1) b
    let c ← valueAt (start + 2) c
    let d ← valueAt (start + 3) d
    let bytes ← decodeFrom (start + 4) (e :: rest)
    return UInt8.ofNat (a * 4 + b / 16) :: UInt8.ofNat (b % 16 * 16 + c / 4) ::
      UInt8.ofNat (c % 4 * 64 + d) :: bytes
  | start, group => lastGroup start group

def decode (text : Bytes) : Except Error Bytes := do
  if text.length % 4 = 1 then
    let last := text.getLastD 0
    if last ≠ pad then let _ ← valueAt (text.length - 1) last
  decodeFrom 0 text

end ControllerHooks.Base64
