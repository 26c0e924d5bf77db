/-!
# UTF-8

Requests arrive as bytes and are read as characters. Reading never fails: a byte that belongs to
no character is kept as itself, so that the reader of the text decides what it means there.

* `encode` writes characters as bytes, `decode` reads bytes as pieces.
* `text?` is the text of bytes that hold characters only.
-/

namespace ControllerHooks

/-- A request or a response as it travels. -/
abbrev Bytes := List UInt8

namespace Utf8

/-- One unit of a text read from bytes: a character, or a byte that is part of none. -/
inductive Piece where
  | char (c : Char)
  | stray (b : UInt8)
  deriving DecidableEq

namespace Piece

/-- How many bytes the piece takes. -/
def size : Piece → Nat
  | char c => c.utf8Size
  | stray _ => 1

def char? : Piece → Option Char
  | char c => some c
  | stray _ => none

end Piece

def encode (cs : List Char) : Bytes := cs.flatMap String.utf8EncodeChar

/-- The character that the bytes begin with. -/
def head? (bytes : Bytes) : Option Char :=
  (bytes.take 4).toByteArray.utf8DecodeChar? 0

/-- The pieces after the first `skip` bytes. -/
def decodeFrom : (skip : Nat) → Bytes → List Piece
  | _, [] => []
  | skip + 1, _ :: rest => decodeFrom skip rest
  | 0, b :: rest =>
    match head? (b :: rest) with
    | some c => .char c :: decodeFrom (c.utf8Size - 1) rest
    | none => .stray b :: decodeFrom 0 rest

def decode (bytes : Bytes) : List Piece := decodeFrom 0 bytes

/-- The bytes of a text. -/
def ofString (s : String) : Bytes := encode s.toList

/-- The text that the bytes hold, when every one of them belongs to a character. -/
def text? (bytes : Bytes) : Option String :=
  ((decode bytes).mapM Piece.char?).map String.ofList

end Utf8

end ControllerHooks
