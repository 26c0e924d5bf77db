import ControllerHooks.Decode.Record

/-!
# Payloads

What is exchanged as a JSON document: a type with a reader of documents and a JSON form.
-/

namespace ControllerHooks

class Payload (α : Type) where
  read : Reader α
  toJson : α → Json

namespace Payload

variable {α : Type} [Payload α]

/-- The payload that a whole text holds. -/
def decode (text : Bytes) : Except DecodeError α := do
  let document := Document.parse text
  let x ← read document.root
  if document.trailing then throw (.malformed .trailingCharacters)
  return x

/-- The payload that a value in memory holds. -/
def ofJson (value : Json) : Except DecodeError α := read (Doc.ofJson .memory value)

def encode (x : α) : Bytes := (toJson x).bytes

def text (x : α) : String := (toJson x).text

instance : Payload Json := ⟨Reader.json, id⟩

instance : Payload String := ⟨Reader.string, .string⟩

instance : Payload (List α) := ⟨Reader.list read, fun xs => .array (xs.map toJson)⟩

end Payload

end ControllerHooks
