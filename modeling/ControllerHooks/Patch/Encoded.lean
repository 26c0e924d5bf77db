import ControllerHooks.Base64
import ControllerHooks.Patch.Apply

/-!
# Patches inside a response

A patch travels as the base64 text of its JSON document.
-/

namespace ControllerHooks

inductive PatchError where
  | base64 (e : Base64.Error)
  | json (e : DecodeError)
  | mismatch (failure : Patch.Failure)
  deriving DecidableEq

def PatchError.message : PatchError → String
  | base64 e => s!"patch is not valid base64: {e.message}"
  | json e => s!"patch is not a JSON Patch document: {e.message}"
  | mismatch failure => s!"patch does not apply: {failure.message}"

structure EncodedPatch where
  text : String
  deriving DecidableEq

namespace EncodedPatch

def ofPatch (patch : Patch) : EncodedPatch :=
  ⟨String.ofList (Base64.encode (Payload.encode patch))⟩

def decode (encoded : EncodedPatch) : Except PatchError Patch := do
  let bytes ← (Base64.decode (Utf8.ofString encoded.text)).mapError .base64
  (Payload.decode bytes).mapError .json

instance : Payload EncodedPatch where
  read d := (Reader.string d).map .mk
  toJson encoded := .string encoded.text

end EncodedPatch

end ControllerHooks
