import ControllerHooks.Patch.Encoded
import ControllerHooks.ResourceType

/-!
# Faults

A fault ends an invocation without a response. It is never a denial: a denial is an answer.

* `Fault.message` says what went wrong.
* `Fault.report` says it without a place in a text at the end. A reason that somebody else gives
  may name the line and the column where its reader stopped, which say nothing to the caller.
-/

namespace ControllerHooks

inductive Fault where
  | decode (e : DecodeError)
  | missingField (field : String)
  | invalidField (field reason : String)
  | invalidKey (text : String)
  | tooManyDependents (key : ResourceKey) (found : Nat)
  | transition (reason : String)
  | patch (e : PatchError)
  deriving DecidableEq

namespace Fault

def message : Fault → String
  | decode e => s!"malformed request: {e.message}"
  | missingField field => s!"missing field `{field}`"
  | invalidField field reason => s!"field `{field}` is invalid: {reason}"
  | invalidKey text => s!"invalid resource key `{text}`"
  | tooManyDependents key found =>
    s!"dependents[{key.text}]: observed {found} objects, at most one is allowed"
  | transition reason => s!"invalid state transition: {reason}"
  | patch e => e.message

/-! ## Reports -/

/-- What precedes a word at the end of a text. Texts are last first here and below. -/
def beforeWord (word : String) (text : List Char) : Option (List Char) :=
  let letters := word.toList.reverse
  if letters.isPrefixOf text then some (text.drop letters.length) else none

/-- What precedes a number at the end of a text. -/
def beforeNumber (text : List Char) : Option (List Char) :=
  if text.head?.any Char.isDigit then some (text.dropWhile Char.isDigit) else none

/-- What precedes a place at the end of a text. -/
def beforePlace (text : List Char) : Option (List Char) := do
  let text ← beforeNumber text
  let text ← beforeWord " column " text
  let text ← beforeNumber text
  beforeWord " at line " text

def report (fault : Fault) : String :=
  match beforePlace fault.message.toList.reverse with
  | some text => String.ofList text.reverse
  | none => fault.message

end Fault

/-- The key with this text, or the fault that it is none. -/
def ResourceKey.parse (text : String) : Except Fault ResourceKey :=
  match parse? text with
  | some key => .ok key
  | none => .error (.invalidKey text)

/-- The payload of a request. -/
def Payload.request {α : Type} [Payload α] (text : Bytes) : Except Fault α :=
  (decode text).mapError .decode

end ControllerHooks
