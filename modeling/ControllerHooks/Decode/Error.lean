import ControllerHooks.Json.Doc
import ControllerHooks.Json.Pointer
import ControllerHooks.Json.Printer
import ControllerHooks.Quoted
import ControllerHooks.Timestamp

/-!
# Why a document cannot be decoded
-/

namespace ControllerHooks

/-- A value found where another was expected. -/
inductive Found where
  | null
  | bool (b : Bool)
  | number (n : Number)
  | string (s : String)
  | sequence
  | map
  deriving DecidableEq

namespace Found

def describe : Found → String
  | null => "null"
  | bool b => s!"boolean `{b}`"
  | number (.int n) => s!"integer `{n}`"
  | number (.real x) => s!"floating point `{String.ofList x.text}`"
  | string s => s!"string {Quoted.quote s}"
  | sequence => "sequence"
  | map => "map"

end Found

inductive DecodeError where
  | malformed (e : SyntaxError)
  | wrongType (found : Found) (expected : String)
  | outOfRange (n : Int) (expected : String)
  | wrongLength (length : Nat) (expected : String)
  | missingField (name : String)
  | duplicateField (name : String)
  | unknownVariant (name : String) (known : List String)
  | resourceKey (text : String)
  | pointer (e : Pointer.ParseError)
  | time (e : Timestamp.Error)
  deriving DecidableEq

namespace DecodeError

def ticked (name : String) : String := s!"`{name}`"

/-- The names that would have been known. -/
def oneOf : List String → String
  | [a] => s!"expected {ticked a}"
  | [a, b] => s!"expected {ticked a} or {ticked b}"
  | names => "expected one of " ++ ", ".intercalate (names.map ticked)

def message : DecodeError → String
  | malformed e => e.message
  | wrongType found expected => s!"invalid type: {found.describe}, expected {expected}"
  | outOfRange n expected => s!"invalid value: integer `{n}`, expected {expected}"
  | wrongLength length expected => s!"invalid length {length}, expected {expected}"
  | missingField name => s!"missing field {ticked name}"
  | duplicateField name => s!"duplicate field {ticked name}"
  | unknownVariant name known => s!"unknown variant {ticked name}, {oneOf known}"
  | resourceKey text => s!"invalid resource key {ticked text}"
  | pointer e => e.message
  | time e => e.message

end DecodeError

end ControllerHooks
