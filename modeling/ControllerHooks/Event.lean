import ControllerHooks.Payload

/-!
# Events

What a pass tells of itself: advice for whoever runs it, in the order of emission.
-/

namespace ControllerHooks

inductive EventType where
  | normal
  | warning
  deriving DecidableEq

namespace EventType

def name : EventType → String
  | normal => "Normal"
  | warning => "Warning"

instance : Payload EventType where
  read := Reader.variant [("Normal", normal), ("Warning", warning)]
  toJson t := .string t.name

end EventType

structure Event where
  type : EventType
  reason : String
  message : String
  deriving DecidableEq

namespace Event

def normal (reason message : String) : Event := ⟨.normal, reason, message⟩

def warning (reason message : String) : Event := ⟨.warning, reason, message⟩

/-- Only events with a reason and a message are recorded. -/
def isComplete (e : Event) : Bool := e.reason ≠ "" && e.message ≠ ""

instance : Payload Event where
  read := Record.read "Event"
    [.required "type" Payload.read fun e t => { e with type := t },
      .required "reason" Reader.string fun e s => { e with reason := s },
      .required "message" Reader.string fun e s => { e with message := s }] (normal "" "")
  toJson e := .object
    [("type", Payload.toJson e.type), ("reason", .string e.reason), ("message", .string e.message)]

end Event

end ControllerHooks
