import ControllerHooks.State

/-!
# Phases

A phase is set once. As long as `status.phase` holds anything but null or an empty text it is left
alone, so an event that comes with it is emitted once.
-/

namespace ControllerHooks

structure PhaseTracker where
  phase : String
  event : Option Event
  deriving DecidableEq

namespace PhaseTracker

def isUnset : Option Json → Bool
  | none | some .null => true
  | some (.string s) => s = ""
  | some _ => false

/-- The state with the phase, and whether it was set just now. -/
def apply (t : PhaseTracker) (s : State) : Except Fault (State × Bool) :=
  if isUnset (s.object.statusField "phase") then do
    let object ← s.object.insertStatus "phase" (.string t.phase)
    return ({ s with object, events := s.events ++ t.event.toList }, true)
  else .ok (s, false)

end PhaseTracker

end ControllerHooks
