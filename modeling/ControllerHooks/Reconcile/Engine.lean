import ControllerHooks.Reconcile.Boundary

/-!
# A reconcile pass

A reconciler turns an observed state into the desired one. It is level-triggered: it sees the state
only, and no history.

* `Reconciler.reconcile` runs one pass, with the checks before and after it. Events of an earlier
  pass are dropped first, and incomplete events at the end.
-/

namespace ControllerHooks

structure Reconciler where
  /-- The types of dependents that the parent owns. -/
  dependents : List DependentDecl
  body : State → Except Fault State

namespace Reconciler

def reconcile (r : Reconciler) (observed : State) : Except Fault State := do
  observed.dependents.check r.dependents
  let desired ← r.body { observed with events := [] }
  observed.checkTransition desired r.dependents
  return { desired with events := desired.events.filter Event.isComplete }

end Reconciler

end ControllerHooks
