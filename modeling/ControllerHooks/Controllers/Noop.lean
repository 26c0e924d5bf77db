import ControllerHooks.Controllers.Controller
import ControllerHooks.Reconcile.Phase

/-!
# Objects that ask for nothing

A noop object owns no dependents. On admission it is marked by an annotation, and its first
reconcile pass completes it.
-/

namespace ControllerHooks

structure NoopSpec where
  data : Option Json
  deriving DecidableEq

namespace NoopSpec

def read : Reader NoopSpec := Record.read "NoopSpec"
  [.optional "data" Reader.json fun _ value => ⟨value⟩] ⟨none⟩

end NoopSpec

namespace Noop

def resource : ResourceType := ⟨"whitebox.summerwind.dev", "v1alpha1", "Noop"⟩

def annotation : String := "noop"

def completedPhase : String := "completed"

def rules : List (Rule (Option NoopSpec)) :=
  [⟨"'spec' is empty", fun s => s.isSome⟩,
    ⟨"'spec.data' is empty", fun s => (s.bind NoopSpec.data).bind Json.string? ≠ some ""⟩]

def validate (object : Object) : Except Fault Verdict := do
  let spec ← object.specAs NoopSpec.read
  return Rules.evaluate rules spec

def isUnmarked (value : Json) : Bool := value ≠ .string "true"

def annotationRule : FieldRule :=
  ⟨["metadata", "annotations", annotation], some (.string "true"),
    some (isUnmarked, .string "true")⟩

def mutate (object : Object) : Except Fault Mutation := Defaults.evaluate [annotationRule] object

def tracker : PhaseTracker :=
  ⟨completedPhase, some (.normal "Completed" "reconciliation completed")⟩

def body (s : State) : Except Fault State := do
  let (s, _) ← tracker.apply s
  return s

def reconciler : Reconciler := ⟨[], body⟩

def controller : Controller := ⟨"noop", resource, validate, mutate, reconciler⟩

end Noop

end ControllerHooks
