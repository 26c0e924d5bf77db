import ControllerHooks.Admission.Defaults
import ControllerHooks.Admission.Rules
import ControllerHooks.Reconcile.Engine
import ControllerHooks.Reconcile.Plan

/-!
# Controllers and their hooks

A controller validates, mutates and reconciles the objects of one resource type. A hook turns one
request document into one response document, or faults.

* `Controller.invoke` runs a hook on the bytes of a request.
-/

namespace ControllerHooks

structure Controller where
  name : String
  /-- The type of the parent. -/
  resource : ResourceType
  validate : Object → Except Fault Verdict
  mutate : Object → Except Fault Mutation
  reconciler : Reconciler

inductive Hook where
  | validate
  | mutate
  | reconcile
  | plan
  deriving DecidableEq

namespace Controller

def answerValidate (c : Controller) (request : AdmissionRequest) :
    Except Fault AdmissionResponse :=
  (c.validate request.object).map .ofVerdict

def answerMutate (c : Controller) (request : AdmissionRequest) : Except Fault AdmissionResponse :=
  (c.mutate request.object).map .ofMutation

/-- What a pass would change. -/
def plan (c : Controller) (observed : State) : Except Fault Plan := do
  Plan.between observed (← c.reconciler.reconcile observed)

def invoke (c : Controller) (hook : Hook) (request : Bytes) : Except Fault Bytes :=
  match hook with
  | .validate => do
    let response ← c.answerValidate (← Payload.request request)
    return Payload.encode response
  | .mutate => do
    let response ← c.answerMutate (← Payload.request request)
    return Payload.encode response
  | .reconcile => do
    let desired ← c.reconciler.reconcile (← Payload.request request)
    return Payload.encode desired
  | .plan => do
    let plan ← c.plan (← Payload.request request)
    return plan.toJson.bytes

end Controller

end ControllerHooks
