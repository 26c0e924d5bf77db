import ControllerHooks.Controllers.Controller

/-!
# Container sets

A container set runs a number of copies of one image, through a single Deployment that it owns.

* `ContainerSet.deployment` is the Deployment that a parent asks for; `ContainerSet.update` brings
  an observed one in line and leaves the rest of it alone.
-/

namespace ControllerHooks

structure ContainerSetSpec where
  replicas : Option Int32
  image : Option String
  deriving DecidableEq

namespace ContainerSetSpec

def blank : ContainerSetSpec := ⟨none, none⟩

instance : Payload ContainerSetSpec where
  read := Record.read "ContainerSetSpec"
    [.optional "replicas" Reader.int32 fun s n => { s with replicas := n },
      .optional "image" Reader.string fun s image => { s with image := image }] blank
  toJson s := .object
    (Json.optional "replicas" (fun n => .ofInt n.toInt) s.replicas ++
      Json.optional "image" .string s.image)

end ContainerSetSpec

structure ContainerSetStatus where
  healthyReplicas : Int64
  deriving DecidableEq

namespace ContainerSetStatus

instance : Payload ContainerSetStatus where
  read := Record.read "ContainerSetStatus"
    [.required "healthyReplicas" Reader.int64 fun _ n => ⟨n⟩] ⟨0⟩
  toJson s := .object [("healthyReplicas", .ofInt s.healthyReplicas.toInt)]

end ContainerSetStatus

namespace ContainerSet

def resource : ResourceType := ⟨"whitebox.summerwind.dev", "v1alpha1", "ContainerSet"⟩

def deployments : ResourceType := ⟨"apps", "v1", "Deployment"⟩

/-- The label that ties the pods of a Deployment to their container set. -/
def label : String := "containerset"

/-! ## Admission -/

def rules : List (Rule ContainerSetSpec) :=
  [⟨"'spec.replicas' must be specified", fun s => s.replicas.isSome⟩,
    ⟨"'spec.replicas' must be non-zero value", fun s => s.replicas ≠ some 0⟩,
    ⟨"'spec.image' must be specified", fun s => s.image.isSome⟩,
    ⟨"'spec.image' is empty", fun s => s.image ≠ some ""⟩]

def validate (object : Object) : Except Fault Verdict := do
  let spec ← object.specAs Payload.read
  return Rules.evaluate rules (spec.getD .blank)

def isZero (value : Json) : Bool := value.int64? = some 0

/-- A missing number of replicas, and zero, become one. -/
def replicasRule : FieldRule := ⟨["spec", "replicas"], some (.ofInt 1), some (isZero, .ofInt 1)⟩

def mutate (object : Object) : Except Fault Mutation := Defaults.evaluate [replicasRule] object

/-! ## Reconciling -/

/-- What a parent asks of its Deployment. -/
structure Desired where
  name : String
  inNamespace : String
  replicas : Int32
  image : String
  deriving DecidableEq

/-- A value that a field must have. -/
def needed {α : Type} (field : String) : Option α → Except Fault α
  | some x => .ok x
  | none => .error (.missingField field)

def desired (parent : Object) : Except Fault Desired := do
  let spec : ContainerSetSpec ← needed "spec" (← parent.specAs Payload.read)
  let name ← parent.requireName
  let inNamespace ← needed "metadata.namespace" parent.inNamespace
  let replicas ← needed "spec.replicas" spec.replicas
  let image ← needed "spec.image" spec.image
  return ⟨name, inNamespace, replicas, image⟩

def replicasJson (d : Desired) : Json := .ofInt d.replicas.toInt

def labels (d : Desired) : Json := .object [(label, .string d.name)]

def container (d : Desired) : Json := .object [("image", .string d.image), ("name", .string d.name)]

def deploymentSpec (d : Desired) : Json := .object
  [("replicas", replicasJson d),
    ("selector", .object [("matchLabels", labels d)]),
    ("template", .object
      [("metadata", .object [("labels", labels d)]),
        ("spec", .object [("containers", .array [container d])])])]

/-- The whole Deployment, from the parent alone. -/
def deployment (d : Desired) : Object :=
  { Object.blank with
    apiVersion := deployments.apiVersion
    kind := deployments.kind
    metadata := some { Metadata.blank with name := some d.name, inNamespace := some d.inNamespace }
    spec := some (deploymentSpec d) }

def setImage (d : Desired) : Json → Option (Unit × Json)
  | .object members => some ((), .object (Entries.insert "image" (.string d.image) members))
  | _ => none

def containerPath : List String := ["template", "spec", "containers", "0"]

def missingContainer : Fault :=
  .missingField s!"dependents[{deployments.key.text}][0].spec.template.spec.containers[0]"

/-- Set the fields that the parent controls. -/
def update (d : Desired) (observed : Object) : Except Fault Object := do
  let members ← Object.openPart "spec" observed.spec
  let spec := Json.object (Entries.insert "replicas" (replicasJson d) members)
  match spec.modifyAt? (setImage d) containerPath with
  | some (_, spec) => return { observed with spec := some spec }
  | none => throw missingContainer

/-- The available replicas that a Deployment reports. -/
def available (deployment : Object) : Int :=
  ((deployment.statusField "availableReplicas").bind Json.int64?).getD 0

def createdEvent : Event := .normal "CreateDeployment" "deployment created"

def body (s : State) : Except Fault State := do
  let key := deployments.key
  let d ← desired s.object
  let (dependents, events, healthy) ← match ← s.dependents.slot key with
    | .absent => pure (s.dependents.push key (deployment d), [createdEvent], 0)
    | .present observed => do
      let updated ← update d observed
      pure (s.dependents.insert key [updated], [], available updated)
  let object ← s.object.insertStatus "healthyReplicas" (.ofInt healthy)
  return { s with object, dependents, events := s.events ++ events }

def reconciler : Reconciler := ⟨[deployments.declare .one], body⟩

def controller : Controller := ⟨"containerset", resource, validate, mutate, reconciler⟩

end ContainerSet

end ControllerHooks
