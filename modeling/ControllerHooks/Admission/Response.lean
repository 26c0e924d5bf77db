import ControllerHooks.Object

/-!
# Admission requests and responses

A client's write is checked and corrected before it is kept. The answer allows or denies it, and
may carry a patch.

* `AdmissionResponse.ofVerdict` and `AdmissionResponse.ofMutation` are the answers of the hooks.
* `AdmissionResponse.check` states what every answer satisfies.
-/

namespace ControllerHooks

/-- The object as the client wants to write it. -/
structure AdmissionRequest where
  object : Object
  deriving DecidableEq

instance : Payload AdmissionRequest where
  read := Record.read "AdmissionRequest"
    [.required "object" Payload.read fun _ o => ⟨o⟩] ⟨.blank⟩
  toJson request := .object [("object", Payload.toJson request.object)]

inductive PatchType where
  | jsonPatch
  deriving DecidableEq

instance : Payload PatchType where
  read := Reader.variant [("JSONPatch", .jsonPatch)]
  toJson _ := .string "JSONPatch"

structure AdmissionStatus where
  reason : String
  deriving DecidableEq

instance : Payload AdmissionStatus where
  read := Record.read "AdmissionStatus" [.defaulted "reason" Reader.string fun _ s => ⟨s⟩] ⟨""⟩
  toJson status := .object [("reason", .string status.reason)]

/-- What validation decides. A denial is an answer, not a fault. -/
inductive Verdict where
  | allow
  | deny (reason : String)
  deriving DecidableEq

/-- What mutation decides. -/
inductive Mutation where
  | unchanged
  | patch (patch : Patch)
  deriving DecidableEq

structure AdmissionResponse where
  allowed : Bool
  status : Option AdmissionStatus
  patchType : Option PatchType
  patch : Option EncodedPatch
  deriving DecidableEq

namespace AdmissionResponse

instance : Payload AdmissionResponse where
  read := Record.read "AdmissionResponse"
    [.required "allowed" Reader.bool fun r b => { r with allowed := b },
      .optional "status" Payload.read fun r s => { r with status := s },
      .optional "patchType" Payload.read fun r t => { r with patchType := t },
      .optional "patch" Payload.read fun r p => { r with patch := p }] ⟨false, none, none, none⟩
  toJson r := .object
    ([("allowed", .bool r.allowed)] ++ Json.optional "status" Payload.toJson r.status ++
      Json.optional "patchType" Payload.toJson r.patchType ++
      Json.optional "patch" Payload.toJson r.patch)

def ofVerdict : Verdict → AdmissionResponse
  | .allow => ⟨true, some ⟨""⟩, none, none⟩
  | .deny reason => ⟨false, some ⟨reason⟩, none, none⟩

/-- A mutation always allows. An empty patch is no patch. -/
def ofMutation : Mutation → AdmissionResponse
  | .unchanged | .patch [] => ⟨true, none, none, none⟩
  | .patch patch => ⟨true, none, some .jsonPatch, some (.ofPatch patch)⟩

def reason (r : AdmissionResponse) : Option String := r.status.map AdmissionStatus.reason

def decodedPatch (r : AdmissionResponse) : Except Fault (Option Patch) :=
  match r.patch with
  | none => .ok none
  | some encoded => (encoded.decode.map some).mapError .patch

/-- A patch comes with its type, and a denial with a reason and without a patch. -/
def check (r : AdmissionResponse) : Except Fault Unit := do
  if r.patch.isSome ≠ r.patchType.isSome then
    throw (.invalidField "patchType" "patch and patchType must be set together")
  if !r.allowed then
    if r.reason.getD "" = "" then
      throw (.invalidField "status.reason" "a denied response must carry a reason")
    if r.patch.isSome then
      throw (.invalidField "patch" "a denied response must not carry a patch")

end AdmissionResponse

end ControllerHooks
