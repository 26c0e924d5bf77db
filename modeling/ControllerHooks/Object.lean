import ControllerHooks.Fault
import ControllerHooks.Metadata

/-!
# Objects

An object has a typed envelope, a free-form specification and status, and any other members, which
are kept.

* `Object.members` are the members in the order of writing; `Object.toValue` is the document that
  patches are planned against.
* `Object.insertSpec` and `Object.insertStatus` set one member, in a part that is made when absent.
* `Object.same` compares objects as their documents' values compare.
-/

namespace ControllerHooks

structure Object where
  apiVersion : String
  kind : String
  metadata : Option Metadata
  spec : Option Json
  status : Option Json
  extra : SortedMap String Json
  deriving DecidableEq

namespace Object

def blank : Object := ⟨"", "", none, none, none, .empty⟩

instance : Inhabited Object := ⟨blank⟩

/-! ## As a document -/

def fields : List (Field Object) :=
  [.defaulted "apiVersion" Reader.string fun o s => { o with apiVersion := s },
    .defaulted "kind" Reader.string fun o s => { o with kind := s },
    .optional "metadata" Payload.read fun o m => { o with metadata := m },
    .optional "spec" Reader.json fun o v => { o with spec := v },
    .optional "status" Reader.json fun o v => { o with status := v }]

def keepExtra (o : Object) (name : String) (d : Doc) : Except DecodeError Object := do
  return { o with extra := o.extra.insert name (← Reader.json d) }

/-- An object comes with names only, never as an array. -/
def read : Reader Object
  | .object members close => Record.ofMembers fields keepExtra blank members close
  | d => .error (Reader.mismatch "struct Object" d)

def textMember (name text : String) : List (String × Json) :=
  if text = "" then [] else [(name, .string text)]

def members (o : Object) : List (String × Json) :=
  textMember "apiVersion" o.apiVersion ++ textMember "kind" o.kind ++
    Json.optional "metadata" Payload.toJson o.metadata ++ Json.optional "spec" id o.spec ++
    Json.optional "status" id o.status ++ o.extra.entries

instance : Payload Object where
  read := read
  toJson o := .object o.members

/-- The object as a value in memory. Of two members with the same key the later one stays. -/
def toValue (o : Object) : Json := .object (Entries.ofList o.members)

def ofValue (value : Json) : Except Fault Object := (Payload.ofJson value).mapError .decode

/-- The object with no negative zero in it. -/
def settled (o : Object) : Object :=
  { o with
    metadata := o.metadata.map Metadata.settled
    spec := o.spec.map Json.settled
    status := o.status.map Json.settled
    extra := o.extra.mapValues Json.settled }

def same (a b : Object) : Bool := a.settled = b.settled

/-! ## The envelope -/

def name (o : Object) : Option String := o.metadata.bind Metadata.name

def inNamespace (o : Object) : Option String := o.metadata.bind Metadata.inNamespace

def requireName (o : Object) : Except Fault String :=
  match o.name with
  | some name => .ok name
  | none => .error (.missingField "metadata.name")

def resourceType (o : Object) : ResourceType := .ofApiVersion o.apiVersion o.kind

def key (o : Object) : ResourceKey := o.resourceType.key

/-- Change the metadata, which are made when absent. -/
def modifyMetadata (f : Metadata → Metadata) (o : Object) : Object :=
  { o with metadata := some (f (o.metadata.getD .blank)) }

/-! ## Specification and status -/

/-- The specification as a typed view, if the object has one. -/
def specAs {α : Type} (read : Reader α) (o : Object) : Except Fault (Option α) :=
  match o.spec with
  | none => .ok none
  | some value =>
    match read (Doc.ofJson .memory value) with
    | .ok x => .ok (some x)
    | .error e => .error (.invalidField "spec" e.message)

def statusField (o : Object) (name : String) : Option Json := o.status.bind (Json.get? name)

/-- The members of a part of an object, none when it is absent. -/
def openPart (field : String) : Option Json → Except Fault (List (String × Json))
  | none => .ok []
  | some (.object members) => .ok members
  | some _ => .error (.invalidField field "not an object")

def insertSpec (field : String) (value : Json) (o : Object) : Except Fault Object := do
  let members ← openPart "spec" o.spec
  return { o with spec := some (.object (Entries.insert field value members)) }

def insertStatus (field : String) (value : Json) (o : Object) : Except Fault Object := do
  let members ← openPart "status" o.status
  return { o with status := some (.object (Entries.insert field value members)) }

end Object

end ControllerHooks
