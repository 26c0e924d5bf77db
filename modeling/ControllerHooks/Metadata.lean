import ControllerHooks.Payload

/-!
# Metadata of an object

What an object says of itself beside its specification. Members that are not known are dropped;
every known one may be missing.
-/

namespace ControllerHooks

abbrev TextMap := SortedMap String String

def Reader.textMap : Reader TextMap := Reader.map .ok Reader.string

namespace Metadata

def mapJson (m : TextMap) : Json := .object (m.entries.map fun e => (e.1, .string e.2))

def textsJson (texts : List String) : Json := .array (texts.map .string)

def timeJson (t : Timestamp) : Json := .string t.text

end Metadata

open Metadata (mapJson textsJson timeJson)

/-- An object that this one belongs to. -/
structure OwnerReference where
  apiVersion : String
  blockOwnerDeletion : Option Bool
  controller : Option Bool
  kind : String
  name : String
  uid : String
  deriving DecidableEq

namespace OwnerReference

def blank : OwnerReference := ⟨"", none, none, "", "", ""⟩

def read : Reader OwnerReference := Record.readLoose "OwnerReference"
  [.optional "apiVersion" Reader.string fun r s => { r with apiVersion := s.getD "" },
    .optional "blockOwnerDeletion" Reader.bool fun r b => { r with blockOwnerDeletion := b },
    .optional "controller" Reader.bool fun r b => { r with controller := b },
    .optional "kind" Reader.string fun r s => { r with kind := s.getD "" },
    .optional "name" Reader.string fun r s => { r with name := s.getD "" },
    .optional "uid" Reader.string fun r s => { r with uid := s.getD "" }] blank

def toJson (r : OwnerReference) : Json := .object
  ([("apiVersion", .string r.apiVersion)] ++
    Json.optional "blockOwnerDeletion" .bool r.blockOwnerDeletion ++
    Json.optional "controller" .bool r.controller ++
    [("kind", .string r.kind), ("name", .string r.name), ("uid", .string r.uid)])

end OwnerReference

/-- Which fields a manager has set, and when. -/
structure ManagedFields where
  apiVersion : Option String
  fieldsType : Option String
  fields : Option Json
  manager : Option String
  operation : Option String
  subresource : Option String
  time : Option Timestamp
  deriving DecidableEq

namespace ManagedFields

def blank : ManagedFields := ⟨none, none, none, none, none, none, none⟩

def read : Reader ManagedFields := Record.readLoose "ManagedFieldsEntry"
  [.optional "apiVersion" Reader.string fun m s => { m with apiVersion := s },
    .optional "fieldsType" Reader.string fun m s => { m with fieldsType := s },
    .optional "fieldsV1" Reader.json fun m v => { m with fields := v },
    .optional "manager" Reader.string fun m s => { m with manager := s },
    .optional "operation" Reader.string fun m s => { m with operation := s },
    .optional "subresource" Reader.string fun m s => { m with subresource := s },
    .optional "time" Reader.timestamp fun m t => { m with time := t }] blank

def toJson (m : ManagedFields) : Json := .object
  (Json.optional "apiVersion" .string m.apiVersion ++
    Json.optional "fieldsType" .string m.fieldsType ++
    Json.optional "fieldsV1" id m.fields ++
    Json.optional "manager" .string m.manager ++
    Json.optional "operation" .string m.operation ++
    Json.optional "subresource" .string m.subresource ++
    Json.optional "time" timeJson m.time)

/-- The entry with no negative zero in it. -/
def settled (m : ManagedFields) : ManagedFields := { m with fields := m.fields.map Json.settled }

end ManagedFields

structure Metadata where
  annotations : Option TextMap
  creationTimestamp : Option Timestamp
  deletionGracePeriodSeconds : Option Int64
  deletionTimestamp : Option Timestamp
  finalizers : Option (List String)
  generateName : Option String
  generation : Option Int64
  labels : Option TextMap
  managedFields : Option (List ManagedFields)
  name : Option String
  inNamespace : Option String
  ownerReferences : Option (List OwnerReference)
  resourceVersion : Option String
  selfLink : Option String
  uid : Option String
  deriving DecidableEq

namespace Metadata

def blank : Metadata where
  annotations := none
  creationTimestamp := none
  deletionGracePeriodSeconds := none
  deletionTimestamp := none
  finalizers := none
  generateName := none
  generation := none
  labels := none
  managedFields := none
  name := none
  inNamespace := none
  ownerReferences := none
  resourceVersion := none
  selfLink := none
  uid := none

def fields : List (Field Metadata) :=
  [.optional "annotations" Reader.textMap fun m v => { m with annotations := v },
    .optional "creationTimestamp" Reader.timestamp fun m v => { m with creationTimestamp := v },
    .optional "deletionGracePeriodSeconds" Reader.int64
      fun m v => { m with deletionGracePeriodSeconds := v },
    .optional "deletionTimestamp" Reader.timestamp fun m v => { m with deletionTimestamp := v },
    .optional "finalizers" (Reader.list Reader.string) fun m v => { m with finalizers := v },
    .optional "generateName" Reader.string fun m v => { m with generateName := v },
    .optional "generation" Reader.int64 fun m v => { m with generation := v },
    .optional "labels" Reader.textMap fun m v => { m with labels := v },
    .optional "managedFields" (Reader.list ManagedFields.read)
      fun m v => { m with managedFields := v },
    .optional "name" Reader.string fun m v => { m with name := v },
    .optional "namespace" Reader.string fun m v => { m with inNamespace := v },
    .optional "ownerReferences" (Reader.list OwnerReference.read)
      fun m v => { m with ownerReferences := v },
    .optional "resourceVersion" Reader.string fun m v => { m with resourceVersion := v },
    .optional "selfLink" Reader.string fun m v => { m with selfLink := v },
    .optional "uid" Reader.string fun m v => { m with uid := v }]

def int64Json (n : Int64) : Json := .ofInt n.toInt

def arrayJson {α : Type} (toJson : α → Json) (xs : List α) : Json := .array (xs.map toJson)

def members (m : Metadata) : List (String × Json) :=
  Json.optional "annotations" mapJson m.annotations ++
    Json.optional "creationTimestamp" timeJson m.creationTimestamp ++
    Json.optional "deletionGracePeriodSeconds" int64Json m.deletionGracePeriodSeconds ++
    Json.optional "deletionTimestamp" timeJson m.deletionTimestamp ++
    Json.optional "finalizers" textsJson m.finalizers ++
    Json.optional "generateName" .string m.generateName ++
    Json.optional "generation" int64Json m.generation ++
    Json.optional "labels" mapJson m.labels ++
    Json.optional "managedFields" (arrayJson ManagedFields.toJson) m.managedFields ++
    Json.optional "name" .string m.name ++
    Json.optional "namespace" .string m.inNamespace ++
    Json.optional "ownerReferences" (arrayJson OwnerReference.toJson) m.ownerReferences ++
    Json.optional "resourceVersion" .string m.resourceVersion ++
    Json.optional "selfLink" .string m.selfLink ++
    Json.optional "uid" .string m.uid

instance : Payload Metadata where
  read := Record.readLoose "ObjectMeta" fields blank
  toJson m := .object m.members

/-- The metadata with no negative zero in them. -/
def settled (m : Metadata) : Metadata :=
  { m with managedFields := m.managedFields.map fun ms => ms.map ManagedFields.settled }

end Metadata

end ControllerHooks
