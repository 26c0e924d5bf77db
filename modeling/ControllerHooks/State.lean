import ControllerHooks.Event
import ControllerHooks.Object

/-!
# The state of a parent and its dependents

* `Dependents` groups objects by resource key; `Dependents.slot` is the place of a dependent that
  can occur only once.
* `State` is what a reconcile pass is given and what it returns.
-/

namespace ControllerHooks

abbrev Dependents := SortedMap ResourceKey (List Object)

/-- The place of the single dependent of a type. -/
inductive Slot where
  | absent
  | present (object : Object)
  deriving DecidableEq

namespace Dependents

/-- The dependents under a key. A missing key and an empty list are alike. -/
def objects (deps : Dependents) (key : ResourceKey) : List Object := (deps.get? key).getD []

/-- With more than one object there is no telling which one counts. -/
def slot (deps : Dependents) (key : ResourceKey) : Except Fault Slot :=
  match deps.objects key with
  | [] => .ok .absent
  | [object] => .ok (.present object)
  | objects => .error (.tooManyDependents key objects.length)

/-- The same dependents, with an entry for the key. -/
def ensure (deps : Dependents) (key : ResourceKey) : Dependents :=
  deps.insert key (deps.objects key)

/-- One more dependent, after those under the same key. -/
def push (deps : Dependents) (key : ResourceKey) (object : Object) : Dependents :=
  deps.insert key (deps.objects key ++ [object])

instance : Payload Dependents where
  read := Reader.map ResourceKey.read (Reader.list Payload.read)
  toJson deps := .object (deps.entries.map fun e => (e.1.text, Payload.toJson e.2))

def settled (deps : Dependents) : Dependents := deps.mapValues fun objects => objects.map .settled

end Dependents

structure State where
  object : Object
  dependents : Dependents
  /-- Objects that the parent refers to, to be read only. -/
  references : Dependents
  events : List Event
  requeue : Bool
  /-- Seconds until the next pass is wished for. -/
  requeueAfter : Option UInt64
  deriving DecidableEq

namespace State

def blank : State := ⟨.blank, .empty, .empty, [], false, none⟩

def emit (s : State) (e : Event) : State := { s with events := s.events ++ [e] }

def fields : List (Field State) :=
  [.required "object" Payload.read fun s o => { s with object := o },
    .defaulted "dependents" Payload.read fun s deps => { s with dependents := deps },
    .defaulted "references" Payload.read fun s deps => { s with references := deps },
    .defaulted "events" Payload.read fun s es => { s with events := es },
    .defaulted "requeue" Reader.bool fun s b => { s with requeue := b },
    .optional "requeueAfter" Reader.uint64 fun s n => { s with requeueAfter := n }]

def members (s : State) : List (String × Json) :=
  [("object", Payload.toJson s.object), ("dependents", Payload.toJson s.dependents)] ++
    (if s.references.isEmpty then [] else [("references", Payload.toJson s.references)]) ++
    (if s.events.isEmpty then [] else [("events", Payload.toJson s.events)]) ++
    (if s.requeue then [("requeue", .bool true)] else []) ++
    Json.optional "requeueAfter" (fun n => .ofNat n.toNat) s.requeueAfter

instance : Payload State where
  read := Record.read "ReconcileState" fields blank
  toJson s := .object s.members

/-- The state with no negative zero in it. -/
def settled (s : State) : State :=
  { s with
    object := s.object.settled
    dependents := s.dependents.settled
    references := s.references.settled }

def same (a b : State) : Bool := a.settled = b.settled

end State

end ControllerHooks
