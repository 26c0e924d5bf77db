import ControllerHooks.Patch.Diff
import ControllerHooks.State

/-!
# Plans

A plan compares a desired state with the observed one: what would be created, updated and deleted.

* `ObjectRef` names a dependent; references are ordered by key, namespace and name, and no
  namespace comes first.
* `Plan.between` is the plan from one state to another.
-/

namespace ControllerHooks

structure ObjectRef where
  key : ResourceKey
  inNamespace : Option String
  name : String
  deriving DecidableEq

namespace ObjectRef

/-- Keys first, then namespaces, then names. -/
abbrev order : ObjectRef → ObjectRef → Ordering :=
  compareLex (compareOn ObjectRef.key)
    (compareLex (compareOn ObjectRef.inNamespace) (compareOn ObjectRef.name))

instance : Ord ObjectRef := ⟨order⟩

instance : Std.TransOrd ObjectRef := inferInstanceAs (Std.TransCmp order)

instance : Std.LawfulEqOrd ObjectRef where
  compare_self := Std.ReflCmp.compare_self
  eq_of_compare {a b} h := by
    have equal : order a b = .eq := h
    simp only [order, compareLex, compareOn, Ordering.then_eq_eq, Std.LawfulEqOrd.compare_eq_iff_eq]
      at equal
    obtain ⟨key, ns, name⟩ := equal
    cases a; cases b; cases key; cases ns; cases name; rfl

def members (r : ObjectRef) : List (String × Json) :=
  [("key", Payload.toJson r.key)] ++ Json.optional "namespace" .string r.inNamespace ++
    [("name", .string r.name)]

def toJson (r : ObjectRef) : Json := .object r.members

end ObjectRef

/-- A dependent that differs, and how much. -/
structure Change where
  target : ObjectRef
  summary : DiffSummary
  deriving DecidableEq

structure Plan where
  /-- How the parent differs, if it does. -/
  parent : Option DiffSummary
  created : List ObjectRef
  updated : List Change
  deleted : List ObjectRef
  deriving DecidableEq

namespace Plan

/-- The reference to the dependent at an index under a key, which needs a name. -/
def refOf (key : ResourceKey) (index : Nat) (object : Object) : Except Fault ObjectRef :=
  match object.name with
  | some name => .ok ⟨key, object.inNamespace, name⟩
  | none => .error (.missingField s!"dependents[{key.text}][{index}].metadata.name")

def refsFrom (key : ResourceKey) : (index : Nat) → List Object →
    Except Fault (List (ObjectRef × Object))
  | _, [] => .ok []
  | index, object :: rest => do
    let ref ← refOf key index object
    let refs ← refsFrom key (index + 1) rest
    return (ref, object) :: refs

/-- Dependents by reference. Of two with the same reference the later one stays. -/
def index (deps : Dependents) : Except Fault (SortedMap ObjectRef Object) := do
  let groups ← deps.entries.mapM fun (key, objects) => refsFrom key 0 objects
  return SortedMap.ofList groups.flatten

/-- How one object differs from another. -/
def summary (old new : Object) : DiffSummary := .between old.toValue new.toValue

def changeOf (before : SortedMap ObjectRef Object) (entry : ObjectRef × Object) : Option Change :=
  match before.get? entry.1 with
  | some old => if old.same entry.2 then none else some ⟨entry.1, summary old entry.2⟩
  | none => none

def without (these others : SortedMap ObjectRef Object) : List ObjectRef :=
  these.keys.filter fun ref => (others.get? ref).isNone

def between (observed desired : State) : Except Fault Plan := do
  let before ← index observed.dependents
  let after ← index desired.dependents
  return {
    parent :=
      if observed.object.same desired.object then none
      else some (summary observed.object desired.object)
    created := without after before
    updated := after.entries.filterMap (changeOf before)
    deleted := without before after }

def isNoop (p : Plan) : Bool :=
  p.parent.isNone && p.created.isEmpty && p.updated.isEmpty && p.deleted.isEmpty

def changeJson (c : Change) : Json :=
  .object (c.target.members ++ [("summary", Payload.toJson c.summary)])

def toJson (p : Plan) : Json := .object
  (Json.optional "parent" Payload.toJson p.parent ++
    [("created", .array (p.created.map ObjectRef.toJson)),
      ("updated", .array (p.updated.map changeJson)),
      ("deleted", .array (p.deleted.map ObjectRef.toJson))])

end Plan

end ControllerHooks
