import ControllerHooks.Patch.Operation

/-!
# The difference of two documents

* `Json.diff` is a patch that turns one document into another: member by member, item by item.
* `DiffSummary` counts its operations.
-/

namespace ControllerHooks

namespace Json

/-- Members that the target does not have. -/
def missingMembers (path : List String) (base target : List (String × Json)) : Patch :=
  (base.filter fun m => !Entries.contains m.1 target).map fun m => .remove ⟨path ++ [m.1]⟩

mutual

/-- The operations below a path. -/
def diffAt (path : List String) (base : Json) : (target : Json) → Patch
  | .object target =>
    match base with
    | .object base => diffMembers path base target ++ missingMembers path base target
    | _ => [.replace ⟨path⟩ (.object target)]
  | .array target =>
    match base with
    | .array base => diffItems path 0 base target
    | _ => [.replace ⟨path⟩ (.array target)]
  | target => if base.same target then [] else [.replace ⟨path⟩ target]

def diffMembers (path : List String) (base : List (String × Json)) :
    (target : List (String × Json)) → Patch
  | [] => []
  | (k, x) :: rest =>
    (match Entries.find? k base with
      | some old => diffAt (path ++ [k]) old x
      | none => [.add ⟨path ++ [k]⟩ x]) ++ diffMembers path base rest

/-- The items from one index on. Those that are too many are removed where the first one stands. -/
def diffItems (path : List String) (index : Nat) (base : List Json) : (target : List Json) → Patch
  | [] => base.map fun _ => .remove ⟨path ++ [toString index]⟩
  | x :: rest =>
    match base with
    | old :: base =>
      diffAt (path ++ [toString index]) old x ++ diffItems path (index + 1) base rest
    | [] => .add ⟨path ++ [toString index]⟩ x :: diffItems path (index + 1) [] rest

end

def diff (base target : Json) : Patch := diffAt [] base target

end Json

structure DiffSummary where
  adds : Nat
  updates : Nat
  removes : Nat
  deriving DecidableEq

namespace DiffSummary

def empty : DiffSummary := ⟨0, 0, 0⟩

def isEmpty (s : DiffSummary) : Bool := s = empty

def count (s : DiffSummary) : Operation → DiffSummary
  | .add _ _ => { s with adds := s.adds + 1 }
  | .remove _ => { s with removes := s.removes + 1 }
  | _ => { s with updates := s.updates + 1 }

def ofPatch (patch : Patch) : DiffSummary := patch.foldl count empty

/-- What it takes to turn `base` into `target`. -/
def between (base target : Json) : DiffSummary := ofPatch (base.diff target)

instance : Payload DiffSummary where
  read := Record.read "DiffSummary"
    [.required "adds" Reader.size fun s n => { s with adds := n },
      .required "updates" Reader.size fun s n => { s with updates := n },
      .required "removes" Reader.size fun s n => { s with removes := n }] empty
  toJson s := .object
    [("adds", .ofNat s.adds), ("updates", .ofNat s.updates),
      ("removes", .ofNat s.removes)]

end DiffSummary

end ControllerHooks
