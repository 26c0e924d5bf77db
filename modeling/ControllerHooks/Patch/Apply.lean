import ControllerHooks.Patch.Operation

/-!
# Applying a patch

Operations are applied one after another. When one fails, those before it are undone, the last
one first; what the failed one has done itself stays, so a move whose value finds no new place has
taken it from the old one.

* `Json.insertAt?`, `Json.removeAt?`, `Json.replaceAt?` change one place of a document.
* `Operation.run` applies one operation and says how to undo it.
* `Patch.apply` applies them all.
-/

namespace ControllerHooks

namespace Json

/-- Put a value under a token, with the member it overwrites. An item moves those after it up;
`-` stands for the end of an array. -/
def insertChild? (token : String) (value : Json) : Json → Option (Option Json × Json)
  | .object members =>
    some (Entries.find? token members, .object (Entries.insert token value members))
  | .array items =>
    if token = "-" then some (none, .array (items ++ [value]))
    else (index? token (items.length + 1)).map fun i => (none, .array (items.insertIdx i value))
  | _ => none

/-- Take a value out, where `-` may stand for the last item. -/
def removeChild? (dash : Bool) (token : String) : Json → Option (Json × Json)
  | .object members =>
    (Entries.find? token members).map fun value => (value, .object (Entries.erase token members))
  | .array items =>
    if dash && token = "-" then items.getLast?.map fun value => (value, .array items.dropLast)
    else do
      let i ← index? token items.length
      let value ← items[i]?
      return (value, .array (items.eraseIdx i))
  | _ => none

/-- Put a value at a place, with the value it overwrites. -/
def insertAt? (document : Json) (path : Pointer) (value : Json) : Option (Option Json × Json) :=
  match path.split? with
  | none => some (some document, value)
  | some (parent, last) => document.modifyAt? (insertChild? last value) parent

def removeAt? (document : Json) (dash : Bool) (path : Pointer) : Option (Json × Json) :=
  match path.split? with
  | none => none
  | some (parent, last) => document.modifyAt? (removeChild? dash last) parent

def replaceAt? (document : Json) (path : Pointer) (value : Json) : Option (Json × Json) :=
  document.modifyAt? (fun old => some (old, value)) path.tokens

end Json

/-- Why an operation does not apply. -/
inductive Mismatch where
  | path
  | source
  | value
  | insideItself
  deriving DecidableEq

def Mismatch.message : Mismatch → String
  | path => "path is invalid"
  | source => "\"from\" path is invalid"
  | value => "value did not match"
  | insideItself => "cannot move the value inside itself"

/-- How to take an applied operation back. -/
inductive Undo where
  | add (path : Pointer) (value : Json)
  | remove (path : Pointer)
  | replace (path : Pointer) (value : Json)
  | move (source path : Pointer)
  deriving DecidableEq

def Undo.run? (document : Json) : Undo → Option Json
  | add path value => (document.insertAt? path value).map Prod.snd
  | remove path => (document.removeAt? true path).map Prod.snd
  | replace path value => (document.replaceAt? path value).map Prod.snd
  | move source path => do
    let (value, rest) ← document.removeAt? true source
    let (_, result) ← rest.insertAt? path value
    return result

namespace Operation

/-- What undoes the arrival of a value at a place. -/
def undoInsert (path : Pointer) : Option Json → Undo
  | none => .remove path
  | some overwritten => .add path overwritten

/-- The document after an operation and what undoes it, first things first; or what is wrong, and
the document as the operation leaves it. -/
def run (document : Json) : Operation → Except (Mismatch × Json) (Json × List Undo)
  | add path value =>
    match document.insertAt? path value with
    | none => .error (.path, document)
    | some (old, result) => .ok (result, [undoInsert path old])
  | remove path =>
    match document.removeAt? false path with
    | none => .error (.path, document)
    | some (old, result) => .ok (result, [.add path old])
  | replace path value =>
    match document.replaceAt? path value with
    | none => .error (.path, document)
    | some (old, result) => .ok (result, [.replace path old])
  | move source path =>
    if source.isAbove path then .error (.insideItself, document)
    else
      match document.removeAt? false source with
      | none => .error (.source, document)
      | some (value, rest) =>
        match rest.insertAt? path value with
        | none => .error (.path, rest)
        | some (old, result) =>
          .ok (result, .move path source :: (old.map fun value => Undo.add path value).toList)
  | copy source path =>
    match document.at? source.tokens with
    | none => .error (.source, document)
    | some value =>
      match document.insertAt? path value with
      | none => .error (.path, document)
      | some (old, result) => .ok (result, [undoInsert path old])
  | test path value =>
    match document.at? path.tokens with
    | none => .error (.path, document)
    | some found => if found.same value then .ok (document, []) else .error (.value, document)

end Operation

namespace Patch

structure Failure where
  index : Nat
  path : Pointer
  reason : Mismatch
  /-- The document as the failed patch leaves it. -/
  document : Json
  deriving DecidableEq

def Failure.message (f : Failure) : String :=
  s!"operation '/{f.index}' failed at path '{f.path.text}': {f.reason.message}"

def undoAll (document : Json) (undos : List Undo) : Json :=
  undos.foldl (fun document undo => (undo.run? document).getD document) document

/-- Apply the operations from one index on. -/
def applyFrom : (index : Nat) → (undos : List Undo) → Patch → Json → Except Failure Json
  | _, _, [], document => .ok document
  | index, undos, op :: rest, document =>
    match op.run document with
    | .error (reason, document) => .error ⟨index, op.path, reason, undoAll document undos⟩
    | .ok (document, more) => applyFrom (index + 1) (more ++ undos) rest document

def apply (patch : Patch) (document : Json) : Except Failure Json := applyFrom 0 [] patch document

end Patch

end ControllerHooks
