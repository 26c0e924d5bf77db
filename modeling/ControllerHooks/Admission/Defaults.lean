import ControllerHooks.Admission.Response
import ControllerHooks.Patch.Apply

/-!
# Defaults and corrections

A field rule looks at one place of a document. Where nothing or null stands, it may add a default,
with the objects around it; where a value stands that it does not accept, it may replace it.

* `FieldRule.step` is the one operation that a rule asks for.
* `Defaults.evaluate` collects them: each rule sees what the rules before it did.
-/

namespace ControllerHooks

structure FieldRule where
  path : List String
  default : Option Json
  /-- Which values are replaced, and by what. -/
  correction : Option ((Json → Bool) × Json)

namespace FieldRule

def dotted (path : List String) : String := ".".intercalate path

/-- A value inside new objects. -/
def nest (path : List String) (value : Json) : Json :=
  path.foldr (fun token value => .object [(token, value)]) value

/-- What the rule asks for at `value`, which stands at `walked`, with `rest` of its path to go. -/
def stepFrom (rule : FieldRule) (walked : List String) : (rest : List String) → (value : Json) →
    Except Fault (Option Operation)
  | [], value =>
    match rule.correction with
    | some (rejects, better) =>
      .ok (if rejects value then some (.replace ⟨walked⟩ better) else none)
    | none => .ok none
  | token :: rest, value =>
    match value.members? with
    | none => .error (.invalidField (dotted walked) "not an object")
    | some members =>
      let next := (Entries.find? token members).getD .null
      if next.isNull then
        .ok (rule.default.map fun value => .add ⟨walked ++ [token]⟩ (nest rest value))
      else stepFrom rule (walked ++ [token]) rest next

def step (rule : FieldRule) (document : Json) : Except Fault (Option Operation) :=
  stepFrom rule [] rule.path document

end FieldRule

namespace Defaults

/-- The document and the patch so far, taken one rule further. -/
def advance (soFar : Json × Patch) (rule : FieldRule) : Except Fault (Json × Patch) := do
  let (document, patch) := soFar
  match ← rule.step document with
  | none => return (document, patch)
  | some op =>
    let document ← (Patch.apply [op] document).mapError fun failure => .patch (.mismatch failure)
    return (document, patch ++ [op])

def evaluate (rules : List FieldRule) (object : Object) : Except Fault Mutation := do
  let (_, patch) ← rules.foldlM advance (object.toValue, [])
  return if patch = [] then .unchanged else .patch patch

end Defaults

end ControllerHooks
