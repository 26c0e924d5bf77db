import ControllerHooks.Controllers.ContainerSet
import ControllerHooks.Controllers.Noop

/-!
# The registered controllers

* `Controller.find?` looks a controller up by name.
* `Manifest.ofCommand` tells a runtime which controllers there are, what they own, and which
  command runs each of their hooks.
-/

namespace ControllerHooks

namespace Controller

def all : List Controller := [ContainerSet.controller, Noop.controller]

def find? (name : String) : Option Controller := all.find? fun c => c.name = name

/-- A line about a controller, for diagnostics. -/
def describe (c : Controller) : String :=
  let field (name value : String) := s!"{name}: {Quoted.quote value}"
  let resource := ", ".intercalate
    [field "group" c.resource.group, field "version" c.resource.version,
      field "kind" c.resource.kind]
  let name := field "name" c.name
  s!"Controller \x7b {name}, resource: ResourceType \x7b {resource} \x7d, .. \x7d"

end Controller

def ResourceType.toJson (t : ResourceType) : Json := .object
  (Object.textMember "group" t.group ++ [("version", .string t.version), ("kind", .string t.kind)])

/-- How to run one hook of a controller. -/
structure HookCommand where
  command : String
  args : List String
  deriving DecidableEq

namespace HookCommand

def toJson (h : HookCommand) : Json := .object
  [("exec", .object [("command", .string h.command), ("args", .array (h.args.map .string))])]

end HookCommand

/-- What a runtime needs to know of one controller. -/
structure Registration where
  name : String
  resource : ResourceType
  dependents : List DependentDecl
  validator : HookCommand
  mutator : HookCommand
  reconciler : HookCommand
  deriving DecidableEq

namespace Registration

def ofController (command : String) (c : Controller) : Registration :=
  let hook (name : String) : HookCommand := ⟨command, [name, "--controller", c.name]⟩
  ⟨c.name, c.resource, c.reconciler.dependents, hook "validate", hook "mutate", hook "reconcile"⟩

def toJson (r : Registration) : Json := .object
  [("name", .string r.name), ("resource", r.resource.toJson),
    ("dependents", Payload.toJson r.dependents), ("validator", r.validator.toJson),
    ("mutator", r.mutator.toJson), ("reconciler", r.reconciler.toJson)]

end Registration

abbrev Manifest := List Registration

namespace Manifest

def ofCommand (command : String) : Manifest :=
  Controller.all.map (Registration.ofController command)

def toJson (m : Manifest) : Json := .object [("controllers", .array (m.map Registration.toJson))]

end Manifest

end ControllerHooks
