import ControllerHooks.State

/-!
# What a pass may be given and may return

* `Dependents.check` holds for the observed dependents before a pass.
* `State.checkTransition` holds between the observed state and the desired one after it.
-/

namespace ControllerHooks

/-- The first declaration of a key counts. -/
def declarationOf (decls : List DependentDecl) (key : ResourceKey) : Option DependentDecl :=
  decls.find? fun decl => decl.key = key

/-- More objects than their declaration allows. -/
def exceeds (decl : DependentDecl) (objects : List Object) : Bool :=
  decl.arity = .one && 1 < objects.length

namespace Dependents

def checkEntry (decls : List DependentDecl) (entry : ResourceKey × List Object) :
    Except Fault Unit :=
  let (key, objects) := entry
  match declarationOf decls key with
  | none =>
    .error (.invalidField s!"dependents[{key.text}]" "kind is not declared by this controller")
  | some decl =>
    if exceeds decl objects then .error (.tooManyDependents key objects.length) else .ok ()

/-- Every key is declared, and a type with at most one dependent has at most one. -/
def check (deps : Dependents) (decls : List DependentDecl) : Except Fault Unit :=
  deps.entries.forM (checkEntry decls)

end Dependents

namespace State

def checkDesiredObject (parent : Object) (key : ResourceKey) (index : Nat) (object : Object) :
    Except Fault Unit := do
  let wrong (what : String) : Fault := .transition s!"dependents[{key.text}][{index}]: {what}"
  if object.key ≠ key then throw (wrong "kind does not match key")
  if object.name.getD "" = "" then throw (wrong "name must be specified")
  if object.inNamespace ≠ parent.inNamespace then throw (wrong "namespace does not match")

def checkDesiredObjects (parent : Object) (key : ResourceKey) : (index : Nat) → List Object →
    Except Fault Unit
  | _, [] => .ok ()
  | index, object :: rest => do
    checkDesiredObject parent key index object
    checkDesiredObjects parent key (index + 1) rest

def checkDesiredEntry (decls : List DependentDecl) (parent : Object)
    (entry : ResourceKey × List Object) : Except Fault Unit :=
  let (key, objects) := entry
  let wrong (what : String) : Fault := .transition s!"dependents[{key.text}]: {what}"
  match declarationOf decls key with
  | none => .error (wrong "unexpected group/version/kind")
  | some decl =>
    if exceeds decl objects then .error (wrong "at most one object is allowed")
    else checkDesiredObjects parent key 0 objects

/-- The parent is the same object as before, and every dependent is declared, belongs under its
key, has a name and lives in the parent's namespace. -/
def checkTransition (observed desired : State) (decls : List DependentDecl) :
    Except Fault Unit := do
  let old := observed.object
  let new := desired.object
  if old.apiVersion ≠ new.apiVersion ∨ old.kind ≠ new.kind then
    throw (.transition "object: group/version/kind does not match")
  if old.inNamespace ≠ new.inNamespace then
    throw (.transition "object: namespace does not match")
  if old.name ≠ new.name then
    throw (.transition "object: name does not match")
  desired.dependents.entries.forM (checkDesiredEntry decls new)

end State

end ControllerHooks
