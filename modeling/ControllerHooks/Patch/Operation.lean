import ControllerHooks.Payload

/-!
# Patch operations

A patch is a list of operations on a JSON document, in the order of their application.

An operation is kept aside as a whole while its kind is looked for, since the fields that it needs
depend on it. It is given as an object with a member `op`, or as an array that begins with it.
-/

namespace ControllerHooks

inductive Operation where
  | add (path : Pointer) (value : Json)
  | remove (path : Pointer)
  | replace (path : Pointer) (value : Json)
  | move (source path : Pointer)
  | copy (source path : Pointer)
  | test (path : Pointer) (value : Json)
  deriving DecidableEq

abbrev Patch := List Operation

namespace Operation

inductive Kind where
  | add
  | remove
  | replace
  | move
  | copy
  | test
  deriving DecidableEq

namespace Kind

def names : List (String × Kind) :=
  [("add", add), ("remove", remove), ("replace", replace), ("move", move), ("copy", copy),
    ("test", test)]

def name : Kind → String
  | add => "add"
  | remove => "remove"
  | replace => "replace"
  | move => "move"
  | copy => "copy"
  | test => "test"

def recordName : Kind → String
  | add => "AddOperation"
  | remove => "RemoveOperation"
  | replace => "ReplaceOperation"
  | move => "MoveOperation"
  | copy => "CopyOperation"
  | test => "TestOperation"

end Kind

/-- What an operation of any kind may need. -/
structure Draft where
  source : Pointer
  path : Pointer
  value : Json

def pathField : Field Draft := .required "path" Reader.pointer fun r p => { r with path := p }

def sourceField : Field Draft := .required "from" Reader.pointer fun r p => { r with source := p }

def valueField : Field Draft := .required "value" Reader.json fun r v => { r with value := v }

def Kind.fields : Kind → List (Field Draft)
  | .remove => [pathField]
  | .move | .copy => [sourceField, pathField]
  | .add | .replace | .test => [pathField, valueField]

def Kind.build (draft : Draft) : Kind → Operation
  | .add => .add draft.path draft.value
  | .remove => .remove draft.path
  | .replace => .replace draft.path draft.value
  | .move => .move draft.source draft.path
  | .copy => .copy draft.source draft.path
  | .test => .test draft.path draft.value

/-- The operation of a kind, from the rest of its document. -/
def Kind.read (kind : Kind) : Reader Operation := fun d => do
  let draft ← Record.read kind.recordName kind.fields ⟨⟨[]⟩, ⟨[]⟩, .null⟩ d
  return kind.build draft

def readKind : Reader Kind
  | .string name => Reader.named Kind.names name
  | d => .error (Reader.mismatch "variant identifier" d)

/-- Keep one more member of an operation aside. -/
def keepMember (soFar : Option Kind × List (String × Json)) (m : Key × Doc) :
    Except DecodeError (Option Kind × List (String × Json)) := do
  let (kind, kept) := soFar
  let name ← Reader.wellFormed m.1.read
  if name = "op" then
    if kind.isSome then throw (.duplicateField "op")
    return (some (← readKind m.2), kept)
  else return (kind, kept ++ [(name, ← Reader.json m.2)])

def missingKind : DecodeError := .missingField "op"

def read : Reader Operation
  | .object members close => do
    let (kind, kept) ← members.foldlM keepMember (none, [])
    Reader.wellFormed (Doc.readFlaw close.objectFlaw)
    match kind with
    | none => throw missingKind
    | some kind => kind.read (.object (Doc.ofMembers .buffer kept) (.closed .buffer))
  | .array [] close => do
    Reader.wellFormed (Doc.readFlaw close.arrayFlaw)
    throw missingKind
  | .array (first :: rest) close => do
    let kind ← readKind first
    let kept ← Reader.wellFormed (Doc.toItems rest)
    Reader.wellFormed (Doc.readFlaw close.arrayFlaw)
    kind.read (.array (Doc.ofItems .buffer kept) (.closed .buffer))
  | d => .error (Reader.mismatch "internally tagged enum PatchOperation" d)

def kind : Operation → Kind
  | add _ _ => .add
  | remove _ => .remove
  | replace _ _ => .replace
  | move _ _ => .move
  | copy _ _ => .copy
  | test _ _ => .test

/-- The place that an operation changes or looks at. -/
def path : Operation → Pointer
  | add path _ | remove path | replace path _ | move _ path | copy _ path | test path _ => path

/-- The members after `op`. -/
def operands : Operation → List (String × Json)
  | add path value | replace path value | test path value =>
    [("path", .string path.text), ("value", value)]
  | remove path => [("path", .string path.text)]
  | move source path | copy source path =>
    [("from", .string source.text), ("path", .string path.text)]

instance : Payload Operation where
  read := read
  toJson op := .object (("op", .string op.kind.name) :: op.operands)

end Operation

end ControllerHooks
