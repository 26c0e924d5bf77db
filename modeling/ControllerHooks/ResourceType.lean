import ControllerHooks.Payload
import ControllerHooks.Unicode.Lowercase

/-!
# Resource types and their keys

A resource type is a group, a version and a kind. Its key is the lower case of
`kind.version.group`, or of `kind.version` in the core group, which has no name.

* `ResourceKey.parse` accepts the keys that a request may use.
* `ResourceType.key` derives a key; it is accepted when its parts are well formed.
* `DependentDecl` declares that a controller owns dependents of a type, and how many.
-/

namespace ControllerHooks

/-- What names a resource type in a request. -/
structure ResourceKey where
  text : String
  deriving DecidableEq

namespace ResourceKey

instance : Ord ResourceKey := ⟨fun a b => compare a.text b.text⟩

instance : Std.TransOrd ResourceKey where
  eq_swap {a b} :=
    (Std.OrientedCmp.eq_swap : compare a.text b.text = (compare b.text a.text).swap)
  isLE_trans {a _ c} ab bc :=
    (Std.TransCmp.isLE_trans ab bc : (compare a.text c.text).isLE)

instance : Std.LawfulEqOrd ResourceKey where
  compare_self {a} := (Std.ReflCmp.compare_self : compare a.text a.text = .eq)
  eq_of_compare {a b} h := by
    have texts : compare a.text b.text = .eq := h
    have same : a.text = b.text := Std.LawfulEqCmp.eq_of_compare texts
    cases a; cases b; cases same; rfl

/-- How far a key has been read. -/
inductive Reading where
  | start
  | kind
  | version
  | versionMark
  | versionNumber
  /-- In `alpha` or `beta`, with the letters to come. -/
  | stage (letters : List Char)
  | stageNumber (begun : Bool)
  | label
  | inLabel
  | hyphen
  | refused
  deriving DecidableEq

namespace Reading

def isLetterOrDigit (c : Char) : Bool := ('a' ≤ c && c ≤ 'z') || c.isDigit

def step : Reading → Char → Reading
  | start, c => if isLetterOrDigit c then kind else refused
  | kind, c => if isLetterOrDigit c then kind else if c = '.' then version else refused
  | version, c => if c = 'v' then versionMark else refused
  | versionMark, c => if c.isDigit then versionNumber else refused
  | versionNumber, c =>
    if c.isDigit then versionNumber
    else if c = 'a' then stage ['l', 'p', 'h', 'a']
    else if c = 'b' then stage ['e', 't', 'a']
    else if c = '.' then label
    else refused
  | stage [], c => if c.isDigit then stageNumber true else refused
  | stage [d], c => if c = d then stageNumber false else refused
  | stage (d :: letters), c => if c = d then stage letters else refused
  | stageNumber begun, c =>
    if c.isDigit then stageNumber true else if begun && c = '.' then label else refused
  | label, c => if isLetterOrDigit c then inLabel else refused
  | inLabel, c =>
    if isLetterOrDigit c then inLabel
    else if c = '-' then hyphen
    else if c = '.' then label
    else refused
  | hyphen, c => if isLetterOrDigit c then inLabel else if c = '-' then hyphen else refused
  | refused, _ => refused

def isComplete : Reading → Bool
  | versionNumber | stageNumber true | inLabel => true
  | _ => false

end Reading

def isWellFormed (text : String) : Bool := (text.toList.foldl Reading.step .start).isComplete

/-- The key with this text: a kind, a version like `v1` or `v2beta3`, and the labels of a group. -/
def parse? (text : String) : Option ResourceKey := if isWellFormed text then some ⟨text⟩ else none

def read (text : String) : Except DecodeError ResourceKey :=
  match parse? text with
  | some key => .ok key
  | none => .error (.resourceKey text)

instance : Payload ResourceKey where
  read d := do read (← Reader.string d)
  toJson key := .string key.text

end ResourceKey

structure ResourceType where
  group : String
  version : String
  kind : String
  deriving DecidableEq

namespace ResourceType

/-- The group and version as an object carries them. -/
def apiVersion (t : ResourceType) : String :=
  if t.group = "" then t.version else s!"{t.group}/{t.version}"

/-- The type of an object with this API version: what stands before the first slash is the group. -/
def ofApiVersion (apiVersion kind : String) : ResourceType :=
  let chars := apiVersion.toList
  if chars.contains '/' then
    ⟨String.ofList (chars.takeWhile (· ≠ '/')), String.ofList ((chars.dropWhile (· ≠ '/')).drop 1),
      kind⟩
  else ⟨"", apiVersion, kind⟩

def key (t : ResourceType) : ResourceKey :=
  let name := if t.group = "" then s!"{t.kind}.{t.version}" else s!"{t.kind}.{t.version}.{t.group}"
  ⟨String.ofList (Unicode.lowercase name.toList)⟩

end ResourceType

/-- How many dependents of one type a parent may own. -/
inductive Arity where
  | one
  | many
  deriving DecidableEq

namespace Arity

def name : Arity → String
  | one => "one"
  | many => "many"

instance : Payload Arity where
  read := Reader.variant [("one", one), ("many", many)]
  toJson arity := .string arity.name

end Arity

/-- A type of dependents that a controller owns. -/
structure DependentDecl where
  key : ResourceKey
  apiVersion : String
  kind : String
  arity : Arity
  deriving DecidableEq

namespace DependentDecl

instance : Payload DependentDecl where
  read := Record.read "DependentDecl"
    [.required "key" Payload.read fun d key => { d with key := key },
      .required "apiVersion" Reader.string fun d s => { d with apiVersion := s },
      .required "kind" Reader.string fun d s => { d with kind := s },
      .required "arity" Payload.read fun d arity => { d with arity := arity }]
    ⟨⟨""⟩, "", "", .one⟩
  toJson d := .object
    [("key", Payload.toJson d.key), ("apiVersion", .string d.apiVersion), ("kind", .string d.kind),
      ("arity", Payload.toJson d.arity)]

end DependentDecl

def ResourceType.declare (t : ResourceType) (arity : Arity) : DependentDecl :=
  ⟨t.key, t.apiVersion, t.kind, arity⟩

end ControllerHooks
