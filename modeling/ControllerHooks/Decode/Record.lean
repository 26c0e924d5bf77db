import ControllerHooks.Decode.Reader

/-!
# Reading records

A record is filled field by field from a blank one, in the order in which the document gives the
fields, so its fields may be required only at the end.

* `Record.read` reads an object, or an array that gives the fields by position. A field may be
  given once.
* `Record.readLoose` reads an object where every field may be left out, be null, or be repeated.
-/

namespace ControllerHooks

/-- A field of records `ρ`: how to read it into a record, and whether it must be there. -/
structure Field (ρ : Type) where
  name : String
  isRequired : Bool
  fill : ρ → Doc → Except DecodeError ρ

namespace Field

variable {α ρ : Type}

def set (read : Reader α) (put : ρ → α → ρ) (r : ρ) (d : Doc) : Except DecodeError ρ :=
  (read d).map (put r)

def required (name : String) (read : Reader α) (put : ρ → α → ρ) : Field ρ :=
  ⟨name, true, set read put⟩

/-- A field that stays blank when it is left out. -/
def defaulted (name : String) (read : Reader α) (put : ρ → α → ρ) : Field ρ :=
  ⟨name, false, set read put⟩

def optional (name : String) (read : Reader α) (put : ρ → Option α → ρ) : Field ρ :=
  ⟨name, false, set (Reader.optional read) put⟩

end Field

namespace Record

variable {ρ : Type}

open Reader (wellFormed mismatch)

def field? (fields : List (Field ρ)) (name : String) : Option (Field ρ) :=
  fields.find? fun field => field.name = name

/-- What has been read: the record so far, and the names of the fields that were given. -/
abbrev Partial (ρ : Type) := ρ × List String

/-- Read one more member. -/
def member (fields : List (Field ρ)) (other : ρ → String → Doc → Except DecodeError ρ)
    (soFar : Partial ρ) (m : Key × Doc) : Except DecodeError (Partial ρ) := do
  let (r, seen) := soFar
  let name ← wellFormed m.1.read
  match field? fields name with
  | some field =>
    if name ∈ seen then throw (.duplicateField name)
    return (← field.fill r m.2, name :: seen)
  | none => return (← other r name m.2, seen)

/-- Pass over a member that is no field. -/
def ignore (r : ρ) (_name : String) (d : Doc) : Except DecodeError ρ := do
  Reader.ignored d
  return r

/-- Every required field was given. -/
def complete (fields : List (Field ρ)) (seen : List String) : Except DecodeError Unit :=
  match fields.find? fun field => field.isRequired && field.name ∉ seen with
  | some field => .error (.missingField field.name)
  | none => .ok ()

def ofMembers (fields : List (Field ρ)) (other : ρ → String → Doc → Except DecodeError ρ)
    (blank : ρ) (members : List (Key × Doc)) (close : Close) : Except DecodeError ρ := do
  let (r, seen) ← members.foldlM (member fields other) (blank, [])
  wellFormed (Doc.readFlaw close.objectFlaw)
  complete fields seen
  return r

/-- The end of an array whose items were all wanted, or the error of having more of them. -/
def endItems (taken : Nat) (more : List Doc) (close : Close) : Except DecodeError Unit :=
  match more, close with
  | [], .closed _ => .ok ()
  | [], .trailingComma => .error (.malformed .trailingComma)
  | [], .cut => .error (.malformed .arrayCut)
  | more, .closed .buffer =>
    .error (.wrongLength (taken + more.length) s!"{countElements taken} in sequence")
  | more, .closed .memory =>
    .error (.wrongLength (taken + more.length) "fewer elements in array")
  | _, _ => .error (.malformed .trailingCharacters)

/-- The fields from one position on. -/
def ofItems (expected : String) : (position : Nat) → List (Field ρ) → ρ → List Doc → Close →
    Except DecodeError ρ
  | position, [], r, more, close => do
    endItems position more close
    return r
  | position, field :: fields, r, d :: rest, close => do
    let r ← field.fill r d
    ofItems expected (position + 1) fields r rest close
  | position, field :: fields, r, [], close => do
    wellFormed (Doc.readFlaw close.arrayFlaw)
    if field.isRequired then throw (.wrongLength position expected)
    ofItems expected (position + 1) fields r [] close

def read (name : String) (fields : List (Field ρ)) (blank : ρ) : Reader ρ
  | .object members close => ofMembers fields ignore blank members close
  | .array items close =>
    ofItems s!"struct {name} with {countElements fields.length}" 0 fields blank items close
  | d => .error (mismatch s!"struct {name}" d)

/-- Read one more member of a loose record. -/
def looseMember (fields : List (Field ρ)) (r : ρ) (m : Key × Doc) : Except DecodeError ρ := do
  let name ← wellFormed m.1.read
  match field? fields name with
  | some field => field.fill r m.2
  | none => ignore r name m.2

def readLoose (name : String) (fields : List (Field ρ)) (blank : ρ) : Reader ρ
  | .object members close => do
    let r ← members.foldlM (looseMember fields) blank
    wellFormed (Doc.readFlaw close.objectFlaw)
    return r
  | d => .error (mismatch name d)

end Record

end ControllerHooks
