import ControllerHooks.Binary64.Basic
import ControllerHooks.SortedMap

/-!
# JSON values

A value keeps the members of an object in a list. Read from a document the keys of every object
are sorted and each occurs once; a value about to be written holds its members in the order of
writing.

* `Json.same` compares values: an integer is never the same as a real number, and the two zeros
  of the real numbers are the same.
-/

namespace ControllerHooks

/-- An integer, or a number with a fraction or an exponent. -/
inductive Number where
  | int (n : Int)
  | real (x : Binary64)
  deriving DecidableEq

inductive Json where
  | null
  | bool (b : Bool)
  | number (n : Number)
  | string (s : String)
  | array (items : List Json)
  | object (members : List (String × Json))

namespace Json

instance : Inhabited Json := ⟨.null⟩

mutual

/-- Whether two values are equal, members in the same order. -/
def equal : Json → Json → Bool
  | .null, .null => true
  | .bool a, .bool b => a = b
  | .number a, .number b => a = b
  | .string a, .string b => a = b
  | .array a, .array b => equalItems a b
  | .object a, .object b => equalMembers a b
  | _, _ => false

def equalItems : List Json → List Json → Bool
  | [], [] => true
  | a :: as, b :: bs => equal a b && equalItems as bs
  | _, _ => false

def equalMembers : List (String × Json) → List (String × Json) → Bool
  | [], [] => true
  | (k, a) :: as, (l, b) :: bs => k = l && equal a b && equalMembers as bs
  | _, _ => false

end

mutual

theorem equal_iff : (a b : Json) → (equal a b = true ↔ a = b)
  | .array a, .array b => by simpa [equal] using equalItems_iff a b
  | .object a, .object b => by simpa [equal] using equalMembers_iff a b
  | .null, b => by cases b <;> simp [equal]
  | .bool _, b => by cases b <;> simp [equal]
  | .number _, b => by cases b <;> simp [equal]
  | .string _, b => by cases b <;> simp [equal]
  | .array _, .null | .array _, .bool _ | .array _, .number _ | .array _, .string _
  | .array _, .object _ => by simp [equal]
  | .object _, .null | .object _, .bool _ | .object _, .number _ | .object _, .string _
  | .object _, .array _ => by simp [equal]

theorem equalItems_iff : (a b : List Json) → (equalItems a b = true ↔ a = b)
  | [], b => by cases b <;> simp [equalItems]
  | a :: as, [] => by simp [equalItems]
  | a :: as, b :: bs => by simp [equalItems, equal_iff a b, equalItems_iff as bs]

theorem equalMembers_iff : (a b : List (String × Json)) → (equalMembers a b = true ↔ a = b)
  | [], b => by cases b <;> simp [equalMembers]
  | (k, a) :: as, [] => by simp [equalMembers]
  | (k, a) :: as, (l, b) :: bs => by
    simp [equalMembers, equal_iff a b, equalMembers_iff as bs, Prod.ext_iff]

end

instance : DecidableEq Json := fun a b => decidable_of_iff _ (equal_iff a b)

mutual

/-- The value with no negative zero in it. -/
def settled : Json → Json
  | .number (.real x) => .number (.real x.unsignedZero)
  | .array items => .array (settledItems items)
  | .object members => .object (settledMembers members)
  | value => value

def settledItems : List Json → List Json
  | [] => []
  | x :: rest => settled x :: settledItems rest

def settledMembers : List (String × Json) → List (String × Json)
  | [] => []
  | (k, x) :: rest => (k, settled x) :: settledMembers rest

end

def same (a b : Json) : Bool := a.settled = b.settled

def isNull : Json → Bool
  | .null => true
  | _ => false

def isObject : Json → Bool
  | .object _ => true
  | _ => false

def string? : Json → Option String
  | .string s => some s
  | _ => none

/-- The integer, when it fits in 64 bits with a sign. -/
def int64? : Json → Option Int
  | .number (.int n) => if -0x8000000000000000 ≤ n ∧ n < 0x8000000000000000 then some n else none
  | _ => none

def members? : Json → Option (List (String × Json))
  | .object members => some members
  | _ => none

/-- The value of a member, if this is an object that has it. -/
def get? (key : String) : Json → Option Json
  | .object members => Entries.find? key members
  | _ => none

def ofInt (n : Int) : Json := .number (.int n)

def ofNat (n : Nat) : Json := .number (.int n)

/-- A member that is written only when it is there. -/
def optional {α : Type} (name : String) (toJson : α → Json) : Option α → List (String × Json)
  | none => []
  | some x => [(name, toJson x)]

end Json

end ControllerHooks
