import ControllerHooks.Decode.Error

/-!
# Readers

A reader takes a document from the front and stops at the first thing that does not fit. What it
expects is named in its errors.

* Readers of single values, of lists and of maps.
* `Reader.variant` reads one of a few names.
* `Reader.optional` takes null for nothing.
-/

namespace ControllerHooks

abbrev Reader (α : Type) := Doc → Except DecodeError α

/-- What an array counts when it holds more than its reader takes. -/
def countElements (n : Nat) : String := if n = 1 then "1 element" else s!"{n} elements"

namespace Reader

variable {α β κ : Type}

def wellFormed (result : Except SyntaxError α) : Except DecodeError α :=
  result.mapError .malformed

/-- The error of meeting this document where something else is expected. -/
def mismatch (expected : String) : Doc → DecodeError
  | .flawed _ flaw => .malformed flaw.read
  | .buried _ => .malformed .tooDeep
  | .null => .wrongType .null expected
  | .bool b => .wrongType (.bool b) expected
  | .number n => .wrongType (.number n) expected
  | .string s => .wrongType (.string s) expected
  | .array _ _ => .wrongType .sequence expected
  | .object _ _ => .wrongType .map expected

def json : Reader Json := fun d => wellFormed d.toJson

def ignored : Reader Unit := fun d => wellFormed d.skip

def string : Reader String
  | .string s => .ok s
  | d => .error (mismatch "a string" d)

def bool : Reader Bool
  | .bool b => .ok b
  | d => .error (mismatch "a boolean" d)

/-- An integer from `low` up to below `bound`. -/
def integer (low bound : Int) (expected : String) : Reader Int
  | .number (.int n) => if low ≤ n ∧ n < bound then .ok n else .error (.outOfRange n expected)
  | d => .error (mismatch expected d)

def int32 : Reader Int32 := fun d => (integer (-0x80000000) 0x80000000 "i32" d).map Int32.ofInt

def int64 : Reader Int64 := fun d =>
  (integer (-0x8000000000000000) 0x8000000000000000 "i64" d).map Int64.ofInt

def uint64 : Reader UInt64 := fun d =>
  (integer 0 0x10000000000000000 "u64" d).map fun n => UInt64.ofNat n.toNat

/-- A count of things. -/
def size : Reader Nat := fun d => (integer 0 0x10000000000000000 "usize" d).map Int.toNat

def timestamp : Reader Timestamp
  | .string s => (Timestamp.parse s).mapError .time
  | d => .error (mismatch "an RFC 3339 formatted date and time string" d)

def pointer : Reader Pointer := fun d => do
  (Pointer.parse (← string d)).mapError .pointer

def optional (read : Reader α) : Reader (Option α)
  | .null => .ok none
  | .flawed .null flaw => .error (.malformed flaw.read)
  | d => (read d).map some

def list (read : Reader α) : Reader (List α)
  | .array items close => do
    let xs ← items.mapM read
    wellFormed (Doc.readFlaw close.arrayFlaw)
    return xs
  | d => .error (mismatch "a sequence" d)

/-- The members of an object, one after another. -/
def members (readKey : String → Except DecodeError κ) (read : Reader α) :
    List (Key × Doc) → Except DecodeError (List (κ × α)) :=
  List.mapM fun (key, d) => do
    let key ← readKey (← wellFormed key.read)
    let x ← read d
    return (key, x)

/-- The members of an object, of which the last one with a key counts. -/
def map [Ord κ] [Std.TransOrd κ] [Std.LawfulEqOrd κ] (readKey : String → Except DecodeError κ)
    (read : Reader α) : Reader (SortedMap κ α)
  | .object ms close => do
    let entries ← members readKey read ms
    wellFormed (Doc.readFlaw close.objectFlaw)
    return SortedMap.ofList entries
  | d => .error (mismatch "a map" d)

def named (variants : List (String × α)) (name : String) : Except DecodeError α :=
  match Entries.find? name variants with
  | some x => .ok x
  | none => .error (.unknownVariant name (variants.map Prod.fst))

def variantKey (variants : List (String × α)) : Key → Except DecodeError α
  | .text name => named variants name
  | .flawed flaw => .error (.malformed flaw.read)
  | .other => .error (.malformed .keyNotString)

/-- A name by itself, or as the one member of an object, with null. What begins in another way is
not looked at any further. -/
def variant (variants : List (String × α)) : Reader α
  | .string name => named variants name
  | .flawed .string flaw | .flawed .nothing flaw => .error (.malformed flaw.read)
  | .object [] .cut => .error (.malformed .objectCut)
  | .object ((key, content) :: more) close => do
    let x ← variantKey variants key
    match content with
    | .null => pure ()
    | d => throw (mismatch "unit" d)
    match more, close with
    | [], .closed _ => return x
    | [], .cut => throw (.malformed .objectCut)
    | _, _ => throw (.malformed .valueExpected)
  | .buried _ => .error (.malformed .tooDeep)
  | _ => .error (.malformed .valueExpected)

end Reader

end ControllerHooks
