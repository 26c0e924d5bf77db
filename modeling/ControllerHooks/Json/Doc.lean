import ControllerHooks.Json.Token

/-!
# Documents

A document is what is found where a value is looked for: the value in the order of its text, up
to the place where the text stops being JSON. Readers walk it from the front, so of two things
wrong with a request the first in the text is the one reported, be it a flaw of the text or a
value that does not fit.

* `Document.parse` builds it from tokens, with a stack of the arrays and objects still open.
* `Doc.toJson` reads any value; `Doc.skip` passes over one.
* `Doc.ofJson` is a value already in memory, to be read as a document.
* `Doc.bury` marks what lies too deep to be read. To be passed over it may lie at any depth.
-/

namespace ControllerHooks

/-- Where an array comes from: read from a text, kept aside while reading, or a value in memory. -/
inductive Origin where
  | text
  | buffer
  | memory
  deriving DecidableEq

/-- How the items of an array or the members of an object end. -/
inductive Close where
  | closed (origin : Origin)
  | trailingComma
  /-- After a comma there is nothing. -/
  | danglingComma
  | cut
  | unexpected
  deriving DecidableEq

namespace Close

def arrayFlaw : Close → Option Flaw
  | closed _ => none
  | trailingComma => some ⟨.trailingComma, some .valueExpected⟩
  | danglingComma => some (.always .valueCut)
  | cut => some (.always .arrayCut)
  | unexpected => some (.always .commaOrBracketExpected)

def objectFlaw : Close → Option Flaw
  | closed _ => none
  | trailingComma => some ⟨.trailingComma, some .keyNotString⟩
  | danglingComma => some ⟨.valueCut, some .objectCut⟩
  | cut => some (.always .objectCut)
  | unexpected => some (.always .commaOrBraceExpected)

end Close

inductive Key where
  | text (s : String)
  | flawed (flaw : Flaw)
  /-- Something that is no string. -/
  | other
  deriving DecidableEq

inductive Doc where
  | flawed (opening : Opening) (flaw : Flaw)
  | null
  | bool (b : Bool)
  | number (n : Number)
  | string (s : String)
  | array (items : List Doc) (close : Close)
  | object (members : List (Key × Doc)) (close : Close)
  /-- An array or object inside so many others that it can only be passed over. -/
  | buried (d : Doc)

namespace Doc

/-! ## Reading and skipping -/

def readFlaw : Option Flaw → Except SyntaxError Unit
  | none => .ok ()
  | some flaw => .error flaw.read

def skipFlaw : Option Flaw → Except SyntaxError Unit
  | some ⟨_, some e⟩ => .error e
  | _ => .ok ()

end Doc

def Key.read : Key → Except SyntaxError String
  | .text s => .ok s
  | .flawed flaw => .error flaw.read
  | .other => .error .keyNotString

def Key.skip : Key → Except SyntaxError Unit
  | .text _ => .ok ()
  | .flawed flaw => Doc.skipFlaw (some flaw)
  | .other => .error .keyNotString

namespace Doc

mutual

/-- The value, whatever it is. Of members with the same key the last one stays. -/
def toJson : Doc → Except SyntaxError Json
  | .flawed _ flaw => .error flaw.read
  | .null => .ok .null
  | .bool b => .ok (.bool b)
  | .number n => .ok (.number n)
  | .string s => .ok (.string s)
  | .array items close => do
    let items ← toItems items
    readFlaw close.arrayFlaw
    return .array items
  | .object members close => do
    let members ← toMembers members
    readFlaw close.objectFlaw
    return .object (Entries.ofList members)
  | .buried _ => .error .tooDeep

def toItems : List Doc → Except SyntaxError (List Json)
  | [] => .ok []
  | d :: rest => do
    let x ← toJson d
    let items ← toItems rest
    return x :: items

def toMembers : List (Key × Doc) → Except SyntaxError (List (String × Json))
  | [] => .ok []
  | (key, d) :: rest => do
    let key ← key.read
    let x ← toJson d
    let members ← toMembers rest
    return (key, x) :: members

end

mutual

/-- Pass over a value that nobody wants. -/
def skip : Doc → Except SyntaxError Unit
  | .flawed _ flaw => skipFlaw (some flaw)
  | .array items close => do
    skipItems items
    skipFlaw close.arrayFlaw
  | .object members close => do
    skipMembers members
    skipFlaw close.objectFlaw
  | .buried d => skip d
  | _ => .ok ()

def skipItems : List Doc → Except SyntaxError Unit
  | [] => .ok ()
  | d :: rest => do
    skip d
    skipItems rest

def skipMembers : List (Key × Doc) → Except SyntaxError Unit
  | [] => .ok ()
  | (key, d) :: rest => do
    key.skip
    skip d
    skipMembers rest

end

mutual

/-- A value as a document of the given origin. -/
def ofJson (origin : Origin) : Json → Doc
  | .null => .null
  | .bool b => .bool b
  | .number n => .number n
  | .string s => .string s
  | .array items => .array (ofItems origin items) (.closed origin)
  | .object members => .object (ofMembers origin members) (.closed origin)

def ofItems (origin : Origin) : List Json → List Doc
  | [] => []
  | x :: rest => ofJson origin x :: ofItems origin rest

def ofMembers (origin : Origin) : List (String × Json) → List (Key × Doc)
  | [] => []
  | (key, x) :: rest => (.text key, ofJson origin x) :: ofMembers origin rest

end

/-! ## Depth -/

mutual

/-- The document with every array and object buried that lies inside `room` others. -/
def bury : (room : Nat) → Doc → Doc
  | 0, .array items close => .buried (.array items close)
  | 0, .object members close => .buried (.object members close)
  | room + 1, .array items close => .array (buryItems room items) close
  | room + 1, .object members close => .object (buryMembers room members) close
  | _, d => d

def buryItems (room : Nat) : List Doc → List Doc
  | [] => []
  | d :: rest => bury room d :: buryItems room rest

def buryMembers (room : Nat) : List (Key × Doc) → List (Key × Doc)
  | [] => []
  | (key, d) :: rest => (key, bury room d) :: buryMembers room rest

end

end Doc

/-! ## Building a document -/

/-- An array or object that waits for a value, with what precedes it, last first. -/
inductive Frame where
  | item (before : List Doc)
  | member (before : List (Key × Doc)) (key : Key)

/-- What has been built, and what may come next. Lists are last first. -/
inductive Progress where
  | value (frames : List Frame)
  /-- In an array: its end, or a comma if there are items, or else an item. -/
  | items (frames : List Frame) (before : List Doc)
  /-- In an object: its end, or a comma if there are members, or else a key. -/
  | members (frames : List Frame) (before : List (Key × Doc))
  | nextKey (frames : List Frame) (before : List (Key × Doc))
  | colon (frames : List Frame) (before : List (Key × Doc)) (key : Key)
  | done (root : Doc) (trailing : Bool)

namespace Progress

/-- Put a finished value where it belongs. -/
def fill : List Frame → Doc → Progress
  | [], d => .done d false
  | .item before :: outer, d => .items outer (d :: before)
  | .member before key :: outer, d => .members outer ((key, d) :: before)

/-- A value with all that is open around it, where the text ends its sense. -/
def enclose : List Frame → Doc → Doc
  | [], d => d
  | .item before :: outer, d => enclose outer (.array (d :: before).reverse .cut)
  | .member before key :: outer, d => enclose outer (.object ((key, d) :: before).reverse .cut)

def stop (frames : List Frame) (d : Doc) : Progress := .done (enclose frames d) false

def fail (frames : List Frame) (e : SyntaxError) : Progress :=
  stop frames (.flawed .nothing (.always e))

def array (items : List Doc) (close : Close) : Doc := .array items.reverse close

def object (members : List (Key × Doc)) (close : Close) : Doc := .object members.reverse close

def stepValue (frames : List Frame) : Token → Progress
  | .leftBracket => .items frames []
  | .leftBrace => .members frames []
  | .null => fill frames .null
  | .bool b => fill frames (.bool b)
  | .number n => fill frames (.number n)
  | .string s => fill frames (.string s)
  | .flawed opening flaw =>
    if flaw.skip.isSome then stop frames (.flawed opening flaw)
    else fill frames (.flawed opening flaw)
  | .rightBracket =>
    match frames with
    | .item (d :: before) :: outer => stop outer (array (d :: before) .trailingComma)
    | frames => fail frames .valueExpected
  | _ => fail frames .valueExpected

def stepKey (frames : List Frame) (before : List (Key × Doc)) : Token → Progress
  | .string s => .colon frames before (.text s)
  | .flawed .string flaw =>
    if flaw.skip.isSome then
      stop (.member before (.flawed flaw) :: frames) (.flawed .nothing flaw)
    else .colon frames before (.flawed flaw)
  | _ => fail (.member before .other :: frames) .keyNotString

def step : Progress → Token → Progress
  | .value frames, token => stepValue frames token
  | .items frames [], token =>
    if token = .rightBracket then fill frames (.array [] (.closed .text))
    else stepValue (.item [] :: frames) token
  | .items frames before, token =>
    match token with
    | .comma => .value (.item before :: frames)
    | .rightBracket => fill frames (array before (.closed .text))
    | _ => stop frames (array before .unexpected)
  | .members frames [], token =>
    if token = .rightBrace then fill frames (.object [] (.closed .text))
    else stepKey frames [] token
  | .members frames before, token =>
    match token with
    | .comma => .nextKey frames before
    | .rightBrace => fill frames (object before (.closed .text))
    | _ => stop frames (object before .unexpected)
  | .nextKey frames before, token =>
    if token = .rightBrace then stop frames (object before .trailingComma)
    else stepKey frames before token
  | .colon frames before key, token =>
    if token = .colon then .value (.member before key :: frames)
    else fail (.member before key :: frames) .colonExpected
  | .done root _, _ => .done root true

/-- The root at the end of the tokens, and whether any came after it. -/
def finish : Progress → Doc × Bool
  | .value (.item (d :: before) :: outer) =>
    (enclose outer (array (d :: before) .danglingComma), false)
  | .value frames => (enclose frames (.flawed .nothing (.always .valueCut)), false)
  | .items frames before => (enclose frames (array before .cut), false)
  | .members frames before => (enclose frames (object before .cut), false)
  | .nextKey frames before => (enclose frames (object before .danglingComma), false)
  | .colon frames before key =>
    (enclose (.member before key :: frames) (.flawed .nothing (.always .objectCut)), false)
  | .done root trailing => (root, trailing)

end Progress

/-- A document, and whether something follows it. -/
structure Document where
  root : Doc
  trailing : Bool

namespace Document

/-- How deep arrays and objects may nest. -/
def depthLimit : Nat := 127

def ofTokens (tokens : List Token) : Document :=
  let (root, trailing) := (tokens.foldl Progress.step (.value [])).finish
  ⟨root.bury depthLimit, trailing⟩

def parse (text : Bytes) : Document := ofTokens (Token.lex (Utf8.decode text))

end Document

end ControllerHooks
