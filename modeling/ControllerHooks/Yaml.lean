import ControllerHooks.Json.Printer

/-!
# Writing YAML

Documents are written in block style. A text stands plain where it would be read back as the same
text; otherwise it is quoted, and a text of several lines is written line by line.

* `Yaml.Style.ofText` chooses how a text is written.
* `Yaml.document` writes a whole document.
-/

namespace ControllerHooks.Yaml

/-! ## What a plain text would be read as -/

def words : List String :=
  ["", "~", "null", "Null", "NULL",
    "true", "True", "TRUE", "false", "False", "FALSE"]

def unsigned : List Char → List Char
  | '+' :: rest | '-' :: rest => rest
  | text => text

def digit? (base : Nat) (c : Char) : Option Nat :=
  let n :=
    if c.isDigit then c.toNat - 48
    else if 'a' ≤ c && c ≤ 'f' then c.toNat - 87
    else if 'A' ≤ c && c ≤ 'F' then c.toNat - 55
    else base
  if n < base then some n else none

/-- The number that digits write, if there are any. -/
def digitsValue? (base : Nat) (digits : List Char) : Option Nat :=
  if digits.isEmpty then none
  else digits.foldlM (fun n c => (digit? base c).map fun d => base * n + d) 0

/-- An integer of at most 128 bits with a mark for its base, or digits after a zero. -/
def isInteger (text : List Char) : Bool :=
  let bound := if text.head? = some '-' then Nat.pow 2 127 + 1 else Nat.pow 2 128
  let fits (base : Nat) (digits : List Char) : Bool := (digitsValue? base digits).any (· < bound)
  match unsigned text with
  | '0' :: 'x' :: digits => fits 16 digits
  | '0' :: 'o' :: digits => fits 8 digits
  | '0' :: 'b' :: digits => fits 2 digits
  | '0' :: digits => digits.all Char.isDigit
  | _ => false

def exponent? : List Char → Option Int
  | [] => some 0
  | e :: rest =>
    let digits := unsigned rest
    if (e = 'e' || e = 'E') && !digits.isEmpty && digits.all Char.isDigit then
      let n : Nat := Nat.ofDigitChars 10 digits 0
      some (if rest.head? = some '-' then -n else n)
    else none

/-- Whether `n * 10 ^ e` is within the range of real numbers. -/
def inRange (n : Nat) (e : Int) : Bool :=
  let places := (Nat.toDigits 10 n).length + e
  if n = 0 ∨ places < 0 then true
  else if 400 < places then false
  else if 0 ≤ e then (Binary64.nearest (n * Nat.pow 10 e.toNat) 1).isSome
  else (Binary64.nearest n (Nat.pow 10 (-e).toNat)).isSome

def isReal (text : List Char) : Bool :=
  let text := unsigned text
  let whole := text.takeWhile Char.isDigit
  let (fraction, rest) := match text.dropWhile Char.isDigit with
    | '.' :: rest => (rest.takeWhile Char.isDigit, rest.dropWhile Char.isDigit)
    | rest => ([], rest)
  let digits := whole ++ fraction
  !digits.isEmpty && (exponent? rest).any fun e =>
    inRange (Nat.ofDigitChars 10 digits 0) (e - fraction.length)

def isSpecialReal (text : String) : Bool :=
  text ∈ [".nan", ".NaN", ".NAN"] ||
    String.ofList (unsigned text.toList) ∈ [".inf", ".Inf", ".INF"]

/-- Whether a plain text would be taken for something else than a text. -/
def readsOtherwise (text : String) : Bool :=
  text ∈ words || isInteger text.toList || isReal text.toList || isSpecialReal text

/-! ## How a text is written -/

/-- The characters that may stand unescaped. -/
def isPrintable (c : Char) : Bool :=
  let n := c.toNat
  n = 0xa || (0x20 ≤ n && n ≤ 0x7e) || (0xa0 ≤ n && n ≤ 0xfffd && n ≠ 0xfeff) || 0x10000 ≤ n

def isBreak (c : Char) : Bool :=
  c = '\n' || c = '\r' || c.toNat = 0x85 || c.toNat = 0x2028 || c.toNat = 0x2029

/-- The end of a text counts as a blank. -/
def blankNext : List Char → Bool
  | [] => true
  | c :: _ => c = ' ' || c = '\t' || isBreak c

/-- A character that has a meaning of its own where a text begins. -/
def opensOther : List Char → Bool
  | [] => false
  | c :: rest =>
    "#,[]\x7b\x7d&*!|>'\"%@`".toList.contains c || ("?:-".toList.contains c && blankNext rest)

/-- A colon before a blank or a sharp after one. -/
def hasIndicator : (afterBlank : Bool) → List Char → Bool
  | _, [] => false
  | afterBlank, c :: rest =>
    (c = ':' && blankNext rest) || (c = '#' && afterBlank) || hasIndicator (blankNext [c]) rest

/-- Whether two characters of these kinds stand side by side. -/
def adjacent (p q : Char → Bool) : List Char → Bool
  | c :: d :: rest => (p c && q d) || adjacent p q (d :: rest)
  | _ => false

inductive Style where
  | plain
  | single
  | double
  | literal
  deriving DecidableEq

namespace Style

def isSpace (c : Char) : Bool := c = ' '

def endsIn (p : Char → Bool) (text : List Char) : Bool := text.getLast?.any p

def needsEscapes (text : List Char) : Bool :=
  text.any (fun c => !isPrintable c) || adjacent isSpace isBreak text

def plainFits (text : List Char) : Bool :=
  !(needsEscapes text || text.any isBreak || text.head?.any isSpace || endsIn isSpace text ||
    "---".toList.isPrefixOf text || "...".toList.isPrefixOf text || opensOther text ||
    hasIndicator true text)

def singleFits (text : List Char) : Bool :=
  !(needsEscapes text || adjacent isBreak isSpace text)

def literalFits (text : List Char) : Bool := !(needsEscapes text || endsIn isSpace text)

def ofText (text : String) : Style :=
  let chars := text.toList
  if chars.contains '\n' then if literalFits chars then literal else double
  else if plainFits chars && !readsOtherwise text then plain
  else if singleFits chars then single
  else double

end Style

/-! ## Writing a text -/

def spaces (n : Nat) : List Char := List.replicate n ' '

/-- Lines below an indentation: it stands before each character that follows a break. -/
def indented (indent : Nat) : (fresh : Bool) → List Char → List Char
  | _, [] => []
  | fresh, c :: rest =>
    if isBreak c then c :: indented indent true rest
    else (if fresh then spaces indent else []) ++ c :: indented indent false rest

def hex (width n : Nat) : List Char :=
  let digits := (Nat.toDigits 16 n).map Char.toUpper
  List.replicate (width - digits.length) '0' ++ digits

def escapeLetter? (c : Char) : Option Char :=
  ([(0x0, '0'), (0x7, 'a'), (0x8, 'b'), (0x9, 't'), (0xa, 'n'), (0xb, 'v'), (0xc, 'f'), (0xd, 'r'),
    (0x1b, 'e'), (0x22, '"'), (0x5c, '\\'), (0x85, 'N'), (0xa0, '_'), (0x2028, 'L'),
    (0x2029, 'P')] : List (Nat × Char)).lookup c.toNat

def escape (c : Char) : List Char :=
  if isPrintable c && !isBreak c && c ≠ '"' && c ≠ '\\' then [c]
  else
    match escapeLetter? c with
    | some letter => ['\\', letter]
    | none =>
      let n := c.toNat
      if n ≤ 0xff then '\\' :: 'x' :: hex 2 n else '\\' :: 'u' :: hex 4 n

/-- A text between apostrophes, where an apostrophe is doubled. -/
def singleQuoted (indent : Nat) (text : List Char) : List Char :=
  let doubled := text.flatMap fun c => if c = '\'' then ['\'', '\''] else [c]
  let close := if Style.endsIn isBreak text then spaces indent else []
  '\'' :: indented indent false doubled ++ close ++ ['\'']

/-- What the head of a literal text says about its first blanks and its last breaks. -/
def literalHints (text : List Char) : List Char :=
  let blanks := if text.head?.any fun c => c = ' ' || isBreak c then ['2'] else []
  let breaks := text.reverse.takeWhile isBreak
  blanks ++
    (if breaks.isEmpty then ['-']
      else if 1 < breaks.length ∨ breaks.length = text.length then ['+'] else [])

/-- A text with the line break after it, as the value of a key at `indent`. -/
def scalar (indent : Nat) (text : String) : List Char :=
  let chars := text.toList
  match Style.ofText text with
  | .plain => chars ++ ['\n']
  | .single => singleQuoted (indent + 2) chars ++ ['\n']
  | .double => '"' :: chars.flatMap escape ++ ['"', '\n']
  | .literal =>
    '|' :: literalHints chars ++ '\n' :: indented (indent + 2) true chars ++
      (if Style.endsIn isBreak chars then [] else ['\n'])

/-! ## Writing a document -/

mutual

/-- A value after the colon or the dash that announces it. -/
def value (indent : Nat) : Json → List Char
  | .object [] => ' ' :: '{' :: '}' :: ['\n']
  | .object ms => '\n' :: members (indent + 2) ms
  | .array [] => ' ' :: '[' :: ']' :: ['\n']
  | .array xs => '\n' :: items indent xs
  | .string s => ' ' :: scalar indent s
  | .null => ' ' :: Json.null.chars ++ ['\n']
  | .bool b => ' ' :: (Json.bool b).chars ++ ['\n']
  | .number n => ' ' :: n.text ++ ['\n']

/-- Members, each at the indentation. -/
def members (indent : Nat) : List (String × Json) → List Char
  | [] => []
  | (key, x) :: rest => spaces indent ++ key.toList ++ ':' :: value indent x ++ members indent rest

/-- Items after dashes. What a dash announces begins in its line. -/
def items (indent : Nat) : List Json → List Char
  | [] => []
  | x :: rest =>
    let content := match x with
      | .object (m :: ms) => ' ' :: (members (indent + 2) (m :: ms)).drop (indent + 2)
      | .array (y :: ys) => ' ' :: (items (indent + 2) (y :: ys)).drop (indent + 2)
      | x => value indent x
    spaces indent ++ '-' :: content ++ items indent rest

end

def document : Json → List Char
  | .object (m :: ms) => members 0 (m :: ms)
  | .array (x :: xs) => items 0 (x :: xs)
  | x => (value 0 x).drop 1

end ControllerHooks.Yaml
