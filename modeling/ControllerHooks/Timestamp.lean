import ControllerHooks.Unicode.Blank

/-!
# Timestamps

A point in time is kept as its date and time of day in UTC. Any offset is accepted and taken away;
the fraction of a second is kept, but not written.

* `Timestamp.parse` reads a date and time with an offset, generously: blanks may stand around the
  separators, and numbers may be short.
* `Timestamp.text` writes `2024-01-02T03:04:05Z`.
-/

namespace ControllerHooks

structure Timestamp where
  year : Int
  month : Nat
  day : Nat
  hour : Nat
  minute : Nat
  /-- In a leap second this is 60. -/
  second : Nat
  nanosecond : Nat
  deriving DecidableEq

namespace Timestamp

inductive Error where
  | outOfRange
  | impossible
  | invalid
  | tooShort
  | tooLong
  deriving DecidableEq

def Error.message : Error → String
  | outOfRange => "input is out of range"
  | impossible => "no possible date and time matching input"
  | invalid => "input contains invalid characters"
  | tooShort => "premature end of input"
  | tooLong => "trailing input"

/-! ## The calendar -/

def isLeap (year : Int) : Bool := year % 4 = 0 && (year % 100 ≠ 0 || year % 400 = 0)

def daysIn (year : Int) (month : Nat) : Nat :=
  if month = 2 then if isLeap year then 29 else 28
  else if month = 4 ∨ month = 6 ∨ month = 9 ∨ month = 11 then 30
  else 31

def minYear : Int := -262143
def maxYear : Int := 262142

structure Date where
  year : Int
  month : Nat
  day : Nat
  deriving DecidableEq

def Date.next (d : Date) : Date :=
  if d.day < daysIn d.year d.month then { d with day := d.day + 1 }
  else if d.month < 12 then { d with month := d.month + 1, day := 1 }
  else ⟨d.year + 1, 1, 1⟩

def Date.previous (d : Date) : Date :=
  if 1 < d.day then { d with day := d.day - 1 }
  else if 1 < d.month then { d with month := d.month - 1, day := daysIn d.year (d.month - 1) }
  else ⟨d.year - 1, 12, 31⟩

/-- The minutes of a day moved by an offset of less than a day, and the day they fall on. -/
def shiftMinutes (d : Date) (minutes : Int) : Date × Nat :=
  if minutes < 0 then (d.previous, (minutes + 1440).toNat)
  else if minutes < 1440 then (d, minutes.toNat)
  else (d.next, (minutes - 1440).toNat)

/-! ## Reading -/

/-- A step of reading: takes from the front of the text. -/
abbrev Scanner := StateT (List Char) (Except Error)

def blanks : Scanner Unit := modify fun text => text.dropWhile Unicode.isBlank

/-- At least one digit and at most `width`. -/
def digits (width : Nat) : Scanner (List Char) := do
  let text ← get
  match text with
  | [] => throw .tooShort
  | c :: _ =>
    if c.isDigit then
      let places := (text.take width).takeWhile Char.isDigit
      set (text.drop places.length)
      return places
    else throw .invalid

def number (width : Nat) : Scanner Nat := do
  return Nat.ofDigitChars 10 (← digits width) 0

def literal (c : Char) : Scanner Unit := do
  match ← get with
  | [] => throw .tooShort
  | d :: rest => if d = c then set rest else throw .invalid

/-- A number of one or two digits, after blanks. -/
def field (low high : Nat) : Scanner Nat := do
  blanks
  let n ← number 2
  if low ≤ n ∧ n ≤ high then return n else throw .outOfRange

def separator (c : Char) : Scanner Unit := do
  blanks
  literal c

/-- Four digits at most, or any number of them after a sign. -/
def scanYear : Scanner Int := do
  blanks
  let text ← get
  let year : Int ← match text with
    | '-' :: rest => do
      set rest
      let n ← number rest.length
      pure (-n)
    | '+' :: rest => do
      set rest
      let n ← number rest.length
      pure n
    | _ => do
      let n ← number 4
      pure n
  if -0x80000000 ≤ year ∧ year < 0x80000000 then return year else throw .outOfRange

def dateMark : Scanner Unit := do
  match ← get with
  | [] => throw .tooShort
  | c :: rest => if c = 'T' ∨ c = 't' ∨ c = ' ' then set rest else throw .invalid

/-- The nanoseconds after a point. Digits beyond the ninth are dropped. -/
def fraction : Scanner Nat := do
  match ← get with
  | '.' :: rest =>
    set rest
    let places ← digits 9
    modify fun text => text.dropWhile Char.isDigit
    return Nat.ofDigitChars 10 places 0 * Nat.pow 10 (9 - places.length)
  | _ => return 0

/-- Two digits that must both be there. -/
def twoDigits : Scanner (Nat × Nat) := do
  match ← get with
  | a :: b :: rest =>
    if a.isDigit ∧ b.isDigit then
      set rest
      return (a.toNat - '0'.toNat, b.toNat - '0'.toNat)
    else throw .invalid
  | [c] => if 2 ≤ c.utf8Size then throw .invalid else throw .tooShort
  | [] => throw .tooShort

/-- Hours and minutes, with any colons and blanks between them. -/
def hoursAndMinutes : Scanner Nat := do
  let (h, h') ← twoDigits
  modify fun text => text.dropWhile fun c => c = ':' || Unicode.isBlank c
  let (m, m') ← twoDigits
  if 6 ≤ m then throw .outOfRange
  return (h * 10 + h') * 60 + (m * 10 + m')

def isUtc (text : List Char) : Bool := (text.take 3).map Char.toUpper = ['U', 'T', 'C']

/-- The minutes that local time is ahead of UTC. -/
def offset : Scanner Int := do
  let text ← get
  if isUtc text then
    set (text.drop 3)
    return 0
  match text with
  | [] => throw .tooShort
  | c :: rest =>
    set rest
    if c = 'Z' ∨ c = 'z' then return 0
    else if c = '+' then return (← hoursAndMinutes)
    else if c = '-' ∨ c = '−' then return -(← hoursAndMinutes)
    else throw .invalid

def scan : Scanner Timestamp := do
  let year ← scanYear
  separator '-'
  let month ← field 1 12
  separator '-'
  let day ← field 1 31
  dateMark
  let hour ← field 0 23
  separator ':'
  let minute ← field 0 59
  separator ':'
  let second ← field 0 60
  let nanosecond ← fraction
  blanks
  let offset ← offset
  blanks
  if (← get) ≠ [] then throw .tooLong
  if year < minYear ∨ maxYear < year ∨ daysIn year month < day then throw .outOfRange
  if 1440 ≤ offset.natAbs then throw .outOfRange
  let (date, minutes) := shiftMinutes ⟨year, month, day⟩ (hour * 60 + minute - offset)
  if date.year < minYear ∨ maxYear < date.year then throw .impossible
  return ⟨date.year, date.month, date.day, minutes / 60, minutes % 60, second, nanosecond⟩

def parse (s : String) : Except Error Timestamp := do
  let (t, _) ← scan.run s.toList
  return t

/-! ## Writing -/

/-- The digits of a number, with zeros in front up to a width. -/
def padded (width n : Nat) : List Char :=
  let digits := Nat.toDigits 10 n
  List.replicate (width - digits.length) '0' ++ digits

/-- Four digits, and a sign outside the years that have four. -/
def yearChars (year : Int) : List Char :=
  if 0 ≤ year ∧ year ≤ 9999 then padded 4 year.natAbs
  else (if year < 0 then '-' else '+') :: padded 4 year.natAbs

def chars (t : Timestamp) : List Char :=
  yearChars t.year ++ '-' :: padded 2 t.month ++ '-' :: padded 2 t.day ++
    'T' :: padded 2 t.hour ++ ':' :: padded 2 t.minute ++ ':' :: padded 2 t.second ++ ['Z']

def text (t : Timestamp) : String := String.ofList t.chars

end Timestamp

end ControllerHooks
