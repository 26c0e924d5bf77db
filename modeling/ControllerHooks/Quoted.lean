import ControllerHooks.Unicode.Printable

/-!
# Text quoted in a message

A message shows a text between quotes. What would not be seen, or would be taken for a part of
the message, is escaped.
-/

namespace ControllerHooks.Quoted

/-- Neither a control character nor a mark that would join the quote. -/
def isPlain (c : Char) : Bool :=
  if c.toNat < 0x7f then 0x20 ≤ c.toNat else !Unicode.isExtending c && Unicode.isPrintable c

def escape (c : Char) : List Char :=
  if c = '\x00' then ['\\', '0']
  else if c = '\t' then ['\\', 't']
  else if c = '\r' then ['\\', 'r']
  else if c = '\n' then ['\\', 'n']
  else if c = '\\' ∨ c = '"' then ['\\', c]
  else if isPlain c then [c]
  else ['\\', 'u', '{'] ++ Nat.toDigits 16 c.toNat ++ ['}']

def quote (s : String) : String := String.ofList ('"' :: s.toList.flatMap escape ++ ['"'])

end ControllerHooks.Quoted
