/-!
# Where a document stops being JSON
-/

namespace ControllerHooks

inductive SyntaxError where
  | valueCut
  | objectCut
  | arrayCut
  | stringCut
  | valueExpected
  | colonExpected
  | commaOrBraceExpected
  | commaOrBracketExpected
  | wordExpected
  | keyNotString
  | trailingComma
  | trailingCharacters
  | invalidNumber
  | numberOutOfRange
  | invalidEscape
  | controlCharacter
  | invalidCodePoint
  | hexEscapeCut
  | loneSurrogate
  | tooDeep
  deriving DecidableEq

namespace SyntaxError

def message : SyntaxError → String
  | valueCut => "EOF while parsing a value"
  | objectCut => "EOF while parsing an object"
  | arrayCut => "EOF while parsing a list"
  | stringCut => "EOF while parsing a string"
  | valueExpected => "expected value"
  | colonExpected => "expected `:`"
  | commaOrBraceExpected => "expected `,` or `\x7d`"
  | commaOrBracketExpected => "expected `,` or `]`"
  | wordExpected => "expected ident"
  | keyNotString => "key must be a string"
  | trailingComma => "trailing comma"
  | trailingCharacters => "trailing characters"
  | invalidNumber => "invalid number"
  | numberOutOfRange => "number out of range"
  | invalidEscape => "invalid escape"
  | controlCharacter => "control character (\\u0000-\\u001F) found while parsing a string"
  | invalidCodePoint => "invalid unicode code point"
  | hexEscapeCut => "unexpected end of hex escape"
  | loneSurrogate => "lone leading surrogate in hex escape"
  | tooDeep => "recursion limit exceeded"

end SyntaxError

end ControllerHooks
