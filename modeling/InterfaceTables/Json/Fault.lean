/-!
What can be wrong with a JSON text, and where: a line and a column, both counted in bytes.
-/

namespace InterfaceTables.Json

inductive Cause where
  | endInList
  | endInObject
  | endInString
  | endInValue
  | expectedColon
  | expectedListCommaOrEnd
  | expectedObjectCommaOrEnd
  | expectedIdent
  | expectedValue
  | invalidEscape
  | invalidNumber
  | numberOutOfRange
  | keyNotString
  | loneSurrogate
  | unfinishedPair
  | controlInString
  | trailingComma
  | trailingCharacters
  | tooDeep
deriving DecidableEq

def Cause.message : Cause → String
  | .endInList => "EOF while parsing a list"
  | .endInObject => "EOF while parsing an object"
  | .endInString => "EOF while parsing a string"
  | .endInValue => "EOF while parsing a value"
  | .expectedColon => "expected `:`"
  | .expectedListCommaOrEnd => "expected `,` or `]`"
  | .expectedObjectCommaOrEnd => "expected `,` or `\x7d`"
  | .expectedIdent => "expected ident"
  | .expectedValue => "expected value"
  | .invalidEscape => "invalid escape"
  | .invalidNumber => "invalid number"
  | .numberOutOfRange => "number out of range"
  | .keyNotString => "key must be a string"
  | .loneSurrogate => "lone leading surrogate in hex escape"
  | .unfinishedPair => "unexpected end of hex escape"
  | .controlInString => "control character (\\u0000-\\u001F) found while parsing a string"
  | .trailingComma => "trailing comma"
  | .trailingCharacters => "trailing characters"
  | .tooDeep => "recursion limit exceeded"

structure Fault where
  cause : Cause
  offset : Nat
deriving DecidableEq

structure Error where
  cause : Cause
  line : Nat
  column : Nat
deriving DecidableEq

def Error.message (e : Error) : String :=
  e.cause.message ++ " at line " ++ toString e.line ++ " column " ++ toString e.column

/-- Line and column of the byte count `offset`, where the characters of the list begin at byte
`start` of the text, in line `line` that began at byte `lineStart`. -/
def positionFrom (offset start line lineStart : Nat) : List Char → Nat × Nat
  | [] => (line, offset - lineStart)
  | c :: rest =>
    if offset ≤ start then (line, offset - lineStart)
    else if c = '\n' then positionFrom offset (start + 1) (line + 1) (start + 1) rest
    else positionFrom offset (start + c.utf8Size) line lineStart rest

def Fault.locate (text : List Char) (f : Fault) : Error :=
  let (line, column) := positionFrom f.offset 0 1 0 text
  ⟨f.cause, line, column⟩

end InterfaceTables.Json
