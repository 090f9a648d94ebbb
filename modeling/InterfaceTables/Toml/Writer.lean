/-!
How a text is written as a TOML string: in the plainest kind of quotes that holds it.
-/

namespace InterfaceTables.Toml

inductive Style where
  | basic
  | literal
  | basicLines
  | literalLines
deriving DecidableEq

def needsCode (c : Char) : Bool := (c.toNat < 0x20 && c ≠ '\t' && c ≠ '\n') || c.toNat = 0x7f

def hasTriple (quote : Char) (run : Nat) : List Char → Bool
  | [] => false
  | c :: rest =>
    if c = quote then run + 1 ≥ 3 || hasTriple quote (run + 1) rest else hasTriple quote 0 rest

def Style.ofText (cs : List Char) : Style :=
  let code := cs.any needsCode
  let backslash := cs.contains '\\'
  let line := cs.contains '\n'
  if !code && !backslash && !cs.contains '"' && !line then .basic
  else if !code && !cs.contains '\'' && !line then .literal
  else if !code && !backslash && !hasTriple '"' 0 cs then .basicLines
  else if !code && !hasTriple '\'' 0 cs then .literalLines
  else if line then .basicLines
  else .basic

def upperHexDigit (n : Nat) : Char := (Nat.digitChar n).toUpper

def escapeChar (c : Char) : List Char :=
  if c = '\\' then ['\\', '\\']
  else if c = '\t' then ['\\', 't']
  else if c = '\r' then ['\\', 'r']
  else if c.toNat = 8 then ['\\', 'b']
  else if c.toNat = 12 then ['\\', 'f']
  else if needsCode c then
    ['\\', 'u', '0', '0', upperHexDigit (c.toNat / 16), upperHexDigit (c.toNat % 16)]
  else [c]

def escapeLine (cs : List Char) : List Char :=
  cs.flatMap fun c =>
    if c = '"' then ['\\', '"'] else if c = '\n' then ['\\', 'n'] else escapeChar c

/-- The text between three double quotes: every third quote of a run is escaped; `run` counts those
right before. -/
def escapeLines (run : Nat) : List Char → List Char
  | [] => []
  | c :: rest =>
    if c = '"' then
      if run ≥ 2 then '\\' :: '"' :: escapeLines 0 rest else '"' :: escapeLines (run + 1) rest
    else escapeChar c ++ escapeLines 0 rest

/-- A line feed after three opening quotes is no part of the text, so it may stand there. -/
def leadLine (cs : List Char) : List Char := if cs.contains '\n' then ['\n'] else []

def Style.write (style : Style) (cs : List Char) : List Char :=
  match style with
  | .basic => '"' :: escapeLine cs ++ ['"']
  | .literal => '\'' :: cs ++ ['\'']
  | .basicLines => ['"', '"', '"'] ++ leadLine cs ++ escapeLines 0 cs ++ ['"', '"', '"']
  | .literalLines => ['\'', '\'', '\''] ++ leadLine cs ++ cs ++ ['\'', '\'', '\'']

def writeText (s : String) : String := String.ofList ((Style.ofText s.toList).write s.toList)

def writeBoolean (b : Bool) : String := if b then "true" else "false"

def writeField (key value : String) : String := key ++ " = " ++ value ++ "\n"

def writeHeader (key : String) : String := "[" ++ key ++ "]\n"

end InterfaceTables.Toml
