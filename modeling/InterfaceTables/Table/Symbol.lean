/-!
C identifiers for interfaces and the names of the generated files.
-/

namespace InterfaceTables

namespace Symbol

def isWordChar (c : Char) : Bool :=
  ('a' ≤ c && c ≤ 'z') || ('A' ≤ c && c ≤ 'Z') || ('0' ≤ c && c ≤ '9') || c == '_'

def sanitizeChar (c : Char) : Char := if isWordChar c then c else '_'

/-- The identifier for a name: every character outside `[A-Za-z0-9_]` becomes an underscore. -/
def sanitize (name : String) : String := String.ofList (name.toList.map sanitizeChar)

def mappings (symbol : String) : String := symbol ++ "_mappings"

def upper (s : String) : String := String.ofList (s.toList.map Char.toUpper)

def includeGuard (baseName : String) : String := upper (sanitize baseName) ++ "_H"

end Symbol

def defaultBaseName : String := "generated_interfaces"

def baseName (lead : String) : String := lead ++ defaultBaseName

end InterfaceTables
