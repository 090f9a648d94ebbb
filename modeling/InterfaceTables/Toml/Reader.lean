import InterfaceTables.Toml.Moment
import InterfaceTables.Toml.Text

/-!
The TOML reader. What is wrong with a text is not told, only that something is. Arrays and tables
between braces may stand in each other up to a fixed depth, on which the value reader recurses.
-/

namespace InterfaceTables.Toml

/-! ## Blanks and comments -/

def isBlank (c : Char) : Bool := c = ' ' || c = '\t'

def skipBlanks (cs : List Char) : List Char := cs.dropWhile isBlank

/-- Skips blanks, line ends and comments, which must not hold controls. -/
def skipLines (inComment : Bool) : List Char → Option (List Char)
  | [] => some []
  | c :: rest =>
    if c = '\n' then skipLines false rest
    else if c = '\r' then
      match rest with
      | '\n' :: rest => skipLines false rest
      | _ => none
    else if inComment then (if isLineChar c then skipLines true rest else none)
    else if isBlank c then skipLines false rest
    else if c = '#' then skipLines true rest
    else some (c :: rest)

def endLine (inComment : Bool) : List Char → Option (List Char)
  | [] => some []
  | c :: rest =>
    if c = '\n' then some rest
    else if c = '\r' then
      match rest with
      | '\n' :: rest => some rest
      | _ => none
    else if inComment then (if isLineChar c then endLine true rest else none)
    else if isBlank c then endLine false rest
    else if c = '#' then endLine true rest
    else none

/-! ## Keys -/

def isBareChar (c : Char) : Bool := c.isAlphanum || c = '_' || c = '-'

def readKeyPart : List Char → Option (String × List Char)
  | '"' :: rest =>
    (basicBody (.plain false) [] rest).map fun (cs, rest) => (String.ofList cs, rest)
  | '\'' :: rest => (literalBody [] rest).map fun (cs, rest) => (String.ofList cs, rest)
  | cs =>
    let word := cs.takeWhile isBareChar
    if word.isEmpty then none else some (String.ofList word, cs.dropWhile isBareChar)

def readKeyParts : (fuel : Nat) → List Char → Option (List String × List Char)
  | 0, _ => none
  | fuel + 1, cs => do
    let (part, rest) ← readKeyPart (skipBlanks cs)
    match skipBlanks rest with
    | '.' :: rest => do
      let (parts, rest) ← readKeyParts fuel rest
      some (part :: parts, rest)
    | rest => some ([part], rest)

def maxDepth : Nat := 79

def readKey (cs : List Char) : Option (List String × String × List Char) := do
  let (parts, rest) ← readKeyParts maxDepth cs
  let last ← parts.getLast?
  some (parts.dropLast, last, rest)

/-! ## Values -/

def readField? (value : List Char → Option (Toml × List Char)) (cs : List Char) :
    Option ((List String × String × Toml) × List Char) := do
  let (path, key, rest) ← readKey cs
  let rest ← readMark '=' rest
  let (v, rest) ← value (skipBlanks rest)
  some ((path, key, v), rest)

def readItems (value : List Char → Option (Toml × List Char)) :
    (fuel : Nat) → (acc : List Toml) → List Char → Option (List Toml × List Char)
  | 0, _, _ => none
  | fuel + 1, acc, cs => do
    match ← skipLines false cs with
    | ']' :: rest => some (acc.reverse, rest)
    | cs =>
      let (v, rest) ← value cs
      match ← skipLines false rest with
      | ']' :: rest => some ((v :: acc).reverse, rest)
      | ',' :: rest => readItems value fuel (v :: acc) rest
      | _ => none

def readInlineFields (value : List Char → Option (Toml × List Char)) :
    (fuel : Nat) → Fields → List Char → Option (Fields × List Char)
  | 0, _, _ => none
  | fuel + 1, fields, cs => do
    let ((path, key, v), rest) ← readField? value cs
    let (_, fields) ← addAt path key v .declared fields
    match skipBlanks rest with
    | '\x7d' :: rest => some (fields, rest)
    | ',' :: rest => readInlineFields value fuel fields rest
    | _ => none

def readInline (value : List Char → Option (Toml × List Char)) (fuel : Nat) (cs : List Char) :
    Option (Fields × List Char) :=
  match skipBlanks cs with
  | '\x7d' :: rest => some ([], rest)
  | cs => readInlineFields value fuel [] cs

def readScalar : List Char → Option (Toml × List Char)
  | 't' :: 'r' :: 'u' :: 'e' :: rest => some (.boolean true, rest)
  | 'f' :: 'a' :: 'l' :: 's' :: 'e' :: rest => some (.boolean false, rest)
  | c :: rest =>
    if c = '"' ∨ c = '\'' then (readText (c :: rest)).map fun (s, rest) => (.text s, rest)
    else readPlain (c :: rest)
  | [] => none

/-- A value in which others may stand `depth` levels deep; `fuel` bounds the number of items in each
of them. -/
def readValue (fuel : Nat) : (depth : Nat) → List Char → Option (Toml × List Char)
  | 0, cs => readScalar cs
  | depth + 1, '[' :: rest =>
    (readItems (readValue fuel depth) fuel [] rest).map
      fun (items, rest) => (.array items, rest)
  | depth + 1, '\x7b' :: rest =>
    (readInline (readValue fuel depth) fuel rest).map
      fun (fields, rest) => (.table .inline fields, rest)
  | _ + 1, cs => readScalar cs

/-! ## Documents -/

inductive Line where
  | blank
  | header (path : List String) (key : String)
  | itemHeader (path : List String) (key : String)
  | field (path : List String) (key : String) (value : Toml)

def readLine (fuel : Nat) (cs : List Char) : Option (Line × List Char) :=
  match skipBlanks cs with
  | [] => some (.blank, [])
  | '[' :: '[' :: rest => do
    let (path, key, rest) ← readKey rest
    let rest ← readMark ']' rest
    let rest ← readMark ']' rest
    some (.itemHeader path key, ← endLine false rest)
  | '[' :: rest => do
    let (path, key, rest) ← readKey rest
    let rest ← readMark ']' rest
    some (.header path key, ← endLine false rest)
  | c :: rest =>
    if c = '#' ∨ c = '\n' ∨ c = '\r' then do some (.blank, ← endLine false (c :: rest))
    else do
      let ((path, key, v), rest) ← readField? (readValue fuel maxDepth) (c :: rest)
      some (.field path key v, ← endLine false rest)

structure Draft where
  fields : Fields
  opened : List String

def Draft.add (d : Draft) : Line → Option Draft
  | .blank => some d
  | .header path key => do
    let (_, fields) ← change .implied (openTable key) path .declared d.fields
    some ⟨fields, path ++ [key]⟩
  | .itemHeader path key => do
    let (_, fields) ← change .implied (openItem key) path .declared d.fields
    some ⟨fields, path ++ [key]⟩
  | .field path key v => do
    let (_, fields) ← change .implied (addAt path key v) d.opened .declared d.fields
    some { d with fields }

def readLines (size : Nat) : (fuel : Nat) → Draft → List Char → Option Fields
  | _, d, [] => some d.fields
  | 0, _, _ => none
  | fuel + 1, d, cs => do
    let (line, rest) ← readLine size cs
    let d ← d.add line
    readLines size fuel d rest

/-- A byte order mark at the start of a text is no part of it. -/
def dropMark : List Char → List Char
  | '\ufeff' :: rest => rest
  | cs => cs

def parse? (text : String) : Option Toml := do
  let cs := dropMark text.toList
  let size := cs.length + 1
  let fields ← readLines size size ⟨[], []⟩ cs
  settle (.table .declared fields)

end InterfaceTables.Toml
