import InterfaceTables.Decimal.Reader
import InterfaceTables.Text.Lowercase

/-!
Values that layers of settings give to keys, and how one layer is laid over another: tables are
merged key by key, and any other value takes the place of what was there. Keys are in lower case. At
the top of a layer a key is a path, such as `output.dir` or `output[1]`.
-/

namespace InterfaceTables

namespace Setting

abbrev Origin := String

inductive Scalar where
  | null
  | boolean (b : Bool)
  | integer (i : Int)
  | double (x : Binary64)
  | text (s : String)
deriving DecidableEq

end Setting

/-- A value and where it comes from. What merging makes on its way has no origin. -/
inductive Setting where
  | scalar (origin : Option Setting.Origin) (value : Setting.Scalar)
  | list (origin : Option Setting.Origin) (items : List Setting)
  | table (origin : Option Setting.Origin) (fields : List (String × Setting))

namespace Setting

abbrev Fields := List (String × Setting)

def origin? : Setting → Option Origin
  | .scalar origin _ => origin
  | .list origin _ => origin
  | .table origin _ => origin

def nothing : Setting := .scalar none .null

def asTable : Setting → Option Origin × Fields
  | .table origin fields => (origin, fields)
  | _ => (none, [])

def asList : Setting → Option Origin × List Setting
  | .list origin items => (origin, items)
  | _ => (none, [])

def fieldAt (fields : Fields) (key : String) : Setting := (fields.lookup key).getD nothing

def putField (key : String) (value : Setting) : Fields → Fields
  | [] => [(key, value)]
  | (k, v) :: rest =>
    if k = key then (k, value) :: rest else (k, v) :: putField key value rest

def blocks (fields : Fields) (key : String) : Bool :=
  match fields.lookup key with
  | some (.table _ _) => false
  | some _ => true
  | none => false

mutual

/-- Lays a value over what a key holds. A table without fields leaves a value that is no table. -/
def assign (fields : Fields) (key : String) : Setting → Fields
  | .table _ incoming =>
    let key := Text.toLowercase key
    if incoming.isEmpty && blocks fields key then fields
    else
      let (origin, inner) := (fieldAt fields key).asTable
      putField key (.table origin (assignAll inner incoming)) fields
  | value => putField (Text.toLowercase key) value fields

def assignAll (fields : Fields) : Fields → Fields
  | [] => fields
  | (key, value) :: rest => assignAll (assign fields key value) rest

end

/-! ## Paths -/

/-- One step of a path: to a field of a table, or to a place in a list, which a negative number
counts from the end. -/
inductive Step where
  | field (name : String)
  | item (index : Int)
deriving DecidableEq

def itemPlace (items : List Setting) (index : Int) : Nat :=
  if index < 0 then items.length - index.natAbs else index.toNat

def putItem (items : List Setting) (place : Nat) (value : Setting) : List Setting :=
  (items ++ List.replicate (place + 1 - items.length) nothing).set place value

/-- Lays a value over what steps lead to from `here`. What stands in the way becomes the table or
list that a step needs, and a place of a list takes the value as it is. -/
def assignAt : (steps : List Step) → (here value : Setting) → Setting
  | [], _, value => value
  | [.field name], here, value =>
    let (origin, fields) := here.asTable
    .table origin (assign fields name value)
  | .field name :: steps, here, value =>
    let key := Text.toLowercase name
    let (origin, fields) := here.asTable
    .table origin (putField key (assignAt steps (fieldAt fields key) value) fields)
  | .item index :: steps, here, value =>
    let (origin, items) := here.asList
    let place := itemPlace items index
    .list origin (putItem items place (assignAt steps ((items[place]?).getD nothing) value))

def isNameChar (c : Char) : Bool := c.isAlphanum || c = '_' || c = '-' || c = ' '

def cutSteps : List Char → List (List Char)
  | [] => [[]]
  | c :: cs =>
    match cutSteps cs with
    | [] => [[c]]
    | p :: ps => if c = '.' ∨ c = '[' then [] :: (c :: p) :: ps else (c :: p) :: ps

def readName? (cs : List Char) : Option Step :=
  if !cs.isEmpty && cs.all isNameChar then some (.field (String.ofList cs)) else none

def isIndexBlank (c : Char) : Bool := c = ' ' || c = '\t'

def indexDigits : List Char → List Char
  | '-' :: ds => ds
  | ds => ds

def readIndex? (cs : List Char) : Option Step :=
  match cs.reverse with
  | ']' :: inner =>
    let word := ((inner.dropWhile isIndexBlank).reverse).dropWhile isIndexBlank
    if (indexDigits word).all Char.isDigit then (Decimal.readInt64? word).map .item else none
  | _ => none

def readStep? : List Char → Option Step
  | '.' :: cs => readName? cs
  | '[' :: cs => readIndex? cs
  | _ => none

def readSteps? : List (List Char) → Option (List Step)
  | [] => some []
  | p :: ps =>
    match readStep? p, readSteps? ps with
    | some step, some steps => some (step :: steps)
    | _, _ => none

def readPath? (key : String) : Option (List Step) :=
  match cutSteps key.toList with
  | [] => none
  | first :: rest =>
    match readName? first, readSteps? rest with
    | some step, some steps => some (step :: steps)
    | _, _ => none

def pathOf (key : String) : List Step := (readPath? key).getD [.field key]

def overlay (fields : Fields) : (layer : Fields) → Fields
  | [] => fields
  | (key, value) :: rest =>
    overlay (assignAt (pathOf key) (.table none fields) value).asTable.2 rest

end Setting

end InterfaceTables
