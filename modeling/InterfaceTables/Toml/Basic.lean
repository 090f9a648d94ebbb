import InterfaceTables.Decimal.Binary64

/-!
TOML values, and how a document's tables grow. A table remembers how it came to be, because that
decides who may still add to it.
-/

namespace InterfaceTables

namespace Toml

inductive TableKind where
  -- Opened by a header of its own.
  | declared
  -- Only passed through by a longer header.
  | implied
  -- Made by a dotted key.
  | dotted
  -- Written between braces.
  | inline
deriving DecidableEq

end Toml

inductive Toml where
  | text (s : String)
  | integer (i : Int)
  | double (x : Binary64)
  | boolean (b : Bool)
  -- A date, a time or both, in the form in which it is shown.
  | moment (s : String)
  | array (items : List Toml)
  | table (kind : Toml.TableKind) (fields : List (String × Toml))
  -- An array to which every header of its name adds a table.
  | tables (items : List Toml)

namespace Toml

abbrev Fields := List (String × Toml)

def putField (key : String) (value : Toml) : Fields → Fields
  | [] => [(key, value)]
  | (k, v) :: rest =>
    if k = key then (k, value) :: rest else (k, v) :: putField key value rest

def splitLast : List Toml → Option (List Toml × Toml)
  | [] => none
  | [v] => some ([], v)
  | v :: rest => (splitLast rest).map fun (before, last) => (v :: before, last)

/-- Changes the table at the end of a path of keys. Tables that are not there are made of kind
`made`, and an array of tables stands for its last one. A dotted key does not reach into a table with
a header, and nothing reaches into a table between braces. -/
def change (made : TableKind) (f : TableKind → Fields → Option (TableKind × Fields)) :
    (path : List String) → TableKind → Fields → Option (TableKind × Fields)
  | [], kind, fields => f kind fields
  | key :: path, kind, fields =>
    let put (v : Toml) : Option (TableKind × Fields) := some (kind, putField key v fields)
    match fields.lookup key with
    | none => do
      let (k, inner) ← change made f path made []
      put (.table k inner)
    | some (.table k inner) =>
      if k = .inline ∨ (made = .dotted ∧ k = .declared) then none
      else do
        let (k, inner) ← change made f path k inner
        put (.table k inner)
    | some (.tables items) =>
      match splitLast items with
      | some (before, .table k inner) => do
        let (k, inner) ← change made f path k inner
        put (.tables (before ++ [.table k inner]))
      | _ => none
    | some _ => none

def addField (dotted : Bool) (key : String) (value : Toml) (kind : TableKind) (fields : Fields) :
    Option (TableKind × Fields) :=
  if dotted ≠ decide (kind = .dotted) ∨ (fields.lookup key).isSome then none
  else some (kind, fields ++ [(key, value)])

def addAt (path : List String) (key : String) (value : Toml) (kind : TableKind) (fields : Fields) :
    Option (TableKind × Fields) :=
  change .dotted (addField (!path.isEmpty) key value) path kind fields

/-- Opens the table of a header. It may be there already if it was only passed through, and then it
moves behind the other fields. -/
def openTable (key : String) (kind : TableKind) (fields : Fields) : Option (TableKind × Fields) :=
  match fields.lookup key with
  | none => some (kind, putField key (.table .declared []) fields)
  | some (.table .implied inner) =>
    some (kind, fields.filter (·.1 ≠ key) ++ [(key, .table .declared inner)])
  | some _ => none

def openItem (key : String) (kind : TableKind) (fields : Fields) : Option (TableKind × Fields) :=
  match fields.lookup key with
  | none => some (kind, putField key (.tables [.table .declared []]) fields)
  | some (.tables items) =>
    some (kind, putField key (.tables (items ++ [.table .declared []])) fields)
  | some _ => none

end Toml

end InterfaceTables
