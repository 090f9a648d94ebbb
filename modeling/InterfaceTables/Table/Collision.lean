import InterfaceTables.Table.Record

/-!
Two interfaces of one run must not share an identifier. The check walks over the identifiers in the
order of the run and stops at the first that was met before.
-/

namespace InterfaceTables

structure Collision where
  symbol : String
  first : String
  firstPath : Path
  second : String
  secondPath : Path
deriving DecidableEq

def Collision.message (c : Collision) : String :=
  "Symbol collision: interfaces " ++ c.first ++ " (" ++ c.firstPath ++ ") and " ++ c.second ++
    " (" ++ c.secondPath ++ ") both map to symbol " ++ c.symbol

namespace Collision

def between (symbol : String) (earlier later : InterfaceRecord) : Collision where
  symbol := symbol
  first := earlier.name
  firstPath := earlier.source
  second := later.name
  secondPath := later.source

def uses (records : List InterfaceRecord) : List (String × InterfaceRecord) :=
  records.flatMap fun r => r.identifiers.map (·, r)

/-- The first use of an identifier that is taken already. -/
def firstClash? (taken : List (String × InterfaceRecord)) :
    List (String × InterfaceRecord) → Option Collision
  | [] => none
  | (symbol, r) :: rest =>
    match taken.lookup symbol with
    | some owner => some (between symbol owner r)
    | none => firstClash? ((symbol, r) :: taken) rest

def find? (records : List InterfaceRecord) : Option Collision := firstClash? [] (uses records)

end Collision

end InterfaceTables
