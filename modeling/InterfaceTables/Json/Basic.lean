import InterfaceTables.Decimal.Layout

/-!
JSON values. A number keeps how it was written: as a whole number without a sign, as a negative
whole number, or in any other way, and then it is a binary64 number.
-/

namespace InterfaceTables

namespace Json

inductive Number where
  | unsigned (n : Nat)
  | negative (i : Int)
  | double (x : Binary64)
deriving DecidableEq

/-- Doubles stand without an exponent from `1e-5` up to `1e16`, always with a point. -/
def doubleLayout : Decimal.Layout where
  tie := .toEven
  positional point := -5 < point && point ≤ 16
  whole := ".0"

def Number.text : Number → String
  | .unsigned n => toString n
  | .negative i => toString i
  | .double x => doubleLayout.text x

end Json

inductive Json where
  | null
  | boolean (b : Bool)
  | number (n : Json.Number)
  | string (s : String)
  | array (items : List Json)
  | object (fields : List (String × Json))

namespace Json

def putField (key : String) (value : Json) : List (String × Json) → List (String × Json)
  | [] => [(key, value)]
  | (k, v) :: rest =>
    if k = key then (k, value) :: rest else (k, v) :: putField key value rest

end Json

end InterfaceTables
