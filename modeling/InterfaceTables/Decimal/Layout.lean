import InterfaceTables.Decimal.Shortest

/-!
How a binary64 number is laid out as text: its shortest digits, positionally or with an exponent.
-/

namespace InterfaceTables.Decimal

structure Layout where
  tie : Tie
  -- Whether a number whose first digit stands `point` places before the decimal point is written
  -- without an exponent.
  positional : (point : Int) → Bool
  whole : String

def zeros (n : Nat) : List Char := List.replicate n '0'

def Layout.place (l : Layout) (d : Digits) : List Char :=
  if d.point ≤ 0 then "0.".toList ++ zeros (-d.point).toNat ++ d.digits
  else if (d.digits.length : Int) ≤ d.point then
    d.digits ++ zeros (d.point.toNat - d.digits.length) ++ l.whole.toList
  else d.digits.take d.point.toNat ++ '.' :: d.digits.drop d.point.toNat

def scientific (d : Digits) : List Char :=
  let mantissa := match d.digits with
    | [] => ['0']
    | [a] => [a]
    | a :: rest => a :: '.' :: rest
  let e := d.point - 1
  mantissa ++ 'e' :: (if e < 0 then '-' else '+') :: Nat.toDigits 10 e.natAbs

def Layout.text (l : Layout) : Binary64 → String
  | .nan => "NaN"
  | .infinite negative => if negative then "-inf" else "inf"
  | .finite negative mantissa exponent =>
    let unsigned :=
      if mantissa = 0 then '0' :: l.whole.toList
      else
        let d := shortest l.tie mantissa exponent
        if l.positional d.point then l.place d else scientific d
    String.ofList (if negative then '-' :: unsigned else unsigned)

end InterfaceTables.Decimal
