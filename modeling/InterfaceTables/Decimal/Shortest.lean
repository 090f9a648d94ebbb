import InterfaceTables.Decimal.Binary64

/-!
The fewest decimal digits that read back as a given binary64 number. For each count of digits the
two neighbours of the number on that decimal grid are tried; the first grid with a neighbour that
reads back gives the digits, and of two such neighbours the nearer is taken.
-/

namespace InterfaceTables.Decimal

inductive Tie where
  | toEven
  | up
deriving DecidableEq

/-- The number `0.d₁d₂…dₙ * 10 ^ point`. -/
structure Digits where
  digits : List Char
  point : Int
deriving DecidableEq

def magnitude (num den : Nat) : Int :=
  if den ≤ num then (Nat.toDigits 10 (num / den)).length
  else
    let k := (Nat.toDigits 10 (den / num)).length - 1
    if den ≤ num * Nat.pow 10 k then 1 - (k : Int) else -(k : Int)

def tenPower (e : Int) : Nat × Nat :=
  if e < 0 then (1, Nat.pow 10 (-e).toNat) else (Nat.pow 10 e.toNat, 1)

/-- The nearest of the two neighbours of `value` on the grid of step `10 ^ grid` that lie between
`low` and `high`, all three counted in parts of `unit`; the ends belong to the interval iff
`closed`. -/
def gridPoint? (tie : Tie) (closed : Bool) (low value high unit : Nat) (grid : Int) : Option Nat :=
  let (gn, gd) := tenPower grid
  let step := gn * unit
  let c := value * gd / step
  let below := if closed then decide (low * gd ≤ c * step) else decide (low * gd < c * step)
  let above :=
    if closed then decide ((c + 1) * step ≤ high * gd) else decide ((c + 1) * step < high * gd)
  match below, above with
  | true, false => some c
  | false, true => some (c + 1)
  | false, false => none
  | true, true =>
    let twice := 2 * value * gd
    let middle := (2 * c + 1) * step
    if twice < middle then some c
    else if middle < twice then some (c + 1)
    else match tie with
      | .toEven => some (if c % 2 = 0 then c else c + 1)
      | .up => some (c + 1)

def significantDigits (n : Nat) : List Char :=
  ((Nat.toDigits 10 n).reverse.dropWhile (· == '0')).reverse

/-- The shortest digits of `mantissa * 2 ^ exponent`, which is not zero. The numbers that read back
as it reach half way to its neighbours; below a power of two the neighbour is twice as near. -/
def shortest (tie : Tie) (mantissa : Nat) (exponent : Int) : Digits :=
  let (unit, den) := Binary64.ratio 1 (exponent - 2)
  let value := 4 * mantissa * unit
  let reach := if mantissa = Binary64.leastNormal ∧ Binary64.minExponent < exponent then 1 else 2
  let low := (4 * mantissa - reach) * unit
  let high := (4 * mantissa + 2) * unit
  let point := magnitude value den
  let found := (List.range 17).findSome? fun k =>
    (gridPoint? tie (mantissa % 2 == 0) low value high den (point - (k + 1 : Nat))).map (k + 1, ·)
  match found with
  | some (count, n) => ⟨significantDigits n, point + ((Nat.toDigits 10 n).length - count : Nat)⟩
  | none => ⟨['0'], point⟩

end InterfaceTables.Decimal
