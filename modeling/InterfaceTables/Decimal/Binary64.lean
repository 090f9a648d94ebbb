/-!
Numbers of the binary64 format, held as `mantissa * 2 ^ exponent` in exact arithmetic. Every
operation computes the exact result and rounds it once, to the nearest number of the format and to
the even mantissa when two are equally near.
-/

namespace InterfaceTables

/-- A finite number has a mantissa below `2 ^ 53` and the least exponent that allows it, which is
never below `-1074`. -/
inductive Binary64 where
  | nan
  | infinite (negative : Bool)
  | finite (negative : Bool) (mantissa : Nat) (exponent : Int)
deriving DecidableEq

namespace Binary64

def minExponent : Int := -1074
def maxExponent : Int := 971

def leastNormal : Nat := 0x10000000000000

def zero (negative : Bool) : Binary64 := .finite negative 0 minExponent

def isZero : Binary64 → Bool
  | .finite _ mantissa _ => mantissa = 0
  | _ => false

def neg : Binary64 → Binary64
  | .nan => .nan
  | .infinite negative => .infinite !negative
  | .finite negative mantissa exponent => .finite (!negative) mantissa exponent

def unscale (num den : Nat) (e : Int) : Nat × Nat :=
  if e < 0 then (num * Nat.pow 2 (-e).toNat, den) else (num, den * Nat.pow 2 e.toNat)

def roundQuotient (num den : Nat) : Nat :=
  let q := num / den
  let r := num % den
  if 2 * r > den ∨ (2 * r = den ∧ q % 2 = 1) then q + 1 else q

def ofRatio (negative : Bool) (num den : Nat) : Binary64 :=
  if num = 0 then zero negative
  else
    let guess : Int := (num.log2 : Int) - den.log2 - 52
    let (n, d) := unscale num den guess
    let e := max minExponent (if n / d < leastNormal then guess - 1 else guess)
    let (n, d) := unscale num den e
    let m := roundQuotient n d
    let (m, e) := if m = 2 * leastNormal then (leastNormal, e + 1) else (m, e)
    if e > maxExponent then .infinite negative else .finite negative m e

def ratio (mantissa : Nat) (exponent : Int) : Nat × Nat :=
  if exponent < 0 then (mantissa, Nat.pow 2 (-exponent).toNat)
  else (mantissa * Nat.pow 2 exponent.toNat, 1)

def ofNat (n : Nat) : Binary64 := ofRatio false n 1

def powerOfTen (k : Nat) : Binary64 := ofNat (Nat.pow 10 k)

def scaleUp : Binary64 → Binary64 → Binary64
  | .finite negative m e, .finite _ m' e' =>
    let (n, d) := ratio m e
    let (n', d') := ratio m' e'
    ofRatio negative (n * n') (d * d')
  | x, _ => x

def scaleDown : Binary64 → Binary64 → Binary64
  | .finite negative m e, .finite _ m' e' =>
    let (n, d) := ratio m e
    let (n', d') := ratio m' e'
    ofRatio negative (n * d') (d * n')
  | x, _ => x

/-- The number nearest to `digits * 10 ^ exponent`. A magnitude that cannot be a finite number is
told from the count of digits, so no power needs to be taken for it. -/
def ofDecimal (negative : Bool) (digits : Nat) (exponent : Int) : Binary64 :=
  let size : Int := (Nat.toDigits 10 digits).length + exponent
  if digits = 0 then zero negative
  else if size > 400 then .infinite negative
  else if size < -400 then zero negative
  else if exponent < 0 then ofRatio negative digits (Nat.pow 10 (-exponent).toNat)
  else ofRatio negative (digits * Nat.pow 10 exponent.toNat) 1

end Binary64

end InterfaceTables
