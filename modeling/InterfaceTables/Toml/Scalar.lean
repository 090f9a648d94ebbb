import InterfaceTables.Decimal.Reader
import InterfaceTables.Text.Hex
import InterfaceTables.Toml.Basic

/-!
TOML numbers, dates and times. Readers give the value and what follows it.
-/

namespace InterfaceTables.Toml

/-! ## Numbers -/

def digitRun (isDigit : Char → Bool) : List Char → List Char × List Char
  | [] => ([], [])
  | c :: rest =>
    if isDigit c then
      let (ds, after) := digitRun isDigit rest
      (c :: ds, after)
    else match c, rest with
      | '_', d :: rest' =>
        if isDigit d then
          let (ds, after) := digitRun isDigit rest'
          (d :: ds, after)
        else ([], c :: rest)
      | _, _ => ([], c :: rest)

def readDigits (isDigit : Char → Bool) (cs : List Char) : Option (List Char × List Char) :=
  match cs.head? with
  | some c => if isDigit c then some (digitRun isDigit cs) else none
  | none => none

def readWhole : List Char → Option (List Char × List Char)
  | '0' :: rest => some (['0'], rest)
  | cs => readDigits Char.isDigit cs

def readFraction : List Char → Option (List Char × List Char)
  | '.' :: rest => readDigits Char.isDigit rest
  | cs => some ([], cs)

def readExponent : List Char → Option (Option Int × List Char)
  | [] => some (none, [])
  | c :: rest =>
    if c = 'e' ∨ c = 'E' then do
      let (negative, rest) := Decimal.splitSign rest
      let (ds, rest) ← readDigits Char.isDigit rest
      let n : Int := Decimal.ofDigits ds
      some (some (if negative then -n else n), rest)
    else some (none, c :: rest)

/-- A decimal number after its sign. A double may not grow beyond the greatest finite one, unless it
is negative. -/
def readDecimal (negative : Bool) (cs : List Char) : Option (Toml × List Char) := do
  let (whole, rest) ← readWhole cs
  let (fraction, rest) ← readFraction rest
  let (exponent, rest) ← readExponent rest
  if fraction.isEmpty && exponent.isNone then
    let n : Int := Decimal.ofDigits whole
    let i := if negative then -n else n
    if Decimal.fitsInt64 i then some (.integer i, rest) else none
  else
    let x := Binary64.ofDecimal negative (Decimal.ofDigits (whole ++ fraction))
      (exponent.getD 0 - fraction.length)
    if x = .infinite false then none else some (.double x, rest)

def readBase (base : Nat) (cs : List Char) : Option (Toml × List Char) := do
  let isDigit (c : Char) : Bool := ((Text.hexValue? c).map (decide <| · < base)).getD false
  let (ds, rest) ← readDigits isDigit cs
  let n := ds.foldl (fun n c => base * n + (Text.hexValue? c).getD 0) 0
  if Decimal.fitsInt64 n then some (.integer n, rest) else none

def readSigned (negative : Bool) : List Char → Option (Toml × List Char)
  | 'i' :: 'n' :: 'f' :: rest => some (.double (.infinite negative), rest)
  | 'n' :: 'a' :: 'n' :: rest => some (.double .nan, rest)
  | cs => readDecimal negative cs

def readNumber : List Char → Option (Toml × List Char)
  | '0' :: 'x' :: rest => readBase 16 rest
  | '0' :: 'o' :: rest => readBase 8 rest
  | '0' :: 'b' :: rest => readBase 2 rest
  | cs =>
    let (negative, rest) := Decimal.splitSign cs
    readSigned negative rest

/-! ## Dates and times -/

def readField (count least greatest : Nat) (cs : List Char) : Option (List Char × List Char) :=
  let ds := cs.take count
  if ds.length = count ∧ ds.all Char.isDigit ∧
      least ≤ Decimal.ofDigits ds ∧ Decimal.ofDigits ds ≤ greatest then
    some (ds, cs.drop count)
  else none

def readMark (mark : Char) : List Char → Option (List Char)
  | [] => none
  | c :: rest => if c = mark then some rest else none

def isLeapYear (year : Nat) : Bool := year % 4 = 0 && (year % 100 ≠ 0 || year % 400 = 0)

def daysInMonth (year month : Nat) : Nat :=
  if month = 2 then (if isLeapYear year then 29 else 28)
  else if month = 4 ∨ month = 6 ∨ month = 9 ∨ month = 11 then 30
  else 31

def readDate (cs : List Char) : Option (List Char × List Char) := do
  let (year, rest) ← readField 4 0 9999 cs
  let rest ← readMark '-' rest
  let (month, rest) ← readField 2 1 12 rest
  let rest ← readMark '-' rest
  let (day, rest) ←
    readField 2 1 (daysInMonth (Decimal.ofDigits year) (Decimal.ofDigits month)) rest
  some (year ++ '-' :: month ++ '-' :: day, rest)

/-- Parts of a second: nine places count, and zeros at the end are not shown. -/
def fractionText (ds : List Char) : List Char :=
  match ((ds.take 9).reverse.dropWhile (· = '0')).reverse with
  | [] => []
  | shown => '.' :: shown

def readTime (lastHour : Nat) (cs : List Char) : Option (List Char × List Char) := do
  let (hour, rest) ← readField 2 0 lastHour cs
  let rest ← readMark ':' rest
  let (minute, rest) ← readField 2 0 59 rest
  let rest ← readMark ':' rest
  let (second, rest) ← readField 2 0 60 rest
  let whole := hour ++ ':' :: minute ++ ':' :: second
  match rest with
  | '.' :: after =>
    let ds := after.takeWhile Char.isDigit
    if ds.isEmpty then some (whole, rest)
    else some (whole ++ fractionText ds, after.dropWhile Char.isDigit)
  | _ => some (whole, rest)

def readOffset : List Char → Option (List Char × List Char)
  | [] => some ([], [])
  | c :: rest =>
    if c = 'Z' ∨ c = 'z' then some (['Z'], rest)
    else if c = '+' ∨ c = '-' then do
      let (hour, rest) ← readField 2 0 23 rest
      let rest ← readMark ':' rest
      let (minute, rest) ← readField 2 0 59 rest
      let isZero := Decimal.ofDigits (hour ++ minute) = 0
      some ((if isZero then '+' else c) :: hour ++ ':' :: minute, rest)
    else some ([], c :: rest)

def readDateTime (cs : List Char) : Option (List Char × List Char) := do
  let (date, rest) ← readDate cs
  match rest with
  | c :: after =>
    if c = 'T' ∨ c = 't' ∨ c = ' ' then
      match readTime 23 after with
      | some (time, rest) => do
        let (offset, rest) ← readOffset rest
        some (date ++ 'T' :: time ++ offset, rest)
      | none => some (date, rest)
    else some (date, rest)
  | [] => some (date, rest)

def startsField (count : Nat) (mark : Char) (cs : List Char) : Bool :=
  (cs.take count).length = count && (cs.take count).all Char.isDigit &&
    (cs.drop count).head? == some mark

def readPlain (cs : List Char) : Option (Toml × List Char) :=
  if startsField 4 '-' cs then
    (readDateTime cs).map fun (t, rest) => (.moment (String.ofList t), rest)
  else if startsField 2 ':' cs then
    (readTime 23 cs).map fun (t, rest) => (.moment (String.ofList t), rest)
  else readNumber cs

end InterfaceTables.Toml
