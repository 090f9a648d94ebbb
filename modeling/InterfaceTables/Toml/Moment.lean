import InterfaceTables.Toml.Scalar

/-!
Moments spelled as tables. A table whose first key is `momentKey` stands for the moment that the text
at that key denotes, whatever else it holds. Such a text is read less strictly than a moment that
stands in a document by itself: an hour may be 24, an offset may follow a date at once, and it may be
as long as a day however it is divided into hours and minutes.
-/

namespace InterfaceTables.Toml

def momentKey : String := "$__toml_private_datetime"

def twoDigits (n : Nat) : List Char := [Nat.digitChar (n / 10), Nat.digitChar (n % 10)]

def readWideOffset? : List Char → Option (List Char)
  | [] => some []
  | ['Z'] => some ['Z']
  | ['z'] => some ['Z']
  | c :: rest =>
    if c = '+' ∨ c = '-' then do
      let (hours, rest) ← readField 2 0 99 rest
      let rest ← readMark ':' rest
      let (minutes, rest) ← readField 2 0 99 rest
      let total := 60 * Decimal.ofDigits hours + Decimal.ofDigits minutes
      if !rest.isEmpty || 24 * 60 < total then none
      else
        let sign := if total = 0 then '+' else c
        some (sign :: twoDigits (total / 60) ++ ':' :: twoDigits (total % 60))
    else none

def readTimePart? : List Char → Option (List Char × List Char)
  | [] => some ([], [])
  | c :: rest =>
    if c = 'T' ∨ c = 't' ∨ c = ' ' then
      (readTime 24 rest).map fun (time, rest) => ('T' :: time, rest)
    else some ([], c :: rest)

def readMoment? (cs : List Char) : Option (List Char) :=
  if cs[2]? = some ':' then
    match readTime 24 cs with
    | some (time, []) => some time
    | _ => none
  else do
    let (date, rest) ← readDate cs
    let (time, rest) ← readTimePart? rest
    let offset ← readWideOffset? rest
    some (date ++ time ++ offset)

def momentField? : Fields → Option Toml
  | [] => none
  | (key, v) :: _ => if key = momentKey then some v else none

def spelledMoment? : Toml → Option Toml
  | .text s => (readMoment? s.toList).map fun cs => .moment (String.ofList cs)
  | _ => none

mutual

/-- A value in which moments stand for the tables that spell them, if all of those do spell one. -/
def settle : Toml → Option Toml
  | .array items => (settleItems items).map .array
  | .tables items => (settleItems items).map .tables
  | .table kind fields =>
    match momentField? fields with
    | some v => spelledMoment? v
    | none => (settleFields fields).map (.table kind)
  | v => some v

def settleItems : List Toml → Option (List Toml)
  | [] => some []
  | v :: rest =>
    match settle v, settleItems rest with
    | some v, some rest => some (v :: rest)
    | _, _ => none

def settleFields : List (String × Toml) → Option (List (String × Toml))
  | [] => some []
  | (key, v) :: rest =>
    match settle v, settleFields rest with
    | some v, some rest => some ((key, v) :: rest)
    | _, _ => none

end

end InterfaceTables.Toml
