import InterfaceTables.Json.Basic
import InterfaceTables.Json.Fault
import InterfaceTables.Decimal.Reader

/-!
Numbers of a JSON text. A whole number of 64 bits is exact. Any other number is computed from the
leading digits that fit 64 bits, times or divided by a power of ten, each step rounded.
-/

namespace InterfaceTables.Json

structure Cursor where
  offset : Nat
  rest : List Char

def Cursor.here (c : Cursor) (cause : Cause) : Fault := ⟨cause, c.offset⟩

/-- A fault of the next byte, which counts as looked at. -/
def Cursor.next (c : Cursor) (cause : Cause) : Fault :=
  ⟨cause, if c.rest.isEmpty then c.offset else c.offset + 1⟩

def Cursor.advance (c : Cursor) (n : Nat) : Cursor := ⟨c.offset + n, c.rest.drop n⟩

abbrev Reading (α : Type) := Except Fault (α × Cursor)

def maxUInt64 : Nat := 0xffffffffffffffff
def maxInt32 : Nat := 0x7fffffff

def absorb (n : Nat) : List Char → Nat × List Char
  | [] => (n, [])
  | d :: ds =>
    let n' := 10 * n + Decimal.digitValue d
    if maxUInt64 < n' then (n, d :: ds) else absorb n' ds

/-- Divides by `10 ^ 308` until the exponent is in reach of the table of powers. Two divisions make
any number of 64 bits vanish, so `steps` need not be large. -/
def shrink (x : Binary64) (exponent : Nat) : (steps : Nat) → Binary64
  | 0 => x.scaleDown (.powerOfTen (min exponent 308))
  | steps + 1 =>
    if exponent ≤ 308 then x.scaleDown (.powerOfTen exponent)
    else if x.isZero then x
    else shrink (x.scaleDown (.powerOfTen 308)) (exponent - 308) steps

def ofParts? (significand : Nat) (exponent : Int) : Option Binary64 :=
  let x := Binary64.ofNat significand
  if exponent < 0 then some (shrink x exponent.natAbs 4)
  else if x.isZero then some x
  else if 308 < exponent then none
  else match x.scaleUp (.powerOfTen exponent.toNat) with
    | .finite s m e => some (.finite s m e)
    | _ => none

def signed (negative : Bool) (x : Binary64) : Binary64 := if negative then x.neg else x

def double (negative : Bool) (significand : Nat) (exponent : Int) (after : Cursor) :
    Reading Number :=
  match ofParts? significand exponent with
  | some x => .ok (.double (signed negative x), after)
  | none => .error (after.here .numberOutOfRange)

def exponentDigits (offset n : Nat) : List Char → Nat ⊕ Nat
  | [] => .inl n
  | d :: ds =>
    let n' := 10 * n + Decimal.digitValue d
    if maxInt32 < n' then .inr (offset + 1) else exponentDigits (offset + 1) n' ds

def exponentPart (negative : Bool) (significand : Nat) (start : Int) (cur : Cursor) :
    Reading Number :=
  let (down, cur) := match cur.rest with
    | '-' :: _ => (true, cur.advance 1)
    | '+' :: _ => (false, cur.advance 1)
    | _ => (false, cur)
  let ds := cur.rest.takeWhile Char.isDigit
  let after := cur.advance ds.length
  match ds, cur.rest with
  | [], [] => .error (cur.here .endInValue)
  | [], _ :: _ => .error ⟨.invalidNumber, cur.offset + 1⟩
  | _ :: _, _ =>
    match exponentDigits cur.offset 0 ds with
    | .inl e => double negative significand (if down then start - e else start + e) after
    | .inr place =>
      if significand ≠ 0 ∧ ¬ down then .error ⟨.numberOutOfRange, place⟩
      else .ok (.double (.zero negative), after)

def optionalExponent (negative : Bool) (significand : Nat) (exponent : Int) (cur : Cursor) :
    Reading Number :=
  match cur.rest with
  | c :: _ =>
    if c = 'e' ∨ c = 'E' then exponentPart negative significand exponent (cur.advance 1)
    else double negative significand exponent cur
  | [] => double negative significand exponent cur

def fractionPart (negative : Bool) (significand : Nat) (exponent : Int) (cur : Cursor) :
    Reading Number :=
  let ds := cur.rest.takeWhile Char.isDigit
  match ds, cur.rest with
  | [], [] => .error (cur.next .endInValue)
  | [], _ :: _ => .error (cur.next .invalidNumber)
  | _ :: _, _ =>
    let (n, spare) := absorb significand ds
    optionalExponent negative n (exponent - (ds.length - spare.length : Nat)) (cur.advance ds.length)

/-- A whole number that fits 64 bits. The negative of zero is a double. -/
def whole (negative : Bool) (n : Nat) : Number :=
  if negative then
    if 0 < n ∧ n ≤ 0x8000000000000000 then .negative (-(n : Int)) else .double (Binary64.ofNat n).neg
  else .unsigned n

def afterWhole (negative : Bool) (n spare : Nat) (cur : Cursor) : Reading Number :=
  match cur.rest with
  | '.' :: _ => fractionPart negative n spare (cur.advance 1)
  | c :: _ =>
    if c = 'e' ∨ c = 'E' then exponentPart negative n spare (cur.advance 1)
    else if spare = 0 then .ok (whole negative n, cur)
    else double negative n spare cur
  | [] => if spare = 0 then .ok (whole negative n, cur) else double negative n spare cur

def unsignedNumber (negative : Bool) (cur : Cursor) : Reading Number :=
  match cur.rest with
  | [] => .error (cur.here .endInValue)
  | c :: rest =>
    if c = '0' then
      match rest with
      | d :: _ =>
        if d.isDigit then .error ((cur.advance 1).next .invalidNumber)
        else afterWhole negative 0 0 (cur.advance 1)
      | [] => afterWhole negative 0 0 (cur.advance 1)
    else if c.isDigit then
      let ds := cur.rest.takeWhile Char.isDigit
      let (n, spare) := absorb 0 ds
      afterWhole negative n spare.length (cur.advance ds.length)
    else .error ⟨.invalidNumber, cur.offset + 1⟩

def readNumber (cur : Cursor) : Reading Number :=
  match cur.rest with
  | '-' :: _ => unsignedNumber true (cur.advance 1)
  | _ => unsignedNumber false cur

end InterfaceTables.Json
