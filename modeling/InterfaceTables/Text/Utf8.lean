/-!
Bytes as text. A text has one encoding; bytes that are no encoding are still shown, each longest
part that cannot be continued to a character standing for one replacement character.
-/

namespace InterfaceTables.Text

def replacement : Char := Char.ofNat 0xfffd

def isContinuation (b : UInt8) : Bool := 0x80 ≤ b && b ≤ 0xbf

def secondOfThree (first second : UInt8) : Bool :=
  if first = 0xe0 then 0xa0 ≤ second && second ≤ 0xbf
  else if first = 0xed then 0x80 ≤ second && second ≤ 0x9f
  else isContinuation second

def secondOfFour (first second : UInt8) : Bool :=
  if first = 0xf0 then 0x90 ≤ second && second ≤ 0xbf
  else if first = 0xf4 then 0x80 ≤ second && second ≤ 0x8f
  else isContinuation second

def payload (b : UInt8) : Nat := b.toNat % 0x40

def decodeLossy : List UInt8 → List Char
  | [] => []
  | a :: r =>
    if a < 0x80 then Char.ofNat a.toNat :: decodeLossy r
    else if 0xc2 ≤ a && a ≤ 0xdf then
      match r with
      | [] => [replacement]
      | b :: r' =>
        if isContinuation b then
          Char.ofNat ((a.toNat % 0x20) * 0x40 + payload b) :: decodeLossy r'
        else replacement :: decodeLossy (b :: r')
    else if 0xe0 ≤ a && a ≤ 0xef then
      match r with
      | [] => [replacement]
      | [b] =>
        if secondOfThree a b then [replacement] else replacement :: decodeLossy [b]
      | b :: c :: r' =>
        if secondOfThree a b then
          if isContinuation c then
            Char.ofNat ((a.toNat % 0x10) * 0x1000 + payload b * 0x40 + payload c) ::
              decodeLossy r'
          else replacement :: decodeLossy (c :: r')
        else replacement :: decodeLossy (b :: c :: r')
    else if 0xf0 ≤ a && a ≤ 0xf4 then
      match r with
      | [] => [replacement]
      | [b] =>
        if secondOfFour a b then [replacement] else replacement :: decodeLossy [b]
      | [b, c] =>
        if secondOfFour a b then
          if isContinuation c then [replacement] else replacement :: decodeLossy [c]
        else replacement :: decodeLossy [b, c]
      | b :: c :: d :: r' =>
        if secondOfFour a b then
          if isContinuation c then
            if isContinuation d then
              Char.ofNat ((a.toNat % 8) * 0x40000 + payload b * 0x1000 + payload c * 0x40 +
                payload d) :: decodeLossy r'
            else replacement :: decodeLossy (d :: r')
          else replacement :: decodeLossy (c :: d :: r')
        else replacement :: decodeLossy (b :: c :: d :: r')
    else replacement :: decodeLossy r

def lossyText (bytes : ByteArray) : String :=
  String.ofList (decodeLossy bytes.toList)

end InterfaceTables.Text
