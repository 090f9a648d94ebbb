import InterfaceTables.Json.Number
import InterfaceTables.Text.Hex

/-!
The JSON reader. Arrays and objects may stand in each other up to a fixed depth, and the value
reader recurses on what is left of it; the lists inside them are read item by item, each item
taking at least one character.
-/

namespace InterfaceTables.Json

def isBlank (c : Char) : Bool := c = ' ' || c = '\n' || c = '\t' || c = '\r'

def skipBlanks (cur : Cursor) : Cursor :=
  cur.advance (cur.rest.takeWhile isBlank).length

def readWord (value : Json) : List Char → Cursor → Reading Json
  | [], cur => .ok (value, cur)
  | e :: es, cur =>
    match cur.rest with
    | [] => .error (cur.here .endInValue)
    | c :: _ =>
      if c = e then readWord value es (cur.advance 1) else .error ⟨.expectedIdent, cur.offset + 1⟩

/-! ## Strings -/

/-- What the reader of a string expects next. An escape by code takes four bytes, which are judged
only when all of them are there; the first half of a pair waits for the second. -/
inductive Expect where
  | plain
  | escape
  | code (left : Nat) (value : Option Nat) (high : Option Nat)
  | pairBackslash (high : Nat)
  | pairLetter (high : Nat)

def shortEscape? (c : Char) : Option Char :=
  if c = '"' then some '"'
  else if c = '\\' then some '\\'
  else if c = '/' then some '/'
  else if c = 'b' then some (Char.ofNat 8)
  else if c = 'f' then some (Char.ofNat 12)
  else if c = 'n' then some '\n'
  else if c = 'r' then some '\r'
  else if c = 't' then some '\t'
  else none

def codeUnit (high : Option Nat) (n : Nat) : Except Cause (Char ⊕ Nat) :=
  match high with
  | some h =>
    if 0xdc00 ≤ n ∧ n ≤ 0xdfff then
      .ok (.inl (Char.ofNat (0x10000 + (h - 0xd800) * 0x400 + (n - 0xdc00))))
    else .error .loneSurrogate
  | none =>
    if 0xdc00 ≤ n ∧ n ≤ 0xdfff then .error .loneSurrogate
    else if 0xd800 ≤ n ∧ n ≤ 0xdbff then .ok (.inr n)
    else .ok (.inl (Char.ofNat n))

def stringBody (expect : Expect) (acc : List Char) (offset : Nat) :
    List Char → Reading (List Char)
  | [] => .error ⟨.endInString, offset⟩
  | c :: rest =>
    match expect with
    | .plain =>
      if c = '"' then .ok (acc.reverse, ⟨offset + 1, rest⟩)
      else if c = '\\' then stringBody .escape acc (offset + 1) rest
      else if c.toNat < 0x20 then .error ⟨.controlInString, offset + 1⟩
      else stringBody .plain (c :: acc) (offset + c.utf8Size) rest
    | .escape =>
      if c = 'u' then stringBody (.code 4 (some 0) none) acc (offset + 1) rest
      else match shortEscape? c with
        | some e => stringBody .plain (e :: acc) (offset + 1) rest
        | none => .error ⟨.invalidEscape, offset + 1⟩
    | .code left value high =>
      let value := match value, Text.hexValue? c with
        | some v, some d => some (16 * v + d)
        | _, _ => none
      if c.utf8Size < left then
        stringBody (.code (left - c.utf8Size) value high) acc (offset + c.utf8Size) rest
      else match value with
        | none => .error ⟨.invalidEscape, offset + left⟩
        | some n => match codeUnit high n with
          | .error cause => .error ⟨cause, offset + left⟩
          | .ok (.inl e) => stringBody .plain (e :: acc) (offset + left) rest
          | .ok (.inr h) => stringBody (.pairBackslash h) acc (offset + left) rest
    | .pairBackslash high =>
      if c = '\\' then stringBody (.pairLetter high) acc (offset + 1) rest
      else .error ⟨.unfinishedPair, offset + 1⟩
    | .pairLetter high =>
      if c = 'u' then stringBody (.code 4 (some 0) (some high)) acc (offset + 1) rest
      else .error ⟨.unfinishedPair, offset + 1⟩

def readString (cur : Cursor) : Reading String :=
  match stringBody .plain [] (cur.offset + 1) (cur.rest.drop 1) with
  | .error f => .error f
  | .ok (cs, after) => .ok (String.ofList cs, after)

/-! ## Lists of items -/

def readItems (item : Cursor → Reading Json) :
    (fuel : Nat) → (acc : List Json) → Cursor → Reading (List Json)
  | 0, _, cur => .error (cur.next .endInList)
  | fuel + 1, acc, cur =>
    let cur := skipBlanks cur
    let take (cur : Cursor) : Reading (List Json) :=
      match item cur with
      | .error f => .error f
      | .ok (v, after) => readItems item fuel (v :: acc) after
    match cur.rest with
    | [] => .error (cur.next .endInList)
    | c :: _ =>
      if c = ']' then .ok (acc.reverse, cur.advance 1)
      else if acc.isEmpty then take cur
      else if c = ',' then
        let cur := skipBlanks (cur.advance 1)
        match cur.rest with
        | [] => .error (cur.next .endInValue)
        | c :: _ => if c = ']' then .error (cur.next .trailingComma) else take cur
      else .error (cur.next .expectedListCommaOrEnd)

def readMember (item : Cursor → Reading Json) (cur : Cursor) : Reading (String × Json) :=
  match cur.rest with
  | [] => .error (cur.next .endInValue)
  | c :: _ =>
    if c ≠ '"' then .error (cur.next .keyNotString)
    else match readString cur with
      | .error f => .error f
      | .ok (key, after) =>
        let cur := skipBlanks after
        match cur.rest with
        | [] => .error (cur.next .endInObject)
        | c :: _ =>
          if c ≠ ':' then .error (cur.next .expectedColon)
          else match item (cur.advance 1) with
            | .error f => .error f
            | .ok (v, after) => .ok ((key, v), after)

def readMembers (item : Cursor → Reading Json) :
    (fuel : Nat) → (acc : List (String × Json)) → Cursor → Reading (List (String × Json))
  | 0, _, cur => .error (cur.next .endInObject)
  | fuel + 1, acc, cur =>
    let cur := skipBlanks cur
    let take (cur : Cursor) : Reading (List (String × Json)) :=
      match readMember item cur with
      | .error f => .error f
      | .ok ((k, v), after) => readMembers item fuel (putField k v acc) after
    match cur.rest with
    | [] => .error (cur.next .endInObject)
    | c :: _ =>
      if c = '\x7d' then .ok (acc, cur.advance 1)
      else if acc.isEmpty then take cur
      else if c = ',' then
        let cur := skipBlanks (cur.advance 1)
        match cur.rest with
        | c :: _ => if c = '\x7d' then .error (cur.next .trailingComma) else take cur
        | [] => take cur
      else .error (cur.next .expectedObjectCommaOrEnd)

/-! ## Values -/

def readScalar (cur : Cursor) : Reading Json :=
  match cur.rest with
  | [] => .error (cur.next .endInValue)
  | c :: _ =>
    if c = '"' then (readString cur).map fun (s, after) => (.string s, after)
    else if c = '-' ∨ c.isDigit then (readNumber cur).map fun (n, after) => (.number n, after)
    else if c = 'n' then readWord .null "ull".toList (cur.advance 1)
    else if c = 't' then readWord (.boolean true) "rue".toList (cur.advance 1)
    else if c = 'f' then readWord (.boolean false) "alse".toList (cur.advance 1)
    else .error (cur.next .expectedValue)

/-- A value in which arrays and objects may stand `depth` levels deep; `fuel` bounds the number of
items in each of them. -/
def readValue (fuel : Nat) : (depth : Nat) → Cursor → Reading Json
  | 0, cur =>
    let cur := skipBlanks cur
    match cur.rest with
    | c :: _ => if c = '[' ∨ c = '\x7b' then .error (cur.next .tooDeep) else readScalar cur
    | [] => readScalar cur
  | depth + 1, cur =>
    let cur := skipBlanks cur
    match cur.rest with
    | c :: _ =>
      if c = '[' then
        (readItems (readValue fuel depth) fuel [] (cur.advance 1)).map
          fun (vs, after) => (.array vs, after)
      else if c = '\x7b' then
        (readMembers (readValue fuel depth) fuel [] (cur.advance 1)).map
          fun (fs, after) => (.object fs, after)
      else readScalar cur
    | [] => readScalar cur

def maxDepth : Nat := 127

def readDocument (cur : Cursor) : Except Fault Json :=
  match readValue (cur.rest.length + 1) maxDepth cur with
  | .error f => .error f
  | .ok (v, after) =>
    let cur := skipBlanks after
    if cur.rest.isEmpty then .ok v else .error (cur.next .trailingCharacters)

def parse (text : String) : Except Error Json :=
  match readDocument ⟨0, text.toList⟩ with
  | .ok v => .ok v
  | .error f => .error (f.locate text.toList)

end InterfaceTables.Json
