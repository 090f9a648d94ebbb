import InterfaceTables.Text.Hex
import InterfaceTables.Toml.Basic

/-!
The four kinds of TOML strings. Every reader here starts after the opening quotes and gives the
characters of the string and what follows the closing quotes; `acc` holds what was read, last first.
-/

namespace InterfaceTables.Toml

def isLineChar (c : Char) : Bool := c = '\t' || (0x20 ≤ c.toNat && c.toNat ≠ 0x7f)

def shortEscape? (c : Char) : Option Char :=
  if c = 'b' then some (Char.ofNat 8)
  else if c = 't' then some '\t'
  else if c = 'n' then some '\n'
  else if c = 'f' then some (Char.ofNat 12)
  else if c = 'r' then some '\r'
  else if c = '"' then some '"'
  else if c = '\\' then some '\\'
  else none

def charOfCode? (n : Nat) : Option Char :=
  if n.isValidChar then some (Char.ofNat n) else none

inductive Expect where
  -- Text; `trimming` leaves out blanks and line ends that follow an escaped line end.
  | plain (trimming : Bool)
  | escape
  -- The line end that a backslash before blanks must be followed by.
  | lineEnd
  | code (left value : Nat)

def escapeStep (c : Char) : Option (Expect × Option Char) :=
  if c = 'u' then some (.code 4 0, none)
  else if c = 'U' then some (.code 8 0, none)
  else (shortEscape? c).map fun e => (.plain false, some e)

def codeStep (left value : Nat) (c : Char) : Option (Expect × Option Char) :=
  match Text.hexValue? c with
  | none => none
  | some d =>
    let value := 16 * value + d
    if left ≤ 1 then (charOfCode? value).map fun e => (.plain false, some e)
    else some (.code (left - 1) value, none)

def basicBody (expect : Expect) (acc : List Char) : List Char → Option (List Char × List Char)
  | [] => none
  | c :: rest =>
    match expect with
    | .escape =>
      match escapeStep c with
      | some (next, e) => basicBody next (e.toList ++ acc) rest
      | none => none
    | .code left value =>
      match codeStep left value c with
      | some (next, e) => basicBody next (e.toList ++ acc) rest
      | none => none
    | _ =>
      if c = '"' then some (acc.reverse, rest)
      else if c = '\\' then basicBody .escape acc rest
      else if isLineChar c then basicBody (.plain false) (c :: acc) rest
      else none

def literalBody (acc : List Char) : List Char → Option (List Char × List Char)
  | [] => none
  | c :: rest =>
    if c = '\'' then some (acc.reverse, rest)
    else if isLineChar c then literalBody (c :: acc) rest
    else none

/-- The end of a string whose three closing quotes were read: up to two more belong to its text. -/
def closing (quote : Char) (acc rest : List Char) : List Char × List Char :=
  match rest with
  | a :: b :: after =>
    if a = quote ∧ b = quote then ((a :: b :: acc).reverse, after)
    else if a = quote then ((a :: acc).reverse, b :: after)
    else (acc.reverse, rest)
  | [a] => if a = quote then ((a :: acc).reverse, []) else (acc.reverse, rest)
  | [] => (acc.reverse, [])

/-- A string in three double quotes. Line ends of both kinds count as line feeds. -/
def basicLines (expect : Expect) (acc : List Char) : List Char → Option (List Char × List Char)
  | [] => none
  | c :: rest =>
    match expect with
    | .code left value =>
      match codeStep left value c with
      | some (next, e) => basicLines next (e.toList ++ acc) rest
      | none => none
    | .escape =>
      if c = ' ' ∨ c = '\t' then basicLines .lineEnd acc rest
      else if c = '\n' then basicLines (.plain true) acc rest
      else if c = '\r' then
        match rest with
        | '\n' :: rest => basicLines (.plain true) acc rest
        | _ => none
      else match escapeStep c with
        | some (next, e) => basicLines next (e.toList ++ acc) rest
        | none => none
    | .lineEnd =>
      if c = ' ' ∨ c = '\t' then basicLines .lineEnd acc rest
      else if c = '\n' then basicLines (.plain true) acc rest
      else if c = '\r' then
        match rest with
        | '\n' :: rest => basicLines (.plain true) acc rest
        | _ => none
      else none
    | .plain trimming =>
      if c = '"' then
        match rest with
        | '"' :: '"' :: rest => some (closing '"' acc rest)
        | _ => basicLines (.plain false) (c :: acc) rest
      else if c = '\\' then basicLines .escape acc rest
      else if trimming && (c = ' ' || c = '\t') then basicLines (.plain true) acc rest
      else if c = '\n' then basicLines (.plain trimming) (if trimming then acc else '\n' :: acc) rest
      else if c = '\r' then
        match rest with
        | '\n' :: rest => basicLines (.plain trimming) (if trimming then acc else '\n' :: acc) rest
        | _ => none
      else if isLineChar c then basicLines (.plain false) (c :: acc) rest
      else none

def literalLines (acc : List Char) : List Char → Option (List Char × List Char)
  | [] => none
  | c :: rest =>
    if c = '\'' then
      match rest with
      | '\'' :: '\'' :: rest => some (closing '\'' acc rest)
      | _ => literalLines (c :: acc) rest
    else if c = '\n' then literalLines ('\n' :: acc) rest
    else if c = '\r' then
      match rest with
      | '\n' :: rest => literalLines ('\n' :: acc) rest
      | _ => none
    else if isLineChar c then literalLines (c :: acc) rest
    else none

/-- A line end right after three opening quotes is no part of the string. -/
def dropLineEnd : List Char → List Char
  | '\n' :: rest => rest
  | '\r' :: '\n' :: rest => rest
  | cs => cs

def readText : List Char → Option (String × List Char)
  | '"' :: '"' :: '"' :: rest =>
    (basicLines (.plain false) [] (dropLineEnd rest)).map fun (cs, rest) => (String.ofList cs, rest)
  | '"' :: rest =>
    (basicBody (.plain false) [] rest).map fun (cs, rest) => (String.ofList cs, rest)
  | '\'' :: '\'' :: '\'' :: rest =>
    (literalLines [] (dropLineEnd rest)).map fun (cs, rest) => (String.ofList cs, rest)
  | '\'' :: rest => (literalBody [] rest).map fun (cs, rest) => (String.ofList cs, rest)
  | _ => none

/-! ## Steps

What a string in three quotes does with its next characters.
-/

variable {c : Char} {cs rest acc : List Char}

theorem basicLines_plain (hquote : c ≠ '"') (hreturn : c ≠ '\r') :
    basicLines (.plain false) acc (c :: rest) =
      if c = '\\' then basicLines .escape acc rest
      else if isLineChar c = true ∨ c = '\n' then basicLines (.plain false) (c :: acc) rest
      else none := by
  rw [basicLines.eq_def]
  by_cases hfeed : c = '\n'
  · subst hfeed
    simp
  · simp [hquote, hreturn, hfeed]

theorem basicLines_escapeStep {e : Char} {next : Expect} {read : Option Char}
    (hblank : ¬ (e = ' ' ∨ e = '\t')) (hfeed : e ≠ '\n') (hreturn : e ≠ '\r')
    (h : escapeStep e = some (next, read)) :
    basicLines .escape acc (e :: rest) = basicLines next (read.toList ++ acc) rest := by
  rw [basicLines.eq_def]
  simp only [if_neg hblank, if_neg hfeed, if_neg hreturn, h]

theorem basicLines_codeStep {left value : Nat} {next : Expect} {read : Option Char}
    (h : codeStep left value c = some (next, read)) :
    basicLines (.code left value) acc (c :: rest) = basicLines next (read.toList ++ acc) rest := by
  rw [basicLines.eq_def]
  simp only [h]

theorem basicLines_quote (h : ∀ after, cs ≠ '"' :: '"' :: after) :
    basicLines (.plain false) acc ('"' :: cs) = basicLines (.plain false) ('"' :: acc) cs := by
  rw [basicLines.eq_def]
  simp

theorem basicLines_close :
    basicLines (.plain false) acc ('"' :: '"' :: '"' :: rest) = some (closing '"' acc rest) :=
  rfl

theorem literalLines_close :
    literalLines acc ('\'' :: '\'' :: '\'' :: rest) = some (closing '\'' acc rest) :=
  rfl

theorem literalLines_quote (h : ∀ after, cs ≠ '\'' :: '\'' :: after) :
    literalLines acc ('\'' :: cs) = literalLines ('\'' :: acc) cs := by
  rw [literalLines.eq_def]
  simp

theorem literalLines_self (hquote : c ≠ '\'') (h : isLineChar c = true ∨ c = '\n') :
    literalLines acc (c :: rest) = literalLines (c :: acc) rest := by
  rw [literalLines.eq_def]
  obtain hline | rfl := h
  · have hfeed : c ≠ '\n' := by
      rintro rfl
      cases hline
    have hreturn : c ≠ '\r' := by
      rintro rfl
      cases hline
    simp [hquote, hfeed, hreturn, hline]
  · simp

end InterfaceTables.Toml
