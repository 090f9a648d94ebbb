/-!
What a text shows when the control sequences of terminals are taken out of it: characters that print
and blanks, without other controls, escape sequences and the strings that some of them start.
-/

namespace InterfaceTables.Text.Terminal

inductive Phase where
  -- Outside of every sequence.
  | plain
  -- After an escape character.
  | escape
  -- In an escape sequence of more than one character.
  | longEscape
  -- In a sequence with parameters, which starts with a bracket.
  | parameters
  -- In what goes before the body of a device control string.
  | deviceHead
  -- In a string that an escape character ends, or a character that has the byte of the string
  -- terminator.
  | string
  -- In a string for the operating system, which a bell ends too.
  | command
deriving DecidableEq

def isBlankControl (c : Char) : Bool := c = '\t' || c = '\n' || c = '\x0c' || c = '\r'

def isShown (c : Char) : Bool := isBlankControl c || (' ' ≤ c && c ≠ '\x7f')

def holdsTerminator (c : Char) : Bool := (String.utf8EncodeChar c).contains 0x9c

/-- Where a character leads that is not shown. An escape character starts a new sequence everywhere,
and two controls end any. -/
def Phase.next (phase : Phase) (c : Char) : Phase :=
  if c = '\x1b' then .escape
  else if c = '\x18' ∨ c = '\x1a' then .plain
  else match phase with
    | .plain => .plain
    | .escape =>
      if ' ' ≤ c ∧ c ≤ '/' then .longEscape
      else if c = '[' then .parameters
      else if c = ']' then .command
      else if c = 'P' then .deviceHead
      else if c = 'X' ∨ c = '^' ∨ c = '_' then .string
      else if '0' ≤ c ∧ c ≤ '~' then .plain
      else .escape
    | .longEscape => if '0' ≤ c ∧ c ≤ '~' then .plain else .longEscape
    | .parameters => if '@' ≤ c ∧ c ≤ '~' then .plain else .parameters
    | .deviceHead => if '@' ≤ c ∧ c ≤ '~' then .string else .deviceHead
    | .string => if holdsTerminator c then .plain else .string
    | .command => if c = '\x07' then .plain else .command

/-- Whether a character that stands in a phase is shown: outside of strings a blank always is, and it
interrupts the sequence in which it stands. -/
def Phase.shows : Phase → Char → Bool
  | .plain, c => isShown c
  | .escape, c => isBlankControl c
  | .longEscape, c => isBlankControl c
  | .parameters, c => isBlankControl c
  | .deviceHead, _ => false
  | .string, _ => false
  | .command, _ => false

/-- The characters that are shown; `showing` says whether the last one was. A sequence that was
interrupted goes on after the next control, unless a character outside of ASCII comes before. -/
def shown (phase : Phase) (showing : Bool) : List Char → List Char
  | [] => []
  | c :: rest =>
    if phase.shows c || (showing && isShown c) then
      c :: shown (if c < '\x80' then phase else .plain) true rest
    else shown (phase.next c) false rest

def visible (s : String) : String := String.ofList (shown .plain false s.toList)

end InterfaceTables.Text.Terminal
