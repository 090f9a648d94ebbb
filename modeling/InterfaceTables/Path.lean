/-!
Paths as they are written. A path is never made absolute or tidied up: joining only adds a slash
where one is needed.
-/

namespace InterfaceTables

abbrev Path := String

namespace Path

def isAbsolute (p : Path) : Bool := p.toList.head? == some '/'

def endsInSlash (p : Path) : Bool := p.toList.getLast? == some '/'

/-- `name` below `dir`. An absolute `name` stands for itself, and so does any name below the empty
path. -/
def join (dir name : Path) : Path :=
  if isAbsolute name || dir.isEmpty then name
  else if endsInSlash dir then dir ++ name
  else dir ++ "/" ++ name

def splitSlashes : List Char → List (List Char)
  | [] => [[]]
  | c :: cs =>
    if c = '/' then [] :: splitSlashes cs
    else match splitSlashes cs with
      | [] => [[c]]
      | p :: ps => (c :: p) :: ps

def steps (p : Path) : List String := (splitSlashes p.toList).map String.ofList

def isIdle (step : String) : Bool := step == "" || step == "."

def moves (p : Path) : List String := p.steps.filter (!isIdle ·)

def trimmedSteps (p : Path) : List String :=
  (p.steps.reverse.dropWhile (· == "")).reverse

def fileName? (p : Path) : Option String :=
  match p.moves.getLast? with
  | some name => if name = ".." then none else some name
  | none => none

/-- The part of a name after its last dot, if something stands before that dot. -/
def extension? (name : String) : Option String :=
  let rest := name.toList.reverse.dropWhile (· ≠ '.')
  match rest with
  | _ :: _ :: _ =>
    if name = ".." then none else some (String.ofList (name.toList.reverse.takeWhile (· ≠ '.')).reverse)
  | _ => none

end Path

end InterfaceTables
