/-!
Lines of a text. A line ends at a line feed, at a carriage return, or at both in this order, and
keeps its ending; only the last line may have none.
-/

namespace InterfaceTables.Diff

abbrev Line := String

/-- The lines of a text; `acc` holds the line begun before it, last character first. -/
def linesFrom (acc : List Char) : List Char → List Line
  | [] => if acc.isEmpty then [] else [String.ofList acc.reverse]
  | '\r' :: '\n' :: rest => String.ofList ('\n' :: '\r' :: acc).reverse :: linesFrom [] rest
  | c :: rest =>
    if c = '\n' ∨ c = '\r' then String.ofList (c :: acc).reverse :: linesFrom [] rest
    else linesFrom (c :: acc) rest

def splitLines (text : String) : List Line := linesFrom [] text.toList

def isTerminated (l : Line) : Bool :=
  l.toList.getLast? == some '\n' || l.toList.getLast? == some '\r'

def commonPrefix : List Line → List Line → Nat
  | a :: as, b :: bs => if a = b then commonPrefix as bs + 1 else 0
  | _, _ => 0

def commonSuffix (as bs : List Line) : Nat := commonPrefix as.reverse bs.reverse

end InterfaceTables.Diff
