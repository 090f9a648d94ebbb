import InterfaceTables.Diff.Compaction

/-!
Unified diffs. Runs between two kept runs become one block of changed lines; blocks that stand near
each other become one hunk, with a few kept lines around them.
-/

namespace InterfaceTables.Diff

/-- Old lines and the new lines in their place; a block that is not changed has the same on both
sides. -/
structure Block where
  changed : Bool
  oldPos : Nat
  old : List Line
  newPos : Nat
  new : List Line
deriving DecidableEq

def Block.same (r : Run) : Block := ⟨false, r.old, r.lines, r.new, r.lines⟩

def Block.change? : Option Run → Option Run → Option Block
  | some d, some i => some ⟨true, d.old, d.lines, i.new, i.lines⟩
  | some d, none => some ⟨true, d.old, d.lines, d.new, []⟩
  | none, some i => some ⟨true, i.old, [], i.new, i.lines⟩
  | none, none => none

def Run.extend (start : Option Run) (r : Run) : Run :=
  match start with
  | some s => { s with lines := s.lines ++ r.lines }
  | none => r

def blocksFrom (kept deleted inserted : Option Run) : List Run → List Block
  | [] => (kept.map Block.same).toList ++ (Block.change? deleted inserted).toList
  | r :: rest =>
    match r.kind with
    | .keep =>
      (Block.change? deleted inserted).toList ++ blocksFrom (some (r.extend kept)) none none rest
    | .delete =>
      (kept.map Block.same).toList ++ blocksFrom none (some (r.extend deleted)) inserted rest
    | .insert =>
      (kept.map Block.same).toList ++ blocksFrom none deleted (some (r.extend inserted)) rest

def blocks (runs : List Run) : List Block := blocksFrom none none none runs

def radius : Nat := 3

def Block.lastLines (b : Block) : Block :=
  if b.changed then b
  else
    let k := b.old.length - radius
    ⟨false, b.oldPos + k, b.old.drop k, b.newPos + k, b.new.drop k⟩

def Block.firstLines (b : Block) : Block :=
  if b.changed then b else ⟨false, b.oldPos, b.old.take radius, b.newPos, b.new.take radius⟩

def mapLast (f : Block → Block) : List Block → List Block
  | [] => []
  | [b] => [f b]
  | b :: rest => b :: mapLast f rest

def trim : List Block → List Block
  | [] => []
  | b :: rest => mapLast Block.firstLines (b.lastLines :: rest)

def showsChange : List Block → Bool
  | [] => false
  | [b] => b.changed
  | _ => true

/-- Splits the blocks where more lines are kept than two contexts need; `acc` is the open group, last
block first. -/
def groupFrom (acc : List Block) : List Block → List (List Block)
  | [] => if showsChange acc then [acc.reverse] else []
  | b :: rest =>
    if ¬ b.changed ∧ 2 * radius < b.old.length then
      (b.firstLines :: acc).reverse :: groupFrom [b.lastLines] rest
    else groupFrom (b :: acc) rest

def group (bs : List Block) : List (List Block) := groupFrom [] (trim bs)

inductive Row where
  | context (l : Line)
  | deleted (l : Line)
  | inserted (l : Line)
deriving DecidableEq

def Row.line : Row → Line
  | .context l => l
  | .deleted l => l
  | .inserted l => l

def Row.mark : Row → String
  | .context _ => " "
  | .deleted _ => "-"
  | .inserted _ => "+"

/-- A row as printed; a line without an ending is followed by a remark. -/
def Row.text (r : Row) : String :=
  r.mark ++ r.line ++ if isTerminated r.line then "" else "\n\\ No newline at end of file\n"

def Block.rows (b : Block) : List Row :=
  if b.changed then b.old.map .deleted ++ b.new.map .inserted else b.old.map .context

structure Span where
  start : Nat
  size : Nat
deriving DecidableEq

/-- Lines are numbered from one; an empty span is given by the line before it. -/
def Span.text (s : Span) : String :=
  if s.size = 1 then toString (s.start + 1)
  else toString (if s.size = 0 then s.start else s.start + 1) ++ "," ++ toString s.size

structure Hunk where
  old : Span
  new : Span
  rows : List Row
deriving DecidableEq

def Hunk.ofBlocks (bs : List Block) : Hunk :=
  let oldStart := (bs.head?.map (·.oldPos)).getD 0
  let newStart := (bs.head?.map (·.newPos)).getD 0
  let oldEnd := (bs.getLast?.map fun b => b.oldPos + b.old.length).getD 0
  let newEnd := (bs.getLast?.map fun b => b.newPos + b.new.length).getD 0
  ⟨⟨oldStart, oldEnd - oldStart⟩, ⟨newStart, newEnd - newStart⟩, bs.flatMap Block.rows⟩

def Hunk.text (h : Hunk) : String :=
  "@@ -" ++ h.old.text ++ " +" ++ h.new.text ++ " @@\n" ++ String.join (h.rows.map Row.text)

def hunks (old new : List Line) : List Hunk :=
  (group (blocks (compact (compare 0 0 old new)))).map Hunk.ofBlocks

def unifiedText (oldName newName : String) (hs : List Hunk) : String :=
  if hs.isEmpty then ""
  else "--- " ++ oldName ++ "\n+++ " ++ newName ++ "\n" ++ String.join (hs.map Hunk.text)

def unified (existing expected fileName : String) : String :=
  unifiedText (fileName ++ " (on disk)") (fileName ++ " (generated)")
    (hunks (splitLines existing) (splitLines expected))

end InterfaceTables.Diff
