import InterfaceTables.Diff.Line

/-!
The point at which a comparison of two lists is cut in two. Paths of least cost are grown from both
corners, a diagonal `k` being the points with `k` more old lines than new lines used up; the cut is
where the two families of paths first meet.
-/

namespace InterfaceTables.Diff

def agreeForward (old new : Array Line) : (fuel : Nat) → (i j : Nat) → Nat
  | 0, _, _ => 0
  | fuel + 1, i, j =>
    match old[i]?, new[j]? with
    | some a, some b => if a = b then agreeForward old new fuel (i + 1) (j + 1) + 1 else 0
    | _, _ => 0

def agreeBackward (old new : Array Line) : (fuel : Nat) → (i j : Nat) → Nat
  | fuel + 1, i + 1, j + 1 =>
    match old[i]?, new[j]? with
    | some a, some b => if a = b then agreeBackward old new fuel i j + 1 else 0
    | _, _ => 0
  | _, _, _ => 0

/-- How many old lines the paths of cost `d` have used on the diagonals `d`, `d - 2`, ..., `-d`. -/
abbrev Frontier := Array Nat

/-- Where the paths of the next cost start on their diagonals: one step down from the diagonal
above or one step right from the diagonal below, whichever is further. -/
def Frontier.starts (f : Frontier) : Frontier :=
  if f.isEmpty then #[0]
  else Array.ofFn fun (i : Fin (f.size + 1)) =>
    let right := f.getD i.val 0
    let down := f.getD (i.val - 1) 0
    if i.val = f.size then down
    else if i.val = 0 then right + 1
    else if right < down then down else right + 1

def newUsed (d i x : Nat) : Nat := x + 2 * i - d

def Frontier.onDiagonal? (f : Frontier) (d : Nat) (k : Int) : Option Nat :=
  if k.natAbs ≤ d then f[((d - k) / 2).toNat]? else none

/-- The first place, counting diagonals from above, where a path of frontier `f` of cost `d` meets
a path of the opposite frontier `g` of cost `e`. -/
def meeting? (n : Nat) (delta : Int) (f : Frontier) (d : Nat) (g : Frontier) (e : Nat) :
    Option Nat :=
  (List.range f.size).find? fun i =>
    let k : Int := d - 2 * i
    match g.onDiagonal? e (delta - k) with
    | some x => n ≤ f.getD i 0 + x
    | none => false

def searchCut (old new : Array Line) :
    (fuel : Nat) → (d : Nat) → (forward backward : Frontier) → Option (Nat × Nat)
  | 0, _, _, _ => none
  | fuel + 1, d, forward, backward =>
    let n := old.size
    let m := new.size
    let delta : Int := n - m
    let odd := delta % 2 = 1
    let starts := forward.starts
    let ends := starts.mapIdx fun i x =>
      let y := newUsed d i x
      if x < n ∧ y < m then x + agreeForward old new n x y else x
    match if odd ∧ 0 < d then meeting? n delta ends d backward (d - 1) else none with
    | some i => let x := starts.getD i 0; some (x, newUsed d i x)
    | none =>
      let back := backward.starts.mapIdx fun i x =>
        let y := newUsed d i x
        if x < n ∧ y < m then x + agreeBackward old new n (n - x) (m - y) else x
      match if odd then none else meeting? n delta back d ends d with
      | some i => let x := back.getD i 0; some (n - x, m - newUsed d i x)
      | none => searchCut old new fuel (d + 1) ends back

def cut? (old new : List Line) : Option (Nat × Nat) :=
  searchCut old.toArray new.toArray ((old.length + new.length + 1) / 2 + 1) 0 #[] #[]

end InterfaceTables.Diff
