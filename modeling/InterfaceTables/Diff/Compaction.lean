import InterfaceTables.Diff.Run

/-!
Runs are moved so that neighbouring changes meet. A run of inserted lines may slide over kept lines
that agree with it at its near end, inserted and deleted runs may change places, and runs of one
kind that meet are joined. None of this changes the old or the new text. A run keeps the place
where it was found when it changes places with a run of the other kind.
-/

namespace InterfaceTables.Diff

/-- A list of runs opened at one of them; what stands before it comes nearest first. -/
structure Focus where
  before : List Run
  run : Run
  after : List Run

def Focus.toList (f : Focus) : List Run := f.before.reverse ++ f.run :: f.after

def weight : List Run → Nat
  | [] => 0
  | r :: rest => r.lines.length + 1 + weight rest

def keepBefore (old new : Nat) (lines : List Line) : List Run → List Run
  | e :: rest =>
    if e.kind = .keep then
      { e with old := e.old - lines.length, new := e.new - lines.length, lines := lines ++ e.lines }
        :: rest
    else ⟨.keep, old, new, lines⟩ :: e :: rest
  | [] => [⟨.keep, old, new, lines⟩]

def keepAfter (old new : Nat) (lines : List Line) : List Run → List Run
  | e :: rest =>
    if e.kind = .keep then { e with lines := e.lines ++ lines } :: rest
    else ⟨.keep, old, new, lines⟩ :: e :: rest
  | [] => [⟨.keep, old, new, lines⟩]

def slideUp (q t : Run) : Nat := if t.kind = .insert then commonSuffix q.lines t.lines else 0

def slideDown (q t : Run) : Nat := if t.kind = .insert then commonPrefix q.lines t.lines else 0

theorem commonPrefix_le (as bs : List Line) :
    commonPrefix as bs ≤ as.length ∧ commonPrefix as bs ≤ bs.length := by
  fun_induction commonPrefix as bs with
  | case1 _ _ _ ih => simp; omega
  | case2 => simp
  | case3 => simp

theorem slideUp_le (q t : Run) : slideUp q t ≤ q.lines.length := by
  have h := (commonPrefix_le q.lines.reverse t.lines.reverse).1
  unfold slideUp commonSuffix
  split <;> simp_all

theorem slideDown_le (q t : Run) : slideDown q t ≤ q.lines.length := by
  have h := (commonPrefix_le q.lines t.lines).1
  unfold slideDown
  split <;> simp_all

def moveUp (before : List Run) (t : Run) (after : List Run) : Focus :=
  match before with
  | [] => ⟨[], t, after⟩
  | q :: rest =>
    if q.kind = .keep then
      let k := slideUp q t
      if 0 < k then
        let shared := t.lines.drop (t.lines.length - k)
        let kept := keepBefore (q.old + q.lines.length - k) (t.new + t.lines.length - k) shared after
        let moved := { t with
          old := t.old - k, new := t.new - k,
          lines := shared ++ t.lines.take (t.lines.length - k) }
        if k = q.lines.length then moveUp rest moved kept
        else moveUp ({ q with lines := q.lines.take (q.lines.length - k) } :: rest) moved kept
      else if q.lines.isEmpty then moveUp rest t after
      else ⟨q :: rest, t, after⟩
    else if q.kind ≠ t.kind then moveUp rest t (q :: after)
    else moveUp rest { q with lines := q.lines ++ t.lines } after
termination_by weight before
decreasing_by
  all_goals
    have hk := slideUp_le q t
    simp_all [weight]
    try omega

def moveDown (before : List Run) (t : Run) (after : List Run) : Focus :=
  match after with
  | [] => ⟨before, t, []⟩
  | q :: rest =>
    if q.kind = .keep then
      let k := slideDown q t
      if 0 < k then
        let shared := t.lines.take k
        let kept := keepAfter q.old t.new shared before
        let moved := { t with
          old := t.old + k, new := t.new + k,
          lines := t.lines.drop k ++ shared }
        if k = q.lines.length then moveDown kept moved rest
        else
          moveDown kept moved
            ({ q with old := q.old + k, new := q.new + k, lines := q.lines.drop k } :: rest)
      else if q.lines.isEmpty then moveDown before t rest
      else ⟨before, t, q :: rest⟩
    else if q.kind ≠ t.kind then moveDown (q :: before) t rest
    else moveDown before { t with lines := t.lines ++ q.lines } rest
termination_by weight after
decreasing_by
  all_goals
    have hk := slideDown_le q t
    simp_all [weight]
    try omega

/-- Moves every run of one kind up and down again, from the first to the last. A run that meets no
other comes back to where it was, and one that does makes the list shorter, so `fuel` is enough
when it counts the lines and runs once for every run. -/
def sweep (kind : RunKind) : (fuel : Nat) → (before after : List Run) → List Run
  | 0, before, after => before.reverse ++ after
  | _ + 1, before, [] => before.reverse
  | fuel + 1, before, t :: after =>
    if t.kind = kind then
      let f := moveUp before t after
      let f := moveDown f.before f.run f.after
      sweep kind fuel (f.run :: f.before) f.after
    else sweep kind fuel (t :: before) after

def compactKind (kind : RunKind) (runs : List Run) : List Run :=
  sweep kind ((runs.length + 1) * (weight runs + 1)) [] runs

def compact (runs : List Run) : List Run := compactKind .insert (compactKind .delete runs)

end InterfaceTables.Diff
