import InterfaceTables.Diff.Snake

/-!
An edit script as runs of lines that are kept, deleted or inserted. Reading the kept and the deleted
lines gives the old text, reading the kept and the inserted lines the new one.
-/

namespace InterfaceTables.Diff

inductive RunKind where
  | keep
  | delete
  | insert
deriving DecidableEq

/-- Lines of one kind, and the places in the old and in the new text where the run was found. -/
structure Run where
  kind : RunKind
  old : Nat
  new : Nat
  lines : List Line
deriving DecidableEq

def Run.oldSide (r : Run) : List Line := if r.kind = .insert then [] else r.lines

def Run.newSide (r : Run) : List Line := if r.kind = .delete then [] else r.lines

def Run.ofLines (kind : RunKind) (old new : Nat) (lines : List Line) : List Run :=
  if lines.isEmpty then [] else [⟨kind, old, new, lines⟩]

def properCut? (old new : List Line) : Option (Nat × Nat) :=
  match cut? old new with
  | some (x, y) =>
    if x ≤ old.length ∧ y ≤ new.length ∧ 0 < x + y ∧ x + y < old.length + new.length then some (x, y)
    else none
  | none => none

theorem properCut?_bounds {old new : List Line} {x y : Nat} (h : properCut? old new = some (x, y)) :
    x ≤ old.length ∧ y ≤ new.length ∧ 0 < x + y ∧ x + y < old.length + new.length := by
  unfold properCut? at h
  split at h
  · split at h
    · simp only [Option.some.injEq, Prod.mk.injEq] at h
      obtain ⟨rfl, rfl⟩ := h
      assumption
    · simp at h
  · simp at h

/-- The edit script from `old` to `new`, which begin at the given places. What they have in common
at both ends is kept; the rest is cut in two and each part compared by itself. -/
def compare (oldPos newPos : Nat) (old new : List Line) : List Run :=
  let p := commonPrefix old new
  let old₁ := old.drop p
  let new₁ := new.drop p
  let s := commonSuffix old₁ new₁
  let old₂ := old₁.take (old₁.length - s)
  let new₂ := new₁.take (new₁.length - s)
  let a := oldPos + p
  let b := newPos + p
  let middle :=
    if old₂.isEmpty ∨ new₂.isEmpty then Run.ofLines .delete a b old₂ ++ Run.ofLines .insert a b new₂
    else match _h : properCut? old₂ new₂ with
      | some (x, y) =>
        compare a b (old₂.take x) (new₂.take y) ++
          compare (a + x) (b + y) (old₂.drop x) (new₂.drop y)
      | none => Run.ofLines .delete a b old₂ ++ Run.ofLines .insert a b new₂
  Run.ofLines .keep oldPos newPos (old.take p) ++ middle ++
    Run.ofLines .keep (a + old₂.length) (b + new₂.length) (old₁.drop (old₁.length - s))
termination_by old.length + new.length
decreasing_by
  all_goals
    have hb := properCut?_bounds _h
    simp only [old₂, new₂, old₁, new₁, List.length_take, List.length_drop] at hb ⊢
    omega

end InterfaceTables.Diff
