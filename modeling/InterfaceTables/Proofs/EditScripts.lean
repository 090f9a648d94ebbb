import InterfaceTables.Diff.Hunk
import Mathlib.Data.List.Basic
import Mathlib.Logic.Relation

/-!
Edit scripts from one text to another. Comparing and compacting never lose sight of the two texts: the
kept and deleted lines make up the old one, the kept and inserted lines the new one, and a run
records the places of its own lines.
-/

namespace InterfaceTables.Diff

/-! ## Both texts of a script -/

def oldText (rs : List Run) : List Line := rs.flatMap Run.oldSide

def newText (rs : List Run) : List Line := rs.flatMap Run.newSide

@[simp] theorem oldText_nil : oldText [] = [] := rfl

@[simp] theorem newText_nil : newText [] = [] := rfl

@[simp] theorem oldText_cons (r : Run) (rs : List Run) :
    oldText (r :: rs) = r.oldSide ++ oldText rs := rfl

@[simp] theorem newText_cons (r : Run) (rs : List Run) :
    newText (r :: rs) = r.newSide ++ newText rs := rfl

@[simp] theorem oldText_append (rs ss : List Run) : oldText (rs ++ ss) = oldText rs ++ oldText ss := by
  simp [oldText]

@[simp] theorem newText_append (rs ss : List Run) : newText (rs ++ ss) = newText rs ++ newText ss := by
  simp [newText]

/-- A run has lines and stands at a place of both texts: that of the text its lines are from is
recorded. -/
@[mk_iff]
structure Run.StandsAt (r : Run) (a b : Nat) : Prop where
  nonempty : r.lines ≠ []
  old : r.kind ≠ .insert → r.old = a
  new : r.kind ≠ .delete → r.new = b

/-- The runs stand one after the other, the first at the given places. -/
def Placed : Nat → Nat → List Run → Prop
  | _, _, [] => True
  | a, b, r :: rs => r.StandsAt a b ∧ Placed (a + r.oldSide.length) (b + r.newSide.length) rs

theorem placed_append {a b : Nat} {rs ss : List Run} :
    Placed a b (rs ++ ss) ↔
      Placed a b rs ∧ Placed (a + (oldText rs).length) (b + (newText rs).length) ss := by
  induction rs generalizing a b with
  | nil => simp [Placed]
  | cons r rs ih => simp [Placed, ih, and_assoc, Nat.add_assoc]

theorem Placed.nonempty {a b : Nat} {rs : List Run} (h : Placed a b rs) : ∀ r ∈ rs, r.lines ≠ [] := by
  induction rs generalizing a b with
  | nil => simp
  | cons r rs ih => exact List.forall_mem_cons.mpr ⟨h.1.nonempty, ih h.2⟩

theorem oldText_ofLines (kind : RunKind) (a b : Nat) (lines : List Line) :
    oldText (Run.ofLines kind a b lines) = if kind = .insert then [] else lines := by
  unfold Run.ofLines
  split <;> simp_all [Run.oldSide]

theorem newText_ofLines (kind : RunKind) (a b : Nat) (lines : List Line) :
    newText (Run.ofLines kind a b lines) = if kind = .delete then [] else lines := by
  unfold Run.ofLines
  split <;> simp_all [Run.newSide]

/-- An inserted run was not found after the place where it stands in the old text. -/
def Found : Nat → List Run → Prop
  | _, [] => True
  | a, r :: rs => (r.kind = .insert → r.old ≤ a) ∧ Found (a + r.oldSide.length) rs

theorem found_append {a : Nat} {rs ss : List Run} :
    Found a (rs ++ ss) ↔ Found a rs ∧ Found (a + (oldText rs).length) ss := by
  induction rs generalizing a with
  | nil => simp [Found]
  | cons r rs ih => simp [Found, ih, and_assoc, Nat.add_assoc]

/-! ## Comparing -/

/-- The runs lead from one text to another, which begin at the given places. -/
structure IsScript (a b : Nat) (old new : List Line) (rs : List Run) : Prop where
  old : oldText rs = old
  new : newText rs = new
  placed : Placed a b rs
  found : Found a rs

namespace IsScript

variable {a b : Nat} {old old' new new' : List Line} {rs ss : List Run}

theorem append (h : IsScript a b old new rs)
    (h' : IsScript (a + old.length) (b + new.length) old' new' ss) :
    IsScript a b (old ++ old') (new ++ new') (rs ++ ss) where
  old := by rw [oldText_append, h.old, h'.old]
  new := by rw [newText_append, h.new, h'.new]
  placed := placed_append.mpr ⟨h.placed, by rw [h.old, h.new]; exact h'.placed⟩
  found := found_append.mpr ⟨h.found, by rw [h.old]; exact h'.found⟩

theorem keep (a b : Nat) (lines : List Line) :
    IsScript a b lines lines (Run.ofLines .keep a b lines) where
  old := by simp [oldText_ofLines]
  new := by simp [newText_ofLines]
  placed := by
    unfold Run.ofLines
    split <;> simp_all [Placed, Run.standsAt_iff]
  found := by
    unfold Run.ofLines
    split <;> simp [Found]

theorem delete (a b : Nat) (lines : List Line) :
    IsScript a b lines [] (Run.ofLines .delete a b lines) where
  old := by simp [oldText_ofLines]
  new := by simp [newText_ofLines]
  placed := by
    unfold Run.ofLines
    split <;> simp_all [Placed, Run.standsAt_iff]
  found := by
    unfold Run.ofLines
    split <;> simp [Found]

theorem insert {found a : Nat} (h : found ≤ a) (b : Nat) (lines : List Line) :
    IsScript a b [] lines (Run.ofLines .insert found b lines) where
  old := by simp [oldText_ofLines]
  new := by simp [newText_ofLines]
  placed := by
    unfold Run.ofLines
    split <;> simp_all [Placed, Run.standsAt_iff]
  found := by
    unfold Run.ofLines
    split <;> simp [Found, h]

/-- Scripts of the two parts of a cut make one of the whole. -/
theorem cut {x y : Nat} (hx : x ≤ old.length) (hy : y ≤ new.length)
    (h : IsScript a b (old.take x) (new.take y) rs)
    (h' : IsScript (a + x) (b + y) (old.drop x) (new.drop y) ss) : IsScript a b old new (rs ++ ss) := by
  rw [← List.take_append_drop x old, ← List.take_append_drop y new]
  refine h.append ?_
  rwa [List.length_take_of_le hx, List.length_take_of_le hy]

/-- Lines that both texts have at their ends are kept. -/
theorem between {front : List Line} (back : List Line)
    (h : IsScript (a + front.length) (b + front.length) old new rs) :
    IsScript a b (front ++ old ++ back) (front ++ new ++ back)
      (Run.ofLines .keep a b front ++ rs ++
        Run.ofLines .keep (a + front.length + old.length) (b + front.length + new.length) back) := by
  refine ((keep a b front).append h).append ?_
  simpa [Nat.add_assoc] using keep (a + front.length + old.length) (b + front.length + new.length) back

end IsScript

theorem take_commonPrefix (as bs : List Line) :
    as.take (commonPrefix as bs) = bs.take (commonPrefix as bs) := by
  fun_induction commonPrefix as bs with
  | case1 a as bs ih => simp [ih]
  | case2 => simp
  | case3 => simp

/-- What two lists have in common at their end. -/
theorem drop_commonSuffix (as bs : List Line) :
    as.drop (as.length - commonSuffix as bs) = bs.drop (bs.length - commonSuffix as bs) := by
  have h := take_commonPrefix as.reverse bs.reverse
  rw [List.take_reverse, List.take_reverse, List.reverse_inj] at h
  exact h

/-- The script of a comparison that has nothing in common left at its ends. -/
theorem isScript_replace (a b : Nat) (old new : List Line) :
    IsScript a b old new (Run.ofLines .delete a b old ++ Run.ofLines .insert a b new) := by
  simpa using (IsScript.delete a b old).append (IsScript.insert (Nat.le_add_right a old.length) b new)

theorem isScript_compare (a b : Nat) (old new : List Line) :
    IsScript a b old new (compare a b old new) := by
  induction a, b, old, new using compare.induct with
  | case1 a b old new p old₁ new₁ s old₂ new₂ a' b' ihleft ihright =>
    have hfront : new.take p = old.take p := (take_commonPrefix old new).symm
    have hback : new₁.drop (new₁.length - s) = old₁.drop (old₁.length - s) :=
      (drop_commonSuffix old₁ new₁).symm
    have hold : old.take p ++ old₂ ++ old₁.drop (old₁.length - s) = old := by
      rw [List.append_assoc, List.take_append_drop, List.take_append_drop]
    have hnew : old.take p ++ new₂ ++ old₁.drop (old₁.length - s) = new := by
      rw [← hfront, ← hback, List.append_assoc, List.take_append_drop, List.take_append_drop]
    have hp : (old.take p).length = p := by
      rw [List.length_take, Nat.min_eq_left (commonPrefix_le old new).1]
    have haround : ∀ rs, IsScript a' b' old₂ new₂ rs → IsScript a b old new
        (Run.ofLines .keep a b (old.take p) ++ rs ++
          Run.ofLines .keep (a' + old₂.length) (b' + new₂.length) (old₁.drop (old₁.length - s))) := by
      intro rs hrs
      have hrs' : IsScript (a + (old.take p).length) (b + (old.take p).length) old₂ new₂ rs := by
        rwa [hp]
      have h := hrs'.between (old₁.drop (old₁.length - s))
      rwa [hold, hnew, hp] at h
    rw [compare]
    refine haround _ ?_
    split
    · exact isScript_replace a' b' old₂ new₂
    · split
      · rename_i x y hxy
        obtain ⟨hx, hy, -, -⟩ := properCut?_bounds hxy
        exact IsScript.cut hx hy (ihleft x y hxy) (ihright x y hxy)
      · exact isScript_replace a' b' old₂ new₂

end InterfaceTables.Diff
