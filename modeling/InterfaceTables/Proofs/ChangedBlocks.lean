import InterfaceTables.Proofs.LeadingRuns
import Mathlib.Data.List.Chain

/-!
The blocks of a script. Changed and unchanged blocks alternate, and a block is right about the places
of the lines it has.
-/

namespace InterfaceTables.Diff

/-- The old text of a list of blocks. -/
def oldLines (bs : List Block) : List Line := bs.flatMap Block.old

/-- The new text of a list of blocks. -/
def newLines (bs : List Block) : List Line := bs.flatMap Block.new

@[simp] theorem oldLines_nil : oldLines [] = [] := rfl

@[simp] theorem newLines_nil : newLines [] = [] := rfl

@[simp] theorem oldLines_cons (k : Block) (bs : List Block) :
    oldLines (k :: bs) = k.old ++ oldLines bs := rfl

@[simp] theorem newLines_cons (k : Block) (bs : List Block) :
    newLines (k :: bs) = k.new ++ newLines bs := rfl

@[simp] theorem oldLines_append (bs cs : List Block) :
    oldLines (bs ++ cs) = oldLines bs ++ oldLines cs := by
  simp [oldLines]

@[simp] theorem newLines_append (bs cs : List Block) :
    newLines (bs ++ cs) = newLines bs ++ newLines cs := by
  simp [newLines]

/-- A block stands at places of both texts: it knows the place of a side that has lines. -/
@[mk_iff]
structure Block.StandsAt (k : Block) (a b : Nat) : Prop where
  nonempty : k.old ≠ [] ∨ k.new ≠ []
  same : k.changed = false → k.new = k.old
  old : k.old ≠ [] → k.oldPos = a
  new : k.new ≠ [] → k.newPos = b

/-- The blocks stand one after the other, the first at the given places. -/
def Aligned : Nat → Nat → List Block → Prop
  | _, _, [] => True
  | a, b, k :: bs => k.StandsAt a b ∧ Aligned (a + k.old.length) (b + k.new.length) bs

theorem aligned_append {a b : Nat} {bs cs : List Block} :
    Aligned a b (bs ++ cs) ↔
      Aligned a b bs ∧ Aligned (a + (oldLines bs).length) (b + (newLines bs).length) cs := by
  induction bs generalizing a b with
  | nil => simp [Aligned]
  | cons k bs ih => simp [Aligned, ih, and_assoc, Nat.add_assoc]

/-- Changed blocks stand between unchanged ones. -/
def Alternate (bs : List Block) : Prop := bs.IsChain fun x y => x.changed ≠ y.changed

/-- The blocks lead from one text to another, which begin at the given places. -/
structure IsBlocks (a b : Nat) (old new : List Line) (bs : List Block) : Prop where
  old : oldLines bs = old
  new : newLines bs = new
  aligned : Aligned a b bs
  alternate : Alternate bs

theorem IsBlocks.nil (a b : Nat) : IsBlocks a b [] [] [] := ⟨rfl, rfl, trivial, .nil⟩

theorem IsBlocks.cons {a b : Nat} {k : Block} {old new : List Line} {bs : List Block}
    (hk : k.StandsAt a b) (h : IsBlocks (a + k.old.length) (b + k.new.length) old new bs)
    (hhead : ∀ x ∈ bs.head?, k.changed ≠ x.changed) :
    IsBlocks a b (k.old ++ old) (k.new ++ new) (k :: bs) where
  old := by simp [h.old]
  new := by simp [h.new]
  aligned := ⟨hk, h.aligned⟩
  alternate := List.isChain_cons.mpr ⟨hhead, h.alternate⟩

/-! ## Blocks of runs -/

/-- The lines of a run that may be open. -/
def openLines (r : Option Run) : List Line := (r.map Run.lines).getD []

/-- The open runs stand at the given places and have the given lines of both texts. -/
inductive Open (a b : Nat) : (kept deleted inserted : Option Run) → (old new : List Line) → Prop
  | kept {k : Run} (hne : k.lines ≠ []) (hold : k.old = a) (hnew : k.new = b) :
      Open a b (some k) none none k.lines k.lines
  | change {d i : Option Run} (hd : ∀ r ∈ d, r.lines ≠ [] ∧ r.old = a)
      (hi : ∀ r ∈ i, r.lines ≠ [] ∧ r.new = b) :
      Open a b none d i (openLines d) (openLines i)

theorem Open.nothing (a b : Nat) : Open a b none none none [] [] := .change (by simp) (by simp)

theorem standsAt_same {a b : Nat} {k : Run} (hne : k.lines ≠ []) (hold : k.old = a) (hnew : k.new = b) :
    (Block.same k).StandsAt a b :=
  ⟨.inl hne, fun _ => rfl, fun _ => hold, fun _ => hnew⟩

theorem standsAt_change {a b : Nat} {d i : Option Run} {k : Block}
    (hd : ∀ r ∈ d, r.lines ≠ [] ∧ r.old = a) (hi : ∀ r ∈ i, r.lines ≠ [] ∧ r.new = b)
    (hk : k ∈ Block.change? d i) : k.StandsAt a b := by
  cases d with
  | none =>
    cases i with
    | none => simp [Block.change?] at hk
    | some i =>
      obtain rfl : _ = k := by simpa [Block.change?] using hk
      obtain ⟨hne, hnew⟩ := hi i rfl
      exact ⟨.inr hne, by simp, by simp, fun _ => hnew⟩
  | some d =>
    obtain ⟨hne, hold⟩ := hd d rfl
    cases i with
    | none =>
      obtain rfl : _ = k := by simpa [Block.change?] using hk
      exact ⟨.inl hne, by simp, fun _ => hold, by simp⟩
    | some i =>
      obtain rfl : _ = k := by simpa [Block.change?] using hk
      exact ⟨.inl hne, by simp, fun _ => hold, fun _ => (hi i rfl).2⟩

theorem change?_lines {d i : Option Run} {k : Block} (hk : k ∈ Block.change? d i) :
    k.changed = true ∧ k.old = openLines d ∧ k.new = openLines i := by
  cases d <;> cases i <;> simp [Block.change?] at hk <;> subst hk <;> simp [openLines]

/-- The first block goes on with the open runs. -/
def GoesOn (kept d i : Option Run) (bs : List Block) : Prop :=
  ∀ x ∈ bs.head?, (kept ≠ none → x.changed = false) ∧ (d ≠ none ∨ i ≠ none → x.changed = true)

/-- The open runs are closed where lines of the other kind follow. -/
theorem isBlocks_close {a b : Nat} {kept d i : Option Run} {old new old' new' : List Line}
    (h : Open a b kept d i old new) {bs : List Block}
    (hbs : IsBlocks (a + old.length) (b + new.length) old' new' bs)
    (hhead : ∀ x ∈ bs.head?, (kept ≠ none → x.changed = true) ∧ (kept = none → x.changed = false)) :
    IsBlocks a b (old ++ old') (new ++ new')
        ((kept.map Block.same).toList ++ (Block.change? d i).toList ++ bs) ∧
      GoesOn kept d i ((kept.map Block.same).toList ++ (Block.change? d i).toList ++ bs) := by
  cases h with
  | @kept k hne hold hnew =>
    refine ⟨?_, by simp [Block.change?, Block.same, GoesOn]⟩
    refine IsBlocks.cons (standsAt_same hne hold hnew) hbs fun x hx => ?_
    simp [(hhead x hx).1, Block.same]
  | change hd hi =>
    cases hk : Block.change? d i with
    | none =>
      obtain ⟨rfl, rfl⟩ : d = none ∧ i = none := by cases d <;> cases i <;> simp_all [Block.change?]
      exact ⟨by simpa [openLines] using hbs, by simp [GoesOn]⟩
    | some k =>
      obtain ⟨hc, hold, hnew⟩ := change?_lines hk
      refine ⟨?_, by simp [GoesOn, hc]⟩
      rw [← hold, ← hnew] at hbs ⊢
      refine IsBlocks.cons (standsAt_change hd hi hk) hbs fun x hx => ?_
      simp [(hhead x hx).2, hc]

/-- The deleted lines that are open after a changed run. -/
def openDeleted (r : Run) (d : Option Run) : Option Run :=
  if r.kind = .delete then some (r.extend d) else d

/-- The inserted lines that are open after a changed run. -/
def openInserted (r : Run) (i : Option Run) : Option Run :=
  if r.kind = .insert then some (r.extend i) else i

theorem openLines_extend (r : Run) (start : Option Run) :
    openLines (some (r.extend start)) = openLines start ++ r.lines := by
  cases start <;> rfl

section Changed

variable {r : Run} (hr : r.kind ≠ .keep)
include hr

theorem blocksFrom_changed (kept d i : Option Run) (rs : List Run) :
    blocksFrom kept d i (r :: rs) =
      (kept.map Block.same).toList ++ blocksFrom none (openDeleted r d) (openInserted r i) rs := by
  cases hk : r.kind <;> simp_all [blocksFrom, openDeleted, openInserted]

theorem openLines_changed (d i : Option Run) :
    openLines (openDeleted r d) = openLines d ++ r.oldSide ∧
      openLines (openInserted r i) = openLines i ++ r.newSide := by
  cases hk : r.kind <;>
    simp_all [openDeleted, openInserted, openLines_extend, Run.oldSide, Run.newSide]

theorem open_ne_none (d i : Option Run) : openDeleted r d ≠ none ∨ openInserted r i ≠ none := by
  cases hk : r.kind <;> simp_all [openDeleted, openInserted]

theorem Open.changed {a b : Nat} {d i : Option Run} {old new : List Line}
    (h : Open a b none d i old new) (hstands : r.StandsAt (a + old.length) (b + new.length)) :
    Open a b none (openDeleted r d) (openInserted r i) (old ++ r.oldSide) (new ++ r.newSide) := by
  cases h with
  | change hd hi =>
    rw [← (openLines_changed hr d i).1, ← (openLines_changed hr d i).2]
    refine .change ?_ ?_
    · unfold openDeleted
      split
      · cases d <;> simp_all [Run.extend, openLines, Run.standsAt_iff]
      · exact hd
    · unfold openInserted
      split
      · cases i <;> simp_all [Run.extend, openLines, Run.standsAt_iff]
      · exact hi

end Changed

/-- The blocks of runs that follow open ones. -/
theorem isBlocks_blocksFrom {a b : Nat} {kept d i : Option Run} {old new : List Line}
    (h : Open a b kept d i old new) {rs : List Run}
    (hp : Placed (a + old.length) (b + new.length) rs) :
    IsBlocks a b (old ++ oldText rs) (new ++ newText rs) (blocksFrom kept d i rs) ∧
      GoesOn kept d i (blocksFrom kept d i rs) := by
  induction rs generalizing a b kept d i old new with
  | nil => simpa [blocksFrom] using isBlocks_close h (.nil _ _) (by simp)
  | cons r rs ih =>
    obtain ⟨hr, hrs⟩ := hp
    by_cases hk : r.kind = .keep
    · have hsides : r.oldSide = r.lines ∧ r.newSide = r.lines := by simp [Run.oldSide, Run.newSide, hk]
      rw [hsides.1, hsides.2] at hrs
      rw [oldText_cons, newText_cons, hsides.1, hsides.2]
      cases h with
      | @kept k hne hold hnew =>
        -- The kept run goes on.
        have hopen : Open a b (some (r.extend (some k))) none none (k.lines ++ r.lines)
            (k.lines ++ r.lines) := .kept (by simp [Run.extend, hne]) hold hnew
        have hrest := ih hopen (by simpa [Nat.add_assoc] using hrs)
        simpa [blocksFrom, hk, Block.change?, GoesOn] using hrest
      | change hd hi =>
        have hopen := Open.kept hr.nonempty (hr.old (by simp [hk])) (hr.new (by simp [hk]))
        obtain ⟨hbs, hgoes⟩ := ih hopen hrs
        have hclosed := isBlocks_close (.change hd hi) hbs fun x hx =>
          ⟨by simp, fun _ => (hgoes x hx).1 (by simp)⟩
        simpa [blocksFrom, hk, Run.extend] using hclosed
    · rw [blocksFrom_changed hk]
      cases h with
      | @kept k hne hold hnew =>
        obtain ⟨hbs, hgoes⟩ := ih (Open.changed hk (.nothing _ _) hr) (by simpa using hrs)
        have hclosed := isBlocks_close (.kept hne hold hnew) hbs fun x hx =>
          ⟨fun _ => (hgoes x hx).2 (open_ne_none hk _ _), by simp⟩
        simpa [Block.change?] using hclosed
      | change hd hi =>
        obtain ⟨hbs, hgoes⟩ := ih (Open.changed hk (.change hd hi) hr)
          (by simpa [Nat.add_assoc] using hrs)
        refine ⟨by simpa using hbs, fun x hx => ⟨by simp, fun _ => ?_⟩⟩
        exact (hgoes x hx).2 (open_ne_none hk _ _)

theorem changed_head_blocksFrom_kept {k : Run} {rs : List Run} {x : Block}
    (hx : x ∈ (blocksFrom (some k) none none rs).head?) : x.changed = false := by
  induction rs generalizing k with
  | nil =>
    obtain rfl : Block.same k = x := by simpa [blocksFrom, Block.change?] using hx
    rfl
  | cons r rs ih =>
    by_cases hr : r.kind = .keep
    · exact ih (by simpa [blocksFrom, hr, Block.change?] using hx)
    · obtain rfl : Block.same k = x := by simpa [blocksFrom_changed hr] using hx
      rfl

theorem oldPos_change?_le {d i : Option Run} (hd : ∀ r ∈ d, r.old = 0)
    (hi : ∀ r ∈ i, r.old ≤ (openLines d).length) {k : Block} (hk : k ∈ Block.change? d i) :
    k.oldPos ≤ k.old.length := by
  cases d <;> cases i <;> simp [Block.change?] at hk <;> subst hk <;> simp_all [openLines]

/-- The first change is not recorded below its own deleted lines, if the runs before all kept lines
are not. -/
theorem oldPos_head_blocksFrom_le {d i : Option Run} {rs : List Run} {b n : Nat}
    (hn : (openLines d).length + (oldText (lead rs)).length = n) (hd : ∀ r ∈ d, r.old = 0)
    (hi : ∀ r ∈ i, r.old ≤ n) (hp : Placed (openLines d).length b rs)
    (hlead : ∀ r ∈ lead rs, r.kind = .insert → r.old ≤ n) {k : Block}
    (hk : k ∈ (blocksFrom none d i rs).head?) (hc : k.changed = true) : k.oldPos ≤ k.old.length := by
  induction rs generalizing d i b with
  | nil =>
    obtain rfl : (openLines d).length = n := by simpa [lead] using hn
    exact oldPos_change?_le hd hi (by simpa [blocksFrom] using hk)
  | cons r rs ih =>
    obtain ⟨hr, hrs⟩ := hp
    by_cases hkind : r.kind = .keep
    · obtain rfl : (openLines d).length = n := by simpa [lead, hkind] using hn
      cases hchange : Block.change? d i with
      | none =>
        have hhead : k ∈ (blocksFrom (some r) none none rs).head? := by
          simpa [blocksFrom, hkind, hchange, Run.extend] using hk
        simp [changed_head_blocksFrom_kept hhead] at hc
      | some c =>
        obtain rfl : c = k := by simpa [blocksFrom, hkind, hchange] using hk
        exact oldPos_change?_le hd hi hchange
    · have hleads : lead (r :: rs) = r :: lead rs := by simp [lead, hkind]
      have hlines := (openLines_changed hkind d i).1
      have hd' : ∀ s ∈ openDeleted r d, s.old = 0 := by
        unfold openDeleted
        split
        · cases d <;> simp_all [Run.extend, openLines, Run.standsAt_iff]
        · exact hd
      have hi' : ∀ s ∈ openInserted r i, s.old ≤ n := by
        unfold openInserted
        split
        · have hrun := hlead r (by simp [hleads]) ‹_›
          cases i <;> simp_all [Run.extend]
        · exact hi
      rw [← List.length_append, ← hlines] at hrs
      refine ih ?_ hd' hi' hrs (fun s hs => hlead s (by simp [hleads, hs]))
        (by simpa [blocksFrom_changed hkind] using hk)
      simpa [hleads, hlines, Nat.add_assoc] using hn

/-- The blocks of two texts, where also the first is right about its place in the old one. -/
theorem isBlocks_blocks {old new : List Line} {rs : List Run} (h : IsCompacted old new rs) :
    IsBlocks 0 0 old new (blocks rs) ∧ ∀ k ∈ (blocks rs).head?, k.oldPos = 0 := by
  have hbs : IsBlocks 0 0 old new (blocks rs) := by
    have := (isBlocks_blocksFrom (Open.nothing 0 0) h.placed).1
    rwa [h.old, h.new] at this
  refine ⟨hbs, fun k hk => ?_⟩
  obtain ⟨ks, hks⟩ := List.head?_eq_some_iff.mp hk
  have hstands : k.StandsAt 0 0 := (hks ▸ hbs.aligned).1
  by_cases hold : k.old = []
  · have hc : k.changed = true := by
      by_contra hc
      have := hstands.same (by simpa using hc)
      simp_all [Block.standsAt_iff]
    have hle : k.oldPos ≤ k.old.length :=
      oldPos_head_blocksFrom_le (d := none) (i := none) (Nat.zero_add _) (by simp) (by simp) h.placed
        h.leadFound hk hc
    simpa [hold] using hle
  · exact hstands.old hold

end InterfaceTables.Diff
