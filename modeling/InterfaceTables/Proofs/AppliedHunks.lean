import InterfaceTables.Proofs.ChangedBlocks
import Mathlib.Data.List.DropRight

/-!
Hunks as a patch. Applying the hunks of two texts to the old one gives the new one, with at most three
lines of context around the changes of a hunk. A header is right about the side of the lines at the
ends of its hunk.
-/

namespace InterfaceTables.Diff

/-! ## What hunks say -/

/-- The line of the old text in a row. -/
def Row.old? : Row → Option Line
  | .context l => some l
  | .deleted l => some l
  | .inserted _ => none

/-- The line of the new text in a row. -/
def Row.new? : Row → Option Line
  | .context l => some l
  | .deleted _ => none
  | .inserted l => some l

def Row.isContext : Row → Bool
  | .context _ => true
  | _ => false

def Hunk.oldLines (h : Hunk) : List Line := h.rows.filterMap Row.old?

def Hunk.newLines (h : Hunk) : List Line := h.rows.filterMap Row.new?

/-- Applies hunks to the lines of a text from place `a` on. A hunk begins where its header says, not
before the end of the one above it, and finds its context and deleted lines there. -/
def applyHunks (a : Nat) : List Hunk → List Line → Option (List Line)
  | [], lines => some lines
  | h :: hs, lines =>
    let gap := h.old.start - a
    let here := lines.drop gap
    let n := h.oldLines.length
    if a ≤ h.old.start ∧ gap ≤ lines.length ∧ here.take n = h.oldLines then
      (applyHunks (h.old.start + n) hs (here.drop n)).map (lines.take gap ++ h.newLines ++ ·)
    else none

/-- A hunk has a change, and at most three lines of context before its first and after its last. -/
structure Hunk.Focused (h : Hunk) : Prop where
  change : ∃ r ∈ h.rows, r.isContext = false
  before : (h.rows.takeWhile Row.isContext).length ≤ 3
  after : (h.rows.rtakeWhile Row.isContext).length ≤ 3

/-- The changes above all context. -/
def Hunk.opening (h : Hunk) : List Row := h.rows.takeWhile fun r => !r.isContext

/-- The changes below all context. -/
def Hunk.closing (h : Hunk) : List Row := h.rows.rtakeWhile fun r => !r.isContext

/-- The rows are no changes at all or have a change of the given sort. -/
def Shows (sort : Line → Row) (rows : List Row) : Prop := rows = [] ∨ ∃ l, sort l ∈ rows

/-- The header of a hunk whose lines stand at place `b` of the new text. -/
structure Hunk.HeaderAt (h : Hunk) (b : Nat) : Prop where
  newStart : Shows .inserted h.opening → h.new.start = b
  oldSize : Shows .deleted h.closing → h.old.size = h.oldLines.length
  newSize : Shows .inserted h.opening → Shows .inserted h.closing → h.new.size = h.newLines.length

/-- The headers of hunks below places `a` and `b` of the two texts. -/
def HeadersFrom : Nat → Nat → List Hunk → Prop
  | _, _, [] => True
  | a, b, h :: hs =>
    h.HeaderAt (b + (h.old.start - a)) ∧
      HeadersFrom (h.old.start + h.oldLines.length) (b + (h.old.start - a) + h.newLines.length) hs

/-- The hunks lead from one text to another, which begin at the given places. -/
inductive Patch : Nat → Nat → List Hunk → List Line → List Line → Prop
  | done (a b : Nat) (lines : List Line) : Patch a b [] lines lines
  | hunk {a b : Nat} {h : Hunk} {hs : List Hunk} {old new : List Line} (gap : List Line)
      (hstart : h.old.start = a + gap.length) (hheader : h.HeaderAt (b + gap.length))
      (hfocused : h.Focused)
      (hrest : Patch (a + gap.length + h.oldLines.length) (b + gap.length + h.newLines.length)
        hs old new) :
      Patch a b (h :: hs) (gap ++ (h.oldLines ++ old)) (gap ++ (h.newLines ++ new))

namespace Patch

variable {a b : Nat} {hs : List Hunk} {old new : List Line}

theorem apply (h : Patch a b hs old new) : applyHunks a hs old = some new := by
  induction h with
  | done => rfl
  | @hunk a b h hs old new gap hstart hheader hfocused hrest ih =>
    rw [← hstart] at ih
    have hgap : h.old.start - a = gap.length := by omega
    simp [applyHunks, hgap, hstart ▸ Nat.le_add_right a gap.length, ih]

theorem headers (h : Patch a b hs old new) : HeadersFrom a b hs := by
  induction h with
  | done => trivial
  | @hunk a b h hs old new gap hstart hheader hfocused hrest ih =>
    have hgap : h.old.start - a = gap.length := by omega
    rw [← hstart] at ih
    exact ⟨hgap ▸ hheader, hgap ▸ ih⟩

theorem focused (h : Patch a b hs old new) : ∀ k ∈ hs, k.Focused := by
  induction h with
  | done => simp
  | hunk gap hstart hheader hfocused hrest ih => exact List.forall_mem_cons.mpr ⟨hfocused, ih⟩

theorem lines (h : Patch a b hs old new) : ∀ k ∈ hs, ∀ r ∈ k.rows, r.line ∈ old ∨ r.line ∈ new := by
  induction h with
  | done => simp
  | @hunk a b h hs old new gap hstart hheader hfocused hrest ih =>
    refine List.forall_mem_cons.mpr ⟨fun r hr => ?_, fun k hk r hr => ?_⟩
    · have hside : r.line ∈ h.oldLines ∨ r.line ∈ h.newLines := by
        cases r with
        | context l => exact .inl (List.mem_filterMap.mpr ⟨_, hr, rfl⟩)
        | deleted l => exact .inl (List.mem_filterMap.mpr ⟨_, hr, rfl⟩)
        | inserted l => exact .inr (List.mem_filterMap.mpr ⟨_, hr, rfl⟩)
      exact hside.imp (by simp +contextual) (by simp +contextual)
    · exact (ih k hk r hr).imp (by simp +contextual) (by simp +contextual)

/-- Lines that stand unchanged in front. -/
theorem skip (lines : List Line) (h : Patch (a + lines.length) (b + lines.length) hs old new) :
    Patch a b hs (lines ++ old) (lines ++ new) := by
  cases h with
  | done => exact .done a b _
  | hunk gap hstart hheader hfocused hrest =>
    have := Patch.hunk (lines ++ gap) (by simpa [Nat.add_assoc] using hstart)
      (by simpa [Nat.add_assoc] using hheader) hfocused (by simpa [Nat.add_assoc] using hrest)
    simpa using this

/-- Lines that stand unchanged at the end. -/
theorem append (lines : List Line) (h : Patch a b hs old new) :
    Patch a b hs (old ++ lines) (new ++ lines) := by
  induction h with
  | done => exact .done _ _ _
  | hunk gap hstart hheader hfocused hrest ih =>
    simpa using Patch.hunk gap hstart hheader hfocused ih

end Patch

/-! ## Rows of blocks -/

/-- A block has rows, and all of them are context or none is. -/
theorem rows_spec {k : Block} {a b : Nat} (h : k.StandsAt a b) :
    k.rows ≠ [] ∧ ∀ r ∈ k.rows, r.isContext = !k.changed := by
  cases hc : k.changed with
  | false =>
    have hne : k.old ≠ [] := by
      have := h.nonempty
      simpa [h.same hc] using this
    simp [Block.rows, hc, hne, Row.isContext]
  | true =>
    refine ⟨by simpa [Block.rows, hc, or_iff_not_imp_left] using h.nonempty, ?_⟩
    simp only [Block.rows, hc, if_true, List.mem_append, List.mem_map]
    rintro r (⟨l, -, rfl⟩ | ⟨l, -, rfl⟩) <;> rfl

theorem filterMap_rows {k : Block} {a b : Nat} (h : k.StandsAt a b) :
    k.rows.filterMap Row.old? = k.old ∧ k.rows.filterMap Row.new? = k.new := by
  have hsame := h.same
  cases hc : k.changed <;>
    simp_all [Block.rows, List.filterMap_map, Function.comp_def, Row.old?, Row.new?]

/-- Every block stands somewhere. -/
theorem Aligned.stands {a b : Nat} {bs : List Block} (h : Aligned a b bs) :
    ∀ k ∈ bs, ∃ a b, k.StandsAt a b := by
  induction bs generalizing a b with
  | nil => simp
  | cons k bs ih => exact List.forall_mem_cons.mpr ⟨⟨a, b, h.1⟩, ih h.2⟩

theorem oldLines_ofBlocks {a b : Nat} {bs : List Block} (h : Aligned a b bs) :
    (Hunk.ofBlocks bs).oldLines = oldLines bs ∧ (Hunk.ofBlocks bs).newLines = newLines bs := by
  simp only [Hunk.oldLines, Hunk.newLines, Hunk.ofBlocks]
  induction bs generalizing a b with
  | nil => simp
  | cons k bs ih => simp [filterMap_rows h.1, ih h.2]

theorem takeWhile_flatMap_of_not {p : Row → Bool} {f : Block → List Row} {bs : List Block}
    (hf : ∀ k ∈ bs.head?, f k ≠ [] ∧ ∀ r ∈ f k, p r = false) : (bs.flatMap f).takeWhile p = [] := by
  cases bs with
  | nil => rfl
  | cons k bs =>
    obtain ⟨hne, hp⟩ := hf k rfl
    obtain ⟨r, rows, hrows⟩ := List.exists_cons_of_ne_nil hne
    simp [hrows, hp r (by simp [hrows])]

/-- Rows of one sort in front are those of the first block, if blocks of two sorts alternate. -/
theorem takeWhile_flatMap_cons {p : Row → Bool} {q : Block → Bool} {f : Block → List Row} {k : Block}
    {bs : List Block} (halt : (k :: bs).IsChain fun x y => q x ≠ q y)
    (hf : ∀ x ∈ k :: bs, f x ≠ [] ∧ ∀ r ∈ f x, p r = q x) :
    ((k :: bs).flatMap f).takeWhile p = if q k then f k else [] := by
  by_cases hq : q k
  · have hrest : (bs.flatMap f).takeWhile p = [] := by
      refine takeWhile_flatMap_of_not fun x hx => ?_
      have hx' : q x = false := by simpa [hq] using (List.isChain_cons.mp halt).1 x hx
      obtain ⟨hne, hp⟩ := hf x (List.mem_cons_of_mem k (List.mem_of_mem_head? hx))
      exact ⟨hne, fun r hr => (hp r hr).trans hx'⟩
    have hk : ∀ r ∈ f k, p r = true := fun r hr => ((hf k (by simp)).2 r hr).trans hq
    rw [List.flatMap_cons, List.takeWhile_append_of_pos hk, hrest, if_pos hq, List.append_nil]
  · rw [if_neg hq]
    refine takeWhile_flatMap_of_not fun x hx => ?_
    obtain rfl : k = x := by simpa using hx
    simpa [hq] using hf k (by simp)

/-- Rows of one sort at the end are those of the last block. -/
theorem rtakeWhile_flatMap_append {p : Row → Bool} {q : Block → Bool} {f : Block → List Row} {k : Block}
    {bs : List Block} (halt : (bs ++ [k]).IsChain fun x y => q x ≠ q y)
    (hf : ∀ x ∈ bs ++ [k], f x ≠ [] ∧ ∀ r ∈ f x, p r = q x) :
    ((bs ++ [k]).flatMap f).rtakeWhile p = if q k then f k else [] := by
  have hrev : ((bs ++ [k]).flatMap f).reverse = (k :: bs.reverse).flatMap fun x => (f x).reverse := by
    simp [List.reverse_flatMap, Function.comp_def]
  have halt' : (k :: bs.reverse).IsChain fun x y => q x ≠ q y := by
    have := List.isChain_reverse.mpr (halt.imp fun x y h => Ne.symm h)
    simpa using this
  have hf' : ∀ x ∈ k :: bs.reverse, (f x).reverse ≠ [] ∧ ∀ r ∈ (f x).reverse, p r = q x := by
    intro x hx
    simpa using hf x (by simpa [or_comm] using hx)
  rw [List.rtakeWhile, hrev, takeWhile_flatMap_cons halt' hf']
  split <;> simp

/-- A group of blocks that becomes a hunk: its first block is right about its place in the old text,
and there is little context at its ends. -/
structure IsGroup (a b : Nat) (old new : List Line) (bs : List Block) : Prop
    extends IsBlocks a b old new bs where
  start : ∀ k ∈ bs.head?, k.oldPos = a
  headShort : ∀ k ∈ bs.head?, k.changed = false → k.old.length ≤ 3
  lastShort : ∀ k ∈ bs.getLast?, k.changed = false → k.old.length ≤ 3

namespace IsGroup

variable {a b : Nat} {old new : List Line} {k : Block} {bs : List Block}

theorem rows_spec (h : IsGroup a b old new bs) :
    ∀ k ∈ bs, k.rows ≠ [] ∧ ∀ r ∈ k.rows, r.isContext = !k.changed := fun k hk => by
  obtain ⟨a', b', hk'⟩ := h.aligned.stands k hk
  exact Diff.rows_spec hk'

theorem unchanged_alternate (h : Alternate bs) : bs.IsChain fun x y => (!x.changed) ≠ (!y.changed) :=
  List.IsChain.imp (fun x y hxy => by simpa using hxy) h

theorem changed_rows (h : IsGroup a b old new bs) :
    ∀ k ∈ bs, k.rows ≠ [] ∧ ∀ r ∈ k.rows, (!r.isContext) = k.changed := fun k hk => by
  obtain ⟨hne, hrows⟩ := h.rows_spec k hk
  exact ⟨hne, fun r hr => by simp [hrows r hr]⟩

/-- The changes of a hunk, its ends and its header. -/
theorem focused (h : IsGroup a b old new bs) (hchange : ∃ k ∈ bs, k.changed = true) :
    (Hunk.ofBlocks bs).Focused where
  change := by
    obtain ⟨k, hk, hc⟩ := hchange
    obtain ⟨hne, hrows⟩ := h.rows_spec k hk
    obtain ⟨r, hr⟩ := List.exists_mem_of_ne_nil _ hne
    exact ⟨r, List.mem_flatMap.mpr ⟨k, hk, hr⟩, by simp [hrows r hr, hc]⟩
  before := by
    cases bs with
    | nil => simp [Hunk.ofBlocks]
    | cons k bs =>
      have hrows := takeWhile_flatMap_cons (unchanged_alternate h.alternate) h.rows_spec
      have hshort := h.headShort k rfl
      simp only [Hunk.ofBlocks, hrows]
      cases hc : k.changed <;> simp_all [Block.rows]
  after := by
    cases bs using List.reverseRecOn with
    | nil => simp [Hunk.ofBlocks]
    | append_singleton bs k =>
      have hrows := rtakeWhile_flatMap_append (unchanged_alternate h.alternate) h.rows_spec
      have hshort := h.lastShort k (by simp)
      simp only [Hunk.ofBlocks, hrows]
      cases hc : k.changed <;> simp_all [Block.rows]

theorem opening (h : IsGroup a b old new (k :: bs)) :
    (Hunk.ofBlocks (k :: bs)).opening = if k.changed then k.rows else [] :=
  takeWhile_flatMap_cons h.alternate h.changed_rows

theorem closing (h : IsGroup a b old new (bs ++ [k])) :
    (Hunk.ofBlocks (bs ++ [k])).closing = if k.changed then k.rows else [] :=
  rtakeWhile_flatMap_append h.alternate h.changed_rows

end IsGroup

/-- A block at an end of a hunk is not changed, or it has a line of the sort that is shown. -/
theorem Shows.unchanged_or {sort : Line → Row} {a b : Nat} {k : Block} (h : k.StandsAt a b)
    (hrows : Shows sort (if k.changed then k.rows else [])) :
    (k.old ≠ [] ∧ k.new ≠ []) ∨ ∃ l, sort l ∈ k.old.map .deleted ++ k.new.map .inserted := by
  cases hc : k.changed with
  | false =>
    have hne := h.nonempty
    simp only [h.same hc, or_self] at hne
    exact .inl ⟨hne, (h.same hc).symm ▸ hne⟩
  | true =>
    rw [if_pos hc] at hrows
    have hshown := hrows.resolve_left (rows_spec h).1
    rw [Block.rows, if_pos hc] at hshown
    exact .inr hshown

theorem newPos_of_shows {a b : Nat} {k : Block} (h : k.StandsAt a b)
    (hrows : Shows .inserted (if k.changed then k.rows else [])) : k.newPos = b := by
  obtain hne | ⟨l, hl⟩ := hrows.unchanged_or h
  · exact h.new hne.2
  · exact h.new (List.ne_nil_of_mem (by simpa using hl : l ∈ k.new))

theorem oldPos_of_shows {a b : Nat} {k : Block} (h : k.StandsAt a b)
    (hrows : Shows .deleted (if k.changed then k.rows else [])) : k.oldPos = a := by
  obtain hne | ⟨l, hl⟩ := hrows.unchanged_or h
  · exact h.old hne.1
  · exact h.old (List.ne_nil_of_mem (by simpa using hl : l ∈ k.old))

theorem IsGroup.headerAt {a b : Nat} {old new : List Line} {bs : List Block}
    (h : IsGroup a b old new bs) (hne : bs ≠ []) : (Hunk.ofBlocks bs).HeaderAt b := by
  obtain ⟨k, ks, hk⟩ := List.exists_cons_of_ne_nil hne
  obtain ⟨init, l, hl⟩ := (List.eq_nil_or_concat' bs).resolve_left hne
  have hfirst : k.StandsAt a b := (hk ▸ h.aligned).1
  have hlast : l.StandsAt (a + (oldLines init).length) (b + (newLines init).length) := by
    have haligned := h.aligned
    rw [hl, aligned_append] at haligned
    exact haligned.2.1
  have hstart : k.oldPos = a := h.start k (by simp [hk])
  have hopening : (Hunk.ofBlocks bs).opening = if k.changed then k.rows else [] := by
    subst hk
    exact h.opening
  have hclosing : (Hunk.ofBlocks bs).closing = if l.changed then l.rows else [] := by
    subst hl
    exact h.closing
  have hlines := oldLines_ofBlocks h.aligned
  have hhead : bs.head? = some k := by simp [hk]
  have hend : bs.getLast? = some l := by simp [hl]
  have hnewStart : Shows .inserted (Hunk.ofBlocks bs).opening → k.newPos = b := fun hshows =>
    newPos_of_shows hfirst (hopening ▸ hshows)
  refine ⟨?_, ?_, ?_⟩
  · intro hshows
    simpa [Hunk.ofBlocks, hhead] using hnewStart hshows
  · intro hshows
    have hpos := oldPos_of_shows hlast (hclosing ▸ hshows)
    have hlength : (oldLines bs).length = (oldLines init).length + l.old.length := by simp [hl]
    rw [hlines.1, hlength]
    simp only [Hunk.ofBlocks, hhead, hend, Option.map_some, Option.getD_some, hstart, hpos]
    omega
  · intro hopen hclose
    have hpos := newPos_of_shows hlast (hclosing ▸ hclose)
    have hlength : (newLines bs).length = (newLines init).length + l.new.length := by simp [hl]
    rw [hlines.2, hlength]
    simp only [Hunk.ofBlocks, hhead, hend, Option.map_some, Option.getD_some, hnewStart hopen, hpos]
    omega

end InterfaceTables.Diff
