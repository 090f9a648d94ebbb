import InterfaceTables.Proofs.AppliedHunks

/-!
Grouping blocks into hunks. Unchanged blocks are shortened at the ends of the texts and cut in two where
they are long; the lines left out stand unchanged between the hunks.
-/

namespace InterfaceTables.Diff

/-! ## Unchanged blocks -/

/-- The unchanged block of lines that stand at the given places. -/
def Block.kept (a b : Nat) (lines : List Line) : Block := ⟨false, a, lines, b, lines⟩

theorem Block.StandsAt.eq_kept {k : Block} {a b : Nat} (h : k.StandsAt a b) (hc : k.changed = false) :
    k = .kept a b k.old := by
  have hsame := h.same hc
  have hne : k.old ≠ [] := by
    have := h.nonempty
    simpa [hsame] using this
  cases k
  simp_all [Block.kept, Block.standsAt_iff]

theorem standsAt_kept {lines : List Line} (h : lines ≠ []) (a b : Nat) :
    (Block.kept a b lines).StandsAt a b :=
  ⟨.inl h, fun _ => rfl, fun _ => rfl, fun _ => rfl⟩

theorem firstLines_kept (a b : Nat) (lines : List Line) :
    (Block.kept a b lines).firstLines = .kept a b (lines.take 3) := rfl

theorem lastLines_kept (a b : Nat) (lines : List Line) :
    (Block.kept a b lines).lastLines =
      .kept (a + (lines.length - 3)) (b + (lines.length - 3)) (lines.drop (lines.length - 3)) := rfl

theorem Alternate.congr {bs cs : List Block} (h : Alternate bs)
    (hmap : cs.map Block.changed = bs.map Block.changed) : Alternate cs := by
  unfold Alternate at h ⊢
  rw [← List.isChain_map (R := fun x y => x ≠ y) Block.changed] at h ⊢
  rwa [hmap]

theorem IsBlocks.split {a b : Nat} {old new : List Line} {bs cs : List Block}
    (h : IsBlocks a b old new (bs ++ cs)) :
    IsBlocks a b (oldLines bs) (newLines bs) bs ∧
      IsBlocks (a + (oldLines bs).length) (b + (newLines bs).length) (oldLines cs) (newLines cs)
        cs := by
  obtain ⟨hbs, hcs⟩ := aligned_append.mp h.aligned
  exact ⟨⟨rfl, rfl, hbs, h.alternate.left_of_append⟩, ⟨rfl, rfl, hcs, h.alternate.right_of_append⟩⟩

/-- The last block may be shortened at its end. -/
theorem IsBlocks.firstLines {a b : Nat} {old new : List Line} {bs : List Block} {k : Block}
    (h : IsBlocks a b old new (bs ++ [k])) (hc : k.changed = false) :
    IsBlocks a b (oldLines bs ++ k.old.take 3) (newLines bs ++ k.old.take 3)
      (bs ++ [k.firstLines]) := by
  obtain ⟨hbs, hk, -⟩ := aligned_append.mp h.aligned
  have hne : k.old.take 3 ≠ [] := by simpa [hk.same hc] using hk.nonempty
  rw [hk.eq_kept hc, firstLines_kept]
  exact ⟨by simp [Block.kept], by simp [Block.kept],
    aligned_append.mpr ⟨hbs, standsAt_kept hne _ _, trivial⟩,
    h.alternate.congr (by simp [hc, Block.kept])⟩

/-- The first block may be shortened at its front. -/
theorem IsBlocks.lastLines {a b : Nat} {old new : List Line} {bs : List Block} {k : Block}
    (h : IsBlocks a b old new (k :: bs)) (hc : k.changed = false) :
    IsBlocks (a + (k.old.length - 3)) (b + (k.old.length - 3))
      (k.old.drop (k.old.length - 3) ++ oldLines bs) (k.old.drop (k.old.length - 3) ++ newLines bs)
      (k.lastLines :: bs) := by
  obtain ⟨hk, hbs⟩ := h.aligned
  have hne : k.old ≠ [] := by simpa [hk.same hc] using hk.nonempty
  have hpos := List.length_pos_iff.mpr hne
  have hdrop : k.old.drop (k.old.length - 3) ≠ [] := by
    simp only [ne_eq, List.drop_eq_nil_iff]
    omega
  have hlength : (k.old.drop (k.old.length - 3)).length + (k.old.length - 3) = k.old.length := by
    simp only [List.length_drop]
    omega
  rw [hk.same hc] at hbs
  rw [hk.eq_kept hc, lastLines_kept]
  refine ⟨rfl, rfl, ⟨standsAt_kept hdrop _ _, ?_⟩, h.alternate.congr (by simp [hc, Block.kept])⟩
  have hplace : ∀ n, n + (k.old.length - 3) + (k.old.drop (k.old.length - 3)).length =
      n + k.old.length := by omega
  simpa only [Block.kept, hplace] using hbs

/-! ## Cutting the blocks into groups -/

theorem exists_changed_of_showsChange {bs : List Block} (halt : Alternate bs)
    (h : showsChange bs = true) : ∃ k ∈ bs, k.changed = true := by
  match bs with
  | [] => simp [showsChange] at h
  | [k] => exact ⟨k, by simp, h⟩
  | x :: y :: bs =>
    have hxy : x.changed ≠ y.changed := (List.isChain_cons_cons.mp halt).1
    cases hx : x.changed with
    | true => exact ⟨x, by simp, hx⟩
    | false => exact ⟨y, by simp, by simpa [hx] using hxy.symm⟩

theorem showsChange_reverse (bs : List Block) : showsChange bs.reverse = showsChange bs := by
  have hlong : ∀ {cs : List Block}, 2 ≤ cs.length → showsChange cs = true := by
    intro cs hcs
    match cs with
    | _ :: _ :: _ => rfl
  match bs with
  | [] => rfl
  | [_] => rfl
  | x :: y :: bs => rw [hlong (by simp), hlong (by simp)]

theorem IsGroup.patch {a b : Nat} {old new : List Line} {bs : List Block} (h : IsGroup a b old new bs)
    (hchange : ∃ k ∈ bs, k.changed = true) {hs : List Hunk} {old' new' : List Line}
    (hrest : Patch (a + old.length) (b + new.length) hs old' new') :
    Patch a b (Hunk.ofBlocks bs :: hs) (old ++ old') (new ++ new') := by
  obtain ⟨k, hk, -⟩ := id hchange
  obtain ⟨hold, hnew⟩ := oldLines_ofBlocks h.aligned
  rw [h.old] at hold
  rw [h.new] at hnew
  have hstart : (Hunk.ofBlocks bs).old.start = a := by
    cases bs with
    | nil => simp at hk
    | cons x bs => exact h.start x rfl
  have := Patch.hunk (h := Hunk.ofBlocks bs) [] hstart (h.headerAt (List.ne_nil_of_mem hk))
    (h.focused hchange) (by simpa [hold, hnew] using hrest)
  simpa [hold, hnew] using this

theorem not_showsChange {bs : List Block} {a b : Nat} (haligned : Aligned a b bs)
    (h : showsChange bs ≠ true) : newLines bs = oldLines bs := by
  match bs with
  | [] => rfl
  | [k] => simpa using haligned.1.same (by simpa [showsChange] using h)
  | x :: y :: bs => simp [showsChange] at h

theorem firstLines_spec (k : Block) :
    k.firstLines.oldPos = k.oldPos ∧ k.firstLines.changed = k.changed ∧
      k.firstLines.old.length ≤ k.old.length := by
  unfold Block.firstLines
  split
  · exact ⟨rfl, rfl, Nat.le_refl _⟩
  · rename_i hc
    exact ⟨rfl, (Bool.eq_false_iff.mpr hc).symm, List.length_take_le' _ _⟩

theorem length_firstLines_le {k : Block} (hc : k.changed = false) : k.firstLines.old.length ≤ 3 := by
  rw [Block.firstLines, if_neg (by simp [hc])]
  exact List.length_take_le _ _

@[simp] theorem changed_lastLines (k : Block) : k.lastLines.changed = k.changed := by
  unfold Block.lastLines
  split <;> simp_all

theorem old_lastLines {k : Block} (hc : k.changed = false) :
    k.lastLines.old = k.old.drop (k.old.length - 3) := by
  simp [Block.lastLines, hc, radius]

/-- The part of a group above a cut through an unchanged block. -/
theorem IsGroup.above {a b : Nat} {old new : List Line} {front rest : List Block} {k : Block}
    (h : IsGroup a b old new (front ++ k :: rest)) (hc : k.changed = false) (hne : front ≠ []) :
    IsGroup a b (oldLines front ++ k.old.take 3) (newLines front ++ k.old.take 3)
      (front ++ [k.firstLines]) := by
  have hhead : ∀ bs : List Block, (front ++ bs).head? = front.head? := fun bs =>
    List.head?_append_of_ne_nil front hne
  have hbs : IsBlocks a b old new (front ++ [k] ++ rest) := by simpa using h.toIsBlocks
  refine ⟨hbs.split.1.firstLines hc, ?_, ?_, ?_⟩
  · simpa only [hhead] using h.start
  · simpa only [hhead] using h.headShort
  · intro x hx _
    obtain rfl : k.firstLines = x := by simpa using hx
    exact length_firstLines_le hc

/-- The part of a group below a cut through an unchanged block. -/
theorem IsGroup.below {a b : Nat} {old new : List Line} {front rest : List Block} {k : Block}
    (h : IsGroup a b old new (front ++ k :: rest)) (hc : k.changed = false) :
    IsGroup (a + (oldLines front).length + (k.old.length - 3))
      (b + (newLines front).length + (k.old.length - 3))
      (k.old.drop (k.old.length - 3) ++ oldLines rest) (k.old.drop (k.old.length - 3) ++ newLines rest)
      (k.lastLines :: rest) := by
  have hbs := h.toIsBlocks.split.2.lastLines hc
  have hne : k.lastLines.old ≠ [] := by
    have hstands := hbs.aligned.1
    simpa [hstands.same (by simpa using hc)] using hstands.nonempty
  have hshort : k.lastLines.old.length ≤ 3 := by
    simp only [old_lastLines hc, List.length_drop]
    omega
  refine ⟨hbs, ?_, ?_, ?_⟩
  · intro x hx
    obtain rfl : k.lastLines = x := by simpa using hx
    exact hbs.aligned.1.old hne
  · intro x hx _
    obtain rfl : k.lastLines = x := by simpa using hx
    exact hshort
  · intro x hx hxc
    cases rest with
    | nil =>
      obtain rfl : k.lastLines = x := by simpa using hx
      exact hshort
    | cons y ys => exact h.lastShort x (by simpa using hx) hxc

/-- A long list of lines has a middle between its first and its last three. -/
theorem exists_skipped {lines : List Line} (h : 6 < lines.length) :
    ∃ skipped, lines = lines.take 3 ++ (skipped ++ lines.drop (lines.length - 3)) ∧
      skipped.length + 6 = lines.length := by
  refine ⟨(lines.take (lines.length - 3)).drop 3, ?_, ?_⟩
  · have htake : lines.take 3 = (lines.take (lines.length - 3)).take 3 := by
      rw [List.take_take]
      congr 1
      omega
    rw [htake, ← List.append_assoc, List.take_append_drop, List.take_append_drop]
  · simp only [List.length_drop, List.length_take]
    omega

/-- The first block is short if it is not changed, so a change stands above a long unchanged one. -/
theorem IsGroup.exists_changed_above {a b : Nat} {old new : List Line} {front rest : List Block}
    {k : Block} (h : IsGroup a b old new (front ++ k :: rest)) (hc : k.changed = false)
    (hlong : 6 < k.old.length) : ∃ x ∈ front, x.changed = true := by
  have hne : front ≠ [] := by
    rintro rfl
    have hshort := h.headShort k rfl hc
    omega
  obtain ⟨x, hx⟩ : ∃ x, front.getLast? = some x := ⟨_, List.getLast?_eq_some_getLast hne⟩
  have halt := (List.isChain_append.mp h.alternate).2.2 x hx k rfl
  exact ⟨x, List.mem_of_getLast? hx, by simpa [hc] using halt⟩

/-- A group is cut in the middle of a long unchanged block, whose lines between are skipped. -/
theorem IsGroup.patch_cut {a b : Nat} {old new : List Line} {front rest : List Block} {k : Block}
    {hunks : List Hunk} (h : IsGroup a b old new (front ++ k :: rest)) (hc : k.changed = false)
    (hlong : 6 < k.old.length)
    (hbelow : Patch (a + (oldLines front).length + (k.old.length - 3))
      (b + (newLines front).length + (k.old.length - 3)) hunks
      (k.old.drop (k.old.length - 3) ++ oldLines rest)
      (k.old.drop (k.old.length - 3) ++ newLines rest)) :
    Patch a b (Hunk.ofBlocks (front ++ [k.firstLines]) :: hunks) old new := by
  obtain ⟨x, hx, hchanged⟩ := h.exists_changed_above hc hlong
  obtain ⟨skipped, hskip, hlength⟩ := exists_skipped hlong
  have hat : ∀ c (lines : List Line), c + lines.length + (k.old.length - 3) =
      c + (lines ++ k.old.take 3).length + skipped.length := by
    intro c lines
    simp only [List.length_append, List.length_take]
    omega
  rw [hat, hat] at hbelow
  have hpatch := (h.above hc (List.ne_nil_of_mem hx)).patch
    ⟨x, List.mem_append_left _ hx, hchanged⟩ (hbelow.skip skipped)
  have hnew : k.new = k.old := (aligned_append.mp h.aligned).2.1.same hc
  have hlines : ∀ lines, k.old ++ lines =
      k.old.take 3 ++ (skipped ++ (k.old.drop (k.old.length - 3) ++ lines)) := by
    intro lines
    conv_lhs => rw [hskip]
    simp only [List.append_assoc]
  rw [← h.old, ← h.new, oldLines_append, newLines_append, oldLines_cons, newLines_cons, hnew, hlines,
    hlines]
  simpa only [List.append_assoc] using hpatch

theorem patch_groupFrom {a b : Nat} {old new : List Line} {acc bs : List Block}
    (h : IsGroup a b old new (acc.reverse ++ bs)) :
    Patch a b ((groupFrom acc bs).map Hunk.ofBlocks) old new := by
  induction bs generalizing a b old new acc with
  | nil =>
    rw [List.append_nil] at h
    rw [groupFrom, ← showsChange_reverse]
    split
    · rename_i hshows
      simpa using h.patch (exists_changed_of_showsChange h.alternate hshows) (.done _ _ [])
    · rename_i hshows
      rw [← h.old, ← h.new, not_showsChange h.aligned hshows]
      exact .done a b _
  | cons k bs ih =>
    rw [groupFrom]
    split
    · rename_i hk
      have hc : k.changed = false := by simpa using hk.1
      rw [List.map_cons, List.reverse_cons]
      exact h.patch_cut hc hk.2 (ih (h.below hc))
    · exact ih (by simpa using h)

/-! ## Shortening the ends -/

theorem mapLast_append (f : Block → Block) (bs : List Block) (k : Block) :
    mapLast f (bs ++ [k]) = bs ++ [f k] := by
  induction bs with
  | nil => rfl
  | cons x bs ih =>
    obtain ⟨y, ys, hy⟩ := List.exists_cons_of_ne_nil (by simp : bs ++ [k] ≠ [])
    rw [List.cons_append, hy, mapLast, ← hy, ih, List.cons_append]
    simp

theorem shorten_first {a b : Nat} {old new : List Line} {bs : List Block} {k : Block}
    (h : IsBlocks a b old new (k :: bs)) (hstart : k.oldPos = a) :
    ∃ above old' new', old = above ++ old' ∧ new = above ++ new' ∧
      IsBlocks (a + above.length) (b + above.length) old' new' (k.lastLines :: bs) ∧
      k.lastLines.oldPos = a + above.length ∧
      (k.lastLines.changed = false → k.lastLines.old.length ≤ 3) := by
  cases hc : k.changed with
  | true =>
    have hk : k.lastLines = k := by simp [Block.lastLines, hc]
    rw [hk]
    exact ⟨[], old, new, rfl, rfl, h, hstart, by simp [hc]⟩
  | false =>
    have hsame := h.aligned.1.same hc
    have hlast := h.lastLines hc
    have hlength : (k.old.take (k.old.length - 3)).length = k.old.length - 3 :=
      List.length_take_of_le (Nat.sub_le _ _)
    refine ⟨k.old.take (k.old.length - 3), k.old.drop (k.old.length - 3) ++ oldLines bs,
      k.old.drop (k.old.length - 3) ++ newLines bs, ?_, ?_, by rwa [hlength], ?_, ?_⟩
    · rw [← h.old, oldLines_cons, ← List.append_assoc, List.take_append_drop]
    · rw [← h.new, newLines_cons, hsame, ← List.append_assoc, List.take_append_drop]
    · simp [Block.lastLines, hc, radius, hstart]
    · intro _
      simp only [old_lastLines hc, List.length_drop]
      omega

theorem shorten_last {a b : Nat} {old new : List Line} {bs : List Block} {k : Block}
    (h : IsBlocks a b old new (bs ++ [k])) :
    ∃ below old' new', old = old' ++ below ∧ new = new' ++ below ∧
      IsBlocks a b old' new' (bs ++ [k.firstLines]) := by
  cases hc : k.changed with
  | true =>
    have hk : k.firstLines = k := by simp [Block.firstLines, hc]
    rw [hk]
    exact ⟨[], old, new, by simp, by simp, h⟩
  | false =>
    have hsame := (aligned_append.mp h.aligned).2.1.same hc
    refine ⟨k.old.drop 3, _, _, ?_, ?_, h.firstLines hc⟩
    · simp [← h.old]
    · simp [← h.new, hsame]

/-- Shortened at its ends, a list of blocks can be cut into groups; the lines left out are the same
in both texts. -/
theorem isGroup_trim {a b : Nat} {old new : List Line} {bs : List Block} (h : IsBlocks a b old new bs)
    (hstart : ∀ k ∈ bs.head?, k.oldPos = a) :
    ∃ above below old' new', old = above ++ (old' ++ below) ∧ new = above ++ (new' ++ below) ∧
      IsGroup (a + above.length) (b + above.length) old' new' (trim bs) := by
  cases bs with
  | nil =>
    exact ⟨[], [], old, new, by simp, by simp, h, by simp [trim], by simp [trim], by simp [trim]⟩
  | cons k bs =>
    obtain ⟨above, old₁, new₁, hold₁, hnew₁, h₁, hpos, hshort⟩ := shorten_first h (hstart k rfl)
    obtain ⟨init, l, hl⟩ :=
      (List.eq_nil_or_concat' (k.lastLines :: bs)).resolve_left (List.cons_ne_nil _ _)
    have htrim : trim (k :: bs) = init ++ [l.firstLines] := by rw [trim, hl, mapLast_append]
    rw [hl] at h₁
    obtain ⟨below, old₂, new₂, hold₂, hnew₂, h₂⟩ := shorten_last h₁
    have hhead : ∀ x ∈ (init ++ [l.firstLines]).head?, x.oldPos = k.lastLines.oldPos ∧
        x.changed = k.lastLines.changed ∧ x.old.length ≤ k.lastLines.old.length := by
      intro x hx
      cases init with
      | nil =>
        obtain ⟨rfl, -⟩ : k.lastLines = l ∧ bs = [] := by simpa using hl
        obtain rfl : k.lastLines.firstLines = x := by simpa using hx
        exact firstLines_spec k.lastLines
      | cons y init =>
        obtain rfl : y = x := by simpa using hx
        have : k.lastLines = y := by simpa using (List.cons.inj hl).1
        simp [this]
    refine ⟨above, below, old₂, new₂, hold₂ ▸ hold₁, hnew₂ ▸ hnew₁, htrim ▸ ⟨h₂, ?_, ?_, ?_⟩⟩
    · exact fun x hx => (hhead x hx).1.trans hpos
    · intro x hx hxc
      have := hhead x hx
      have := hshort (this.2.1 ▸ hxc)
      omega
    · intro x hx hxc
      obtain rfl : l.firstLines = x := by simpa using hx
      exact length_firstLines_le ((firstLines_spec l).2.1 ▸ hxc)

theorem patch_hunks (old new : List Line) : Patch 0 0 (hunks old new) old new := by
  obtain ⟨hblocks, hstart⟩ := isBlocks_blocks (isCompacted_compact old new)
  obtain ⟨above, below, old', new', hold, hnew, hgroup⟩ := isGroup_trim hblocks hstart
  have hpatch : Patch (0 + above.length) (0 + above.length) (hunks old new) old' new' :=
    patch_groupFrom hgroup
  have hwhole := (hpatch.append below).skip above
  rwa [← hold, ← hnew] at hwhole

/-! ## Equal texts -/

theorem commonPrefix_self (lines : List Line) : commonPrefix lines lines = lines.length := by
  induction lines with
  | nil => rfl
  | cons l lines ih => simp [commonPrefix, ih]

theorem compare_self (a b : Nat) (lines : List Line) :
    compare a b lines lines = Run.ofLines .keep a b lines := by
  rw [compare]
  simp [commonPrefix_self, Run.ofLines]

theorem sweep_of_not_kind {kind : RunKind} (fuel : Nat) (before : List Run) {after : List Run}
    (h : ∀ r ∈ after, r.kind ≠ kind) : sweep kind fuel before after = before.reverse ++ after := by
  fun_induction sweep kind fuel before after with
  | case1 before after => rfl
  | case2 fuel before => simp
  | case3 fuel before t after ht f f' ih => exact absurd ht (h t (by simp))
  | case4 fuel before t after ht ih => simpa using ih fun r hr => h r (List.mem_cons_of_mem t hr)

theorem compactKind_of_not_kind {kind : RunKind} {rs : List Run} (h : ∀ r ∈ rs, r.kind ≠ kind) :
    compactKind kind rs = rs :=
  sweep_of_not_kind _ [] h

theorem group_unchanged {k : Block} (hc : k.changed = false) : group [k] = [] := by
  have hc' : k.lastLines.firstLines.changed = false := by
    rw [(firstLines_spec k.lastLines).2.1, changed_lastLines, hc]
  have hshort : ¬ 6 < k.lastLines.firstLines.old.length :=
    Nat.not_lt.mpr ((length_firstLines_le (by simpa using hc)).trans (by decide))
  simp [group, trim, mapLast, groupFrom, showsChange, radius, hc', hshort]

theorem hunks_self (lines : List Line) : hunks lines lines = [] := by
  have hkeep : ∀ r ∈ Run.ofLines .keep 0 0 lines, r.kind = .keep := by
    unfold Run.ofLines
    split <;> simp
  have hcompact : compact (compare 0 0 lines lines) = Run.ofLines .keep 0 0 lines := by
    have hdelete : compactKind .delete (Run.ofLines .keep 0 0 lines) = Run.ofLines .keep 0 0 lines :=
      compactKind_of_not_kind fun r hr => by simp [hkeep r hr]
    have hinsert : compactKind .insert (Run.ofLines .keep 0 0 lines) = Run.ofLines .keep 0 0 lines :=
      compactKind_of_not_kind fun r hr => by simp [hkeep r hr]
    rw [compare_self, compact, hdelete, hinsert]
  have hgroup : group (blocks (Run.ofLines .keep 0 0 lines)) = [] := by
    unfold Run.ofLines
    split
    · rfl
    · exact group_unchanged rfl
  rw [hunks, hcompact, hgroup, List.map_nil]

end InterfaceTables.Diff
