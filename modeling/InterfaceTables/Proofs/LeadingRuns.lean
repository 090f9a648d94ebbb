import InterfaceTables.Proofs.MovedRuns

/-!
The runs in front of all kept lines. A moving run takes along the place where it was found, so the
record of an inserted run may be off. In front of all kept lines it stays within the deleted lines
that stand there: a run that came up over kept lines goes down again, unless it has joined a run
that was there before.
-/

namespace InterfaceTables.Diff

open Relation (ReflTransGen)

/-- The runs before the first kept one. -/
def lead (rs : List Run) : List Run := rs.takeWhile fun r => r.kind ≠ .keep

def HasKept (rs : List Run) : Prop := ∃ r ∈ rs, r.kind = .keep

theorem lead_append_of_kept {rs : List Run} (h : HasKept rs) (ss : List Run) :
    lead (rs ++ ss) = lead rs := by
  induction rs with
  | nil => simp [HasKept] at h
  | cons r rs ih =>
    by_cases hr : r.kind = .keep
    · simp [lead, hr]
    · have hrs : HasKept rs := by simpa [HasKept, hr] using h
      simpa [lead, hr] using ih hrs

theorem lead_append_of_not_kept {rs : List Run} (h : ¬ HasKept rs) (ss : List Run) :
    lead (rs ++ ss) = rs ++ lead ss :=
  List.takeWhile_append_of_pos fun r hr => by simpa using fun hk => h ⟨r, hr, hk⟩

theorem lead_append_keep (rs ss : List Run) {k : Run} (h : k.kind = .keep) :
    lead (rs ++ k :: ss) = lead rs := by
  by_cases hrs : HasKept rs
  · exact lead_append_of_kept hrs _
  · rw [lead_append_of_not_kept hrs, ← List.append_nil rs, lead_append_of_not_kept hrs]
    simp [lead, h]

theorem lead_append_keepBefore (rs : List Run) (a b : Nat) (lines : List Line) (after : List Run) :
    lead (rs ++ keepBefore a b lines after) = lead rs := by
  unfold keepBefore
  split
  · split
    · exact lead_append_keep _ _ ‹_›
    · exact lead_append_keep _ _ rfl
  · exact lead_append_keep _ _ rfl

theorem lead_keepAfter_append (before : List Run) (a b : Nat) (lines : List Line) (rs : List Run) :
    lead ((keepAfter a b lines before).reverse ++ rs) = lead before.reverse := by
  unfold keepAfter
  split
  · split
    · simp [lead_append_keep, *]
    · rw [List.reverse_cons, List.append_assoc]
      exact lead_append_keep _ _ rfl
  · simp [lead]

/-- In front of all kept lines no inserted run was found below the deleted lines there. -/
def LeadFound (rs : List Run) : Prop :=
  ∀ r ∈ lead rs, r.kind = .insert → r.old ≤ (oldText (lead rs)).length

theorem Found.old_le {a : Nat} {rs : List Run} (h : Found a rs) {r : Run} (hr : r ∈ lead rs)
    (hk : r.kind = .insert) : r.old ≤ a + (oldText (lead rs)).length := by
  induction rs generalizing a with
  | nil => simp [lead] at hr
  | cons s rs ih =>
    by_cases hs : s.kind = .keep
    · simp [lead, hs] at hr
    · have hlead : lead (s :: rs) = s :: lead rs := by simp [lead, hs]
      rw [hlead, List.mem_cons] at hr
      rw [hlead, oldText_cons, List.length_append]
      obtain rfl | hr := hr
      · have := h.1 hk
        omega
      · have := ih h.2 hr
        omega

theorem Found.leadFound {rs : List Run} (h : Found 0 rs) : LeadFound rs := fun _ hr hk => by
  simpa using h.old_le hr hk

theorem LeadFound.congr {rs ss : List Run} (h : LeadFound rs) (hlead : lead ss = lead rs) :
    LeadFound ss := by
  unfold LeadFound at h ⊢
  rwa [hlead]

theorem oldText_lead_insert {before after : List Run} {t : Run} (ht : t.kind = .insert) :
    oldText (lead (before ++ t :: after)) = oldText (lead (before ++ after)) := by
  by_cases hb : HasKept before
  · simp only [lead_append_of_kept hb]
  · have hlead : lead (t :: after) = t :: lead after := by simp [lead, ht]
    simp [lead_append_of_not_kept hb, hlead, Run.oldSide, ht]

/-- An inserted run among others. -/
theorem leadFound_insert_iff {before after : List Run} {t : Run} (ht : t.kind = .insert) :
    LeadFound (before ++ t :: after) ↔ LeadFound (before ++ after) ∧
      (HasKept before ∨ t.old ≤ (oldText (lead (before ++ after))).length) := by
  simp only [LeadFound, oldText_lead_insert ht]
  by_cases hb : HasKept before
  · simp [lead_append_of_kept hb, hb]
  · have hlead : lead (t :: after) = t :: lead after := by simp [lead, ht]
    simp only [lead_append_of_not_kept hb, hlead, List.mem_append, List.mem_cons, hb, false_or]
    grind

/-- Changed runs may be replaced, if the new ones delete as many lines and insert what was found
where the old ones were. -/
theorem LeadFound.replace (rs ss : List Run) {before after : List Run}
    (h : LeadFound (before ++ (rs ++ after))) (hrs : ¬ HasKept rs) (hss : ¬ HasKept ss)
    (hold : (oldText ss).length = (oldText rs).length)
    (hins : ∀ s ∈ ss, s.kind = .insert → s ∈ rs) : LeadFound (before ++ (ss ++ after)) := by
  by_cases hb : HasKept before
  · simpa only [LeadFound, lead_append_of_kept hb] using h
  · simp only [LeadFound, lead_append_of_not_kept hb, lead_append_of_not_kept hrs,
      lead_append_of_not_kept hss, oldText_append, List.length_append, List.mem_append, hold] at h ⊢
    rintro s (hs | hs | hs) hk
    · exact h s (.inl hs) hk
    · exact h s (.inr (.inl (hins s hs hk))) hk
    · exact h s (.inr (.inr hs)) hk

theorem LeadFound.swap {before after : List Run} {q t : Run} (hq : q.kind ≠ .keep) (ht : t.kind ≠ .keep)
    (h : LeadFound (before ++ q :: t :: after)) : LeadFound (before ++ t :: q :: after) := by
  refine LeadFound.replace [q, t] [t, q] h ?_ ?_ ?_ ?_
  · simp [HasKept, hq, ht]
  · simp [HasKept, hq, ht]
  · simp [Nat.add_comm]
  · simp

theorem LeadFound.join {before after : List Run} {q t : Run} (hq : q.kind = .delete)
    (ht : t.kind = .delete) (h : LeadFound (before ++ q :: t :: after)) :
    LeadFound (before ++ { q with lines := q.lines ++ t.lines } :: after) := by
  refine LeadFound.replace [q, t] [{ q with lines := q.lines ++ t.lines }] h ?_ ?_ ?_ ?_
  · simp [HasKept, hq, ht]
  · simp [HasKept, hq]
  · simp [Run.oldSide, hq, ht]
  · simp [hq]

/-- The kept lines below an inserted run begin like it. -/
def CanSlide (t : Run) : List Run → Prop
  | [] => False
  | q :: rest =>
    match q.kind with
    | .keep => ∃ l, q.lines.head? = some l ∧ t.lines.head? = some l
    | .delete => CanSlide t rest
    | .insert => False

theorem canSlide_keepBefore {t : Run} {s back : List Line} (hs : s ≠ []) (ht : t.lines = s ++ back)
    (a b : Nat) (after : List Run) : CanSlide t (keepBefore a b s after) := by
  obtain ⟨l, s, rfl⟩ := List.exists_cons_of_ne_nil hs
  unfold keepBefore
  split
  · split <;> simp_all [CanSlide]
  · simp_all [CanSlide]

theorem hasKept_keepAfter (a b : Nat) (lines : List Line) (before : List Run) :
    HasKept (keepAfter a b lines before) := by
  unfold keepAfter
  split
  · split <;> simp_all [HasKept]
  · simp [HasKept]

theorem not_canSlide_moveDown (before : List Run) {t : Run} (after : List Run) (ht : t.kind = .insert) :
    ¬ CanSlide (moveDown before t after).run (moveDown before t after).after := by
  fun_induction moveDown before t after with
  | case1 before t => simp [CanSlide]
  | case2 before t q rest hq k hk shared kept moved hall ih => exact ih ht
  | case3 before t q rest hq k hk shared kept moved hpart ih => exact ih ht
  | case4 before t q rest hq k hk hempty ih => exact ih ht
  | case5 before t q rest hq k hk hne =>
    simp only [CanSlide, hq, not_exists, not_and]
    intro l hql htl
    obtain ⟨qs, hqs⟩ := List.head?_eq_some_iff.mp hql
    obtain ⟨ts, hts⟩ := List.head?_eq_some_iff.mp htl
    simp [k, slideDown, ht, hqs, hts, commonPrefix] at hk
  | case6 before t q rest hq h ih => exact ih ht
  | case7 before t q rest hq h ih => exact ih ht

/-- The runs around a moving run. -/
def Focus.others (f : Focus) : List Run := f.before.reverse ++ f.after

/-- What holds of an inserted run on its way: the runs around it are as they should be, and it
stands below kept lines, is as they are, or is about to go below kept lines. -/
structure LeadSafe (f : Focus) : Prop where
  others : LeadFound f.others
  run : HasKept f.before ∨ f.run.old ≤ (oldText (lead f.others)).length ∨ CanSlide f.run f.after

theorem Step.leadSafe {f g : Focus} (h : Step f g) (hf : f.run.kind = .insert)
    (hne : ∀ r ∈ f.toList, r.lines ≠ []) (hsafe : LeadSafe f) : LeadSafe g := by
  cases h with
  | @slideUp rest after q t front back s hq ht hs hql htl =>
    refine ⟨hsafe.others.congr ?_, .inr (.inr ?_)⟩
    · simp only [Focus.others, List.reverse_append, reverse_ofLines, List.reverse_cons,
        List.append_assoc, List.singleton_append, lead_append_keep _ _ hq]
      by_cases hfront : front = []
      · simp [hfront, Run.ofLines, lead_append_keepBefore]
      · simp [hfront, Run.ofLines, lead_append_keep]
    · exact canSlide_keepBefore hs rfl _ _ _
  | @slideDown before rest q t behind back s hq ht hs hql htl =>
    refine ⟨hsafe.others.congr ?_, .inl ?_⟩
    · simp only [Focus.others, lead_keepAfter_append, lead_append_keep _ _ hq]
    · exact hasKept_keepAfter _ _ _ _
  | dropUp hq hql => exact absurd hql (hne _ (by simp [Focus.toList]))
  | dropDown hq hql => exact absurd hql (hne _ (by simp [Focus.toList]))
  | @swapUp rest after q t hq h =>
    have hothers : Focus.others ⟨rest, t, q :: after⟩ = Focus.others ⟨q :: rest, t, after⟩ := by
      simp [Focus.others]
    have hqk : q.kind = .delete := by cases hqk : q.kind <;> simp_all
    refine ⟨hothers ▸ hsafe.others, ?_⟩
    simpa [hothers, HasKept, hqk, CanSlide] using hsafe.run
  | @swapDown before rest q t hq h =>
    have hothers : Focus.others ⟨q :: before, t, rest⟩ = Focus.others ⟨before, t, q :: rest⟩ := by
      simp [Focus.others]
    have hqk : q.kind = .delete := by cases hqk : q.kind <;> simp_all
    refine ⟨hothers ▸ hsafe.others, ?_⟩
    simpa [hothers, HasKept, hqk, CanSlide] using hsafe.run
  | @joinUp rest after q t h =>
    have hq : q.kind = .insert := h.trans hf
    have hothers := hsafe.others
    simp only [Focus.others, List.reverse_cons, List.append_assoc, List.singleton_append,
      leadFound_insert_iff hq] at hothers
    refine ⟨hothers.1, hothers.2.imp (fun hk => ?_) .inl⟩
    simpa [HasKept] using hk
  | @joinDown before rest q t h =>
    have hq : q.kind = .insert := h.trans hf
    have hothers := hsafe.others
    simp only [Focus.others, leadFound_insert_iff hq] at hothers
    refine ⟨hothers.1, hsafe.run.imp id (Or.imp ?_ ?_)⟩
    · simp [Focus.others, oldText_lead_insert hq]
    · simp [CanSlide, hq]

/-- A deleted run only changes places with inserted ones and joins deleted ones. -/
theorem Step.leadFound {f g : Focus} (h : Step f g) (hf : f.run.kind = .delete)
    (hne : ∀ r ∈ f.toList, r.lines ≠ []) (hfound : LeadFound f.toList) : LeadFound g.toList := by
  cases h with
  | slideUp hq ht hs hql htl => simp [ht] at hf
  | slideDown hq ht hs hql htl => simp [ht] at hf
  | dropUp hq hql => exact absurd hql (hne _ (by simp [Focus.toList]))
  | dropDown hq hql => exact absurd hql (hne _ (by simp [Focus.toList]))
  | swapUp hq h =>
    have hrun := ne_of_eq_of_ne hf (by decide : RunKind.delete ≠ .keep)
    simp only [Focus.toList, List.reverse_cons, List.append_assoc, List.singleton_append] at hfound ⊢
    exact hfound.swap hq hrun
  | swapDown hq h =>
    have hrun := ne_of_eq_of_ne hf (by decide : RunKind.delete ≠ .keep)
    simp only [Focus.toList, List.reverse_cons, List.append_assoc, List.singleton_append] at hfound ⊢
    exact hfound.swap hrun hq
  | joinUp h =>
    simp only [Focus.toList, List.reverse_cons, List.append_assoc, List.singleton_append] at hfound ⊢
    exact hfound.join (h.trans hf) hf
  | joinDown h => exact hfound.join hf (h.trans hf)

/-! ## Compaction -/

theorem steps_leadFound {f g : Focus} (h : ReflTransGen Step f g) (hf : f.run.kind = .delete)
    (hplaced : Placed 0 0 f.toList) (hfound : LeadFound f.toList) : LeadFound g.toList := by
  induction h with
  | refl => exact hfound
  | tail hsteps hlast ih =>
    have hrun := steps_rewrites hsteps (ne_of_eq_of_ne hf (by decide))
    exact hlast.leadFound (hrun.1.trans hf) (hrun.2.placed 0 0 hplaced).nonempty ih

theorem steps_leadSafe {f g : Focus} (h : ReflTransGen Step f g) (hf : f.run.kind = .insert)
    (hplaced : Placed 0 0 f.toList) (hsafe : LeadSafe f) : LeadSafe g := by
  induction h with
  | refl => exact hsafe
  | tail hsteps hlast ih =>
    have hrun := steps_rewrites hsteps (ne_of_eq_of_ne hf (by decide))
    exact hlast.leadSafe (hrun.1.trans hf) (hrun.2.placed 0 0 hplaced).nonempty ih

/-- A run is moved up and down again. -/
def moved (before : List Run) (t : Run) (after : List Run) : Focus :=
  let f := moveUp before t after
  moveDown f.before f.run f.after

theorem moved_steps (before : List Run) (t : Run) (after : List Run) :
    ReflTransGen Step ⟨before, t, after⟩ (moved before t after) :=
  (moveUp_steps before t after).trans (moveDown_steps _ _ _)

theorem leadFound_moved {before after : List Run} {t : Run} (ht : t.kind ≠ .keep)
    (hplaced : Placed 0 0 (before.reverse ++ t :: after))
    (hfound : LeadFound (before.reverse ++ t :: after)) : LeadFound (moved before t after).toList := by
  cases hk : t.kind with
  | keep => exact absurd hk ht
  | delete => exact steps_leadFound (moved_steps before t after) hk hplaced hfound
  | insert =>
    have hstart : LeadSafe ⟨before, t, after⟩ := by
      obtain ⟨hothers, hrun⟩ := (leadFound_insert_iff hk).mp hfound
      exact ⟨hothers, hrun.imp (by simp [HasKept]) .inl⟩
    have hend := steps_leadSafe (moved_steps before t after) hk hplaced hstart
    have hkind : (moved before t after).run.kind = .insert :=
      (steps_rewrites (moved_steps before t after) ht).1.trans hk
    have hslide : ¬ CanSlide (moved before t after).run (moved before t after).after :=
      not_canSlide_moveDown _ _ ((steps_rewrites (moveUp_steps before t after) ht).1.trans hk)
    refine (leadFound_insert_iff hkind).mpr ⟨hend.others, ?_⟩
    simpa [HasKept, Focus.others, hslide] using hend.run

/-- What a pass over the runs keeps. -/
theorem sweep_induction {P : List Run → Prop} {kind : RunKind}
    (hmove : ∀ before t after, t.kind = kind → P (before.reverse ++ t :: after) →
      P (moved before t after).toList) (fuel : Nat) (before after : List Run)
    (h : P (before.reverse ++ after)) : P (sweep kind fuel before after) := by
  fun_induction sweep kind fuel before after with
  | case1 before after => exact h
  | case2 fuel before => simpa using h
  | case3 fuel before t after ht f f' ih =>
    refine ih ?_
    rw [List.reverse_cons, List.append_assoc, List.singleton_append]
    exact hmove before t after ht h
  | case4 fuel before t after ht ih => exact ih (by simpa using h)

theorem compactKind_keeps {kind : RunKind} (hkind : kind ≠ .keep) {rs : List Run}
    (hplaced : Placed 0 0 rs) (hfound : LeadFound rs) :
    Rewrites rs (compactKind kind rs) ∧ LeadFound (compactKind kind rs) := by
  have hstart : Rewrites rs rs ∧ LeadFound rs := ⟨.refl rs, hfound⟩
  refine sweep_induction (P := fun ss => Rewrites rs ss ∧ LeadFound ss) ?_ _ [] rs hstart
  rintro before t after rfl ⟨hrs, hlead⟩
  have hmoved := (steps_rewrites (moved_steps before t after) hkind).2
  exact ⟨hrs.trans hmoved, leadFound_moved hkind (hrs.placed 0 0 hplaced) hlead⟩

/-- The compacted script of two texts. -/
structure IsCompacted (old new : List Line) (rs : List Run) : Prop where
  old : oldText rs = old
  new : newText rs = new
  placed : Placed 0 0 rs
  leadFound : LeadFound rs

theorem isCompacted_compact (old new : List Line) :
    IsCompacted old new (compact (compare 0 0 old new)) := by
  have hscript := isScript_compare 0 0 old new
  obtain ⟨hdel, hdelFound⟩ := compactKind_keeps (by decide : RunKind.delete ≠ .keep) hscript.placed
    hscript.found.leadFound
  have hplaced := hdel.placed 0 0 hscript.placed
  obtain ⟨hins, hinsFound⟩ := compactKind_keeps (by decide : RunKind.insert ≠ .keep) hplaced hdelFound
  exact ⟨hins.old.trans (hdel.old.trans hscript.old), hins.new.trans (hdel.new.trans hscript.new),
    hins.placed 0 0 hplaced, hinsFound⟩

end InterfaceTables.Diff
