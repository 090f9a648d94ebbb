import InterfaceTables.Proofs.EditScripts
import Mathlib.Logic.Relation

/-!
Runs on the move. A moving run takes steps of a few kinds: it slides over kept lines, changes places
with a run of the other kind or joins one of its own. Every step keeps both texts and the places of
their lines, and so does compaction.
-/

namespace InterfaceTables.Diff

open Relation (ReflTransGen)

/-! ## Rewriting a script -/

/-- The second list of runs can stand for the first. -/
structure Rewrites (rs ss : List Run) : Prop where
  old : oldText ss = oldText rs
  new : newText ss = newText rs
  placed : ∀ a b, Placed a b rs → Placed a b ss

namespace Rewrites

variable {rs ss ts : List Run}

theorem refl (rs : List Run) : Rewrites rs rs := ⟨rfl, rfl, fun _ _ h => h⟩

theorem trans (h : Rewrites rs ss) (h' : Rewrites ss ts) : Rewrites rs ts where
  old := h'.old.trans h.old
  new := h'.new.trans h.new
  placed := fun a b hrs => h'.placed a b (h.placed a b hrs)

theorem within (before after : List Run) (h : Rewrites rs ss) :
    Rewrites (before ++ rs ++ after) (before ++ ss ++ after) where
  old := by simp [h.old]
  new := by simp [h.new]
  placed := by
    intro a b hrs
    simp only [placed_append, oldText_append, newText_append, h.old, h.new] at hrs ⊢
    exact ⟨⟨hrs.1.1, h.placed _ _ hrs.1.2⟩, hrs.2⟩

end Rewrites

theorem rewrites_keepBefore (a b : Nat) (s : List Line) (after : List Run) :
    Rewrites (⟨.keep, a, b, s⟩ :: after) (keepBefore a b s after) := by
  cases after with
  | nil => exact .refl _
  | cons e rest =>
    simp only [keepBefore]
    split
    · rename_i he
      refine ⟨?_, ?_, ?_⟩
      · simp [Run.oldSide, he]
      · simp [Run.newSide, he]
      · intro a' b' h
        simp [Placed, Run.standsAt_iff, Run.oldSide, Run.newSide, he] at h ⊢
        grind
    · exact .refl _

theorem rewrites_keepAfter (a b : Nat) (s : List Line) (before : List Run) :
    Rewrites (before.reverse ++ [⟨.keep, a, b, s⟩]) (keepAfter a b s before).reverse := by
  cases before with
  | nil => exact .refl _
  | cons e rest =>
    simp only [keepAfter]
    split
    · rename_i he
      refine ⟨?_, ?_, ?_⟩
      · simp [Run.oldSide, he]
      · simp [Run.newSide, he]
      · intro a' b' h
        simp [placed_append, Placed, Run.standsAt_iff, Run.oldSide, Run.newSide, he] at h ⊢
        grind
    · simpa using Rewrites.refl _

/-! ## Steps of a moving run -/

inductive Step : Focus → Focus → Prop
  | slideUp {rest after : List Run} {q t : Run} {front back s : List Line} (hq : q.kind = .keep)
      (ht : t.kind = .insert) (hs : s ≠ []) (hql : q.lines = front ++ s) (htl : t.lines = back ++ s) :
      Step ⟨q :: rest, t, after⟩
        ⟨Run.ofLines .keep q.old q.new front ++ rest,
          { t with old := t.old - s.length, new := t.new - s.length, lines := s ++ back },
          keepBefore (q.old + front.length) (t.new + back.length) s after⟩
  | slideDown {before rest : List Run} {q t : Run} {behind back s : List Line} (hq : q.kind = .keep)
      (ht : t.kind = .insert) (hs : s ≠ []) (hql : q.lines = s ++ behind) (htl : t.lines = s ++ back) :
      Step ⟨before, t, q :: rest⟩
        ⟨keepAfter q.old t.new s before,
          { t with old := t.old + s.length, new := t.new + s.length, lines := back ++ s },
          Run.ofLines .keep (q.old + s.length) (q.new + s.length) behind ++ rest⟩
  | dropUp {rest after : List Run} {q t : Run} (hq : q.kind = .keep) (hql : q.lines = []) :
      Step ⟨q :: rest, t, after⟩ ⟨rest, t, after⟩
  | dropDown {before rest : List Run} {q t : Run} (hq : q.kind = .keep) (hql : q.lines = []) :
      Step ⟨before, t, q :: rest⟩ ⟨before, t, rest⟩
  | swapUp {rest after : List Run} {q t : Run} (hq : q.kind ≠ .keep) (h : q.kind ≠ t.kind) :
      Step ⟨q :: rest, t, after⟩ ⟨rest, t, q :: after⟩
  | swapDown {before rest : List Run} {q t : Run} (hq : q.kind ≠ .keep) (h : q.kind ≠ t.kind) :
      Step ⟨before, t, q :: rest⟩ ⟨q :: before, t, rest⟩
  | joinUp {rest after : List Run} {q t : Run} (h : q.kind = t.kind) :
      Step ⟨q :: rest, t, after⟩ ⟨rest, { q with lines := q.lines ++ t.lines }, after⟩
  | joinDown {before rest : List Run} {q t : Run} (h : q.kind = t.kind) :
      Step ⟨before, t, q :: rest⟩ ⟨before, { t with lines := t.lines ++ q.lines }, rest⟩

/-- What an inserted run and the kept run above it have in common. -/
theorem slideUp_parts {q t : Run} (h : 0 < slideUp q t) :
    t.kind = .insert ∧ ∃ front back s, s.length = slideUp q t ∧ q.lines = front ++ s ∧
      t.lines = back ++ s := by
  have ht : t.kind = .insert := by
    by_contra ht
    simp [slideUp, ht] at h
  have hk : slideUp q t = commonSuffix q.lines t.lines := by simp [slideUp, ht]
  have hle : slideUp q t ≤ t.lines.length := by
    simpa [hk, commonSuffix] using (commonPrefix_le q.lines.reverse t.lines.reverse).2
  refine ⟨ht, q.lines.take (q.lines.length - slideUp q t), t.lines.take (t.lines.length - slideUp q t),
    t.lines.drop (t.lines.length - slideUp q t), ?_, ?_, (List.take_append_drop _ _).symm⟩
  · simp only [List.length_drop]
    omega
  · rw [hk, ← drop_commonSuffix, List.take_append_drop]

/-- What an inserted run and the kept run below it have in common. -/
theorem slideDown_parts {q t : Run} (h : 0 < slideDown q t) :
    t.kind = .insert ∧ ∃ behind back s, s.length = slideDown q t ∧ q.lines = s ++ behind ∧
      t.lines = s ++ back := by
  have ht : t.kind = .insert := by
    by_contra ht
    simp [slideDown, ht] at h
  have hk : slideDown q t = commonPrefix q.lines t.lines := by simp [slideDown, ht]
  have hle : slideDown q t ≤ t.lines.length := by
    simpa [hk] using (commonPrefix_le q.lines t.lines).2
  refine ⟨ht, q.lines.drop (slideDown q t), t.lines.drop (slideDown q t), t.lines.take (slideDown q t),
    List.length_take_of_le hle, ?_, (List.take_append_drop _ _).symm⟩
  rw [hk, ← take_commonPrefix, List.take_append_drop]

@[simp] theorem reverse_ofLines (kind : RunKind) (a b : Nat) (lines : List Line) :
    (Run.ofLines kind a b lines).reverse = Run.ofLines kind a b lines := by
  unfold Run.ofLines
  split <;> rfl

/-- The rest of a kept run that was slid over in part. -/
theorem ofLines_keep {q : Run} (hq : q.kind = .keep) (a b : Nat) (lines : List Line) (rest : List Run) :
    Run.ofLines .keep a b lines ++ rest =
      if lines = [] then rest else { q with old := a, new := b, lines := lines } :: rest := by
  by_cases h : lines = [] <;> simp [Run.ofLines, h, hq]

theorem step_slideUp (rest after : List Run) {q t : Run} (hq : q.kind = .keep) (h : 0 < slideUp q t) :
    Step ⟨q :: rest, t, after⟩
      ⟨if slideUp q t = q.lines.length then rest
        else { q with lines := q.lines.take (q.lines.length - slideUp q t) } :: rest,
        { t with
          old := t.old - slideUp q t, new := t.new - slideUp q t,
          lines := t.lines.drop (t.lines.length - slideUp q t) ++
            t.lines.take (t.lines.length - slideUp q t) },
        keepBefore (q.old + q.lines.length - slideUp q t) (t.new + t.lines.length - slideUp q t)
          (t.lines.drop (t.lines.length - slideUp q t)) after⟩ := by
  obtain ⟨ht, front, back, s, hs, hql, htl⟩ := slideUp_parts h
  have hne : s ≠ [] := by
    rintro rfl
    simp_all
  have hstep : Step ⟨q :: rest, t, after⟩ _ := .slideUp hq ht hne hql htl
  rw [ofLines_keep hq] at hstep
  simpa [← hs, hql, htl, ← Nat.add_assoc] using hstep

theorem step_slideDown (before rest : List Run) {q t : Run} (hq : q.kind = .keep)
    (h : 0 < slideDown q t) :
    Step ⟨before, t, q :: rest⟩
      ⟨keepAfter q.old t.new (t.lines.take (slideDown q t)) before,
        { t with
          old := t.old + slideDown q t, new := t.new + slideDown q t,
          lines := t.lines.drop (slideDown q t) ++ t.lines.take (slideDown q t) },
        if slideDown q t = q.lines.length then rest
        else { q with
          old := q.old + slideDown q t, new := q.new + slideDown q t,
          lines := q.lines.drop (slideDown q t) } :: rest⟩ := by
  obtain ⟨ht, behind, back, s, hs, hql, htl⟩ := slideDown_parts h
  have hne : s ≠ [] := by
    rintro rfl
    simp_all
  have hstep : Step ⟨before, t, q :: rest⟩ _ := .slideDown hq ht hne hql htl
  rw [ofLines_keep hq] at hstep
  simpa [← hs, hql, htl] using hstep

theorem moveUp_steps (before : List Run) (t : Run) (after : List Run) :
    ReflTransGen Step ⟨before, t, after⟩ (moveUp before t after) := by
  fun_induction moveUp before t after with
  | case1 t after => exact .refl
  | case2 t after q rest hq k hk shared kept moved hall ih =>
    have h := step_slideUp rest after hq hk
    rw [if_pos hall] at h
    exact .head h ih
  | case3 t after q rest hq k hk shared kept moved hpart ih =>
    have h := step_slideUp rest after hq hk
    rw [if_neg hpart] at h
    exact .head h ih
  | case4 t after q rest hq k hk hempty ih =>
    exact .head (.dropUp hq (List.isEmpty_iff.mp hempty)) ih
  | case5 => exact .refl
  | case6 t after q rest hq h ih => exact .head (.swapUp hq h) ih
  | case7 t after q rest hq h ih => exact .head (.joinUp (not_not.mp h)) ih

theorem moveDown_steps (before : List Run) (t : Run) (after : List Run) :
    ReflTransGen Step ⟨before, t, after⟩ (moveDown before t after) := by
  fun_induction moveDown before t after with
  | case1 before t => exact .refl
  | case2 before t q rest hq k hk shared kept moved hall ih =>
    have h := step_slideDown before rest hq hk
    rw [if_pos hall] at h
    exact .head h ih
  | case3 before t q rest hq k hk shared kept moved hpart ih =>
    have h := step_slideDown before rest hq hk
    rw [if_neg hpart] at h
    exact .head h ih
  | case4 before t q rest hq k hk hempty ih =>
    exact .head (.dropDown hq (List.isEmpty_iff.mp hempty)) ih
  | case5 => exact .refl
  | case6 before t q rest hq h ih => exact .head (.swapDown hq h) ih
  | case7 before t q rest hq h ih => exact .head (.joinDown (not_not.mp h)) ih

/-! ## What a step keeps -/

theorem rewrites_drop {q : Run} (h : q.lines = []) : Rewrites [q] [] where
  old := by simp [Run.oldSide, h]
  new := by simp [Run.newSide, h]
  placed := fun _ _ _ => trivial

theorem rewrites_swap {q t : Run} (hq : q.kind ≠ .keep) (ht : t.kind ≠ .keep) (h : q.kind ≠ t.kind) :
    Rewrites [q, t] [t, q] := by
  cases hqk : q.kind <;> cases htk : t.kind <;> simp_all
  all_goals
    refine ⟨by simp [Run.oldSide, hqk, htk], by simp [Run.newSide, hqk, htk], ?_⟩
    intro a b h
    simp_all [Placed, Run.standsAt_iff, Run.oldSide, Run.newSide]

theorem rewrites_join {q t : Run} (h : q.kind = t.kind) :
    Rewrites [q, t] [{ q with lines := q.lines ++ t.lines }] := by
  refine ⟨?_, ?_, ?_⟩
  · simp only [oldText, List.flatMap_cons, Run.oldSide, h]
    split <;> simp
  · simp only [newText, List.flatMap_cons, Run.newSide, h]
    split <;> simp
  · intro a b hp
    simp_all [Placed, Run.standsAt_iff]

theorem rewrites_slideUp {q t : Run} {front back s : List Line} (hq : q.kind = .keep)
    (ht : t.kind = .insert) (hs : s ≠ []) (hql : q.lines = front ++ s) (htl : t.lines = back ++ s) :
    Rewrites [q, t]
      (Run.ofLines .keep q.old q.new front ++
        [{ t with old := t.old - s.length, new := t.new - s.length, lines := s ++ back },
          ⟨.keep, q.old + front.length, t.new + back.length, s⟩]) := by
  refine ⟨?_, ?_, ?_⟩
  · simp [oldText_ofLines, Run.oldSide, hq, ht, hql]
  · simp [newText_ofLines, Run.newSide, hq, ht, hql, htl]
  · intro a b h
    simp only [Placed, Run.standsAt_iff, Run.oldSide, Run.newSide, hq, ht, hql, htl] at h
    obtain ⟨⟨-, ha, hb⟩, ⟨-, -, hn⟩, -⟩ := h
    obtain rfl : q.old = a := ha (by decide)
    obtain rfl : q.new = b := hb (by decide)
    have hnew : t.new = q.new + (front.length + s.length) := by simpa using hn
    refine placed_append.mpr ⟨(IsScript.keep q.old q.new front).placed, ?_⟩
    simp [Placed, Run.standsAt_iff, Run.oldSide, Run.newSide, ht, oldText_ofLines, newText_ofLines, hs]
    omega

theorem rewrites_slideDown {q t : Run} {behind back s : List Line} (hq : q.kind = .keep)
    (ht : t.kind = .insert) (hs : s ≠ []) (hql : q.lines = s ++ behind) (htl : t.lines = s ++ back) :
    Rewrites [t, q]
      ([⟨.keep, q.old, t.new, s⟩,
        { t with old := t.old + s.length, new := t.new + s.length, lines := back ++ s }] ++
        Run.ofLines .keep (q.old + s.length) (q.new + s.length) behind) := by
  refine ⟨?_, ?_, ?_⟩
  · simp [oldText_ofLines, Run.oldSide, hq, ht, hql]
  · simp [newText_ofLines, Run.newSide, hq, ht, hql, htl]
  · intro a b h
    simp only [Placed, Run.standsAt_iff, Run.oldSide, Run.newSide, hq, ht, hql, htl] at h
    obtain ⟨⟨-, -, hb⟩, ⟨-, ha, hn⟩, -⟩ := h
    obtain rfl : q.old = a := ha (by decide)
    obtain rfl : t.new = b := hb (by decide)
    have hnew : q.new = t.new + (s.length + back.length) := by simpa using hn
    refine placed_append.mpr ⟨?_, ?_⟩
    · simp [Placed, Run.standsAt_iff, Run.oldSide, Run.newSide, ht, hs]
    · have hplace : q.new + s.length = t.new + (s.length + (back.length + s.length)) := by omega
      rw [hplace]
      simpa [Run.oldSide, Run.newSide, ht] using
        (IsScript.keep (q.old + s.length) (t.new + (s.length + (back.length + s.length))) behind).placed

theorem Step.kind {f g : Focus} (h : Step f g) : g.run.kind = f.run.kind := by
  cases h <;> simp_all

theorem Step.rewrites {f g : Focus} (h : Step f g) (hf : f.run.kind ≠ .keep) :
    Rewrites f.toList g.toList := by
  cases h with
  | @slideUp rest after q t front back s hq ht hs hql htl =>
    have hslide := (rewrites_slideUp hq ht hs hql htl).within rest.reverse after
    have hkept := (rewrites_keepBefore (q.old + front.length) (t.new + back.length) s after).within
      (rest.reverse ++ Run.ofLines .keep q.old q.new front ++
        [{ t with old := t.old - s.length, new := t.new - s.length, lines := s ++ back }]) []
    simp only [List.append_assoc, List.cons_append, List.nil_append, List.append_nil] at hslide hkept
    simpa [Focus.toList] using hslide.trans hkept
  | @slideDown before rest q t behind back s hq ht hs hql htl =>
    have hslide := (rewrites_slideDown hq ht hs hql htl).within before.reverse rest
    have hkept := (rewrites_keepAfter q.old t.new s before).within []
      ({ t with old := t.old + s.length, new := t.new + s.length, lines := back ++ s } ::
        (Run.ofLines .keep (q.old + s.length) (q.new + s.length) behind ++ rest))
    simp only [List.append_assoc, List.cons_append, List.nil_append] at hslide hkept
    simpa [Focus.toList] using hslide.trans hkept
  | @dropUp rest after q t hq hql =>
    simpa [Focus.toList] using (rewrites_drop hql).within rest.reverse (t :: after)
  | @dropDown before rest q t hq hql =>
    simpa [Focus.toList] using (rewrites_drop hql).within (before.reverse ++ [t]) rest
  | @swapUp rest after _ _ hq h =>
    simpa [Focus.toList] using (rewrites_swap hq hf h).within rest.reverse after
  | @swapDown before rest _ _ hq h =>
    simpa [Focus.toList] using (rewrites_swap hf hq h.symm).within before.reverse rest
  | @joinUp rest after _ _ h =>
    simpa [Focus.toList] using (rewrites_join h).within rest.reverse after
  | @joinDown before rest _ _ h =>
    simpa [Focus.toList] using (rewrites_join h.symm).within before.reverse rest

theorem steps_rewrites {f g : Focus} (h : ReflTransGen Step f g) (hf : f.run.kind ≠ .keep) :
    g.run.kind = f.run.kind ∧ Rewrites f.toList g.toList := by
  induction h with
  | refl => exact ⟨rfl, .refl _⟩
  | tail _ hlast ih => exact ⟨hlast.kind.trans ih.1, ih.2.trans (hlast.rewrites (ih.1.symm ▸ hf))⟩

end InterfaceTables.Diff
