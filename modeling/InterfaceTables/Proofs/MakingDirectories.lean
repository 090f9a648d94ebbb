import InterfaceTables.Proofs.Keeping

/-!
Making a directory and those above it. Whether this succeeds or not, the tree has all it had and some
more directories, and nothing happens where the directory is there already.
-/

namespace InterfaceTables

namespace Path

/-- Steps with some of the idle ones left out. -/
inductive Tidies : List String → List String → Prop where
  | nil : Tidies [] []
  | keep {step : String} {steps steps'} (next : Tidies steps steps') :
      Tidies (step :: steps) (step :: steps')
  | drop {step : String} {steps steps'} (idle : isIdle step = true) (next : Tidies steps steps') :
      Tidies (step :: steps) steps'

theorem Tidies.refl (steps : List String) : Tidies steps steps := by
  induction steps with
  | nil => exact .nil
  | cons step steps ih => exact .keep ih

theorem Tidies.append {steps steps' more more' : List String} (h : Tidies steps steps')
    (hm : Tidies more more') : Tidies (steps ++ more) (steps' ++ more') := by
  induction h with
  | nil => exact hm
  | keep _ ih => exact .keep ih
  | drop idle _ ih => exact .drop idle ih

theorem tidies_filter (steps : List String) : Tidies steps (steps.filter (!isIdle ·)) := by
  induction steps with
  | nil => exact .nil
  | cons step steps ih =>
    cases hi : isIdle step with
    | true => simpa [hi] using Tidies.drop hi ih
    | false => simpa [hi] using Tidies.keep ih

theorem tidies_moves (p : Path) : Tidies p.steps p.moves := tidies_filter p.steps

theorem steps_eq_trimmedSteps (p : Path) :
    p.steps = p.trimmedSteps ++ (p.steps.reverse.takeWhile (· == "")).reverse := by
  rw [trimmedSteps, ← List.reverse_append, List.takeWhile_append_dropWhile, List.reverse_reverse]

/-- A dot at the end, slashes apart, may stay when the other idle steps go. -/
theorem tidies_moves_dot {p : Path} (h : p.trimmedSteps.getLast? = some ".") :
    Tidies p.steps (p.moves ++ ["."]) := by
  obtain ⟨front, hf⟩ := List.getLast?_eq_some_iff.mp h
  have hsplit := steps_eq_trimmedSteps p
  generalize hslash : (p.steps.reverse.takeWhile (· == "")).reverse = slashes at hsplit
  have hidle : slashes.filter (!isIdle ·) = [] := by
    rw [List.filter_eq_nil_iff]
    intro step hm
    rw [← hslash, List.mem_reverse] at hm
    have he : step = "" := by simpa using List.all_eq_true.mp List.all_takeWhile step hm
    simp [isIdle, he]
  have hmoves : p.moves = front.filter (!isIdle ·) := by
    rw [moves, hsplit, hf, List.filter_append, hidle, List.filter_append]
    simp [isIdle]
  have hs : Tidies slashes [] := by simpa [hidle] using tidies_filter slashes
  have hd : Tidies ("." :: slashes) ["."] := .keep hs
  rw [hsplit, hf, hmoves, List.append_assoc]
  exact (tidies_filter front).append hd

end Path

namespace FileTree

variable {t t' : FileTree} {links : Nat} {here loc : Location} {steps steps' : List String}

theorem Leads.tidy (h : t.Leads .followed links here steps (.entry loc))
    (ht : Path.Tidies steps steps') : t.Leads .followed links here steps' (.entry loc) := by
  generalize hg : Target.entry loc = goal at h
  induction h generalizing steps' with
  | done =>
    cases ht
    exact .done
  | blank dir _ ih =>
    cases ht with
    | keep next => exact .blank dir (ih next hg)
    | drop _ next => exact ih next hg
  | dot dir _ ih =>
    cases ht with
    | keep next => exact .dot dir (ih next hg)
    | drop _ next => exact ih next hg
  | up dir _ ih =>
    cases ht with
    | keep next => exact .up dir (ih next hg)
    | drop idle _ => exact absurd idle (by decide)
  | absent => cases hg
  | enter look found solid _ ih =>
    cases ht with
    | keep next => exact .enter (look.of_ne_written (by simp)) found solid (ih next hg)
    | drop idle _ => simp [Path.isIdle, look.ne_empty, look.ne_dot] at idle
  | stop _ _ kept => cases kept
  | follow look found _ _ ih =>
    cases ht with
    | keep next =>
      exact .follow (look.of_ne_written (by simp)) found (Or.inr (by simp)) (ih ((Path.Tidies.refl _).append next) hg)
    | drop idle _ => simp [Path.isIdle, look.ne_empty, look.ne_dot] at idle

/-- The tree `t'` has all that `t` has, and some more directories. -/
def Gains (t t' : FileTree) : Prop :=
  ∀ loc, t'.get? loc = t.get? loc ∨ (t.get? loc = none ∧ t'.IsDirectory loc)

theorem Gains.refl (t : FileTree) : t.Gains t := fun _ => Or.inl rfl

theorem Gains.trans {t'' : FileTree} (h : t.Gains t') (h' : t'.Gains t'') : t.Gains t'' := by
  intro loc
  cases h' loc with
  | inl he =>
    rw [IsDirectory, he]
    exact h loc
  | inr hn =>
    cases h loc with
    | inl he => exact Or.inr ⟨by rw [← he, hn.1], hn.2⟩
    | inr hn' =>
      obtain ⟨_, mode, hm⟩ := hn'
      cases hn.1.symm.trans hm

/-- What is there stays. -/
theorem Gains.get? (h : t.Gains t') {e : Entry} (he : t.get? loc = some e) :
    t'.get? loc = some e := by
  cases h loc with
  | inl hs => rw [hs, he]
  | inr hn =>
    rw [he] at hn
    cases hn.1

/-- What is no directory was there before. -/
theorem Gains.get?_before (h : t.Gains t') (hd : ¬ t'.IsDirectory loc) : t.get? loc = t'.get? loc := by
  cases h loc with
  | inl hs => exact hs.symm
  | inr hn => exact absurd hn.2 hd

theorem Gains.keeps (h : t.Gains t') : t.Keeps t' where
  directory hd := h.get? hd
  link hl := h.get? hl
  file hf := ⟨_, _, h.get? hf⟩

theorem gains_insert {name : String} {dir : Location} (hn : t.get? (name :: dir) = none) (mode : Nat) :
    t.Gains (t.insert (name :: dir) (.directory mode)) := by
  intro loc
  by_cases hl : loc = name :: dir
  · subst hl
    exact Or.inr ⟨hn, mode, get?_insert_self t _ _ (by simp)⟩
  · exact Or.inl (get?_insert_of_ne t _ hl)

end FileTree

namespace Workspace

/-- A change that only adds directories to the tree. -/
structure Grows (ws ws' : Workspace) : Prop where
  tree : ws.tree.Gains ws'.tree
  workingDir : ws'.workingDir = ws.workingDir
  umask : ws'.umask = ws.umask

theorem Grows.refl (ws : Workspace) : ws.Grows ws := ⟨.refl _, rfl, rfl⟩

theorem Grows.trans {ws ws' ws'' : Workspace} (h : ws.Grows ws') (h' : ws'.Grows ws'') :
    ws.Grows ws'' :=
  ⟨h.tree.trans h'.tree, by rw [h'.workingDir, h.workingDir], by rw [h'.umask, h.umask]⟩

theorem add_eq_ok {ws ws' : Workspace} {dir : Location} {name : String} {e : Entry}
    (h : ws.add dir name e = .ok ws') : ws.mayChange dir = true ∧ ws' = ws.insert (name :: dir) e := by
  unfold add at h
  split at h
  · cases h
    exact ⟨by assumption, rfl⟩
  · cases h

theorem grows_makeDirectoryAt {ws ws' : Workspace} {start : Location} {steps : List String}
    (h : ws.makeDirectoryAt start steps = .ok ws') : ws.Grows ws' := by
  unfold makeDirectoryAt at h
  split at h
  case h_3 dir name hr =>
    obtain ⟨_, rfl⟩ := add_eq_ok h
    exact ⟨FileTree.gains_insert (FileTree.leads_of_resolveFrom hr).missing.1 _, rfl, rfl⟩
  all_goals cases h

theorem grows_ensureDirectoryAt (ws : Workspace) (start : Location) (steps : List String) :
    ws.Grows (ws.ensureDirectoryAt start steps).workspace := by
  unfold ensureDirectoryAt
  split
  case h_1 ws' h => exact grows_makeDirectoryAt h
  case h_2 e h => split <;> exact .refl ws

theorem grows_ensureChain (ws : Workspace) (start : Location) (attempt above : List String) :
    ws.Grows (ws.ensureChain start attempt above).workspace := by
  induction above generalizing attempt with
  | nil => exact grows_ensureDirectoryAt ws start attempt
  | cons name above ih =>
    simp only [ensureChain]
    split
    · split
      · exact (ih _).trans (grows_ensureDirectoryAt _ start attempt)
      · exact ih _
    · exact grows_ensureDirectoryAt ws start attempt

/-- Making directories adds directories and does nothing else, even if it fails halfway. -/
theorem grows_ensureDirectory (ws : Workspace) (p : Path) :
    ws.Grows (ws.ensureDirectory p).workspace := by
  unfold ensureDirectory
  split
  · exact .refl ws
  · split
    · exact .refl ws
    · exact grows_ensureChain ws _ _ _

theorem ensureDirectoryAt_of_leads {ws : Workspace} {start loc : Location} {steps : List String}
    (h : ws.tree.Leads .followed FileTree.maxLinks start steps (.entry loc))
    (hd : ws.tree.IsDirectory loc) : ws.ensureDirectoryAt start steps = ⟨.ok (), ws⟩ := by
  obtain ⟨loc', hk⟩ := h.exists_kept
  obtain ⟨mode, hm⟩ := hd
  have hmake : ws.makeDirectoryAt start steps = .error .alreadyExists := by
    simp [makeDirectoryAt, FileTree.resolveFrom_of_leads hk]
  have hlead : ws.leadsToDirectory start steps = true := by
    simp [leadsToDirectory, FileTree.resolveFrom_of_leads h, hm]
  simp [ensureDirectoryAt, hmake, hlead]

/-- A directory that is there needs no making. -/
theorem ensureDirectory_of_isDirectory {ws : Workspace} {p : Path} (h : ws.isDirectory p = true) :
    ws.ensureDirectory p = ⟨.ok (), ws⟩ := by
  obtain ⟨loc, mode, hs⟩ := isDirectory_iff.mp h
  obtain ⟨hr, hm⟩ := entry_eq_ok_iff.mp hs
  obtain ⟨hf, hl⟩ := resolve_eq_ok_iff.mp hr
  unfold ensureDirectory
  split
  · rfl
  · simp only [hf]
    generalize ha : (if p.trimmedSteps.getLast? = some "." then p.moves ++ ["."] else p.moves) =
      attempt
    have ht : Path.Tidies p.steps attempt := by
      rw [← ha]
      split
      · exact Path.tidies_moves_dot (by assumption)
      · exact Path.tidies_moves p
    have hat := ensureDirectoryAt_of_leads (hl.tidy ht) ⟨mode, hm⟩
    cases p.moves.reverse.tail with
    | nil => exact hat
    | cons name above => simp [ensureChain, hat]

end Workspace

end InterfaceTables
