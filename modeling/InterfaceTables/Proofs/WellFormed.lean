import InterfaceTables.Proofs.Placing

/-!
Trees as directories make them: every entry stands in a directory under a name that a path can spell.
Whatever is done to a workspace, its tree stays such a tree.
-/

namespace InterfaceTables

namespace FileTree

structure WellFormed (t : FileTree) : Prop where
  parent : ∀ {name dir e}, t.get? (name :: dir) = some e → t.IsDirectory dir
  name : ∀ {name dir e}, t.get? (name :: dir) = some e → Path.IsEntryName name

/-- There are no links in the tree. -/
def LinkFree (t : FileTree) : Prop := ∀ loc target, t.get? loc ≠ some (.link target)

variable {t : FileTree} {loc : Location}

theorem wellFormed_empty : empty.WellFormed where
  parent h := by cases h
  name h := by cases h

/-- All that a directory stands in are directories. -/
theorem WellFormed.isDirectory_suffix (hw : t.WellFormed) (hd : t.IsDirectory loc) {above : Location}
    (h : above <:+ loc) : t.IsDirectory above := by
  induction loc with
  | nil =>
    rw [List.suffix_nil.mp h]
    exact hd
  | cons name dir ih =>
    cases List.suffix_cons_iff.mp h with
    | inl he => exact he ▸ hd
    | inr hs =>
      obtain ⟨mode, hm⟩ := hd
      exact ih (hw.parent hm) hs

/-- A new entry in a directory, or another of its kind in place of an old one. -/
theorem WellFormed.insert {name : String} {dir : Location} {e : Entry} (hw : t.WellFormed)
    (hd : t.IsDirectory dir) (hn : Path.IsEntryName name)
    (he : t.IsDirectory (name :: dir) → ∃ mode, e = .directory mode) :
    (t.insert (name :: dir) e).WellFormed := by
  have hdir : ∀ {l}, t.IsDirectory l → (t.insert (name :: dir) e).IsDirectory l := by
    rintro l ⟨mode, hm⟩
    by_cases hl : l = name :: dir
    · subst hl
      obtain ⟨mode', rfl⟩ := he ⟨mode, hm⟩
      exact ⟨mode', get?_insert_self t _ _ (by simp)⟩
    · exact ⟨mode, by rw [get?_insert_of_ne t _ hl, hm]⟩
  constructor
  · intro name' dir' e' h
    by_cases hl : name' :: dir' = name :: dir
    · cases hl
      exact hdir hd
    · rw [get?_insert_of_ne t _ hl] at h
      exact hdir (hw.parent h)
  · intro name' dir' e' h
    by_cases hl : name' :: dir' = name :: dir
    · cases hl
      exact hn
    · rw [get?_insert_of_ne t _ hl] at h
      exact hw.name h

theorem WellFormed.insert_new {name : String} {dir : Location} {e : Entry} (hw : t.WellFormed)
    (hd : t.IsDirectory dir) (hn : Path.IsEntryName name) (hnone : t.get? (name :: dir) = none) :
    (t.insert (name :: dir) e).WellFormed := by
  refine hw.insert hd hn ?_
  rintro ⟨mode, hm⟩
  cases hnone.symm.trans hm

theorem WellFormed.replace {old e : Entry} (hw : t.WellFormed) (ho : t.get? loc = some old)
    (he : ∀ mode, old = .directory mode → ∃ mode', e = .directory mode') :
    (t.insert loc e).WellFormed := by
  cases loc with
  | nil =>
    have hg : ∀ l, (t.insert [] e).get? l = t.get? l := by
      intro l
      cases l with
      | nil => rfl
      | cons name dir => exact get?_insert_of_ne t e (by simp)
    refine ⟨fun h => ?_, fun h => ?_⟩
    · rw [hg] at h
      obtain ⟨mode, hm⟩ := hw.parent h
      exact ⟨mode, by rw [hg, hm]⟩
    · rw [hg] at h
      exact hw.name h
  | cons name dir =>
    refine hw.insert (hw.parent ho) (hw.name ho) ?_
    rintro ⟨mode, hm⟩
    rw [ho] at hm
    exact he mode (Option.some.inj hm)

theorem lookup_filter (keep : Location → Bool) (entries : List (Location × Entry)) (l : Location) :
    (entries.filter fun x => keep x.1).lookup l = if keep l then entries.lookup l else none := by
  induction entries with
  | nil => simp
  | cons x rest ih =>
    obtain ⟨k, v⟩ := x
    by_cases hl : l = k
    · subst hl
      cases hk : keep l with
      | true => simp [hk]
      | false => simp [hk, ih]
    · rw [lookup_cons_of_ne hl]
      cases hk : keep k with
      | true => simp only [List.filter_cons, hk, if_true, lookup_cons_of_ne hl, ih]
      | false => simpa [List.filter_cons, hk] using ih

/-- Entries that go together with all that stands in them leave a well-formed tree. -/
theorem WellFormed.filter {t' : FileTree} (hw : t.WellFormed) (keep : Location → Bool)
    (he : t'.entries = t.entries.filter fun x => keep x.1)
    (hk : ∀ name dir, keep (name :: dir) = true → keep dir = true) : t'.WellFormed := by
  have hg : ∀ name dir, t'.get? (name :: dir) =
      if keep (name :: dir) then t.get? (name :: dir) else none := by
    intro name dir
    show t'.entries.lookup (name :: dir) = _
    rw [he, lookup_filter]
    rfl
  constructor
  · intro name dir e h
    rw [hg] at h
    split at h
    case isFalse => cases h
    case isTrue hkeep =>
      obtain ⟨mode, hm⟩ := hw.parent h
      cases dir with
      | nil => exact ⟨directoryMode, rfl⟩
      | cons name' dir' =>
        refine ⟨mode, ?_⟩
        rw [hg, if_pos (hk name _ hkeep), hm]
  · intro name dir e h
    rw [hg] at h
    split at h
    · exact hw.name h
    · cases h

theorem isSuffixOf_eq_false {l l' : Location} : l.isSuffixOf l' = false ↔ ¬ l <:+ l' := by
  rw [← List.isSuffixOf_iff_suffix, Bool.not_eq_true]

theorem WellFormed.erase (hw : t.WellFormed) (loc : Location) : (t.erase loc).WellFormed := by
  refine hw.filter (fun l => !loc.isSuffixOf l) rfl fun name dir h => ?_
  simp only [Bool.not_eq_true', isSuffixOf_eq_false] at h ⊢
  exact fun hs => h (hs.trans (List.suffix_cons name dir))

theorem WellFormed.clear (hw : t.WellFormed) (loc : Location) : (t.clear loc).WellFormed := by
  refine hw.filter (fun l => decide (l = loc) || !loc.isSuffixOf l) rfl fun name dir h => ?_
  simp only [Bool.or_eq_true, decide_eq_true_eq, Bool.not_eq_true', isSuffixOf_eq_false] at h ⊢
  refine Classical.or_iff_not_imp_left.mpr fun hne hs => ?_
  cases h with
  | inl he =>
    rw [← he] at hs
    have hl := hs.length_le
    simp only [List.length_cons] at hl
    omega
  | inr hn => exact hn (hs.trans (List.suffix_cons name dir))

end FileTree

namespace Path

theorem no_slash_of_mem_moves {p : Path} {step : String} (h : step ∈ p.moves) :
    '/' ∉ step.toList :=
  no_slash_of_mem_steps (List.mem_filter.mp h).1

theorem no_slash_of_mem_trimmedSteps {p : Path} {step : String} (h : step ∈ p.trimmedSteps) :
    '/' ∉ step.toList := by
  refine no_slash_of_mem_steps (p := p) ?_
  rw [steps_eq_trimmedSteps p]
  exact List.mem_append_left _ h

theorem getLast?_trimmedSteps (p : Path) : p.trimmedSteps.getLast? ≠ some "" := by
  intro h
  rw [trimmedSteps, List.getLast?_reverse] at h
  have hd := List.head?_dropWhile_not (· == "") p.steps.reverse
  rw [h] at hd
  simp at hd

end Path

namespace Workspace

variable {ws ws' : Workspace}

theorem wellFormed_add {last : LastStep} {links : Nat} {here dir : Location} {steps : List String}
    {name : String} {e : Entry} (hw : ws.tree.WellFormed)
    (hl : ws.tree.Leads last links here steps (.absent dir name))
    (hs : ∀ step ∈ steps, '/' ∉ step.toList) (h : ws.add dir name e = .ok ws') :
    ws'.tree.WellFormed := by
  obtain ⟨hc, rfl⟩ := add_eq_ok h
  obtain ⟨mode, hm, _⟩ := mayChange_iff.mp hc
  obtain ⟨hnone, hname⟩ := hl.missing
  refine hw.insert ⟨mode, hm⟩ (hname hs) ?_
  rintro ⟨m, hd⟩
  rw [hnone] at hd
  cases hd

theorem wellFormed_makeDirectoryAt {start : Location} {steps : List String}
    (hw : ws.tree.WellFormed) (hs : ∀ step ∈ steps, '/' ∉ step.toList)
    (h : ws.makeDirectoryAt start steps = .ok ws') : ws'.tree.WellFormed := by
  unfold makeDirectoryAt at h
  split at h
  case h_3 dir name hr => exact wellFormed_add hw (FileTree.leads_of_resolveFrom hr) hs h
  all_goals cases h

theorem wellFormed_ensureDirectoryAt {steps : List String} (hw : ws.tree.WellFormed)
    (start : Location) (hs : ∀ step ∈ steps, '/' ∉ step.toList) :
    (ws.ensureDirectoryAt start steps).workspace.tree.WellFormed := by
  unfold ensureDirectoryAt
  split
  case h_1 ws' h => exact wellFormed_makeDirectoryAt hw hs h
  case h_2 e h => split <;> exact hw

theorem wellFormed_ensureChain {attempt above : List String} (hw : ws.tree.WellFormed)
    (start : Location) (hs : ∀ step ∈ attempt, '/' ∉ step.toList)
    (ha : ∀ step ∈ above, '/' ∉ step.toList) :
    (ws.ensureChain start attempt above).workspace.tree.WellFormed := by
  induction above generalizing attempt with
  | nil => exact wellFormed_ensureDirectoryAt hw start hs
  | cons name above ih =>
    have hparent := ih (fun step hm => ha step (List.mem_reverse.mp hm))
      (fun step hm => ha step (List.mem_cons_of_mem _ hm))
    simp only [ensureChain]
    split
    · split
      · exact wellFormed_ensureDirectoryAt hparent start hs
      · exact hparent
    · exact wellFormed_ensureDirectoryAt hw start hs

theorem wellFormed_ensureDirectory (hw : ws.tree.WellFormed) (p : Path) :
    (ws.ensureDirectory p).workspace.tree.WellFormed := by
  unfold ensureDirectory
  split
  · exact hw
  · split
    · exact hw
    · refine wellFormed_ensureChain hw _ (fun step hm => ?_) (fun step hm => ?_)
      · split at hm
        · cases List.mem_append.mp hm with
          | inl h => exact Path.no_slash_of_mem_moves h
          | inr h =>
            rw [List.mem_singleton] at h
            simp [h]
        · exact Path.no_slash_of_mem_moves hm
      · exact Path.no_slash_of_mem_moves (List.mem_reverse.mp (List.mem_of_mem_tail hm))

theorem leads_of_resolveSteps {last : LastStep} {p : Path} {steps : List String} {goal : Target}
    (h : ws.resolveSteps last p steps = .ok goal) :
    ws.tree.Leads last FileTree.maxLinks (ws.start p) steps goal := by
  unfold resolveSteps at h
  split at h
  · cases h
  · exact FileTree.leads_of_resolveFrom h

/-- A file is put in place of an entry only where a name leads to it, and never of a directory. -/
theorem place_entry_eq_ok {p : Path} {made loc : Location} {contents : ByteArray} {mode : Nat}
    (hr : ws.resolveTrimmed .kept p = .ok (.entry loc))
    (h : ws.place made p contents mode = .ok ws') :
    namesEntry p = true ∧ ¬ ws.tree.IsDirectory loc ∧ ws' = ws.insert loc (.file contents mode) := by
  simp only [place, hr] at h
  cases hn : namesEntry p with
  | false => simp [hn] at h
  | true =>
    simp only [hn, Bool.not_true, Bool.false_eq_true, if_false] at h
    split at h
    · cases h
    · split at h
      · cases h
      · split at h
        · cases h
        · split at h
          · cases h
          · rename_i hnd
            cases h
            exact ⟨rfl, fun hdir => hdir.elim hnd, rfl⟩

theorem wellFormed_place {p : Path} {made : Location} {contents : ByteArray} {mode : Nat}
    (hw : ws.tree.WellFormed) (h : ws.place made p contents mode = .ok ws') :
    ws'.tree.WellFormed := by
  cases hr : ws.resolveTrimmed .kept p with
  | error e => cases e <;> simp [place, hr] at h
  | ok goal =>
    have hl := leads_of_resolveSteps hr
    cases goal with
    | absent dir name =>
      simp only [place, hr] at h
      split at h
      · cases h
      · exact wellFormed_add hw hl (fun step hm => Path.no_slash_of_mem_trimmedSteps hm) h
    | entry loc =>
      obtain ⟨hn, hnd, rfl⟩ := place_entry_eq_ok hr h
      cases hlast : p.trimmedSteps.getLast? with
      | none => simp [namesEntry, hlast] at hn
      | some leaf =>
        have h0 : leaf ≠ "" := fun he => p.getLast?_trimmedSteps (he ▸ hlast)
        have hdots : leaf ≠ "." ∧ leaf ≠ ".." := by simpa [namesEntry, hlast] using hn
        obtain ⟨dir, _, hgoal⟩ := hl.at_leaf ⟨h0, hdots⟩ hlast
        obtain ⟨he, old, hold⟩ := hgoal.resolve_left (by simp)
        cases he
        exact hw.replace hold fun m hm => absurd ⟨m, hm ▸ hold⟩ hnd

theorem wellFormed_dropStaged {made : Location} (hw : ws.tree.WellFormed)
    (hd : ws.tree.IsDirectory made) (dir : Path) (contents : ByteArray) (mode : Nat) :
    (ws.dropStaged dir made contents mode).tree.WellFormed := by
  cases ws.dropStaged_cases dir made contents mode with
  | inl h =>
    rw [h]
    exact hw
  | inr h =>
    rw [h]
    refine hw.insert hd (ws.tree.isEntryName_spareName made) ?_
    rintro ⟨m, hm⟩
    cases (ws.tree.get?_spareName made).symm.trans hm

theorem wellFormed_writeFile {p : Path} {contents : ByteArray} (hw : ws.tree.WellFormed)
    (h : ws.writeFile p contents = .ok ws') : ws'.tree.WellFormed := by
  unfold writeFile at h
  split at h
  · cases h
  · rename_i dir name hr
    exact wellFormed_add hw (leads_of_resolveSteps hr)
      (fun step hm => Path.no_slash_of_mem_steps hm) h
  · split at h
    · rename_i loc _ _ mode hg
      split at h
      · cases h
        exact hw.replace hg (by simp)
      · cases h
    · cases h

theorem wellFormed_makeLink {p target : Path} (hw : ws.tree.WellFormed)
    (h : ws.makeLink p target = .ok ws') : ws'.tree.WellFormed := by
  unfold makeLink at h
  split at h
  · cases h
  · split at h
    · cases h
    · cases h
    · cases h
    · rename_i dir name _ hr
      split at h
      · cases h
      · exact wellFormed_add hw (leads_of_resolveSteps hr)
          (fun step hm => Path.no_slash_of_mem_trimmedSteps hm) h

theorem wellFormed_setMode {p : Path} {mode : Nat} (hw : ws.tree.WellFormed)
    (h : ws.setMode p mode = .ok ws') : ws'.tree.WellFormed := by
  unfold setMode at h
  split at h
  · cases h
  · rename_i hs
    cases h
    exact hw.replace (entry_eq_ok_iff.mp hs).2 (by simp)
  · rename_i hs
    cases h
    exact hw.replace (entry_eq_ok_iff.mp hs).2 fun m _ => ⟨_, rfl⟩
  · cases h

theorem wellFormed_erase {loc : Location} (hw : ws.tree.WellFormed)
    (h : ws.erase loc = .ok ws') : ws'.tree.WellFormed := by
  unfold erase at h
  split at h
  · cases h
    exact hw.erase loc
  · cases h

theorem wellFormed_removeEmpty {p : Path} (hw : ws.tree.WellFormed)
    (h : ws.removeEmpty p = .ok ws') : ws'.tree.WellFormed := by
  unfold removeEmpty at h
  split at h
  · cases h
  · cases h
  · split at h
    · cases h
    · split at h
      · cases h
      · split at h
        · cases h
        · split at h
          · exact wellFormed_erase hw h
          · cases h

theorem wellFormed_ofExcept {change : Except IoError Workspace} (hw : ws.tree.WellFormed)
    (h : ∀ ws', change = .ok ws' → ws'.tree.WellFormed) :
    (Change.ofExcept ws change).workspace.tree.WellFormed := by
  cases change with
  | error e => exact hw
  | ok ws' => exact h ws' rfl

theorem wellFormed_remove (hw : ws.tree.WellFormed) (p : Path) :
    (ws.remove p).workspace.tree.WellFormed := by
  unfold remove
  split
  · exact hw
  · rename_i loc mode _
    split
    · exact hw
    · have hcleared : (FileTree.WellFormed { ws with tree := ws.tree.clear loc }.tree) := hw.clear loc
      simp only
      split
      · exact hcleared
      · exact wellFormed_ofExcept hcleared fun ws' h => wellFormed_removeEmpty hcleared h
  · exact wellFormed_ofExcept hw fun ws' h => wellFormed_erase hw h

/-- What can be done to a workspace at once. -/
inductive Step : Workspace → Workspace → Prop where
  | ensureDirectory {ws : Workspace} (p : Path) : Step ws (ws.ensureDirectory p).workspace
  | place {ws ws' : Workspace} {made : Location} {p : Path} {contents : ByteArray} {mode : Nat}
      (h : ws.place made p contents mode = .ok ws') : Step ws ws'
  | dropStaged {ws : Workspace} {made : Location} (hd : ws.tree.IsDirectory made) (dir : Path)
      (contents : ByteArray) (mode : Nat) : Step ws (ws.dropStaged dir made contents mode)
  | writeFile {ws ws' : Workspace} {p : Path} {contents : ByteArray} (h : ws.writeFile p contents = .ok ws') :
      Step ws ws'
  | makeLink {ws ws' : Workspace} {p target : Path} (h : ws.makeLink p target = .ok ws') : Step ws ws'
  | setMode {ws ws' : Workspace} {p : Path} {mode : Nat} (h : ws.setMode p mode = .ok ws') : Step ws ws'
  | remove {ws : Workspace} (p : Path) : Step ws (ws.remove p).workspace
  | enter {ws : Workspace} (dir : Location) : Step ws { ws with workingDir := dir }

/-- A workspace that steps lead to from the empty tree. -/
inductive Reached : Workspace → Prop where
  | empty (dir : Location) (umask : Nat) : Reached ⟨.empty, dir, umask⟩
  | step {ws ws' : Workspace} (before : Reached ws) (h : Step ws ws') : Reached ws'

theorem Step.wellFormed (h : Step ws ws') (hw : ws.tree.WellFormed) : ws'.tree.WellFormed := by
  cases h with
  | ensureDirectory p => exact wellFormed_ensureDirectory hw p
  | place h => exact wellFormed_place hw h
  | dropStaged hd dir contents mode => exact wellFormed_dropStaged hw hd dir contents mode
  | writeFile h => exact wellFormed_writeFile hw h
  | makeLink h => exact wellFormed_makeLink hw h
  | setMode h => exact wellFormed_setMode hw h
  | remove p => exact wellFormed_remove hw p
  | enter dir => exact hw

theorem Reached.wellFormed (h : Reached ws) : ws.tree.WellFormed := by
  induction h with
  | empty dir umask => exact FileTree.wellFormed_empty
  | step _ h ih => exact h.wellFormed ih

end Workspace

end InterfaceTables
