import InterfaceTables.Proofs.Leading

/-!
What a change to the tree does to paths. As long as directories and links stay as they are and files
stay files, a path that led to an entry leads to the same place.
-/

namespace InterfaceTables.FileTree

/-- Every entry of `t` is still one of its kind in `t'`; directories and links are the same. -/
structure Keeps (t t' : FileTree) : Prop where
  directory : ∀ {loc mode}, t.get? loc = some (.directory mode) →
    t'.get? loc = some (.directory mode)
  link : ∀ {loc target}, t.get? loc = some (.link target) → t'.get? loc = some (.link target)
  file : ∀ {loc contents mode}, t.get? loc = some (.file contents mode) →
    ∃ contents' mode', t'.get? loc = some (.file contents' mode')

variable {t t' : FileTree} {last : LastStep} {links : Nat} {here loc : Location}
  {steps : List String} {goal : Target}

theorem Keeps.refl (t : FileTree) : t.Keeps t :=
  ⟨fun hd => hd, fun hl => hl, fun hf => ⟨_, _, hf⟩⟩

theorem Keeps.trans {t'' : FileTree} (h : t.Keeps t') (h' : t'.Keeps t'') : t.Keeps t'' where
  directory hd := h'.directory (h.directory hd)
  link hl := h'.link (h.link hl)
  file hf := by
    obtain ⟨contents, mode, hf'⟩ := h.file hf
    exact h'.file hf'

theorem Keeps.isDirectory (h : t.Keeps t') (hd : t.IsDirectory loc) : t'.IsDirectory loc := by
  obtain ⟨mode, hm⟩ := hd
  exact ⟨mode, h.directory hm⟩

theorem Keeps.searchable (h : t.Keeps t') (hd : t.Searchable loc) : t'.Searchable loc := by
  obtain ⟨mode, hm, hs⟩ := hd
  exact ⟨mode, h.directory hm, hs⟩

theorem Keeps.looksUp {step : String} {rest : List String} (h : t.Keeps t')
    (look : t.LooksUp last here step rest) : t'.LooksUp last here step rest :=
  { look with searchable := h.searchable look.searchable }

theorem Keeps.enter {step : String} {rest : List String} {e : Entry} (h : t.Keeps t')
    (look : t.LooksUp last here step rest) (found : t.get? (step :: here) = some e)
    (solid : ∀ target, e ≠ .link target) (next : t'.Leads last links (step :: here) rest goal) :
    t'.Leads last links here (step :: rest) goal := by
  cases e with
  | directory mode => exact .enter (h.looksUp look) (h.directory found) (by simp) next
  | file contents mode =>
    obtain ⟨contents', mode', hf⟩ := h.file found
    exact .enter (h.looksUp look) hf (by simp) next
  | link target => exact absurd rfl (solid target)

theorem Keeps.leads (hk : t.Keeps t') (h : t.Leads last links here steps (.entry loc)) :
    t'.Leads last links here steps (.entry loc) := by
  generalize hg : Target.entry loc = goal at h
  induction h with
  | done => exact .done
  | blank dir _ ih => exact .blank (hk.isDirectory dir) (ih hg)
  | dot dir _ ih => exact .dot (hk.searchable dir) (ih hg)
  | up dir _ ih => exact .up (hk.searchable dir) (ih hg)
  | absent => cases hg
  | enter look found solid _ ih => exact hk.enter look found solid (ih hg)
  | stop look found kept => exact .stop (hk.looksUp look) (hk.link found) kept
  | follow look found more _ ih => exact .follow (hk.looksUp look) (hk.link found) more (ih hg)

/-- A name that was missing is found once a file or a directory stands there. -/
theorem Keeps.leads_made {dir : Location} {leaf : String} {e : Entry} (hk : t.Keeps t')
    (h : t.Leads .kept links here steps (.absent dir leaf)) (hs : steps.getLast? ≠ some "")
    (he : t'.get? (leaf :: dir) = some e) (solid : ∀ target, e ≠ .link target) :
    t'.Leads .kept links here steps (.entry (leaf :: dir)) := by
  generalize hg : Target.absent dir leaf = goal at h
  induction h with
  | done => cases hg
  | @blank _ _ rest _ isDir next ih =>
    refine .blank (hk.isDirectory isDir) (ih (fun h => hs ?_) hg)
    simp [List.getLast?_cons, h]
  | dot isDir _ ih =>
    refine .dot (hk.searchable isDir) (ih (fun h => hs ?_) hg)
    simp [List.getLast?_cons, h]
  | up isDir _ ih =>
    refine .up (hk.searchable isDir) (ih (fun h => hs ?_) hg)
    simp [List.getLast?_cons, h]
  | @absent _ _ step rest look gone slashes =>
    cases hg
    cases hr : rest.getLast? with
    | none =>
      rw [List.getLast?_eq_none_iff] at hr
      subst hr
      exact .enter (hk.looksUp look) he solid .done
    | some a =>
      have ha : a = "" := by simpa using List.all_eq_true.mp slashes a (List.mem_of_getLast? hr)
      exact absurd (by simp [List.getLast?_cons, hr, ha]) hs
  | enter look found solid' _ ih =>
    refine hk.enter look found solid' (ih (fun h => hs ?_) hg)
    simp [List.getLast?_cons, h]
  | stop => cases hg
  | @follow _ _ _ rest _ target look found more next ih =>
    refine .follow (hk.looksUp look) (hk.link found) more (ih (fun h => hs ?_) hg)
    cases hr : rest.getLast? with
    | none => exact absurd (List.getLast?_eq_none_iff.mp hr) (more.resolve_right (by simp))
    | some a =>
      have ha : a = "" := by simpa [List.getLast?_append, hr] using h
      simp [List.getLast?_cons, hr, ha]

/-! ## Links at the end of a path -/

theorem Leads.followed (h : t.Leads .kept links here steps (.entry loc))
    (hl : ∀ target, t.get? loc ≠ some (.link target)) :
    t.Leads .followed links here steps (.entry loc) := by
  generalize hg : Target.entry loc = goal at h
  induction h with
  | done => exact .done
  | blank dir _ ih => exact .blank dir (ih hg)
  | dot dir _ ih => exact .dot dir (ih hg)
  | up dir _ ih => exact .up dir (ih hg)
  | absent => cases hg
  | enter look found solid _ ih => exact .enter (look.of_ne_written (by simp)) found solid (ih hg)
  | stop _ found _ =>
    cases hg
    exact absurd found (hl _)
  | follow look found _ _ ih =>
    exact .follow (look.of_ne_written (by simp)) found (Or.inr (by simp)) (ih hg)

/-- If a path leads to an entry through a last link, then to that link without following it. -/
theorem Leads.exists_kept (h : t.Leads .followed links here steps (.entry loc)) :
    ∃ loc', t.Leads .kept links here steps (.entry loc') := by
  generalize hg : Target.entry loc = goal at h
  induction h with
  | done => exact ⟨_, .done⟩
  | blank dir _ ih => exact (ih hg).imp fun _ => .blank dir
  | dot dir _ ih => exact (ih hg).imp fun _ => .dot dir
  | up dir _ ih => exact (ih hg).imp fun _ => .up dir
  | absent => cases hg
  | enter look found solid _ ih =>
    exact (ih hg).imp fun _ => .enter (look.of_ne_written (by simp)) found solid
  | stop _ _ kept => cases kept
  | @follow _ _ _ rest _ _ look found _ _ ih =>
    by_cases hr : rest = []
    · subst hr
      exact ⟨_, .stop (look.of_ne_written (by simp)) found rfl⟩
    · exact (ih hg).imp fun _ => .follow (look.of_ne_written (by simp)) found (Or.inl hr)

/-! ## A file put somewhere -/

/-- A path that has come to what is no directory is at its end. -/
theorem Leads.nil_of_stuck (h : t.Leads last links here steps goal) (hd : ¬ t.IsDirectory here) :
    steps = [] := by
  have hs : ¬ t.Searchable here := fun ⟨mode, hm, _⟩ => hd ⟨mode, hm⟩
  cases h with
  | done => rfl
  | blank dir => exact absurd dir hd
  | dot dir => exact absurd dir hs
  | up dir => exact absurd dir hs
  | absent look => exact absurd look.searchable hs
  | enter look => exact absurd look.searchable hs
  | stop look => exact absurd look.searchable hs
  | follow look => exact absurd look.searchable hs

theorem Leads.stuck (h : t.Leads last links here steps goal) (hd : ¬ t.IsDirectory here) :
    goal = .entry here := by
  obtain rfl := h.nil_of_stuck hd
  cases h
  rfl

/-- A path that passes by a new file led to the same target before. -/
theorem Leads.before_file {spot : Location} {contents : ByteArray} {mode : Nat}
    (hf : t'.get? spot = some (.file contents mode))
    (hrest : ∀ l, l ≠ spot → t'.get? l = t.get? l)
    (h : t'.Leads last links here steps goal) (hne : goal ≠ .entry spot) :
    t.Leads last links here steps goal := by
  have hdir : ¬ t'.IsDirectory spot := by
    rintro ⟨m, hm⟩
    rw [hf] at hm
    cases hm
  have isDirectory : ∀ {l}, t'.IsDirectory l → t.IsDirectory l := by
    rintro l ⟨m, hm⟩
    have hl : l ≠ spot := fun he => hdir (he ▸ ⟨m, hm⟩)
    exact ⟨m, by rw [← hrest l hl, hm]⟩
  have searchable : ∀ {l}, t'.Searchable l → t.Searchable l := by
    rintro l ⟨m, hm, hs⟩
    have hl : l ≠ spot := fun he => hdir (he ▸ ⟨m, hm⟩)
    exact ⟨m, by rw [← hrest l hl, hm], hs⟩
  induction h with
  | done => exact .done
  | blank dir _ ih => exact .blank (isDirectory dir) (ih hne)
  | dot dir _ ih => exact .dot (searchable dir) (ih hne)
  | up dir _ ih => exact .up (searchable dir) (ih hne)
  | @absent _ here step _ look gone slashes =>
    have hs : step :: here ≠ spot := by
      rintro rfl
      rw [hf] at gone
      cases gone
    rw [hrest _ hs] at gone
    exact .absent { look with searchable := searchable look.searchable } gone slashes
  | @enter _ here step _ _ _ look found solid next ih =>
    have hs : step :: here ≠ spot := by
      rintro rfl
      exact hne (next.stuck hdir)
    rw [hrest _ hs] at found
    exact .enter { look with searchable := searchable look.searchable } found solid (ih hne)
  | @stop _ here step _ look found kept =>
    have hs : step :: here ≠ spot := by
      rintro rfl
      rw [hf] at found
      cases found
    rw [hrest _ hs] at found
    exact .stop { look with searchable := searchable look.searchable } found kept
  | @follow _ here step _ _ _ look found more _ ih =>
    have hs : step :: here ≠ spot := by
      rintro rfl
      rw [hf] at found
      cases found
    rw [hrest _ hs] at found
    exact .follow { look with searchable := searchable look.searchable } found more (ih hne)

end InterfaceTables.FileTree
