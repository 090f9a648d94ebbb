import InterfaceTables.Proofs.WellFormed

/-!
A file that takes the place of a link. A path that went on through the link leads nowhere afterwards,
but no path goes on through a link to a file: what such a tree reaches, it reaches with the new file.
-/

namespace InterfaceTables

namespace FileTree

variable {t : FileTree} {last : LastStep} {links links' : Nat} {here loc spot : Location}
  {step : String} {steps rest more : List String} {goal : Target}

/-! ## Ends of paths -/

/-- No step can be added to a path that leads to what is no directory. -/
theorem Leads.nil_of_append (h : t.Leads .followed links here steps (.entry loc))
    (hd : ¬ t.IsDirectory loc) (h' : t.Leads last links' here (steps ++ more) goal) : more = [] := by
  -- The longer path takes the steps of the shorter, with its own count of links left.
  generalize hg : Target.entry loc = mid at h
  induction h generalizing links' with
  | done =>
    cases hg
    exact h'.nil_of_stuck hd
  | blank _ _ ih => exact ih (leads_blank_iff.mp h').2 hg
  | dot _ _ ih => exact ih (leads_dot_iff.mp h').2 hg
  | up _ _ ih => exact ih (leads_up_iff.mp h').2 hg
  | absent => cases hg
  | enter look found solid _ ih => exact ih (h'.of_enter look found solid) hg
  | stop _ _ kept => cases kept
  | follow look found _ _ ih =>
    cases h'.of_link look found with
    | inl hend => exact (List.append_eq_nil_iff.mp hend.1).2
    | inr hnext =>
      obtain ⟨fewer, next⟩ := hnext
      exact ih (List.append_assoc _ _ more ▸ next) hg

/-- A slash can be added to a path that leads to a directory. -/
theorem Leads.append_slash (h : t.Leads .followed links here steps (.entry loc))
    (hd : t.IsDirectory loc) : t.Leads .followed links here (steps ++ [""]) (.entry loc) := by
  generalize hg : Target.entry loc = goal at h
  induction h with
  | done =>
    cases hg
    exact .blank hd .done
  | blank dir _ ih => exact .blank dir (ih hg)
  | dot dir _ ih => exact .dot dir (ih hg)
  | up dir _ ih => exact .up dir (ih hg)
  | absent => cases hg
  | enter look found solid _ ih => exact .enter (look.of_ne_written (by simp)) found solid (ih hg)
  | stop _ _ kept => cases kept
  | follow look found _ _ ih =>
    exact .follow (look.of_ne_written (by simp)) found (Or.inr (by simp))
      (List.append_assoc _ _ [""] ▸ ih hg)

/-- Where a path ends at a link, following it takes the steps of the link. -/
theorem Leads.of_last_link {target : Path} (h : t.Leads .followed links here steps (.entry loc))
    (hk : t.Leads .kept links' here steps (.entry spot)) (hl : t.get? spot = some (.link target))
    (hne : loc ≠ spot) :
    ∃ fewer, t.Leads .followed fewer (if target.isAbsolute then [] else spot.tail) target.steps
      (.entry loc) := by
  generalize hg : Target.entry loc = goal at h
  induction h generalizing links' with
  | done =>
    cases hg
    exact absurd (Target.entry.inj (hk.unique .done)).symm hne
  | blank _ _ ih => exact ih (leads_blank_iff.mp hk).2 hg
  | dot _ _ ih => exact ih (leads_dot_iff.mp hk).2 hg
  | up _ _ ih => exact ih (leads_up_iff.mp hk).2 hg
  | absent => cases hg
  | enter look found solid _ ih => exact ih (hk.of_enter look found solid) hg
  | stop _ _ kept => cases kept
  | @follow fewer here step rest _ target' look found _ next ih =>
    cases hk.of_link look found with
    | inl hend =>
      -- This is the link that the kept path ends at.
      obtain ⟨rfl, hspot⟩ := hend
      cases hspot
      rw [found] at hl
      cases hl
      rw [List.append_nil] at next
      exact ⟨fewer, next⟩
    | inr hnext =>
      obtain ⟨_, hnext⟩ := hnext
      exact ih hnext hg

/-- No path goes on from a place: what stands there is no directory and no link that leads to one. -/
structure DeadEnd (t : FileTree) (spot : Location) : Prop where
  notDirectory : ¬ t.IsDirectory spot
  link : ∀ target, t.get? spot = some (.link target) → ∃ links loc, ¬ t.IsDirectory loc ∧
    t.Leads .followed links (if target.isAbsolute then [] else spot.tail) target.steps (.entry loc)

variable {t' : FileTree} {contents : ByteArray} {mode : Nat}

/-- With a file in place of a dead end, a path leads to where it led or to that file. -/
theorem DeadEnd.leads (hdead : t.DeadEnd spot) (hfile : t'.get? spot = some (.file contents mode))
    (hrest : ∀ l, l ≠ spot → t'.get? l = t.get? l) (h : t.Leads last links here steps (.entry loc)) :
    ∃ loc', t'.Leads last links here steps (.entry loc') ∧
      (loc' = loc ∨ loc' = spot ∧ (last = .followed → ¬ t.IsDirectory loc)) := by
  have directory : ∀ {l m}, t.get? l = some (.directory m) → t'.get? l = some (.directory m) := by
    intro l m hm
    have hl : l ≠ spot := fun he => hdead.notDirectory (he ▸ ⟨m, hm⟩)
    rw [hrest l hl, hm]
  have searchable : ∀ {l}, t.Searchable l → t'.Searchable l :=
    fun ⟨m, hm, hs⟩ => ⟨m, directory hm, hs⟩
  have looksUp : ∀ {here step rest}, t.LooksUp last here step rest → t'.LooksUp last here step rest :=
    fun look => { look with searchable := searchable look.searchable }
  generalize hg : Target.entry loc = goal at h
  induction h with
  | done =>
    cases hg
    exact ⟨_, .done, Or.inl rfl⟩
  | blank dir _ ih =>
    obtain ⟨m, hm⟩ := dir
    exact (ih hg).imp fun _ h => ⟨.blank ⟨m, directory hm⟩ h.1, h.2⟩
  | dot dir _ ih => exact (ih hg).imp fun _ h => ⟨.dot (searchable dir) h.1, h.2⟩
  | up dir _ ih => exact (ih hg).imp fun _ h => ⟨.up (searchable dir) h.1, h.2⟩
  | absent => cases hg
  | @enter _ here step _ _ _ look found solid _ ih =>
    by_cases hs : step :: here = spot
    · subst hs
      exact (ih hg).imp fun _ h => ⟨.enter (looksUp look) hfile (by simp) h.1, h.2⟩
    · rw [← hrest _ hs] at found
      exact (ih hg).imp fun _ h => ⟨.enter (looksUp look) found solid h.1, h.2⟩
  | @stop _ here step _ look found kept =>
    by_cases hs : step :: here = spot
    · subst hs
      exact ⟨_, .enter (looksUp look) hfile (by simp) .done, Or.inr ⟨rfl, by simp [kept]⟩⟩
    · cases hg
      rw [← hrest _ hs] at found
      exact ⟨_, .stop (looksUp look) found kept, Or.inl rfl⟩
  | @follow _ here step rest _ target look found more next ih =>
    by_cases hs : step :: here = spot
    · -- The link leads to no directory, so no step comes after it.
      subst hs
      obtain ⟨_, _, hend, hleads⟩ := hdead.link target found
      have hnil : rest = [] := hleads.nil_of_append hend next
      subst hnil hg
      refine ⟨_, .enter (looksUp look) hfile (by simp) .done, Or.inr ⟨rfl, fun hlast hd => ?_⟩⟩
      subst hlast
      rw [List.append_nil] at next
      exact absurd (hleads.nil_of_append hend (next.append_slash hd)) (by simp)
    · rw [← hrest _ hs] at found
      exact (ih hg).imp fun _ h => ⟨.follow (looksUp look) found more h.1, h.2⟩

/-- Paths to directories do not change. -/
theorem DeadEnd.leads_directory (hdead : t.DeadEnd spot)
    (hfile : t'.get? spot = some (.file contents mode)) (hrest : ∀ l, l ≠ spot → t'.get? l = t.get? l)
    (h : t.Leads .followed links here steps (.entry loc)) (hd : t.IsDirectory loc) :
    t'.Leads .followed links here steps (.entry loc) := by
  obtain ⟨loc', h', hend⟩ := hdead.leads hfile hrest h
  have hloc : loc' = loc := hend.resolve_right fun hspot => hspot.2 rfl hd
  exact hloc ▸ h'

/-- A dead end stays one when a file takes the place of another. -/
theorem DeadEnd.of_ne {other : Location} (hdead : t.DeadEnd spot) (hother : t.DeadEnd other)
    (hfile : t'.get? other = some (.file contents mode))
    (hrest : ∀ l, l ≠ other → t'.get? l = t.get? l) (hne : spot ≠ other) : t'.DeadEnd spot := by
  have hdir : ∀ {l}, ¬ t.IsDirectory l → ¬ t'.IsDirectory l := by
    rintro l hl ⟨m, hm⟩
    by_cases he : l = other
    · rw [he, hfile] at hm
      cases hm
    · exact hl ⟨m, by rw [← hrest l he, hm]⟩
  refine ⟨hdir hdead.notDirectory, fun target hlink => ?_⟩
  rw [hrest spot hne] at hlink
  obtain ⟨links, loc, hloc, hleads⟩ := hdead.link target hlink
  obtain ⟨loc', hleads', hend⟩ := hother.leads hfile hrest hleads
  refine ⟨links, loc', ?_, hleads'⟩
  cases hend with
  | inl he => exact he ▸ hdir hloc
  | inr he => exact he.1 ▸ hdir hother.notDirectory

end FileTree

namespace Workspace

variable {ws ws' : Workspace} {p p' : Path} {leaf leaf' : String} {dir dir' staged : Location}
  {bytes contents : ByteArray} {mode : Nat}

theorem readBytes_eq_ok_iff :
    ws.readBytes p = .ok bytes ↔
      ∃ loc mode, ws.stat p = .ok (loc, .file bytes mode) ∧ mayRead mode = true := by
  unfold readBytes
  cases ws.stat p with
  | error e => simp
  | ok found =>
    obtain ⟨loc, e⟩ := found
    cases e with
    | file contents mode =>
      dsimp only
      constructor
      · intro h
        split at h
        · cases h
          exact ⟨loc, mode, rfl, by assumption⟩
        · cases h
      · rintro ⟨_, _, he, hm⟩
        cases he
        rw [if_pos hm]
    | directory mode => cases hm : mayRead mode <;> simp [hm]
    | link target => simp

/-- A path ends at a place that no path goes on from. -/
structure AtEnd (ws : Workspace) (p : Path) (loc : Location) : Prop where
  resolve : ws.resolve .kept p = .ok (.entry loc)
  deadEnd : ws.tree.DeadEnd loc

/-- A path to a file that is read ends at the file, or at a link to it. -/
theorem exists_atEnd_of_readBytes (hp : p.EndsIn leaf) (h : ws.readBytes p = .ok bytes) :
    ∃ dir, ws.AtEnd p (leaf :: dir) := by
  obtain ⟨loc, mode, hstat, _⟩ := readBytes_eq_ok_iff.mp h
  obtain ⟨hr, hfile⟩ := entry_eq_ok_iff.mp hstat
  obtain ⟨hf, hlead⟩ := resolve_eq_ok_iff.mp hr
  obtain ⟨loc', hkept⟩ := hlead.exists_kept
  have hr' := resolve_eq_ok_iff.mpr ⟨hf, hkept⟩
  obtain ⟨dir, e, rfl, hget⟩ := exists_of_resolve_kept hp hr'
  have hnd : ¬ ws.tree.IsDirectory loc := by
    rintro ⟨m, hm⟩
    rw [hfile] at hm
    cases hm
  refine ⟨dir, hr', fun ⟨m, hm⟩ => ?_, fun target hlink => ?_⟩
  · have hsame := hlead.unique (hkept.followed (by simp [hm]))
    cases hsame
    exact hnd ⟨m, hm⟩
  · have hne : loc ≠ leaf :: dir := by
      rintro rfl
      rw [hfile] at hlink
      cases hlink
    obtain ⟨links, hlinks⟩ := hlead.of_last_link hkept hlink hne
    exact ⟨links, loc, hnd, hlinks⟩

/-- With a file put where one path ends, that path and another still end where they did. -/
theorem AtEnd.insert (hp' : p'.EndsIn leaf') (h' : ws.AtEnd p' (leaf' :: dir'))
    (h : ws.AtEnd p (leaf :: dir)) (hsame : leaf' = leaf → dir' = dir) :
    (ws.insert (leaf :: dir) (.file contents mode)).AtEnd p' (leaf' :: dir') := by
  have hfile := FileTree.get?_insert_self ws.tree (leaf :: dir) (.file contents mode) (by simp)
  have hrest : ∀ l, l ≠ leaf :: dir →
      (ws.tree.insert (leaf :: dir) (.file contents mode)).get? l = ws.tree.get? l :=
    fun l hl => FileTree.get?_insert_of_ne ws.tree _ hl
  obtain ⟨hf, hlead⟩ := resolve_eq_ok_iff.mp h'.resolve
  obtain ⟨loc, hlead', hloc⟩ := h.deadEnd.leads hfile hrest hlead
  have hr : (ws.insert (leaf :: dir) (.file contents mode)).resolve .kept p' = .ok (.entry loc) :=
    resolve_eq_ok_iff.mpr ⟨hf, hlead'⟩
  obtain ⟨dir'', _, rfl, _⟩ := exists_of_resolve_kept hp' hr
  have hdir : dir'' = dir' := by
    cases hloc with
    | inl he => exact (List.cons.inj he).2
    | inr he => rw [(List.cons.inj he.1).2, hsame (List.cons.inj he.1).1]
  subst hdir
  refine ⟨hr, ?_⟩
  by_cases hne : leaf' :: dir'' = leaf :: dir
  · rw [hne]
    refine ⟨fun ⟨m, hm⟩ => ?_, fun target hlink => ?_⟩
    · cases hfile.symm.trans hm
    · cases hfile.symm.trans hlink
  · exact h'.deadEnd.of_ne h.deadEnd hfile hrest hne

/-- A directory whose path does not change is found as before. -/
theorem AtEnd.stat_insert {p' : Path} {loc : Location} {m : Nat} (h : ws.AtEnd p (leaf :: dir))
    (hs : ws.stat p' = .ok (loc, .directory m)) :
    (ws.insert (leaf :: dir) (.file contents mode)).stat p' = .ok (loc, .directory m) := by
  have hfile := FileTree.get?_insert_self ws.tree (leaf :: dir) (.file contents mode) (by simp)
  have hrest : ∀ l, l ≠ leaf :: dir →
      (ws.tree.insert (leaf :: dir) (.file contents mode)).get? l = ws.tree.get? l :=
    fun l hl => FileTree.get?_insert_of_ne ws.tree _ hl
  obtain ⟨hr, hm⟩ := entry_eq_ok_iff.mp hs
  obtain ⟨hf, hlead⟩ := resolve_eq_ok_iff.mp hr
  have hne : loc ≠ leaf :: dir := fun he => h.deadEnd.notDirectory (he ▸ ⟨m, hm⟩)
  have hlead' := h.deadEnd.leads_directory hfile hrest hlead ⟨m, hm⟩
  exact entry_eq_ok_iff.mpr ⟨resolve_eq_ok_iff.mpr ⟨hf, hlead'⟩, by rw [Workspace.insert, hrest loc hne, hm]⟩

theorem AtEnd.readBytes {loc : Location} (h : ws.AtEnd p loc)
    (hfile : ws.tree.get? loc = some (.file contents mode)) (hm : mayRead mode = true) :
    ws.readBytes p = .ok contents := by
  obtain ⟨hf, hlead⟩ := resolve_eq_ok_iff.mp h.resolve
  have hlead' := hlead.followed (by simp [hfile])
  exact readBytes_eq_ok_iff.mpr
    ⟨loc, mode, entry_eq_ok_iff.mpr ⟨resolve_eq_ok_iff.mpr ⟨hf, hlead'⟩, hfile⟩, hm⟩

end Workspace

end InterfaceTables
